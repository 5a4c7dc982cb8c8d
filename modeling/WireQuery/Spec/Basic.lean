import WireQuery.Keyed

/-!
# Query specifications

A specification is a tree of keyed nodes. A node selects a scalar, described by a type, or a group
of nodes; it may call its field with a wire name and with variables for the field's arguments.
Keys keep their order, which becomes the order of selections and of results. No key and no argument
is repeated: where entries repeat one, it keeps its first place and takes its last value.
-/

namespace WireQuery
set_option autoImplicit false

/-- A variable as it is written: its name with the sigil, and the descriptor of its type. -/
structure VariableRef where
  written : String
  descriptor : String
  deriving DecidableEq, Repr

/-- The name after the sigil `$`, if the sigil is there. -/
def VariableRef.bareName? (v : VariableRef) : Option String :=
  match v.written.toList with
  | '$' :: name => some (String.ofList name)
  | _ => none

/-- How a field is called: under a name of its own on the wire, and with arguments. -/
@[ext]
structure Call where
  wireName : Option String
  arguments : List (String × VariableRef)
  distinct : Keyed.DistinctKeys arguments
  deriving DecidableEq, Repr

namespace Call

def plain : Call := ⟨none, [], Keyed.distinctKeys_nil⟩

def ofList (wireName : Option String) (arguments : List (String × VariableRef)) : Call :=
  ⟨wireName, Keyed.ofList arguments, Keyed.distinctKeys_ofList arguments⟩

def named (call : Call) (wireName : String) : Call := { call with wireName := some wireName }

/-- Binds an argument. Arguments keep the order in which they are first bound. -/
def bind (call : Call) (argument : String) (v : VariableRef) : Call :=
  ⟨call.wireName, Keyed.insert argument v call.arguments, Keyed.distinctKeys_insert call.distinct⟩

/-- Equality up to the order of arguments. -/
def same (a b : Call) : Bool :=
  a.wireName == b.wireName && a.arguments.length == b.arguments.length &&
    a.arguments.all (fun entry => b.arguments.lookup entry.1 == some entry.2)

end Call

/-- A node of a specification. One with a call is an operation. -/
inductive Node where
  | scalar (call : Option Call) (descriptor : String)
  | group (call : Option Call) (children : List (String × Node))
  deriving Repr

namespace Node

/-- The operation that calls a field and selects what the node selects. -/
def called (call : Call) : Node → Node
  | scalar _ descriptor => scalar (some call) descriptor
  | group _ children => group (some call) children

def sameCall : Option Call → Option Call → Bool
  | none, none => true
  | some a, some b => a.same b
  | _, _ => false

mutual

/-- Equality up to the order of keys and of arguments, at every level. -/
def same : Node → Node → Bool
  | scalar call descriptor, scalar call' descriptor' =>
    sameCall call call' && descriptor == descriptor'
  | group call children, group call' children' =>
    sameCall call call' && children.length == children'.length && sameIn children children'
  | _, _ => false

/-- Whether every child has an equal under its key. -/
def sameIn : List (String × Node) → List (String × Node) → Bool
  | [], _ => true
  | child :: rest, others =>
    (match others.lookup child.1 with
      | some other => child.2.same other
      | none => false) && sameIn rest others

end

mutual

/-- No key is repeated, at any level. -/
def WellKeyed : Node → Prop
  | scalar _ _ => True
  | group _ children => Keyed.DistinctKeys children ∧ ChildrenWellKeyed children

def ChildrenWellKeyed : List (String × Node) → Prop
  | [] => True
  | child :: rest => child.2.WellKeyed ∧ ChildrenWellKeyed rest

end

mutual

/-- The node with one value for each key, at every level. -/
def merged : Node → Node
  | scalar call descriptor => scalar call descriptor
  | group call children => group call (Keyed.ofList (mergedChildren children))

def mergedChildren : List (String × Node) → List (String × Node)
  | [] => []
  | child :: rest => (child.1, child.2.merged) :: mergedChildren rest

end

theorem childrenWellKeyed_iff {children : List (String × Node)} :
    ChildrenWellKeyed children ↔ ∀ child ∈ children, child.2.WellKeyed := by
  induction children with
  | nil => simp [ChildrenWellKeyed]
  | cons child rest ih => rw [ChildrenWellKeyed, List.forall_mem_cons, ih]

theorem wellKeyed_ofList {call : Option Call} {children : List (String × Node)}
    (h : ChildrenWellKeyed children) : (group call (Keyed.ofList children)).WellKeyed := by
  refine ⟨Keyed.distinctKeys_ofList children, childrenWellKeyed_iff.mpr ?_⟩
  intro child hchild
  exact childrenWellKeyed_iff.mp h child (Keyed.mem_of_mem_ofList hchild)

theorem wellKeyed_insert {call : Option Call} {children : List (String × Node)}
    (h : (group call children).WellKeyed) (key : String) {node : Node} (hnode : node.WellKeyed) :
    (group call (Keyed.insert key node children)).WellKeyed := by
  refine ⟨Keyed.distinctKeys_insert h.1, childrenWellKeyed_iff.mpr ?_⟩
  intro child hchild
  rcases Keyed.mem_of_mem_insert hchild with rfl | hchild
  · exact hnode
  · exact childrenWellKeyed_iff.mp h.2 child hchild

mutual

theorem wellKeyed_merged : ∀ node : Node, node.merged.WellKeyed
  | scalar _ _ => trivial
  | group _ children => wellKeyed_ofList (childrenWellKeyed_mergedChildren children)

theorem childrenWellKeyed_mergedChildren : ∀ children : List (String × Node),
    ChildrenWellKeyed (mergedChildren children)
  | [] => trivial
  | child :: rest => ⟨wellKeyed_merged child.2, childrenWellKeyed_mergedChildren rest⟩

end

end Node

/-- The root of a specification, which is a group without a call. -/
@[ext]
structure Group where
  children : List (String × Node)
  wellKeyed : (Node.group none children).WellKeyed
  deriving Repr

namespace Group

def empty : Group := ⟨[], Keyed.distinctKeys_nil, trivial⟩

def ofList (children : List (String × Node)) : Group :=
  ⟨Keyed.ofList (Node.mergedChildren children),
    Node.wellKeyed_ofList (Node.childrenWellKeyed_mergedChildren children)⟩

/-- Adds a node, or replaces the one under its key in its place. -/
def insert (g : Group) (key : String) (node : Node) : Group :=
  ⟨Keyed.insert key node.merged g.children,
    Node.wellKeyed_insert g.wellKeyed key node.wellKeyed_merged⟩

def get? (g : Group) (key : String) : Option Node := g.children.lookup key

def keys (g : Group) : List String := Keyed.keys g.children

def size (g : Group) : Nat := g.children.length

def isEmpty (g : Group) : Bool := g.children.isEmpty

/-- Equality up to the order of keys and of arguments, at every level. -/
def same (a b : Group) : Bool := (Node.group none a.children).same (.group none b.children)

end Group

end WireQuery
