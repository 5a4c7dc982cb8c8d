import WireQuery.Compile.Basic

/-!
# Places in a specification

A place is a word of numbers, and places are compared like words in a dictionary. A group as such
is at 0 and its `i`-th child below `i + 1`. Of a child, the key is at 0, the wire name of its call
at 1, the `j`-th argument below `2, j` (its name at 0, its reference at 1), and the group that it
selects below 3. So the order of places is the order in which a reader meets what they hold.

`RequiredAt` says what has to hold at each place. It names the violations that a specification
has, each with its place, without running a check.
-/

namespace WireQuery
set_option autoImplicit false

abbrev Place := List Nat

/-- The call of an operation. -/
def Node.call? : Node → Option Call
  | .scalar call _ => call
  | .group call _ => call

theorem Node.callOrPlain_eq (node : Node) : node.callOrPlain = node.call?.getD .plain := by
  cases node <;> rfl

/-- What is required at a place of a group, to which `path` leads. -/
inductive RequiredAt :
    List String → List (String × Node) → Place → Requirement → Prop where
  | selects (path : List String) (children : List (String × Node)) :
      RequiredAt path children [0] (.selects path children)
  | key {path : List String} {children : List (String × Node)} {i : Nat} {key : String}
      {node : Node} (child : children[i]? = some (key, node)) :
      RequiredAt path children [i + 1, 0] (.valid .field key)
  | wireName {path : List String} {children : List (String × Node)} {i : Nat} {key : String}
      {node : Node} {call : Call} (child : children[i]? = some (key, node))
      (calls : node.call? = some call) :
      RequiredAt path children [i + 1, 1] (.valid .wireField (call.wireName.getD key))
  | argument {path : List String} {children : List (String × Node)} {i j : Nat} {key : String}
      {node : Node} {call : Call} {argument : String} {v : VariableRef}
      (child : children[i]? = some (key, node)) (calls : node.call? = some call)
      (passes : call.arguments[j]? = some (argument, v)) :
      RequiredAt path children [i + 1, 2, j, 0] (.valid .argument argument)
  | reference {path : List String} {children : List (String × Node)} {i j : Nat} {key : String}
      {node : Node} {call : Call} {argument : String} {v : VariableRef}
      (child : children[i]? = some (key, node)) (calls : node.call? = some call)
      (passes : call.arguments[j]? = some (argument, v)) :
      RequiredAt path children [i + 1, 2, j, 1] (.reference v)
  | inside {path : List String} {children inner : List (String × Node)} {i : Nat} {key : String}
      {call : Option Call} {place : Place} {r : Requirement}
      (child : children[i]? = some (key, .group call inner))
      (within : RequiredAt (path ++ [key]) inner place r) :
      RequiredAt path children ((i + 1) :: 3 :: place) r

namespace Group

/-- A reference to a variable stands at a place of the tree. -/
def RefersAt (root : Group) (place : Place) (v : VariableRef) (bare : String) : Prop :=
  RequiredAt [] root.children place (.reference v) ∧ v.bareName? = some bare

/-- The descriptor at the first of all references to a variable. -/
def FirstDescriptor (root : Group) (bare first : String) : Prop :=
  ∃ place v, root.RefersAt place v bare ∧ v.descriptor = first ∧
    ∀ place' v', root.RefersAt place' v' bare → ¬ place' < place

/-- How a requirement is not met. A reference is judged by its sigil, then by its bare name, then
by its descriptor. -/
inductive Fault (root : Group) : Requirement → CompileError → Prop where
  | empty (path : List String) : Fault root (.selects path []) (.emptySelection path)
  | name {role : NameRole} {name : String} (invalid : Name.isValid name = false) :
      Fault root (.valid role name) (.invalidName role name)
  | sigil {v : VariableRef} (missing : v.bareName? = none) :
      Fault root (.reference v) (.missingSigil v.written)
  | bareName {v : VariableRef} {bare : String} (named : v.bareName? = some bare)
      (invalid : Name.isValid bare = false) :
      Fault root (.reference v) (.invalidName .variable bare)
  | conflict {v : VariableRef} {bare first : String} (named : v.bareName? = some bare)
      (valid : Name.isValid bare = true) (known : root.FirstDescriptor bare first)
      (differs : first ≠ v.descriptor) :
      Fault root (.reference v) (.typeConflict bare first v.descriptor)

/-- A violation, with its place: the operation's name at 0, the tree below 1, and below 2 the
descriptors of the references, each below the place of its reference. -/
inductive Violation (operationName : Option String) (root : Group) :
    Place → CompileError → Prop where
  | operation {name : String} (given : operationName = some name)
      (invalid : Name.isValid name = false) :
      Violation operationName root [0] (.invalidName .operation name)
  | tree {place : Place} {r : Requirement} {e : CompileError}
      (required : RequiredAt [] root.children place r) (fault : root.Fault r e) :
      Violation operationName root (1 :: place) e
  | descriptor {place : Place} {v : VariableRef} {malformed : WireType.Malformed}
      (required : RequiredAt [] root.children place (.reference v))
      (refused : WireType.read v.descriptor = .error malformed) :
      Violation operationName root (2 :: place) (.malformedType malformed)

/-- A violation before which there is no other. -/
def FirstViolation (operationName : Option String) (root : Group) (place : Place)
    (e : CompileError) : Prop :=
  Violation operationName root place e ∧
    ∀ place' e', Violation operationName root place' e' → ¬ place' < place

end Group

/-- Keys that lead from a group to a group at any depth inside it. -/
inductive LeadsTo : List (String × Node) → List String → List (String × Node) → Prop where
  | here (children : List (String × Node)) : LeadsTo children [] children
  | inside {children inner found : List (String × Node)} {key : String} {call : Option Call}
      {path : List String} (child : (key, Node.group call inner) ∈ children)
      (within : LeadsTo inner path found) : LeadsTo children (key :: path) found

namespace Group

/-- A node stands under its key somewhere in the tree. -/
def Holds (root : Group) (key : String) (node : Node) : Prop :=
  ∃ path children, LeadsTo root.children path children ∧ (key, node) ∈ children

/-- An argument is given by a reference somewhere in the tree. -/
def Passes (root : Group) (argument : String) (v : VariableRef) : Prop :=
  ∃ key node call, root.Holds key node ∧ node.call? = some call ∧ (argument, v) ∈ call.arguments

/-- What a specification has to satisfy, without regard to any order. The descriptors of scalars
play no part. -/
structure Compilable (operationName : Option String) (root : Group) : Prop where
  operation : ∀ name, operationName = some name → Name.isValid name = true
  populated : ∀ path children, LeadsTo root.children path children → children ≠ []
  keys : ∀ key node, root.Holds key node → Name.isValid key = true
  wireNames : ∀ key node call, root.Holds key node → node.call? = some call →
    Name.isValid (call.wireName.getD key) = true
  arguments : ∀ argument v, root.Passes argument v → Name.isValid argument = true
  references : ∀ argument v, root.Passes argument v →
    ∃ bare, v.written = "$" ++ bare ∧ Name.isValid bare = true
  agreement : ∀ bare argument argument' v v', root.Passes argument v → root.Passes argument' v' →
    v.written = "$" ++ bare → v'.written = "$" ++ bare → v.descriptor = v'.descriptor
  descriptors : ∀ argument v, root.Passes argument v →
    ∃ type, WireType.read v.descriptor = .ok type

end Group

end WireQuery
