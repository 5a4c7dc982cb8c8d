import WireQuery.Proofs.Compile.Normalized
import WireQuery.Proofs.Spec.WellKeyed
import WireQuery.Proofs.Variables.Definitions

/-!
# Specifications recovered from what they compile to

A compiled document and its shape hold the whole specification between them: the selections have
the wire names and the arguments, the declarations the descriptors of the variables, and the slots
the keys and the descriptors of the leaves. What they do not tell apart is whether a call says
anything: a wire name that is the key itself is none, and a call that says nothing is none.
-/

namespace WireQuery
set_option autoImplicit false

def Leaf.descriptor : Leaf → String
  | typed type _ => type.text
  | untyped descriptor => descriptor

namespace Document

def reference? (document : Document) (bare : String) : Option VariableRef :=
  (document.definition? bare).map fun d => ⟨"$" ++ bare, d.type.text⟩

/-- The argument of a call that an argument of a field comes from. -/
def callArgument? (document : Document) (a : Argument) : Option (String × VariableRef) :=
  (document.reference? a.variableName).map fun v => (a.name, v)

/-- The call that a field comes from, which may be none. -/
def call? (document : Document) (field : Field) : Option (Option Call) := do
  let arguments ← field.arguments.mapM document.callArgument?
  return (Call.ofList (field.aliasName.map fun _ => field.name) arguments).unlessPlain

mutual

/-- The node that a selection and the content of its slot come from. -/
def node? (document : Document) : Selection → Content → Option Node
  | .leaf field, .leaf leaf => do
    return .scalar (← document.call? field) leaf.descriptor
  | .nested field selections, .nested slots => do
    return .group (← document.call? field) (← document.children? selections slots)
  | _, _ => none

/-- The children that the selections and the slots of one level come from. -/
def children? (document : Document) :
    List Selection → List (Slot Content) → Option (List (String × Node))
  | [], [] => some []
  | s :: selections, slot :: slots => do
    let node ← document.node? s slot.content
    return (slot.key, node) :: (← document.children? selections slots)
  | _, _ => none

end

/-- The name of the operation and the specification that a document and its shape come from. -/
def recover? (document : Document) (shape : Shape) : Option (Option String × Group) := do
  return (document.operationName, .ofList (← document.children? document.selections shape))

end Document

@[simp] theorem Leaf.descriptor_ofDescriptor (table : ScalarTable) (descriptor : String) :
    (ofDescriptor table descriptor).descriptor = descriptor := by
  unfold ofDescriptor
  split
  · next type hread => exact (WireType.read_eq_ok.mp hread).1
  · rfl

/-- A call is recovered from the name and the alias of its field. -/
theorem Node.unlessPlain_field (key : String) (node : Node) :
    (Call.ofList ((node.field key).aliasName.map fun _ => (node.field key).name)
      node.callOrPlain.arguments).unlessPlain = node.call?.bind (Call.normalized key) := by
  simp only [field, wireName, callOrPlain_eq]
  cases node.call? with
  | none => simp [Call.plain, Call.unlessPlain, Call.ofList, Keyed.ofList]
  | some call =>
    rw [Option.getD_some, Call.ofList_arguments]
    obtain ⟨wireName, arguments, distinct⟩ := call
    cases wireName with
    | none => simp [Call.normalized]
    | some name => by_cases hname : name = key <;> simp [Call.normalized, hname]

namespace Document

variable {document : Document}

/-- The document gives the reference back from its bare name. -/
def Knows (document : Document) (v : VariableRef) : Prop :=
  ∃ bare, v.bareName? = some bare ∧ document.reference? bare = some v

theorem callArgument?_argument {entry : String × VariableRef} (known : document.Knows entry.2) :
    document.callArgument? (Node.argument entry) = some entry := by
  obtain ⟨bare, hbare, hreference⟩ := known
  simp [callArgument?, Node.argument, hbare, hreference]

theorem mapM_callArgument? {arguments : List (String × VariableRef)}
    (known : ∀ v ∈ arguments.map Prod.snd, document.Knows v) :
    (arguments.map Node.argument).mapM document.callArgument? = some arguments := by
  induction arguments with
  | nil => rfl
  | cons entry rest ih =>
    rw [List.map_cons, List.forall_mem_cons] at known
    rw [List.map_cons, List.mapM_cons, callArgument?_argument known.1, ih known.2]
    rfl

theorem call?_field (key : String) {node : Node}
    (known : ∀ v ∈ Node.callReferences node.call?, document.Knows v) :
    document.call? (node.field key) = some (node.call?.bind (Call.normalized key)) := by
  have harguments : (node.field key).arguments.mapM document.callArgument? =
      some node.callOrPlain.arguments := by
    apply mapM_callArgument?
    intro v hv
    apply known v
    rw [Node.callOrPlain_eq] at hv
    cases hcall : node.call? with
    | none =>
      rw [hcall] at hv
      cases hv
    | some call =>
      rw [hcall] at hv
      exact hv
  rw [call?, harguments, ← Node.unlessPlain_field]
  rfl

-- By induction on the tree. The document stays the same, and it knows all references below.
mutual

theorem node?_selection (table : ScalarTable) (key : String) :
    ∀ node : Node, (∀ v ∈ node.references, document.Knows v) →
      document.node? (node.selection key) (node.content table) = some (node.normalized key)
  | .scalar call descriptor, known => by
    have hcall := @call?_field document key (.scalar call descriptor) known
    rw [Node.selection, Node.content, node?, hcall, Leaf.descriptor_ofDescriptor]
    rfl
  | .group call children, known => by
    rw [Node.references, List.forall_mem_append] at known
    have hcall := @call?_field document key (.group call children) known.1
    rw [Node.selection, Node.content, node?, hcall, children?_selections table children known.2]
    rfl

theorem children?_selections (table : ScalarTable) :
    ∀ children : List (String × Node), (∀ v ∈ Node.childReferences children, document.Knows v) →
      document.children? (Node.selections children) (Node.shape table children) =
        some (Node.normalizedChildren children)
  | [], _ => rfl
  | (key, node) :: rest, known => by
    rw [Node.childReferences, List.forall_mem_append] at known
    rw [Node.selections, Node.shape, children?, node?_selection table key node known.1,
      children?_selections table rest known.2]
    rfl

end

end Document

namespace Group

variable {root : Group} {operationName : Option String} {table : ScalarTable} {query : Query}

/-- A compiled document gives back every reference of its specification as it is written. -/
theorem knows_of_compile (compiled : root.compile operationName table = .ok query)
    {v : VariableRef} (hv : v ∈ root.references) : query.document.Knows v := by
  obtain ⟨argument, passes⟩ := mem_references_iff.mp hv
  obtain ⟨d, hd, named⟩ := exists_declared_of_passes compiled passes
  refine ⟨d.name, VariableRef.bareName?_eq_some.mpr named, ?_⟩
  have hdeclared := Document.definition?_eq_some (firstOrder_of_compile compiled).distinct hd
  rw [Document.reference?, hdeclared, Option.map_some, text_of_definition compiled hd hv named,
    ← named]

theorem recover?_of_compile (compiled : root.compile operationName table = .ok query) :
    query.document.recover? query.shape = some (operationName, root.normalized) := by
  have known : ∀ v ∈ root.references, query.document.Knows v :=
    fun v hv => knows_of_compile compiled hv
  obtain ⟨uses, definitions, -, -, rfl⟩ := exists_of_compile compiled
  rw [Document.recover?, Document.children?_selections table root.children known]
  exact congrArg (fun group => some (operationName, group)) root.normalized.ofList_children

/-- Compiling loses nothing but what the normal form leaves out: the name of the operation and the
normal form are recovered from the document and the shape, and the normal form compiles to both of
them again. So specifications with the same document and shape have the same normal form. -/
theorem recover_exact :
    (∀ (root : Group) (operationName : Option String) (table : ScalarTable) (query : Query),
      root.compile operationName table = .ok query →
        query.document.recover? query.shape = some (operationName, root.normalized)) ∧
    (∀ (root : Group) (operationName : Option String) (table : ScalarTable),
      root.normalized.compile operationName table = root.compile operationName table) ∧
    (∀ (root root' : Group) (operationName operationName' : Option String)
      (table table' : ScalarTable) (query query' : Query),
      root.compile operationName table = .ok query →
        root'.compile operationName' table' = .ok query' →
          query.document = query'.document → query.shape = query'.shape →
            operationName = operationName' ∧ root.normalized = root'.normalized) := by
  refine ⟨?_, ?_, ?_⟩
  · intro root operationName table query compiled
    exact recover?_of_compile compiled
  · intro root operationName table
    exact compile_normalized root operationName table
  · intro root root' operationName operationName' table table' query query' compiled compiled'
      hdocument hshape
    have hrecovered := recover?_of_compile compiled
    rw [hdocument, hshape, recover?_of_compile compiled'] at hrecovered
    obtain ⟨hname, hroot⟩ := Prod.mk.inj (Option.some.inj hrecovered)
    exact ⟨hname.symm, hroot.symm⟩

/-- Orders that are called by their own key, with a total that is called plainly. -/
def plainlyCalled : Group :=
  .ofList [("orders", .group (some (.ofList (some "orders") [("first", ⟨"$count", "Int"⟩)]))
    [("number", .scalar (some (.ofList (some "id") [])) "order number"),
      ("total", .scalar (some (.ofList (some "total") [])) "Float!")])]

theorem recover_plainlyCalled :
    ∃ query, plainlyCalled.compile (some "Orders") .builtin = .ok query ∧
      query.document.recover? query.shape =
        some (some "Orders",
          .ofList [("orders", .group (some (.ofList none [("first", ⟨"$count", "Int"⟩)]))
            [("number", .scalar (some (.ofList (some "id") [])) "order number"),
              ("total", .scalar none "Float!")])]) := by
  have compiled : plainlyCalled.compile (some "Orders") .builtin =
      .ok ⟨⟨some "Orders", [⟨"count", .named "Int"⟩], Node.selections plainlyCalled.children⟩,
        Node.shape .builtin plainlyCalled.children, .builtin⟩ := by with_unfolding_all rfl
  have hnormal : plainlyCalled.normalized =
      .ofList [("orders", .group (some (.ofList none [("first", ⟨"$count", "Int"⟩)]))
        [("number", .scalar (some (.ofList (some "id") [])) "order number"),
          ("total", .scalar none "Float!")])] := by rfl
  obtain ⟨hrecover, -, -⟩ := recover_exact
  have recovered := hrecover _ _ _ _ compiled
  rw [hnormal] at recovered
  exact ⟨_, compiled, recovered⟩

end Group

end WireQuery
