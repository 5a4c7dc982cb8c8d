import WireQuery.Proofs.Compile.Met

/-!
# References to variables

The references of a specification in the order in which a reader meets them: the arguments of a
call before what its field selects. They are the references among the requirements, and the
arguments of the compiled selections name the same variables in the same order.
-/

namespace WireQuery
set_option autoImplicit false

namespace Node

def callReferences : Option Call → List VariableRef
  | none => []
  | some call => call.arguments.map Prod.snd

mutual

def references : Node → List VariableRef
  | scalar call _ => callReferences call
  | group call children => callReferences call ++ childReferences children

def childReferences : List (String × Node) → List VariableRef
  | [] => []
  | child :: rest => child.2.references ++ childReferences rest

end

end Node

/-- All references of a specification, in pre-order. -/
def Group.references (root : Group) : List VariableRef := Node.childReferences root.children

namespace Selection

mutual

def arguments : Selection → List Argument
  | leaf field => field.arguments
  | nested field selections => field.arguments ++ argumentsIn selections

def argumentsIn : List Selection → List Argument
  | [] => []
  | s :: rest => s.arguments ++ argumentsIn rest

end

end Selection

/-- All arguments in the selections of a document, at any depth. -/
def Document.arguments (document : Document) : List Argument :=
  Selection.argumentsIn document.selections

namespace Requirement

def reference? : Requirement → Option VariableRef
  | selects _ _ => none
  | valid _ _ => none
  | reference v => some v

@[simp] theorem references_ofCall (key : String) (call : Option Call) :
    (ofCall key call).filterMap reference? = Node.callReferences call := by
  cases call with
  | none => rfl
  | some call =>
    have harguments : ∀ arguments : List (String × VariableRef),
        (arguments.flatMap ofArgument).filterMap reference? = arguments.map Prod.snd := by
      intro arguments
      induction arguments with
      | nil => rfl
      | cons argument rest ih =>
        rw [List.flatMap_cons, List.filterMap_append, ih]
        rfl
    exact harguments call.arguments

mutual

theorem references_ofNode (path : List String) (key : String) :
    ∀ node : Node, (ofNode path key node).filterMap reference? = node.references
  | .scalar call _ => references_ofCall key call
  | .group call children => by
    simp [ofNode, Node.references, List.filterMap_cons, reference?,
      references_ofChildren path children]

theorem references_ofChildren (path : List String) :
    ∀ children : List (String × Node),
      (ofChildren path children).filterMap reference? = Node.childReferences children
  | [] => rfl
  | (key, node) :: rest => by
    simp [ofChildren, Node.childReferences, List.filterMap_cons, reference?,
      references_ofNode (path ++ [key]) key node, references_ofChildren path rest]

end

@[simp] theorem references_ofGroup (operationName : Option String) (root : Group) :
    (ofGroup operationName root).filterMap reference? = root.references := by
  cases operationName <;> exact references_ofChildren [] root.children

theorem mem_references {operationName : Option String} {root : Group} {v : VariableRef} :
    v ∈ root.references ↔ reference v ∈ ofGroup operationName root := by
  rw [← references_ofGroup operationName, List.mem_filterMap]
  constructor
  · rintro ⟨r, hr, hv⟩
    cases r with
    | selects path children => cases hv
    | valid role name => cases hv
    | reference v' =>
      cases hv
      exact hr
  · intro h
    exact ⟨_, h, rfl⟩

theorem mentions_eq_filterMap (requirements : List Requirement) :
    mentions requirements = (requirements.filterMap reference?).filterMap fun v =>
      v.bareName?.map fun bare => (bare, v.descriptor) := by
  rw [mentions, List.filterMap_filterMap]
  congr 1
  funext r
  cases r <;> rfl

end Requirement

namespace Node

open Requirement

theorem variableNames_field {path : List String} {key : String} {node : Node}
    (met : Met (ofNode path key node)) :
    (node.field key).arguments.map (fun a => some a.variableName) =
      (callReferences node.call?).map VariableRef.bareName? := by
  have harguments : (node.field key).arguments =
      (node.call?.getD .plain).arguments.map argument := by
    rw [← callOrPlain_eq]
    rfl
  rw [harguments]
  cases hcall : node.call? with
  | none => rfl
  | some call =>
    simp only [Option.getD_some, callReferences, List.map_map]
    apply List.map_congr_left
    intro entry hentry
    obtain ⟨-, hreference⟩ := mem_ofCall_argument key hentry
    obtain ⟨bare, hbare, -⟩ :=
      met.references _ (ofCall_subset_ofNode path key node hcall hreference)
    simp [argument, hbare]

mutual

theorem variableNames_selection (path : List String) (key : String) :
    ∀ node : Node, Met (ofNode path key node) →
      (node.selection key).arguments.map (fun a => some a.variableName) =
        node.references.map VariableRef.bareName?
  | scalar _ _, met => variableNames_field met
  | group call children, met => by
    rw [selection, Selection.arguments, references, List.map_append, List.map_append,
      variableNames_field met, variableNames_selections path children met.right.tail]
    rfl

theorem variableNames_selections (path : List String) :
    ∀ children : List (String × Node), Met (ofChildren path children) →
      (Selection.argumentsIn (selections children)).map (fun a => some a.variableName) =
        (childReferences children).map VariableRef.bareName?
  | [], _ => rfl
  | (key, node) :: rest, met => by
    rw [selections, Selection.argumentsIn, childReferences, List.map_append, List.map_append,
      variableNames_selection (path ++ [key]) key node met.left.tail,
      variableNames_selections path rest met.right]

end

end Node

/-- The arguments of a compiled document name the variables that the specification refers to, one
for one. -/
theorem Group.variableNames_of_compile {root : Group} {operationName : Option String}
    {table : ScalarTable} {query : Query} (h : root.compile operationName table = .ok query) :
    query.document.arguments.map (fun a => some a.variableName) =
      root.references.map VariableRef.bareName? := by
  have met := met_of_compile h
  obtain ⟨uses, definitions, -, -, rfl⟩ := exists_of_compile h
  exact Node.variableNames_selections [] root.children met.right.tail

end WireQuery
