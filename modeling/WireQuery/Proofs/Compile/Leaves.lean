import WireQuery.Document.Printer
import WireQuery.Proofs.Compile.Met
import WireQuery.Proofs.Compile.Redescribed

/-!
# Leaves do not reach the wire

How scalars are decoded shows nowhere but in the leaves of the shape. Two specifications that are
alike but for the descriptors of their scalars are refused alike, or have one document and shapes
of one outline, whatever tables they are compiled with.
-/

namespace WireQuery
set_option autoImplicit false

namespace Node

mutual

/-- The same node but for the descriptors of scalars, called or not. -/
def AlikeButLeaves : Node → Node → Prop
  | scalar call _, scalar call' _ => call = call'
  | group call children, group call' children' =>
    call = call' ∧ ChildrenAlikeButLeaves children children'
  | _, _ => False

def ChildrenAlikeButLeaves : List (String × Node) → List (String × Node) → Prop
  | [], [] => True
  | child :: rest, child' :: rest' => child.1 = child'.1 ∧
    child.2.AlikeButLeaves child'.2 ∧ ChildrenAlikeButLeaves rest rest'
  | _, _ => False

end

end Node

def Group.AlikeButLeaves (root root' : Group) : Prop :=
  Node.ChildrenAlikeButLeaves root.children root'.children

mutual

/-- The same keys, response keys and nesting at every level, whatever the leaves. -/
def Content.SameOutline : Content → Content → Prop
  | .leaf _, .leaf _ => True
  | .nested slots, .nested slots' => slotsSameOutline slots slots'
  | _, _ => False

def slotsSameOutline : List (Slot Content) → List (Slot Content) → Prop
  | [], [] => True
  | slot :: rest, slot' :: rest' => slot.key = slot'.key ∧ slot.responseKey = slot'.responseKey ∧
    slot.content.SameOutline slot'.content ∧ slotsSameOutline rest rest'
  | _, _ => False

end

namespace Node

-- Nodes that are alike but for their leaves become equal once every leaf has the same descriptor,
-- so what a description does not change is the same for both.
mutual

theorem AlikeButLeaves.redescribed_eq (descriptor : String) : ∀ {node node' : Node},
    node.AlikeButLeaves node' →
      node.redescribed (fun _ => descriptor) = node'.redescribed (fun _ => descriptor)
  | scalar call _, scalar call' _, h => by
    rw [AlikeButLeaves] at h
    rw [redescribed, redescribed, h]
  | group call children, group call' children', h => by
    rw [AlikeButLeaves] at h
    rw [redescribed, redescribed, h.1, redescribedAll_eq descriptor h.2]
  | scalar _ _, group _ _, h => h.elim
  | group _ _, scalar _ _, h => h.elim

theorem redescribedAll_eq (descriptor : String) : ∀ {children children' : List (String × Node)},
    ChildrenAlikeButLeaves children children' →
      redescribedAll (fun _ => descriptor) children = redescribedAll (fun _ => descriptor) children'
  | [], [], _ => rfl
  | (key, node) :: rest, (key', node') :: rest', ⟨hkey, hnode, hrest⟩ => by
    rw [redescribedAll, redescribedAll, hnode.redescribed_eq descriptor,
      redescribedAll_eq descriptor hrest, hkey]
  | [], _ :: _, h => h.elim
  | _ :: _, [], h => h.elim

end

@[simp] theorem field_redescribed (f : String → String) (key : String) (node : Node) :
    (node.redescribed f).field key = node.field key := by
  cases node <;> rfl

mutual

theorem selection_redescribed (f : String → String) (key : String) :
    ∀ node : Node, (node.redescribed f).selection key = node.selection key
  | scalar call descriptor =>
    congrArg Selection.leaf (field_redescribed f key (scalar call descriptor))
  | group call children =>
    congrArg₂ Selection.nested (field_redescribed f key (group call children))
      (selections_redescribedAll f children)

@[simp] theorem selections_redescribedAll (f : String → String) :
    ∀ children : List (String × Node), selections (redescribedAll f children) = selections children
  | [] => rfl
  | (key, node) :: rest =>
    congrArg₂ List.cons (selection_redescribed f key node) (selections_redescribedAll f rest)

end

mutual

theorem AlikeButLeaves.sameOutline (table table' : ScalarTable) : ∀ {node node' : Node},
    node.AlikeButLeaves node' → (node.content table).SameOutline (node'.content table')
  | scalar _ _, scalar _ _, _ => trivial
  | group _ _, group _ _, ⟨_, hchildren⟩ => slotsSameOutline_shape table table' hchildren
  | scalar _ _, group _ _, h => h.elim
  | group _ _, scalar _ _, h => h.elim

theorem slotsSameOutline_shape (table table' : ScalarTable) :
    ∀ {children children' : List (String × Node)}, ChildrenAlikeButLeaves children children' →
      slotsSameOutline (shape table children) (shape table' children')
  | [], [], _ => trivial
  | (key, node) :: rest, (key', node') :: rest', ⟨hkey, hnode, hrest⟩ => by
    refine ⟨hkey, ?_, hnode.sameOutline table table', slotsSameOutline_shape table table' hrest⟩
    simpa using hkey
  | [], _ :: _, h => h.elim
  | _ :: _, [], h => h.elim

end

end Node

namespace Group

variable {root root' : Group}

theorem AlikeButLeaves.redescribed_eq (alike : root.AlikeButLeaves root') (descriptor : String) :
    root.redescribed (fun _ => descriptor) = root'.redescribed (fun _ => descriptor) :=
  Group.ext (Node.redescribedAll_eq descriptor alike)

theorem AlikeButLeaves.checkAll_eq (alike : root.AlikeButLeaves root')
    (operationName : Option String) :
    Requirement.checkAll .empty (Requirement.ofGroup operationName root) =
      Requirement.checkAll .empty (Requirement.ofGroup operationName root') := by
  rw [← checkAll_ofGroup_redescribed (fun _ => "") operationName root, alike.redescribed_eq,
    checkAll_ofGroup_redescribed]

theorem AlikeButLeaves.selections_eq (alike : root.AlikeButLeaves root') :
    Node.selections root.children = Node.selections root'.children := by
  have h := congrArg Node.selections (Node.redescribedAll_eq "" alike)
  simpa using h

theorem AlikeButLeaves.compile_eq_error (alike : root.AlikeButLeaves root')
    {operationName : Option String} {table table' : ScalarTable} {e : CompileError} :
    root.compile operationName table = .error e ↔
      root'.compile operationName table' = .error e := by
  rw [← compile_redescribed_eq_error (fun _ => "") operationName root table table e,
    alike.redescribed_eq, compile_redescribed_eq_error _ operationName root' table' table e]

/-- Other descriptors at the scalars and another table change neither a refusal nor the document:
it is the same, with the same declarations and the same text in both styles, and the two shapes
have one outline. -/
theorem compile_ignores_leaves (alike : root.AlikeButLeaves root') (operationName : Option String)
    (table table' : ScalarTable) :
    (∃ e, root.compile operationName table = .error e ∧
      root'.compile operationName table' = .error e) ∨
    ∃ query query', root.compile operationName table = .ok query ∧
      root'.compile operationName table' = .ok query' ∧
      query.document = query'.document ∧
      query.document.definitions = query'.document.definitions ∧
      (∀ style, query.document.write style = query'.document.write style) ∧
      slotsSameOutline query.shape query'.shape := by
  cases h : root.compile operationName table with
  | error e => exact Or.inl ⟨e, rfl, alike.compile_eq_error.mp h⟩
  | ok query =>
    cases h' : root'.compile operationName table' with
    | error e =>
      rw [alike.compile_eq_error.mpr h'] at h
      cases h
    | ok query' =>
      obtain ⟨uses, definitions, huses, hdefinitions, rfl⟩ := exists_of_compile h
      obtain ⟨uses', definitions', huses', hdefinitions', rfl⟩ := exists_of_compile h'
      rw [← alike.checkAll_eq, huses] at huses'
      cases huses'
      rw [hdefinitions] at hdefinitions'
      cases hdefinitions'
      refine Or.inr ⟨_, _, rfl, rfl, ?_, rfl, ?_, Node.slotsSameOutline_shape table table' alike⟩
      · rw [alike.selections_eq]
      · intro style
        rw [alike.selections_eq]

/-- A price under two descriptors, in a currency whose type is given at two places. -/
def priced (currency price total : String) : Group :=
  .ofList [("order", .group none
    [("price", .scalar (some (.ofList none [("in", ⟨"$currency", "Currency!"⟩)])) price),
      ("lines", .group (some (.ofList (some "items") [("in", ⟨"$currency", currency⟩)]))
        [("total", .scalar none total)])])]

/-- Whether a price is a number or words shows in the shape alone, and a currency of two types is
refused for either. -/
theorem compile_ignores_leaves_price :
    (priced "Currency!" "Money!" "[Money]").AlikeButLeaves
      (priced "Currency!" "a number, in words" "") ∧
    (∃ query query',
      (priced "Currency!" "Money!" "[Money]").compile none (.insert .builtin "Money" .number) =
        .ok query ∧
      (priced "Currency!" "a number, in words" "").compile none .builtin = .ok query' ∧
      query.document = query'.document ∧ slotsSameOutline query.shape query'.shape) ∧
    (priced "Currency" "Money!" "[Money]").compile none .builtin =
      .error (.typeConflict "currency" "Currency!" "Currency") ∧
    (priced "Currency" "a number, in words" "").compile none .builtin =
      .error (.typeConflict "currency" "Currency!" "Currency") := by
  have alike : ∀ currency price price' total total' : String,
      (priced currency price total).AlikeButLeaves (priced currency price' total') := by
    intro currency price price' total total'
    exact ⟨rfl, ⟨rfl, rfl, rfl, rfl, ⟨rfl, rfl, rfl, trivial⟩, trivial⟩, trivial⟩
  have accepted : ((priced "Currency!" "Money!" "[Money]").compile none
      (.insert .builtin "Money" .number)).isOk = true := by decide +kernel
  have refused : (priced "Currency" "Money!" "[Money]").compile none .builtin =
      .error (.typeConflict "currency" "Currency!" "Currency") := by rfl
  refine ⟨alike _ _ _ _ _, ?_, ?_⟩
  · obtain ⟨e, he, -⟩ | ⟨query, query', h, h', hdocument, -, -, houtline⟩ :=
      compile_ignores_leaves (alike "Currency!" "Money!" "a number, in words" "[Money]" "") none
        (.insert .builtin "Money" .number) .builtin
    · rw [he] at accepted
      cases accepted
    · exact ⟨query, query', h, h', hdocument, houtline⟩
  · obtain ⟨e, he, he'⟩ | ⟨query, query', h, -⟩ :=
      compile_ignores_leaves (alike "Currency" "Money!" "a number, in words" "[Money]" "") none
        .builtin .builtin
    · rw [refused] at he
      cases he
      exact ⟨refused, he'⟩
    · rw [refused] at h
      cases h

end Group

end WireQuery
