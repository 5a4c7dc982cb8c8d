import WireQuery.Compile.Basic
import WireQuery.Proofs.Spec.Reordered
import WireQuery.Proofs.Variables.Definitions

/-!
# Compiling specifications in another order

A specification and its reorderings compile or fail together. The selections and the declarations
are then the same in another order, and the shapes are equal.
-/

namespace WireQuery
set_option autoImplicit false

/-- The same field with its arguments in another order. -/
structure Field.Reordered (f f' : Field) : Prop where
  name : f.name = f'.name
  aliasName : f.aliasName = f'.aliasName
  arguments : f.arguments.Perm f'.arguments

/-- The same selection with fields and arguments in another order, at any levels. -/
inductive Selection.Reordered : Selection → Selection → Prop where
  | leaf {f f' : Field} (fields : f.Reordered f') : Reordered (.leaf f) (.leaf f')
  | nested {f f' : Field} {selections selections' : List Selection} (fields : f.Reordered f')
      (each : Multiset.Rel Reordered (selections : Multiset Selection)
        (selections' : Multiset Selection)) :
      Reordered (.nested f selections) (.nested f' selections')

mutual

/-- Equality up to the order of slots, at every level. -/
def Content.same : Content → Content → Bool
  | .leaf leaf, .leaf leaf' => leaf == leaf'
  | .nested slots, .nested slots' => slots.length == slots'.length && slotsSameIn slots slots'
  | _, _ => false

/-- Whether every slot has an equal under its key. -/
def slotsSameIn : List (Slot Content) → List (Slot Content) → Bool
  | [], _ => true
  | slot :: rest, others =>
    (match Shape.slot? others slot.key with
      | some other => slot.responseKey == other.responseKey && slot.content.same other.content
      | none => false) && slotsSameIn rest others

end

/-- Equality up to the order of slots, at every level. -/
def Shape.same (a b : Shape) : Bool := (Content.nested a).same (.nested b)

theorem slotsSameIn_iff {slots others : List (Slot Content)} :
    slotsSameIn slots others = true ↔ ∀ slot ∈ slots, ∃ other,
      Shape.slot? others slot.key = some other ∧ slot.responseKey = other.responseKey ∧
        slot.content.same other.content = true := by
  induction slots with
  | nil => simp [slotsSameIn]
  | cons slot rest ih =>
    rw [slotsSameIn, Bool.and_eq_true, ih, List.forall_mem_cons]
    cases Shape.slot? others slot.key <;> simp

namespace Node

theorem Reordered.callOrPlain {node node' : Node} (h : node.Reordered node') :
    node.callOrPlain.Reordered node'.callOrPlain := by
  have hcalls := h.calls
  rw [callOrPlain_eq, callOrPlain_eq]
  generalize node.call? = call, node'.call? = call' at hcalls ⊢
  cases hcalls with
  | none => exact ⟨rfl, .refl _⟩
  | some hcall => exact hcall

theorem Reordered.field {node node' : Node} (h : node.Reordered node') (key : String) :
    (node.field key).Reordered (node'.field key) := by
  have hname : node.wireName key = node'.wireName key := by
    rw [wireName, wireName, h.callOrPlain.wireName]
  exact ⟨hname, by rw [Node.field, Node.field, hname], h.callOrPlain.arguments.map argument⟩

theorem Reordered.selection {node node' : Node} (h : node.Reordered node') (key : String) :
    (node.selection key).Reordered (node'.selection key) := by
  induction node using Node.induction generalizing node' key with
  | scalar call descriptor =>
    have hfield := h.field key
    cases h with
    | scalar _ calls => exact .leaf hfield
  | group call children ih =>
    have hfield := h.field key
    cases h with
    | group calls each =>
      refine .nested hfield ?_
      rw [selections_eq_map, selections_eq_map]
      exact Keyed.Reordered.map each fun hmem _ hchild => ih _ hmem hchild _

theorem Reordered.content_same {node node' : Node} (h : node.Reordered node')
    (wellKeyed' : node'.WellKeyed) (table : ScalarTable) :
    (node.content table).same (node'.content table) = true := by
  induction node using Node.induction generalizing node' with
  | scalar call descriptor =>
    cases h with
    | scalar _ calls => exact beq_self_eq_true _
  | group call children ih =>
    cases h with
    | @group _ _ _ children' calls each =>
      obtain ⟨distinct', childrenWellKeyed'⟩ := wellKeyed'
      rw [content, content, Content.same, Bool.and_eq_true, beq_iff_eq, slotsSameIn_iff]
      constructor
      · rw [shape_eq_map, shape_eq_map, List.length_map, List.length_map]
        exact Keyed.Reordered.length_eq each
      · intro slot hslot
        rw [shape_eq_map] at hslot
        obtain ⟨⟨key, child⟩, hchild, rfl⟩ := List.mem_map.mp hslot
        obtain ⟨child', hchild', hreordered⟩ := Keyed.Reordered.exists_mem each hchild
        have hkeys : ((shape table children').map Slot.key).Nodup := by simpa using distinct'
        have hslot' : ⟨key, key, child'.content table⟩ ∈ shape table children' := by
          rw [shape_eq_map]
          exact List.mem_map_of_mem hchild'
        refine ⟨⟨key, key, child'.content table⟩, Keyed.find?_eq_some_of_mem hkeys hslot', rfl, ?_⟩
        exact ih _ hchild hreordered (childrenWellKeyed_iff.mp childrenWellKeyed' _ hchild')

end Node

namespace Group

variable {root root' : Group} {operationName : Option String} {table : ScalarTable}
  {query query' : Query}

theorem Reordered.compilable (h : root.Reordered root')
    (compilable : Compilable operationName root) : Compilable operationName root' where
  operation := compilable.operation
  populated path found' leads' := by
    obtain ⟨found, leads, hfound⟩ := leads'.reordered h.symm
    rintro rfl
    have hempty := List.eq_nil_of_length_eq_zero hfound.length_eq.symm
    exact compilable.populated path found leads hempty
  keys key node' holds' := by
    obtain ⟨node, holds, -⟩ := h.symm.holds holds'
    exact compilable.keys key node holds
  wireNames key node' call' holds' calls' := by
    obtain ⟨node, holds, reordered⟩ := h.symm.holds holds'
    obtain ⟨call, calls, hcall⟩ := reordered.exists_call calls'
    rw [hcall.wireName]
    exact compilable.wireNames key node call holds calls
  arguments argument v passes := compilable.arguments argument v (h.passes_iff.mpr passes)
  references argument v passes := compilable.references argument v (h.passes_iff.mpr passes)
  agreement bare argument argument' v v' passes passes' :=
    compilable.agreement bare argument argument' v v' (h.passes_iff.mpr passes)
      (h.passes_iff.mpr passes')
  descriptors argument v passes := compilable.descriptors argument v (h.passes_iff.mpr passes)

theorem Reordered.selections (h : root.Reordered root') :
    Multiset.Rel Selection.Reordered (Node.selections root.children : Multiset Selection)
      (Node.selections root'.children : Multiset Selection) := by
  rw [Node.selections_eq_map, Node.selections_eq_map]
  exact Keyed.Reordered.map h fun _ _ hchild => hchild.selection _

theorem Reordered.compiles (h : root.Reordered root')
    (compiled : root.compile operationName table = .ok query) :
    ∃ query', root'.compile operationName table = .ok query' :=
  compile_of_compilable (h.compilable (compilable_of_compile compiled)) table

theorem Reordered.definitions_perm (h : root.Reordered root')
    (compiled : root.compile operationName table = .ok query)
    (compiled' : root'.compile operationName table = .ok query') :
    query.document.definitions.Perm query'.document.definitions := by
  have nodup := (firstOrder_of_compile compiled).distinct.of_map
  have nodup' := (firstOrder_of_compile compiled').distinct.of_map
  apply (List.perm_ext_iff_of_nodup nodup nodup').mpr
  intro d
  rw [mem_definitions_iff compiled, mem_definitions_iff compiled']
  simp only [h.passes_iff]

end Group

end WireQuery
