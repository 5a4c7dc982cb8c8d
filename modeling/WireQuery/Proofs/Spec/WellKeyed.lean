import WireQuery.Proofs.FirstOrder
import WireQuery.Spec.Basic

/-!
# Keys of specifications

What repeats no key is as it was once it is merged, so a group holds what is added to it and is
known by its children.
-/

namespace WireQuery
set_option autoImplicit false

theorem Call.ofList_arguments (call : Call) (wireName : Option String) :
    ofList wireName call.arguments = ⟨wireName, call.arguments, call.distinct⟩ :=
  Call.ext rfl (Keyed.ofList_of_distinctKeys call.distinct)

namespace Node

theorem wellKeyed_called (call : Call) {node : Node} (h : node.WellKeyed) :
    (node.called call).WellKeyed := by
  cases node with
  | scalar call' descriptor => trivial
  | group call' children => exact h

theorem wellKeyed_of_resolves {call : Option Call} {children kept : List (String × Node)}
    (resolved : Keyed.Resolves children kept) (h : ChildrenWellKeyed children) :
    (group call kept).WellKeyed := by
  rw [Keyed.resolves_iff.mp resolved]
  exact wellKeyed_ofList h

@[simp] theorem mergedChildren_append (children rest : List (String × Node)) :
    mergedChildren (children ++ rest) = mergedChildren children ++ mergedChildren rest := by
  induction children with
  | nil => rfl
  | cons child children ih =>
    rw [List.cons_append, mergedChildren, mergedChildren, ih]
    rfl

mutual

theorem merged_of_wellKeyed : ∀ {node : Node}, node.WellKeyed → node.merged = node
  | scalar _ _, _ => rfl
  | group call children, ⟨distinct, wellKeyed⟩ => by
    rw [merged, mergedChildren_of_wellKeyed wellKeyed, Keyed.ofList_of_distinctKeys distinct]

theorem mergedChildren_of_wellKeyed : ∀ {children : List (String × Node)},
    ChildrenWellKeyed children → mergedChildren children = children
  | [], _ => rfl
  | (key, node) :: rest, ⟨wellKeyed, restWellKeyed⟩ => by
    rw [mergedChildren, merged_of_wellKeyed wellKeyed, mergedChildren_of_wellKeyed restWellKeyed]

end

end Node

namespace Group

theorem children_insert (g : Group) (key : String) {node : Node} (h : node.WellKeyed) :
    (g.insert key node).children = Keyed.insert key node g.children :=
  congrArg (Keyed.insert key · g.children) (Node.merged_of_wellKeyed h)

theorem ofList_append_singleton (children : List (String × Node)) (child : String × Node) :
    ofList (children ++ [child]) = (ofList children).insert child.1 child.2 := by
  apply Group.ext
  have hmerged := Node.mergedChildren_append children [child]
  exact (congrArg Keyed.ofList hmerged).trans (Keyed.ofList_append_singleton _ _)

theorem children_ofList {children : List (String × Node)} (h : Node.ChildrenWellKeyed children) :
    (ofList children).children = Keyed.ofList children :=
  congrArg Keyed.ofList (Node.mergedChildren_of_wellKeyed h)

theorem resolves_iff {children : List (String × Node)} (h : Node.ChildrenWellKeyed children)
    {g : Group} : Keyed.Resolves children g.children ↔ g = ofList children := by
  rw [Keyed.resolves_iff, ← children_ofList h, Group.ext_iff]

@[simp] theorem ofList_children (g : Group) : ofList g.children = g :=
  ((resolves_iff g.wellKeyed.2).mp (Keyed.resolves_self g.wellKeyed.1)).symm

end Group

end WireQuery
