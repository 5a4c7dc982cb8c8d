import WireQuery.Proofs.Document.RoundTrip
import WireQuery.Proofs.Typings.Names
import WireQuery.Proofs.Typings.Scalars

/-!
# The declarations of a query can be read

The members of declarations have the keys of the specification or the names of variables, which
compiling has checked. So declarations whose names can be declared are read back from their text.
-/

namespace WireQuery.Typings
set_option autoImplicit false

open TypeScript (isTypeName isIdentifier)

/-- The levels and members of a part of a shape can be read back. -/
structure Declared.Readable (d : Declared) : Prop where
  levels : ∀ level ∈ d.levels, level.Readable
  members : ∀ member ∈ d.members, member.Readable

namespace Declared.Readable

theorem level {inner : Declared} {aliasName name key : String} (h : inner.Readable)
    (named : isTypeName aliasName = true) (declared : isTypeName name = true)
    (hkey : isIdentifier key = true) (used : List String) :
    Readable ⟨inner.levels ++ [.interface name inner.members],
      [⟨key, .nested aliasName name, false⟩], used⟩ where
  levels := by
    refine List.forall_mem_append.mpr ⟨h.levels, ?_⟩
    intro level hlevel
    rw [List.mem_singleton.mp hlevel]
    exact ⟨declared, h.members⟩
  members := by
    intro member hmember
    rw [List.mem_singleton.mp hmember]
    exact ⟨hkey, .plain (.nested named declared)⟩

theorem append {first others : Declared} (hfirst : first.Readable) (hothers : others.Readable)
    (used : List String) :
    Readable ⟨first.levels ++ others.levels, first.members ++ others.members, used⟩ :=
  ⟨List.forall_mem_append.mpr ⟨hfirst.levels, hothers.levels⟩,
    List.forall_mem_append.mpr ⟨hfirst.members, hothers.members⟩⟩

end Declared.Readable

theorem readable_leafMember (choices : Choices) {key : String} (hkey : isIdentifier key = true)
    (leaf : Leaf) : (leafMember choices key leaf).Readable := by
  cases leaf with
  | typed type kind => exact ⟨hkey, written_ofType kind type⟩
  | untyped descriptor => exact ⟨hkey, .plain .unknown⟩

section
variable (table : ScalarTable)

theorem any_isNested_cons {key : String} {node : Node} {rest : List (String × Node)} :
    (Node.shape table ((key, node) :: rest)).any (fun slot => slot.content.isNested) = true ↔
      (node.content table).isNested = true ∨
        (Node.shape table rest).any (fun slot => slot.content.isNested) = true := by
  rw [Node.shape, List.any_cons, Bool.or_eq_true]

variable (choices : Choices) (aliasName : String)

open Requirement in
mutual

theorem readable_declareContent (path : List String) (parent key : String)
    (hkey : isIdentifier key = true) : ∀ (node : Node) (used : List String),
      Met (ofNode path key node) →
      ((node.content table).isNested = true → isTypeName aliasName = true) →
      (∀ level ∈ (declareContent choices aliasName parent key used (node.content table)).levels,
        isTypeName level.name = true) →
      (declareContent choices aliasName parent key used (node.content table)).Readable
  | .scalar call descriptor, used, _, _, _ =>
    { levels := nofun
      members := by
        intro member hmember
        rw [List.mem_singleton.mp hmember]
        exact readable_leafMember choices hkey _ }
  | .group call children, used, met, named, names => by
    have hlevels := List.forall_mem_append.mp names
    have hname := hlevels.2 _ (List.mem_singleton_self _)
    have hinner := readable_declareSlots path (freshName used (parent ++ pascalCase key)) children _
      met.right.tail (fun _ => named rfl) hlevels.1
    exact hinner.level (named rfl) hname hkey _

theorem readable_declareSlots (path : List String) (parent : String) :
    ∀ (children : List (String × Node)) (used : List String), Met (ofChildren path children) →
      ((Node.shape table children).any (fun slot => slot.content.isNested) = true →
        isTypeName aliasName = true) →
      (∀ level ∈ (declareSlots choices aliasName parent used (Node.shape table children)).levels,
        isTypeName level.name = true) →
      (declareSlots choices aliasName parent used (Node.shape table children)).Readable
  | [], used, _, _, _ => ⟨nofun, nofun⟩
  | (key, node) :: rest, used, met, named, names => by
    have hlevels := List.forall_mem_append.mp names
    have hkey := TypeScript.isIdentifier_of_isValid
      (met.names _ key (List.mem_append_left _ List.mem_cons_self))
    have hfirst := readable_declareContent (path ++ [key]) parent key hkey node used met.left.tail
      (fun hnested => named ((any_isNested_cons table).mpr (Or.inl hnested)))
      hlevels.1
    have hothers := readable_declareSlots path parent rest _ met.right
      (fun hnested => named ((any_isNested_cons table).mpr (Or.inr hnested)))
      hlevels.2
    exact hfirst.append hothers _

end

end

section
variable {root : Group} {operationName : Option String} {table : ScalarTable} {query : Query}
  {choices : Choices}

theorem readable_variablesPart (compiled : root.compile operationName table = .ok query)
    (named : ∀ d ∈ (variablesPart query choices).levels, isTypeName d.name = true) :
    ∀ d ∈ (variablesPart query choices).levels, d.Readable := by
  intro d hd
  have hname := named d hd
  unfold variablesPart at hd
  split at hd
  · cases hd
  · rw [List.mem_singleton.mp hd] at hname ⊢
    simp only [Declaration.name] at hname
    refine ⟨hname, ?_⟩
    intro member hmember
    obtain ⟨v, hv, rfl⟩ := List.mem_map.mp hmember
    have hwell := Group.definition_wellFormed compiled v hv
    exact ⟨TypeScript.isIdentifier_of_isValid hwell.name, written_ofType _ v.type⟩

theorem readable_aliasPart
    (named : ∀ d ∈ (aliasPart query choices).levels, isTypeName d.name = true) :
    ∀ d ∈ (aliasPart query choices).levels, d.Readable := by
  intro d hd
  have hname := named d hd
  unfold aliasPart at hd
  split at hd
  · rw [List.mem_singleton.mp hd] at hname ⊢
    exact hname
  · cases hd

theorem nestedAlias_mem (h : query.shape.any (fun slot => slot.content.isNested) = true) :
    .nestedAlias (aliasName query choices) ∈ (aliasPart query choices).levels := by
  rw [aliasPart, if_pos h]
  exact List.mem_singleton_self _

theorem readable_declarations (compiled : root.compile operationName table = .ok query)
    (named : ∀ d ∈ declarations query choices, isTypeName d.name = true) :
    ∀ d ∈ declarations query choices, d.Readable := by
  rw [declarations_eq] at named ⊢
  simp only [List.forall_mem_append, List.forall_mem_singleton] at named ⊢
  obtain ⟨⟨⟨hvariables, halias⟩, hlevels⟩, hroot⟩ := named
  have met := (Group.met_of_compile compiled).right.tail
  have hshape : query.shape = Node.shape table root.children := by
    obtain ⟨_, _, -, -, rfl⟩ := Group.exists_of_compile compiled
    rfl
  have hdeclared : (levelsPart query choices).Readable := by
    unfold levelsPart at hlevels ⊢
    rw [hshape] at hlevels ⊢
    apply readable_declareSlots table choices _ [] _ root.children _ met _ hlevels
    intro hnested
    rw [← hshape] at hnested
    simpa only [Declaration.name] using halias _ (nestedAlias_mem hnested)
  exact ⟨⟨⟨readable_variablesPart compiled hvariables, readable_aliasPart halias⟩,
    hdeclared.levels⟩, hroot, hdeclared.members⟩

end

end WireQuery.Typings
