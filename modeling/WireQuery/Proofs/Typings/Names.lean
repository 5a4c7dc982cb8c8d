import WireQuery.Proofs.Typings.FreshName
import WireQuery.Typings.Interfaces

/-!
# Names of declarations

Each level takes a name that is not in use, so no two declarations of a query have the same name.
-/

namespace WireQuery.Typings
set_option autoImplicit false

/-- What is declared beside the names in use: new names, none twice, all of them in use from then
on. -/
structure Declared.Fresh (used : List String) (d : Declared) : Prop where
  distinct : (d.levels.map Declaration.name).Nodup
  new : ∀ level ∈ d.levels, level.name ∉ used
  kept : used ⊆ d.used
  recorded : ∀ level ∈ d.levels, level.name ∈ d.used

namespace Declared.Fresh

variable {used : List String}

theorem leaf (members : List Member) : Fresh used ⟨[], members, used⟩ :=
  ⟨List.nodup_nil, nofun, List.Subset.refl used, nofun⟩

theorem single {declaration : Declaration} {name : String} (named : declaration.name = name)
    (h : name ∉ used) : Fresh used ⟨[declaration], [], name :: used⟩ where
  distinct := List.nodup_singleton _
  new level hlevel := by
    rw [List.mem_singleton.mp hlevel, named]
    exact h
  kept := List.subset_cons_self name used
  recorded level hlevel := by
    rw [List.mem_singleton.mp hlevel, named]
    exact List.mem_cons_self

/-- A level comes behind the levels inside it, with a name of its own. -/
theorem level {inner : Declared} {name : String} (members members' : List Member)
    (hinner : Fresh (name :: used) inner) (hname : name ∉ used) :
    Fresh used ⟨inner.levels ++ [.interface name members], members', inner.used⟩ where
  distinct := by
    rw [List.map_append, List.nodup_append]
    refine ⟨hinner.distinct, List.nodup_singleton _, ?_⟩
    rintro a ha b hb rfl
    obtain ⟨level, hlevel, rfl⟩ := List.mem_map.mp ha
    have hsame := List.mem_singleton.mp hb
    exact hinner.new level hlevel (hsame ▸ List.mem_cons_self)
  new level hlevel := by
    rcases List.mem_append.mp hlevel with hlevel | hlevel
    · exact fun hused => hinner.new level hlevel (List.mem_cons_of_mem name hused)
    · rw [List.mem_singleton.mp hlevel]
      exact hname
  kept := List.Subset.trans (List.subset_cons_self name used) hinner.kept
  recorded level hlevel := by
    rcases List.mem_append.mp hlevel with hlevel | hlevel
    · exact hinner.recorded level hlevel
    · rw [List.mem_singleton.mp hlevel]
      exact hinner.kept List.mem_cons_self

theorem append {first others : Declared} (hfirst : Fresh used first)
    (hothers : Fresh first.used others) :
    Fresh used ⟨first.levels ++ others.levels, first.members ++ others.members, others.used⟩ where
  distinct := by
    rw [List.map_append, List.nodup_append]
    refine ⟨hfirst.distinct, hothers.distinct, ?_⟩
    rintro a ha b hb rfl
    obtain ⟨level, hlevel, rfl⟩ := List.mem_map.mp ha
    obtain ⟨level', hlevel', heq⟩ := List.mem_map.mp hb
    exact hothers.new level' hlevel' (heq ▸ hfirst.recorded level hlevel)
  new level hlevel := by
    rcases List.mem_append.mp hlevel with hlevel | hlevel
    · exact hfirst.new level hlevel
    · exact fun hused => hothers.new level hlevel (hfirst.kept hused)
  kept := List.Subset.trans hfirst.kept hothers.kept
  recorded level hlevel := by
    rcases List.mem_append.mp hlevel with hlevel | hlevel
    · exact hothers.kept (hfirst.recorded level hlevel)
    · exact hothers.recorded level hlevel

end Declared.Fresh

mutual

theorem fresh_declareContent (choices : Choices) (aliasName parent key : String)
    (used : List String) : ∀ content : Content,
      (declareContent choices aliasName parent key used content).Fresh used
  | .leaf leaf => .leaf _
  | .nested slots => by
    have hinner := fresh_declareSlots choices aliasName (freshName used (parent ++ pascalCase key))
      (freshName used (parent ++ pascalCase key) :: used) slots
    exact hinner.level _ _ (freshName_not_mem used _)

theorem fresh_declareSlots (choices : Choices) (aliasName parent : String) (used : List String) :
    ∀ slots : List (Slot Content), (declareSlots choices aliasName parent used slots).Fresh used
  | [] => .leaf []
  | ⟨key, _, content⟩ :: rest => by
    have hfirst := fresh_declareContent choices aliasName parent key used content
    exact hfirst.append (fresh_declareSlots choices aliasName parent _ rest)

end

variable (query : Query) (choices : Choices)

/-- The interface of the variables, or nothing if there are none. -/
def variablesPart : Declared :=
  if query.document.definitions.isEmpty then ⟨[], [], [rootName query choices]⟩
  else
    let name := freshName [rootName query choices]
      (choices.variablesName.getD (rootName query choices ++ "Variables"))
    ⟨[.interface name (query.document.definitions.map (variableMember query.table))], [],
      [name, rootName query choices]⟩

def aliasName : String := freshName (variablesPart query choices).used "Nested"

/-- The alias for nested levels, or nothing if there are none. -/
def aliasPart : Declared :=
  if query.shape.any (fun slot => slot.content.isNested) then
    ⟨[.nestedAlias (aliasName query choices)], [],
      aliasName query choices :: (variablesPart query choices).used⟩
  else ⟨[], [], (variablesPart query choices).used⟩

/-- The levels of the result below the root, with the members of the root. -/
def levelsPart : Declared :=
  declareSlots choices (aliasName query choices) (rootName query choices)
    (aliasPart query choices).used query.shape

theorem declarations_eq : declarations query choices =
    (variablesPart query choices).levels ++ (aliasPart query choices).levels ++
      (levelsPart query choices).levels ++
      [.interface (rootName query choices) (levelsPart query choices).members] := by
  unfold declarations levelsPart aliasPart aliasName variablesPart
  by_cases hvariables : query.document.definitions.isEmpty = true
  · by_cases hnested : query.shape.any (fun slot => slot.content.isNested) = true
    · simp only [hvariables, hnested, if_true]
    · simp only [if_pos hvariables, if_neg hnested]
  · by_cases hnested : query.shape.any (fun slot => slot.content.isNested) = true
    · simp only [if_neg hvariables, if_pos hnested]
    · simp only [if_neg hvariables, if_neg hnested]

theorem fresh_variablesPart :
    (variablesPart query choices).Fresh [rootName query choices] := by
  unfold variablesPart
  split
  · exact .leaf []
  · exact .single rfl (freshName_not_mem _ _)

theorem fresh_aliasPart :
    (aliasPart query choices).Fresh (variablesPart query choices).used := by
  unfold aliasPart
  split
  · exact .single rfl (freshName_not_mem _ _)
  · exact .leaf []

/-- No two declarations of a query have the same name. -/
theorem names_nodup : ((declarations query choices).map Declaration.name).Nodup := by
  have hpreface := (fresh_variablesPart query choices).append (fresh_aliasPart query choices)
  have hlevels : (levelsPart query choices).Fresh (aliasPart query choices).used :=
    fresh_declareSlots _ _ _ _ query.shape
  have hall := hpreface.append hlevels
  rw [declarations_eq, List.map_append, List.map_singleton, List.nodup_append]
  refine ⟨hall.distinct, List.nodup_singleton _, ?_⟩
  rintro a ha b hb rfl
  obtain ⟨level, hlevel, rfl⟩ := List.mem_map.mp ha
  exact hall.new level hlevel hb

end WireQuery.Typings
