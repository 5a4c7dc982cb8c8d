import WireQuery.Proofs.Typings.Names

/-!
# How declarations get their names

The declarations of a query ask for one name after another: for the root, for the variables, for the
alias, and for each level before the levels inside it. Each time the name that is given is added to
the names in use, and nothing else is. So the names of all declarations are the fresh names for the
bases that are asked for.
-/

namespace WireQuery.Typings
set_option autoImplicit false

mutual

/-- The bases that names are asked for as a content is declared, in this order. -/
def contentBases (parent key : String) (used : List String) : Content → List String
  | .leaf _ => []
  | .nested slots =>
    let base := parent ++ pascalCase key
    base :: slotsBases (freshName used base) (freshName used base :: used) slots

def slotsBases (parent : String) (used : List String) : List (Slot Content) → List String
  | [] => []
  | slot :: rest =>
    let first := contentBases parent slot.key used slot.content
    first ++ slotsBases parent ((freshNames used first).reverse ++ used) rest

end

/-- The bases that names are asked for as a query is declared, in this order. -/
def declarationBases (query : Query) (choices : Choices) : List String :=
  let root := rootName query choices
  let variablesBases :=
    if query.document.definitions.isEmpty then []
    else [choices.variablesName.getD (root ++ "Variables")]
  let aliasBases := if query.shape.any (fun slot => slot.content.isNested) then ["Nested"] else []
  let first := root :: (variablesBases ++ aliasBases)
  first ++ slotsBases root (freshNames [] first).reverse query.shape

/-- The names of what is declared are those for the bases, and they alone come into use. -/
structure Declared.Takes (used bases : List String) (d : Declared) : Prop where
  names : (d.levels.map Declaration.name).Perm (freshNames used bases)
  used_eq : d.used = (freshNames used bases).reverse ++ used

namespace Declared.Takes

variable {used : List String}

theorem nothing (members : List Member) : Takes used [] ⟨[], members, used⟩ := ⟨.nil, rfl⟩

theorem single {declaration : Declaration} {base : String}
    (named : declaration.name = freshName used base) :
    Takes used [base] ⟨[declaration], [], freshName used base :: used⟩ where
  names := .of_eq (congrArg (fun name => [name]) named)
  used_eq := rfl

/-- A level is named before the levels inside it. -/
theorem level {inner : Declared} {base : String} {bases : List String}
    (members members' : List Member) (hinner : Takes (freshName used base :: used) bases inner) :
    Takes used (base :: bases)
      ⟨inner.levels ++ [.interface (freshName used base) members], members', inner.used⟩ where
  names := by
    rw [List.map_append, List.map_singleton]
    exact (List.perm_append_singleton _ _).trans (hinner.names.cons _)
  used_eq := by
    rw [hinner.used_eq, freshNames, List.reverse_cons, List.append_assoc]
    rfl

theorem append {first others : Declared} {bases bases' : List String}
    (hfirst : Takes used bases first) (hothers : Takes first.used bases' others) :
    Takes used (bases ++ bases')
      ⟨first.levels ++ others.levels, first.members ++ others.members, others.used⟩ where
  names := by
    rw [List.map_append, freshNames_append, ← hfirst.used_eq]
    exact hfirst.names.append hothers.names
  used_eq := by
    rw [hothers.used_eq, freshNames_append, ← hfirst.used_eq, List.reverse_append,
      List.append_assoc, ← hfirst.used_eq]

end Declared.Takes

mutual

theorem takes_declareContent (choices : Choices) (aliasName parent key : String)
    (used : List String) : ∀ content : Content,
      (declareContent choices aliasName parent key used content).Takes used
        (contentBases parent key used content)
  | .leaf _ => .nothing _
  | .nested slots =>
    .level _ _ (takes_declareSlots choices aliasName (freshName used (parent ++ pascalCase key))
      (freshName used (parent ++ pascalCase key) :: used) slots)

theorem takes_declareSlots (choices : Choices) (aliasName parent : String) (used : List String) :
    ∀ slots : List (Slot Content), (declareSlots choices aliasName parent used slots).Takes used
      (slotsBases parent used slots)
  | [] => .nothing []
  | ⟨key, responseKey, content⟩ :: rest => by
    have hfirst := takes_declareContent choices aliasName parent key used content
    have hbases : slotsBases parent used (⟨key, responseKey, content⟩ :: rest) =
        contentBases parent key used content ++ slotsBases parent
          (declareContent choices aliasName parent key used content).used rest := by
      rw [slotsBases, hfirst.used_eq]
    rw [hbases]
    exact hfirst.append (takes_declareSlots choices aliasName parent _ rest)

end

variable (query : Query) (choices : Choices)

theorem takes_variablesPart :
    (variablesPart query choices).Takes [rootName query choices]
      (if query.document.definitions.isEmpty then []
        else [choices.variablesName.getD (rootName query choices ++ "Variables")]) := by
  unfold variablesPart
  split
  · exact .nothing []
  · exact .single rfl

theorem takes_aliasPart :
    (aliasPart query choices).Takes (variablesPart query choices).used
      (if query.shape.any (fun slot => slot.content.isNested) then ["Nested"] else []) := by
  unfold aliasPart
  split
  · exact .single rfl
  · exact .nothing []

/-- The names of all declarations are given one after another, from no names in use. -/
theorem perm_freshNames :
    ((declarations query choices).map Declaration.name).Perm
      (freshNames [] (declarationBases query choices)) := by
  have hfirst := (takes_variablesPart query choices).append (takes_aliasPart query choices)
  have hlevels : (levelsPart query choices).Takes (aliasPart query choices).used _ :=
    takes_declareSlots _ _ _ _ query.shape
  have hnames := (hfirst.append hlevels).names
  rw [hfirst.used_eq] at hnames
  have hroot : freshName [] (rootName query choices) = rootName query choices :=
    freshName_of_not_mem List.not_mem_nil
  rw [declarations_eq, List.map_append, List.map_singleton, declarationBases]
  rw [List.cons_append, freshNames, freshNames, hroot, List.reverse_cons]
  exact (List.perm_append_singleton _ _).trans (hnames.cons _)

/-- A fresh name is not in use. It is the base itself if this is free, and otherwise the base with
the least number from two on that makes it free, at which counting up ends. So names that are given
one after another are all different, whatever their bases are. Declaring levels gives names in this
way: the names that are given come into use, and no others. -/
theorem freshName_exact (used : List String) :
    (∀ base, freshName used base ∉ used ∧
      (base ∉ used ∧ freshName used base = base ∨
        base ∈ used ∧ ∃ k, CountsUp used base 2 k ∧ freshName used base = base ++ k.repr ∧
          2 ≤ k ∧ k ≤ used.length + 2 ∧ ∀ j, 2 ≤ j → base ++ j.repr ∉ used → k ≤ j)) ∧
    (∀ bases, (freshNames used bases).Nodup ∧ ∀ name ∈ freshNames used bases, name ∉ used) ∧
    (∀ choices aliasName parent slots,
      (declareSlots choices aliasName parent used slots).used =
        (freshNames used (slotsBases parent used slots)).reverse ++ used) ∧
    ∀ query choices, ((declarations query choices).map Declaration.name).Perm
      (freshNames [] (declarationBases query choices)) := by
  refine ⟨?_, ?_, ?_, perm_freshNames⟩
  · intro base
    refine ⟨freshName_not_mem used base, ?_⟩
    by_cases h : base ∈ used
    · obtain ⟨k, hbound, counts⟩ := countsUp_ends used base
      obtain ⟨hle, -, hleast⟩ := counts.least
      exact Or.inr ⟨h, k, counts, freshName_of_countsUp h counts, hle, hbound, hleast⟩
    · exact Or.inl ⟨h, freshName_of_not_mem h⟩
  · intro bases
    exact ⟨freshNames_nodup used bases, fun _ => not_mem_of_mem_freshNames⟩
  · intro choices aliasName parent slots
    exact (takes_declareSlots choices aliasName parent used slots).used_eq

/-- A base may look like a name that has been given a number before. -/
example : freshNames [] ["A", "A", "A2"] = ["A", "A2", "A22"] := by decide

end WireQuery.Typings
