import WireQuery.Compile.Basic
import WireQuery.Proofs.Keyed
import WireQuery.Proofs.Outcome

/-!
# Recorded uses

Checking requirements records the variables that they mention, each with its first descriptor. For
lookups and searches the record is as good as the list of all mentions.
-/

namespace WireQuery
set_option autoImplicit false

theorem VariableRef.bareName?_eq_some {v : VariableRef} {bare : String} :
    v.bareName? = some bare ↔ v.written = "$" ++ bare := by
  unfold VariableRef.bareName?
  rw [← String.toList_inj, String.toList_append]
  split
  · next name hname =>
    rw [hname]
    simp only [Option.some.injEq]
    constructor
    · rintro rfl
      simp
    · intro h
      have hbare : name = bare.toList := by simpa using h
      rw [hbare, String.ofList_toList]
  · next hname =>
    simp only [reduceCtorEq, false_iff]
    intro h
    exact hname bare.toList (by simpa using h)

namespace Requirement

/-- The variable that a requirement mentions, with the descriptor there. -/
def mention? : Requirement → Option (String × String)
  | selects _ _ => none
  | valid _ _ => none
  | reference v => v.bareName?.map fun bare => (bare, v.descriptor)

def mentions (requirements : List Requirement) : List (String × String) :=
  requirements.filterMap mention?

@[simp] theorem mention?_reference {v : VariableRef} {bare descriptor : String} :
    mention? (reference v) = some (bare, descriptor) ↔
      v.bareName? = some bare ∧ v.descriptor = descriptor := by
  simp only [mention?, Option.map_eq_some_iff, Prod.mk.injEq]
  constructor
  · rintro ⟨name, hname, rfl, hdescriptor⟩
    exact ⟨hname, hdescriptor⟩
  · rintro ⟨hname, hdescriptor⟩
    exact ⟨bare, hname, rfl, hdescriptor⟩

@[simp] theorem mentions_append (before rest : List Requirement) :
    mentions (before ++ rest) = mentions before ++ mentions rest :=
  List.filterMap_append

theorem bareName_eq_ok {v : VariableRef} {bare : String} :
    bareName v = .ok bare ↔ v.bareName? = some bare ∧ Name.isValid bare = true := by
  unfold bareName checkName
  cases hbare : v.bareName? with
  | none => simp
  | some name =>
    by_cases hvalid : Name.isValid name = true
    · simp only [hvalid, if_true, bind, Except.bind, pure, Except.pure, Except.ok.injEq,
        Option.some.injEq]
      constructor
      · rintro rfl
        exact ⟨rfl, hvalid⟩
      · exact fun h => h.1
    · simp only [hvalid, bind, Except.bind, Option.some.injEq]
      constructor
      · intro h
        cases h
      · rintro ⟨rfl, h⟩
        exact absurd h hvalid

theorem bareName_eq_error {v : VariableRef} {e : CompileError} :
    bareName v = .error e ↔ v.bareName? = none ∧ e = .missingSigil v.written ∨
      ∃ bare, v.bareName? = some bare ∧ Name.isValid bare = false ∧
        e = .invalidName .variable bare := by
  unfold bareName checkName
  cases hbare : v.bareName? with
  | none =>
    simp only [Except.error.injEq, true_and, reduceCtorEq, false_and, exists_false, or_false]
    exact eq_comm
  | some name =>
    by_cases hvalid : Name.isValid name = true
    · simp [hvalid, bind, Except.bind, pure, Except.pure]
    · simp only [hvalid, bind, Except.bind, reduceCtorEq, false_and, false_or, Option.some.injEq]
      constructor
      · intro h
        cases h
        exact ⟨name, rfl, Bool.eq_false_iff.mpr hvalid, rfl⟩
      · rintro ⟨bare, rfl, -, rfl⟩
        rfl

end Requirement

namespace VariableUses

theorem record_eq_error {uses : VariableUses} {name descriptor : String} {e : CompileError} :
    uses.record name descriptor = .error e ↔ ∃ first, uses.get? name = some first ∧
      first ≠ descriptor ∧ e = .typeConflict name first descriptor := by
  unfold record
  cases hget : uses.get? name with
  | none => simp
  | some known =>
    by_cases hsame : known = descriptor
    · simp [hsame]
    · simp only [if_neg hsame, Except.error.injEq, Option.some.injEq]
      constructor
      · rintro rfl
        exact ⟨known, rfl, hsame, rfl⟩
      · rintro ⟨first, rfl, -, rfl⟩
        rfl

theorem record_eq_ok {uses uses' : VariableUses} {name descriptor : String}
    (h : uses.record name descriptor = .ok uses') :
    uses.get? name = none ∧ uses'.entries = uses.entries ++ [(name, descriptor)] ∨
      uses.get? name = some descriptor ∧ uses' = uses := by
  unfold record at h
  split at h
  · next hnone =>
    cases h
    exact Or.inl ⟨hnone, rfl⟩
  · next first hfirst =>
    split at h
    · next heq =>
      cases h
      subst heq
      exact Or.inr ⟨hfirst, rfl⟩
    · cases h

theorem mem_entries_of_get? {uses : VariableUses} {name descriptor : String}
    (h : uses.get? name = some descriptor) : (name, descriptor) ∈ uses.entries :=
  Keyed.mem_of_lookup h

end VariableUses

namespace Requirement

/-- A repeated entry changes no search. -/
theorem find?_skip {α : Type} {P : α → Bool} {entries rest : List α} {x : α} (h : x ∈ entries) :
    (entries ++ x :: rest).find? P = (entries ++ rest).find? P := by
  rw [List.find?_append, List.find?_append]
  by_cases hx : P x = true
  · have hsome : (entries.find? P).isSome = true := List.find?_isSome.mpr ⟨x, h, hx⟩
    rw [Option.or_of_isSome hsome, Option.or_of_isSome hsome]
  · rw [List.find?_cons_of_neg hx]

/-- A search in the record finds what a search in all mentions finds. -/
theorem find?_entries_of_checkAll {P : String × String → Bool} {requirements : List Requirement}
    {uses uses' : VariableUses} (h : checkAll uses requirements = .ok uses') :
    uses'.entries.find? P = (uses.entries ++ mentions requirements).find? P := by
  induction requirements generalizing uses with
  | nil =>
    cases h
    simp [mentions]
  | cons r rest ih =>
    unfold checkAll at h
    rw [List.foldlM_cons] at h
    obtain ⟨next, hr, hrest⟩ := Outcome.bind_eq_ok.mp h
    rw [ih hrest]
    cases r with
    | selects path children =>
      have hnext : next = uses := by
        simp only [check] at hr
        split at hr <;> cases hr
        rfl
      rw [hnext]
      rfl
    | valid role name =>
      obtain ⟨-, -, hnext⟩ := Outcome.bind_eq_ok.mp hr
      cases hnext
      rfl
    | reference v =>
      obtain ⟨bare, hbare, hrecord⟩ := Outcome.bind_eq_ok.mp hr
      have hmention : mentions (reference v :: rest) = (bare, v.descriptor) :: mentions rest := by
        simp [mentions, mention?, (bareName_eq_ok.mp hbare).1]
      rw [hmention]
      rcases VariableUses.record_eq_ok hrecord with ⟨-, hnext⟩ | ⟨hget, rfl⟩
      · rw [hnext, List.append_assoc]
        rfl
      · exact (find?_skip (VariableUses.mem_entries_of_get? hget)).symm

theorem get?_of_checkAll {requirements : List Requirement} {uses : VariableUses}
    (h : checkAll .empty requirements = .ok uses) (name : String) :
    uses.get? name = (mentions requirements).lookup name := by
  unfold VariableUses.get?
  rw [Keyed.lookup_eq_find?, Keyed.lookup_eq_find?, find?_entries_of_checkAll h]
  rfl

/-- Every recorded use is a mention. -/
theorem mem_mentions_of_checkAll {requirements : List Requirement} {uses : VariableUses}
    (h : checkAll .empty requirements = .ok uses) {entry : String × String}
    (hentry : entry ∈ uses.entries) : entry ∈ mentions requirements := by
  have hfound : (uses.entries.find? (· == entry)).isSome = true :=
    List.find?_isSome.mpr ⟨entry, hentry, beq_self_eq_true entry⟩
  rw [find?_entries_of_checkAll h] at hfound
  obtain ⟨other, hother, heq⟩ := List.find?_isSome.mp hfound
  rw [← eq_of_beq heq]
  exact hother

end Requirement

end WireQuery
