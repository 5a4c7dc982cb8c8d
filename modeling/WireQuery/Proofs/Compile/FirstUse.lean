import WireQuery.Proofs.Compile.Enumeration
import WireQuery.Proofs.Compile.Uses

/-!
# First uses

The places of the requirements ascend, so a search among them finds what stands at the least place.
In particular the first mention of a variable carries its first descriptor, and what is recorded
before a reference is checked is that descriptor, if the variable is mentioned before at all.
-/

namespace WireQuery
set_option autoImplicit false

namespace Requirement

variable {xs : List Placed}

theorem find?_eq_some_of_ascending (h : Ascending xs) {P : Placed → Bool} {x : Placed} :
    xs.find? P = some x ↔ x ∈ xs ∧ P x = true ∧ ∀ y ∈ xs, P y = true → ¬ y.1 < x.1 :=
  Keyed.find?_eq_some_of_pairwise h (fun a => List.lt_irrefl a.1) List.lt_trans

theorem eq_of_ascending (h : Ascending xs) {place : Place} {r r' : Requirement}
    (hr : (place, r) ∈ xs) (hr' : (place, r') ∈ xs) : r = r' := by
  induction xs with
  | nil => cases hr
  | cons a rest ih =>
    obtain ⟨hfirst, hrest⟩ := List.pairwise_cons.mp h
    rcases List.mem_cons.mp hr with heq | hmem
    · rcases List.mem_cons.mp hr' with heq' | hmem'
      · rw [← heq] at heq'
        cases heq'
        rfl
      · rw [← heq] at hfirst
        exact absurd (hfirst _ hmem') (List.lt_irrefl _)
    · rcases List.mem_cons.mp hr' with heq' | hmem'
      · rw [← heq'] at hfirst
        exact absurd (hfirst _ hmem) (List.lt_irrefl _)
      · exact ih hrest hmem hmem'

/-- What a search in the mentions finds is mentioned at the least place. -/
theorem find?_mentions (h : Ascending xs) {P : String × String → Bool} {m : String × String} :
    (mentions (xs.map Prod.snd)).find? P = some m ↔
      ∃ place v, (place, reference v) ∈ xs ∧ mention? (reference v) = some m ∧ P m = true ∧
        ∀ place' v' m', (place', reference v') ∈ xs → mention? (reference v') = some m' →
          P m' = true → ¬ place' < place := by
  have hmention : ∀ {r : Requirement} {m : String × String}, mention? r = some m →
      ∃ v, r = reference v := by
    intro r m hr
    cases r with
    | selects path children => cases hr
    | valid role name => cases hr
    | reference v => exact ⟨v, rfl⟩
  have hfind : (mentions (xs.map Prod.snd)).find? P =
      (xs.find? fun x => (mention? x.2).any P).bind fun x => mention? x.2 := by
    rw [mentions, List.filterMap_map, List.find?_filterMap]
    rfl
  rw [hfind, Option.bind_eq_some_iff]
  constructor
  · rintro ⟨⟨place, r⟩, hx, hm⟩
    obtain ⟨hmem, hP, hleast⟩ := (find?_eq_some_of_ascending h).mp hx
    obtain ⟨v, rfl⟩ := hmention hm
    change mention? (reference v) = some m at hm
    refine ⟨place, v, hmem, hm, ?_, ?_⟩
    · rw [hm] at hP
      exact hP
    · intro place' v' m' hmem' hm' hP'
      refine hleast (place', reference v') hmem' ?_
      rw [hm']
      exact hP'
  · rintro ⟨place, v, hmem, hm, hP, hleast⟩
    refine ⟨(place, reference v), (find?_eq_some_of_ascending h).mpr ⟨hmem, ?_, ?_⟩, hm⟩
    · rw [hm]
      exact hP
    · rintro ⟨place', r'⟩ hmem' hP'
      obtain ⟨m', hm', hPm'⟩ := Option.any_eq_true _ _ |>.mp hP'
      obtain ⟨v', rfl⟩ := hmention hm'
      exact hleast place' v' m' hmem' hm' hPm'

end Requirement

namespace Group

open Requirement

variable {root : Group}

def placed (root : Group) : List Placed := placedGroup [] root.children

theorem ascending_placed (root : Group) : Ascending root.placed := ascending_placedGroup [] _

@[simp] theorem mem_placed {place : Place} {r : Requirement} :
    (place, r) ∈ root.placed ↔ RequiredAt [] root.children place r := mem_placedGroup

theorem ofGroup_eq (operationName : Option String) (root : Group) :
    ofGroup operationName root =
      (operationName.map (valid .operation)).toList ++ root.placed.map Prod.snd := by
  rw [placed, map_snd_placedGroup]
  rfl

theorem firstDescriptor_iff {bare first : String} :
    root.FirstDescriptor bare first ↔
      (mentions (root.placed.map Prod.snd)).lookup bare = some first := by
  rw [Keyed.lookup_eq_find?, Option.map_eq_some_iff]
  constructor
  · rintro ⟨place, v, ⟨hrequired, hbare⟩, hfirst, hleast⟩
    refine ⟨(bare, first), (find?_mentions root.ascending_placed).mpr ?_, rfl⟩
    refine ⟨place, v, mem_placed.mpr hrequired, mention?_reference.mpr ⟨hbare, hfirst⟩,
      beq_self_eq_true bare, ?_⟩
    rintro place' v' ⟨bare', descriptor'⟩ hmem hmention hsame
    have hname : bare = bare' := beq_iff_eq.mp hsame
    subst hname
    exact hleast place' v' ⟨mem_placed.mp hmem, (mention?_reference.mp hmention).1⟩
  · rintro ⟨⟨bare', first'⟩, hfind, rfl⟩
    obtain ⟨place, v, hmem, hmention, hsame, hleast⟩ :=
      (find?_mentions root.ascending_placed).mp hfind
    have hname : bare = bare' := beq_iff_eq.mp hsame
    subst hname
    obtain ⟨hbare, hfirst⟩ := mention?_reference.mp hmention
    refine ⟨place, v, ⟨mem_placed.mp hmem, hbare⟩, hfirst, ?_⟩
    rintro place' v' ⟨hrequired, hbare'⟩
    exact hleast place' v' (bare, v'.descriptor) (mem_placed.mpr hrequired)
      (mention?_reference.mpr ⟨hbare', rfl⟩) (beq_self_eq_true bare)

/-- What is recorded before a reference differs from its descriptor exactly if the first descriptor
of the variable does. -/
theorem get?_ne_iff {before rest : List Placed} {place : Place} {v : VariableRef} {bare : String}
    (hsplit : root.placed = before ++ (place, .reference v) :: rest) {uses : VariableUses}
    (hbefore : checkAll .empty (before.map Prod.snd) = .ok uses)
    (hbare : v.bareName? = some bare) {first : String} (hne : first ≠ v.descriptor) :
    uses.get? bare = some first ↔ root.FirstDescriptor bare first := by
  have hmentions : mentions (root.placed.map Prod.snd) =
      mentions (before.map Prod.snd) ++ (bare, v.descriptor) :: mentions (rest.map Prod.snd) := by
    rw [hsplit, List.map_append, mentions_append]
    simp [mentions, mention?, hbare]
  rw [firstDescriptor_iff, hmentions, get?_of_checkAll hbefore, List.lookup_append,
    List.lookup_cons_self]
  cases hknown : (mentions (before.map Prod.snd)).lookup bare with
  | none =>
    simp only [reduceCtorEq, Option.none_or, Option.some.injEq, false_iff]
    exact fun h => hne h.symm
  | some known => simp

theorem firstDescriptor_unique {bare first first' : String}
    (h : root.FirstDescriptor bare first) (h' : root.FirstDescriptor bare first') :
    first = first' := by
  rw [firstDescriptor_iff] at h h'
  rw [h] at h'
  exact Option.some.inj h'

end Group

end WireQuery
