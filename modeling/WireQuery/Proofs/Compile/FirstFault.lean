import WireQuery.Proofs.Compile.FirstUse

/-!
# The first fault

The requirements are checked in the order of their places. Each is refused exactly for its fault,
so a check of the tree fails with the fault at the least place.
-/

namespace WireQuery
set_option autoImplicit false

namespace Group

open Requirement

variable {root : Group}

theorem check_selects_eq_error_iff {uses : VariableUses} {path : List String}
    {children : List (String × Node)} {e : CompileError} :
    check uses (.selects path children) = .error e ↔ root.Fault (.selects path children) e := by
  cases children with
  | nil =>
    constructor
    · rintro ⟨⟩
      exact .empty path
    · rintro ⟨⟩
      rfl
  | cons child others => constructor <;> rintro ⟨⟩

theorem check_valid_eq_error_iff {uses : VariableUses} {role : NameRole} {name : String}
    {e : CompileError} :
    check uses (.valid role name) = .error e ↔ root.Fault (.valid role name) e := by
  simp only [check, checkName]
  constructor
  · intro h
    split at h
    · cases h
    · next invalid =>
      cases h
      exact .name (Bool.eq_false_iff.mpr invalid)
  · intro h
    cases h with
    | name invalid =>
      rw [invalid]
      rfl

/-- After the requirements before it, a requirement is refused exactly for its fault. -/
theorem check_eq_error_iff {before rest : List Placed} {place : Place} {r : Requirement}
    (hsplit : root.placed = before ++ (place, r) :: rest) {uses : VariableUses}
    (hbefore : checkAll .empty (before.map Prod.snd) = .ok uses) {e : CompileError} :
    check uses r = .error e ↔ root.Fault r e := by
  cases r with
  | selects path children => exact check_selects_eq_error_iff
  | valid role name => exact check_valid_eq_error_iff
  | reference v =>
    change bareName v >>= (fun bare => uses.record bare v.descriptor) = .error e ↔ _
    rw [Outcome.bind_eq_error, bareName_eq_error]
    constructor
    · rintro ((⟨hnone, rfl⟩ | ⟨bare, hbare, hinvalid, rfl⟩) | ⟨bare, hok, hrecord⟩)
      · exact .sigil hnone
      · exact .bareName hbare hinvalid
      · obtain ⟨hbare, hvalid⟩ := bareName_eq_ok.mp hok
        obtain ⟨first, hget, hne, rfl⟩ := VariableUses.record_eq_error.mp hrecord
        exact .conflict hbare hvalid ((get?_ne_iff hsplit hbefore hbare hne).mp hget) hne
    · intro h
      cases h with
      | sigil missing => exact Or.inl (Or.inl ⟨missing, rfl⟩)
      | bareName named invalid => exact Or.inl (Or.inr ⟨_, named, invalid, rfl⟩)
      | conflict named valid known differs =>
        have hget := (get?_ne_iff hsplit hbefore named differs).mpr known
        exact Or.inr ⟨_, bareName_eq_ok.mpr ⟨named, valid⟩,
          VariableUses.record_eq_error.mpr ⟨_, hget, differs, rfl⟩⟩

theorem not_fault_of_mem {before rest : List Placed} (hsplit : root.placed = before ++ rest)
    {uses : VariableUses} (hbefore : checkAll .empty (before.map Prod.snd) = .ok uses)
    {place : Place} {r : Requirement} (hmem : (place, r) ∈ before) {e : CompileError} :
    ¬ root.Fault r e := by
  intro hfault
  obtain ⟨front, back, rfl⟩ := List.append_of_mem hmem
  rw [List.map_append, List.map_cons] at hbefore
  obtain ⟨s, t, hfront, hok⟩ := Outcome.exists_of_foldlM_eq_ok hbefore
  rw [List.append_assoc, List.cons_append] at hsplit
  rw [(check_eq_error_iff hsplit hfront).mpr hfault] at hok
  cases hok

theorem not_fault_of_checkAll {uses : VariableUses}
    (h : checkAll .empty (root.placed.map Prod.snd) = .ok uses) {place : Place} {r : Requirement}
    (required : RequiredAt [] root.children place r) (e : CompileError) : ¬ root.Fault r e :=
  not_fault_of_mem (List.append_nil _).symm h (mem_placed.mpr required)

theorem exists_fault_of_checkAll {e : CompileError}
    (h : checkAll .empty (root.placed.map Prod.snd) = .error e) :
    ∃ place r, RequiredAt [] root.children place r ∧ root.Fault r e ∧
      ∀ place' r' e', RequiredAt [] root.children place' r' → root.Fault r' e' →
        ¬ place' < place := by
  obtain ⟨before, r, rest, uses, hmap, hbefore, hr⟩ := Outcome.exists_of_foldlM_eq_error h
  obtain ⟨front, tail, hsplit, hfront, htail⟩ := List.map_eq_append_iff.mp hmap
  obtain ⟨⟨place, r'⟩, back, htail', rfl, -⟩ := List.map_eq_cons_iff.mp htail
  rw [← hfront] at hbefore
  rw [htail'] at hsplit
  refine ⟨place, r', ?_, (check_eq_error_iff hsplit hbefore).mp hr, ?_⟩
  · apply mem_placed.mp
    rw [hsplit]
    exact List.mem_append_right front List.mem_cons_self
  · intro place' r'' e' required hfault hlt
    have hmem := mem_placed.mpr required
    have hascending := root.ascending_placed
    rw [hsplit] at hmem hascending
    obtain ⟨-, hback, -⟩ := List.pairwise_append.mp hascending
    rcases List.mem_append.mp hmem with hin | hin
    · exact not_fault_of_mem hsplit hbefore hin hfault
    · rcases List.mem_cons.mp hin with heq | hin
      · cases heq
        exact List.lt_irrefl _ hlt
      · have hgt : place < place' := (List.pairwise_cons.mp hback).1 _ hin
        exact List.lt_irrefl _ (List.lt_trans hlt hgt)

theorem fault_unique {r : Requirement} {e e' : CompileError} (h : root.Fault r e)
    (h' : root.Fault r e') : e = e' := by
  cases h with
  | empty path =>
    cases h'
    rfl
  | name invalid =>
    cases h'
    rfl
  | sigil missing =>
    cases h' with
    | sigil missing' => rfl
    | bareName named' invalid' => simp [missing] at named'
    | conflict named' valid' known' differs' => simp [missing] at named'
  | bareName named invalid =>
    cases h' with
    | sigil missing' => simp [missing'] at named
    | bareName named' invalid' =>
      rw [named] at named'
      cases named'
      rfl
    | conflict named' valid' known' differs' =>
      rw [named] at named'
      cases named'
      simp [invalid] at valid'
  | conflict named valid known differs =>
    cases h' with
    | sigil missing' => simp [missing'] at named
    | bareName named' invalid' =>
      rw [named] at named'
      cases named'
      simp [valid] at invalid'
    | conflict named' valid' known' differs' =>
      rw [named] at named'
      cases named'
      rw [firstDescriptor_unique known known']

end Group

end WireQuery
