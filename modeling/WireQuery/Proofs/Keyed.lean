import WireQuery.Keyed

/-!
# Lookups in keyed lists

A lookup is a search for the first entry of a key. Sorting entries with distinct keys changes no
lookup. A search among elements that ascend finds the least.
-/

namespace WireQuery.Keyed
set_option autoImplicit false

variable {α : Type}

theorem lookup_eq_find? (key : String) (entries : List (String × α)) :
    entries.lookup key = (entries.find? fun entry => key == entry.1).map Prod.snd := by
  induction entries with
  | nil => rfl
  | cons entry rest ih =>
    rw [List.lookup_cons, List.find?_cons, ih]
    cases key == entry.1 <;> rfl

theorem lookup_cons_eq (key : String) (entry : String × α) (rest : List (String × α)) :
    (entry :: rest).lookup key = if key = entry.1 then some entry.2 else rest.lookup key := by
  rw [List.lookup_cons]
  by_cases h : key = entry.1
  · rw [beq_iff_eq.mpr h, if_pos h]
  · rw [beq_eq_false_iff_ne.mpr h, if_neg h]

@[simp] theorem lookup_insertSorted (key k : String) (value : α) (entries : List (String × α)) :
    (insertSorted key value entries).lookup k =
      if k = key then some value else entries.lookup k := by
  induction entries with
  | nil => exact lookup_cons_eq k (key, value) []
  | cons entry rest ih =>
    obtain ⟨k', v⟩ := entry
    unfold insertSorted
    split
    · next h =>
      subst h
      rw [lookup_cons_eq, lookup_cons_eq]
      by_cases hk : k = k'
      · rw [if_pos hk, if_pos hk]
      · rw [if_neg hk, if_neg hk, if_neg hk]
    · next hne =>
      split
      · exact lookup_cons_eq k (key, value) _
      · rw [lookup_cons_eq, lookup_cons_eq, ih]
        by_cases hk : k = key
        · have hdiffers : k ≠ k' := fun h => hne (h.symm.trans hk)
          rw [if_neg hdiffers, if_pos hk, if_pos hk]
        · rw [if_neg hk, if_neg hk]

theorem lookup_eq_none_of_not_mem {key : String} {entries : List (String × α)}
    (h : key ∉ keys entries) : entries.lookup key = none := by
  apply List.lookup_eq_none_iff.mpr
  intro entry hentry
  apply bne_iff_ne.mpr
  rintro rfl
  exact h (List.mem_map_of_mem hentry)

theorem exists_lookup_of_mem {key : String} {value : α} {entries : List (String × α)}
    (h : (key, value) ∈ entries) : ∃ found, entries.lookup key = some found := by
  cases hlookup : entries.lookup key with
  | some found => exact ⟨found, rfl⟩
  | none =>
    have hne := List.lookup_eq_none_iff.mp hlookup _ h
    simp at hne

theorem mem_of_lookup {key : String} {value : α} {entries : List (String × α)}
    (h : entries.lookup key = some value) : (key, value) ∈ entries := by
  obtain ⟨front, back, heq, -⟩ := List.lookup_eq_some_iff.mp h
  rw [heq]
  exact List.mem_append_right front List.mem_cons_self

theorem lookup_eq_some_of_mem {entries : List (String × α)} (h : DistinctKeys entries)
    {entry : String × α} (hentry : entry ∈ entries) : entries.lookup entry.1 = some entry.2 := by
  induction entries with
  | nil => cases hentry
  | cons first rest ih =>
    obtain ⟨hfirst, hrest⟩ := List.nodup_cons.mp h
    rw [lookup_cons_eq]
    rcases List.mem_cons.mp hentry with rfl | hentry
    · rw [if_pos rfl]
    · have hne : entry.1 ≠ first.1 := by
        intro heq
        rw [← heq] at hfirst
        exact hfirst (List.mem_map_of_mem hentry)
      rw [if_neg hne, ih hrest hentry]

/-- A search by key finds the one element that has it. -/
theorem find?_eq_some_of_mem {key : α → String} {xs : List α} (h : (xs.map key).Nodup) {x : α}
    (hx : x ∈ xs) : xs.find? (fun y => key y == key x) = some x := by
  induction xs with
  | nil => cases hx
  | cons first rest ih =>
    obtain ⟨hfirst, hrest⟩ := List.nodup_cons.mp h
    rcases List.mem_cons.mp hx with rfl | hx
    · exact List.find?_cons_of_pos (beq_self_eq_true _)
    · have hne : key first ≠ key x := by
        intro heq
        rw [heq] at hfirst
        exact hfirst (List.mem_map_of_mem hx)
      rw [List.find?_cons, beq_eq_false_iff_ne.mpr hne]
      exact ih hrest hx

/-- Where elements ascend, a search finds the least of those that it looks for. -/
theorem find?_eq_some_of_pairwise {lt : α → α → Prop} {xs : List α} (h : xs.Pairwise lt)
    (irrefl : ∀ a, ¬ lt a a) (trans : ∀ {a b c}, lt a b → lt b c → lt a c) {P : α → Bool} {x : α} :
    xs.find? P = some x ↔ x ∈ xs ∧ P x = true ∧ ∀ y ∈ xs, P y = true → ¬ lt y x := by
  induction xs with
  | nil => simp
  | cons a rest ih =>
    obtain ⟨hfirst, hrest⟩ := List.pairwise_cons.mp h
    by_cases ha : P a = true
    · rw [List.find?_cons_of_pos ha]
      constructor
      · intro heq
        cases heq
        refine ⟨List.mem_cons_self, ha, ?_⟩
        intro y hy _ hlt
        rcases List.mem_cons.mp hy with rfl | hy
        · exact irrefl _ hlt
        · exact irrefl _ (trans hlt (hfirst y hy))
      · rintro ⟨hx, _, hleast⟩
        rcases List.mem_cons.mp hx with rfl | hx
        · rfl
        · exact absurd (hfirst x hx) (hleast a List.mem_cons_self ha)
    · rw [List.find?_cons_of_neg ha, ih hrest]
      constructor
      · rintro ⟨hx, hPx, hleast⟩
        refine ⟨List.mem_cons_of_mem a hx, hPx, ?_⟩
        intro y hy hPy
        rcases List.mem_cons.mp hy with rfl | hy
        · exact absurd hPy ha
        · exact hleast y hy hPy
      · rintro ⟨hx, hPx, hleast⟩
        rcases List.mem_cons.mp hx with rfl | hx
        · exact absurd hPx ha
        · exact ⟨hx, hPx, fun y hy => hleast y (List.mem_cons_of_mem a hy)⟩

theorem lookup_sort {entries : List (String × α)} (h : DistinctKeys entries) (key : String) :
    (sort entries).lookup key = entries.lookup key := by
  suffices ∀ built : List (String × α),
      (entries.foldl (fun built entry => insertSorted entry.1 entry.2 built) built).lookup key =
        (entries.lookup key).or (built.lookup key) by
    have hsort := this []
    rw [List.lookup_nil, Option.or_none] at hsort
    exact hsort
  induction entries with
  | nil =>
    intro built
    simp
  | cons entry rest ih =>
    intro built
    obtain ⟨hfirst, hrest⟩ := List.nodup_cons.mp h
    rw [List.foldl_cons, ih hrest, lookup_insertSorted, lookup_cons_eq]
    by_cases hk : key = entry.1
    · rw [hk, lookup_eq_none_of_not_mem hfirst, if_pos rfl, if_pos rfl, Option.none_or,
        Option.some_or]
    · rw [if_neg hk, if_neg hk]

end WireQuery.Keyed
