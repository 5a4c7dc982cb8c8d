/-!
# Keyed lists

A keyed list holds values under distinct keys in a fixed order. Two ways of adding an entry are
used: `insert` keeps the order of first arrival, `insertSorted` keeps the keys ascending by code
points. Either way a key that is already present takes the new value. Lookup is `List.lookup`.
-/

namespace WireQuery.Keyed
set_option autoImplicit false

variable {α : Type}

def keys (entries : List (String × α)) : List String := entries.map Prod.fst

/-- No key occurs twice. -/
def DistinctKeys (entries : List (String × α)) : Prop := (keys entries).Nodup

instance (entries : List (String × α)) : Decidable (DistinctKeys entries) :=
  inferInstanceAs (Decidable (keys entries).Nodup)

/-- The keys ascend, so none occurs twice. -/
def Ascending (entries : List (String × α)) : Prop := (keys entries).Pairwise (· < ·)

/-- Puts `value` under `key`: at the key's place if it is present, otherwise at the end. -/
def insert (key : String) (value : α) : List (String × α) → List (String × α)
  | [] => [(key, value)]
  | (k, v) :: rest =>
    if k = key then (k, value) :: rest else (k, v) :: insert key value rest

/-- A repeated key keeps its first place and takes its last value. -/
def ofList (entries : List (String × α)) : List (String × α) :=
  entries.foldl (fun built entry => insert entry.1 entry.2 built) []

/-- Puts `value` under `key` in a list whose keys ascend. -/
def insertSorted (key : String) (value : α) : List (String × α) → List (String × α)
  | [] => [(key, value)]
  | (k, v) :: rest =>
    if k = key then (k, value) :: rest
    else if key < k then (key, value) :: (k, v) :: rest
    else (k, v) :: insertSorted key value rest

/-- The entries by ascending key; a repeated key takes its last value. -/
def sort (entries : List (String × α)) : List (String × α) :=
  entries.foldl (fun built entry => insertSorted entry.1 entry.2 built) []

@[simp] theorem keys_nil : keys ([] : List (String × α)) = [] := rfl

@[simp] theorem keys_cons (entry : String × α) (rest : List (String × α)) :
    keys (entry :: rest) = entry.1 :: keys rest := rfl

@[simp] theorem keys_append (before rest : List (String × α)) :
    keys (before ++ rest) = keys before ++ keys rest :=
  List.map_append

@[simp] theorem length_keys (entries : List (String × α)) :
    (keys entries).length = entries.length :=
  List.length_map _

@[simp] theorem nodup_keys {entries : List (String × α)} :
    (keys entries).Nodup ↔ DistinctKeys entries :=
  Iff.rfl

@[simp] theorem distinctKeys_nil : DistinctKeys ([] : List (String × α)) := List.nodup_nil

@[simp] theorem distinctKeys_cons {entry : String × α} {rest : List (String × α)} :
    DistinctKeys (entry :: rest) ↔ entry.1 ∉ keys rest ∧ DistinctKeys rest :=
  List.nodup_cons

@[simp] theorem mem_keys_insert {key k : String} {value : α} {entries : List (String × α)} :
    k ∈ keys (insert key value entries) ↔ k = key ∨ k ∈ keys entries := by
  induction entries with
  | nil => simp [insert]
  | cons entry rest ih =>
    obtain ⟨k', v⟩ := entry
    by_cases h : k' = key
    · simp [insert, h]
    · simp [insert, h, ih, or_left_comm]

theorem distinctKeys_insert {key : String} {value : α} {entries : List (String × α)}
    (h : DistinctKeys entries) : DistinctKeys (insert key value entries) := by
  induction entries with
  | nil => simp [insert]
  | cons entry rest ih =>
    obtain ⟨k, v⟩ := entry
    obtain ⟨hfresh, hrest⟩ := distinctKeys_cons.mp h
    by_cases hk : k = key
    · subst hk
      simp [insert, hfresh, hrest]
    · simp [insert, hk, hfresh, ih hrest]

theorem distinctKeys_ofList (entries : List (String × α)) : DistinctKeys (ofList entries) := by
  suffices ∀ built : List (String × α), DistinctKeys built →
      DistinctKeys (entries.foldl (fun built entry => insert entry.1 entry.2 built) built) from
    this [] distinctKeys_nil
  induction entries with
  | nil => exact fun _ h => h
  | cons entry rest ih => exact fun _ h => ih _ (distinctKeys_insert h)

theorem mem_of_mem_insert {key : String} {value : α} {entries : List (String × α)}
    {entry : String × α} (h : entry ∈ insert key value entries) :
    entry = (key, value) ∨ entry ∈ entries := by
  induction entries with
  | nil => exact Or.inl (List.mem_singleton.mp h)
  | cons first rest ih =>
    obtain ⟨k, v⟩ := first
    unfold insert at h
    split at h
    · next hk =>
      subst hk
      rcases List.mem_cons.mp h with heq | h
      · exact Or.inl heq
      · exact Or.inr (List.mem_cons_of_mem _ h)
    · rcases List.mem_cons.mp h with heq | h
      · rw [heq]
        exact Or.inr List.mem_cons_self
      · rcases ih h with heq | h
        · exact Or.inl heq
        · exact Or.inr (List.mem_cons_of_mem _ h)

/-- What is put together entry by entry has no others. -/
theorem mem_of_mem_foldl {put : String → α → List (String × α) → List (String × α)}
    (hput : ∀ {key : String} {value : α} {entries : List (String × α)} {entry : String × α},
      entry ∈ put key value entries → entry = (key, value) ∨ entry ∈ entries)
    {entries : List (String × α)} {entry : String × α}
    (h : entry ∈ entries.foldl (fun built entry => put entry.1 entry.2 built) []) :
    entry ∈ entries := by
  suffices ∀ built : List (String × α),
      entry ∈ entries.foldl (fun built entry => put entry.1 entry.2 built) built →
        entry ∈ entries ∨ entry ∈ built by
    rcases this [] h with h | h
    · exact h
    · cases h
  clear h
  induction entries with
  | nil =>
    intro built h
    exact Or.inr h
  | cons first rest ih =>
    intro built h
    rcases ih _ h with h | h
    · exact Or.inl (List.mem_cons_of_mem first h)
    · rcases hput h with heq | h
      · rw [heq]
        exact Or.inl List.mem_cons_self
      · exact Or.inr h

theorem mem_of_mem_ofList {entries : List (String × α)} {entry : String × α}
    (h : entry ∈ ofList entries) : entry ∈ entries :=
  mem_of_mem_foldl mem_of_mem_insert h

@[simp] theorem lookup_insert (key k : String) (value : α) (entries : List (String × α)) :
    (insert key value entries).lookup k = if k = key then some value else entries.lookup k := by
  induction entries with
  | nil =>
    by_cases h : k = key
    · simp [insert, h]
    · simp [insert, List.lookup_cons, h, beq_eq_false_iff_ne.mpr h]
  | cons entry rest ih =>
    obtain ⟨k', v⟩ := entry
    by_cases hk : k' = key
    · by_cases h : k = key
      · simp [insert, hk, h]
      · simp [insert, hk, h, List.lookup_cons, beq_eq_false_iff_ne.mpr h]
    · by_cases h : k = k'
      · subst h
        simp [insert, hk]
      · simp [insert, hk, List.lookup_cons, beq_eq_false_iff_ne.mpr h, ih]

@[simp] theorem mem_keys_insertSorted {key k : String} {value : α} {entries : List (String × α)} :
    k ∈ keys (insertSorted key value entries) ↔ k = key ∨ k ∈ keys entries := by
  induction entries with
  | nil => simp [insertSorted]
  | cons entry rest ih =>
    obtain ⟨k', v⟩ := entry
    unfold insertSorted
    split
    · next h => simp [h]
    · split
      · simp
      · simp [ih, or_left_comm]

theorem ascending_insertSorted {key : String} {value : α} {entries : List (String × α)}
    (h : Ascending entries) : Ascending (insertSorted key value entries) := by
  induction entries with
  | nil => simp [insertSorted, Ascending]
  | cons entry rest ih =>
    obtain ⟨k, v⟩ := entry
    obtain ⟨hk, hrest⟩ := List.pairwise_cons.mp h
    unfold insertSorted
    split
    · exact List.pairwise_cons.mpr ⟨hk, hrest⟩
    · next hne =>
      split
      · next hlt =>
        refine List.pairwise_cons.mpr ⟨fun k' hm => ?_, h⟩
        rcases List.mem_cons.mp hm with rfl | hm
        · exact hlt
        · exact String.lt_trans hlt (hk k' hm)
      · next hge =>
        refine List.pairwise_cons.mpr ⟨fun k' hm => ?_, ih hrest⟩
        rcases mem_keys_insertSorted.mp hm with rfl | hm
        · apply Classical.byContradiction
          intro hnot
          exact hne (String.le_antisymm (String.not_lt.mp hge) (String.not_lt.mp hnot))
        · exact hk k' hm

theorem ascending_sort (entries : List (String × α)) : Ascending (sort entries) := by
  suffices ∀ built : List (String × α), Ascending built →
      Ascending (entries.foldl (fun built entry => insertSorted entry.1 entry.2 built) built) from
    this [] List.Pairwise.nil
  induction entries with
  | nil => exact fun _ h => h
  | cons entry rest ih => exact fun _ h => ih _ (ascending_insertSorted h)

end WireQuery.Keyed
