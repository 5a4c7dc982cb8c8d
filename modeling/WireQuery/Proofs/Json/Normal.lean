import WireQuery.Proofs.Keyed
import WireQuery.Proofs.Spec.Grammar

/-!
# Normal values

Normalizing a value again changes nothing, and the parts of a normal value are normal. A normal
object gives what its members give, if none is repeated.
-/

namespace WireQuery
set_option autoImplicit false

namespace Keyed

variable {α : Type} {key : String} {value : α} {entries : List (String × α)} {entry : String × α}

theorem mem_of_mem_insertSorted (h : entry ∈ insertSorted key value entries) :
    entry = (key, value) ∨ entry ∈ entries := by
  induction entries with
  | nil => exact Or.inl (List.mem_singleton.mp h)
  | cons first rest ih =>
    obtain ⟨k, v⟩ := first
    unfold insertSorted at h
    split at h
    · next hk =>
      subst hk
      rcases List.mem_cons.mp h with heq | h
      · exact Or.inl heq
      · exact Or.inr (List.mem_cons_of_mem _ h)
    · split at h
      · exact List.mem_cons.mp h
      · rcases List.mem_cons.mp h with heq | h
        · rw [heq]
          exact Or.inr List.mem_cons_self
        · rcases ih h with heq | h
          · exact Or.inl heq
          · exact Or.inr (List.mem_cons_of_mem _ h)

theorem mem_of_mem_sort (h : entry ∈ sort entries) : entry ∈ entries :=
  mem_of_mem_foldl mem_of_mem_insertSorted h

theorem insertSorted_of_lt (h : ∀ k ∈ keys entries, k < key) :
    insertSorted key value entries = entries ++ [(key, value)] := by
  induction entries with
  | nil => rfl
  | cons first rest ih =>
    obtain ⟨k, v⟩ := first
    obtain ⟨hfirst, hrest⟩ := List.forall_mem_cons.mp h
    have hne : k ≠ key := String.ne_of_lt hfirst
    have hge : ¬ key < k := String.lt_asymm hfirst
    rw [insertSorted, if_neg hne, if_neg hge, ih hrest, List.cons_append]

theorem sort_of_ascending (h : Ascending entries) : sort entries = entries := by
  suffices ∀ built : List (String × α), Ascending (built ++ entries) →
      entries.foldl (fun built entry => insertSorted entry.1 entry.2 built) built =
        built ++ entries from
    this [] h
  clear h
  induction entries with
  | nil =>
    intro built _
    exact (List.append_nil built).symm
  | cons first rest ih =>
    intro built h
    have hlast : ∀ k ∈ keys built, k < first.1 := by
      unfold Ascending keys at h
      rw [List.map_append, List.pairwise_append] at h
      intro k hk
      exact h.2.2 k hk first.1 List.mem_cons_self
    rw [List.append_cons] at h
    rw [List.foldl_cons, insertSorted_of_lt hlast, ih _ h, ← List.append_cons]

end Keyed

namespace Json

@[simp] theorem normalizeItems_eq_map (items : List Json) :
    normalizeItems items = items.map normalize := by
  induction items with
  | nil => rfl
  | cons item rest ih => rw [normalizeItems, ih, List.map_cons]

theorem normalizeMembers_eq_map (members : List (String × Json)) :
    normalizeMembers members = members.map fun member => (member.1, member.2.normalize) := by
  induction members with
  | nil => rfl
  | cons member rest ih => rw [normalizeMembers, ih, List.map_cons]

theorem normalizeItems_eq_self {items : List Json} (h : ∀ item ∈ items, item.normalize = item) :
    normalizeItems items = items := by
  rw [normalizeItems_eq_map, List.map_congr_left h, List.map_id']

theorem normalizeMembers_eq_self {members : List (String × Json)}
    (h : ∀ member ∈ members, member.2.normalize = member.2) :
    normalizeMembers members = members := by
  have hmember : ∀ member ∈ members, (member.1, member.2.normalize) = member :=
    fun member hmember => Prod.ext rfl (h member hmember)
  rw [normalizeMembers_eq_map, List.map_congr_left hmember, List.map_id']

@[simp] theorem normalize_idempotent (j : Json) : j.normalize.normalize = j.normalize := by
  induction j using Json.induction with
  | null => rfl
  | bool b => rfl
  | number n => rfl
  | string s => rfl
  | array items ih =>
    have hitems : ∀ item ∈ normalizeItems items, item.normalize = item := by
      rw [normalizeItems_eq_map]
      intro item hitem
      obtain ⟨item, hmem, rfl⟩ := List.mem_map.mp hitem
      exact ih item hmem
    rw [normalize, normalize, normalizeItems_eq_self hitems]
  | object members ih =>
    have hmembers : ∀ member ∈ Keyed.sort (normalizeMembers members),
        member.2.normalize = member.2 := by
      intro member hmember
      have hmem := Keyed.mem_of_mem_sort hmember
      rw [normalizeMembers_eq_map] at hmem
      obtain ⟨member', hmem', rfl⟩ := List.mem_map.mp hmem
      exact ih member' hmem'
    rw [normalize, normalize, normalizeMembers_eq_self hmembers,
      Keyed.sort_of_ascending (Keyed.ascending_sort _)]

theorem normalize_eq_of_mem {items : List Json}
    (normal : (Json.array items).normalize = .array items) {item : Json} (hitem : item ∈ items) :
    item.normalize = item := by
  have heq : normalizeItems items = items := Json.array.inj normal
  rw [← heq, normalizeItems_eq_map] at hitem
  obtain ⟨item, -, rfl⟩ := List.mem_map.mp hitem
  exact normalize_idempotent item

theorem normalize_eq_of_lookup {members : List (String × Json)}
    (normal : (Json.object members).normalize = .object members) {key : String} {j : Json}
    (found : members.lookup key = some j) : j.normalize = j := by
  have heq : Keyed.sort (normalizeMembers members) = members := Json.object.inj normal
  have hmem := Keyed.mem_of_lookup found
  rw [← heq] at hmem
  have hmem := Keyed.mem_of_mem_sort hmem
  rw [normalizeMembers_eq_map] at hmem
  obtain ⟨member, -, hmember⟩ := List.mem_map.mp hmem
  cases hmember
  exact normalize_idempotent member.2

@[simp] theorem keys_normalizeMembers (members : List (String × Json)) :
    Keyed.keys (normalizeMembers members) = Keyed.keys members := by
  simp [normalizeMembers_eq_map, Keyed.keys]

@[simp] theorem lookup_normalizeMembers (key : String) (members : List (String × Json)) :
    (normalizeMembers members).lookup key = (members.lookup key).map normalize := by
  induction members with
  | nil => rfl
  | cons member rest ih =>
    rw [normalizeMembers, Keyed.lookup_cons_eq, Keyed.lookup_cons_eq, ih]
    split <;> rfl

/-- A normal object has under each key what stood there, if no key was repeated. -/
theorem lookup_normalized {members : List (String × Json)} (distinct : Keyed.DistinctKeys members)
    (key : String) :
    (Keyed.sort (normalizeMembers members)).lookup key = (members.lookup key).map normalize := by
  have hdistinct : Keyed.DistinctKeys (normalizeMembers members) := by
    rw [Keyed.DistinctKeys, keys_normalizeMembers]
    exact distinct
  rw [Keyed.lookup_sort hdistinct, lookup_normalizeMembers]

end Json

end WireQuery
