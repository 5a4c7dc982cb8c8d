import Mathlib.Data.List.Induction
import Mathlib.Data.List.Perm.Basic
import WireQuery.Proofs.Keyed

/-!
# The order of first meetings

Names in the order in which a list meets them: none twice, none missing, and each one met before
those behind it. A keyed list that is built entry by entry has its keys in this order, each with
the value that came last.
-/

namespace WireQuery
set_option autoImplicit false

/-- Some beginning of the list has `a` but not `b`. -/
def MetBefore (seen : List String) (a b : String) : Prop :=
  ∃ before rest, seen = before ++ rest ∧ a ∈ before ∧ b ∉ before

/-- The names are those of the list, each once and in the order in which the list meets them. -/
structure FirstOrder (seen names : List String) : Prop where
  distinct : names.Nodup
  complete : ∀ name, name ∈ names ↔ name ∈ seen
  ordered : names.Pairwise (MetBefore seen)

namespace FirstOrder

variable {seen names : List String} {name : String}

theorem nil : FirstOrder [] [] := ⟨List.nodup_nil, fun _ => Iff.rfl, .nil⟩

theorem metBefore_append {a b : String} (h : MetBefore seen a b) (rest : List String) :
    MetBefore (seen ++ rest) a b := by
  obtain ⟨before, tail, rfl, ha, hb⟩ := h
  exact ⟨before, tail ++ rest, List.append_assoc _ _ _, ha, hb⟩

theorem again (h : FirstOrder seen names) (known : name ∈ names) :
    FirstOrder (seen ++ [name]) names where
  distinct := h.distinct
  complete other := by
    rw [h.complete, List.mem_append, List.mem_singleton]
    constructor
    · exact Or.inl
    · rintro (hother | rfl)
      · exact hother
      · exact (h.complete other).mp known
  ordered := h.ordered.imp fun hab => metBefore_append hab [name]

theorem fresh (h : FirstOrder seen names) (unknown : name ∉ names) :
    FirstOrder (seen ++ [name]) (names ++ [name]) where
  distinct := by
    apply List.nodup_append.mpr
    refine ⟨h.distinct, List.pairwise_singleton _ _, ?_⟩
    rintro a ha b hb rfl
    rw [List.mem_singleton.mp hb] at ha
    exact unknown ha
  complete other := by rw [List.mem_append, List.mem_append, h.complete]
  ordered := by
    apply List.pairwise_append.mpr
    refine ⟨h.ordered.imp fun hab => metBefore_append hab [name], List.pairwise_singleton _ _, ?_⟩
    intro a ha b hb
    have hseen : name ∉ seen := fun hseen => unknown ((h.complete name).mpr hseen)
    rw [List.mem_singleton.mp hb]
    exact ⟨seen, [name], rfl, (h.complete a).mp ha, hseen⟩

theorem metBefore_asymm {a b : String} (hab : MetBefore seen a b) (hba : MetBefore seen b a) :
    False := by
  obtain ⟨before, rest, heq, ha, hb⟩ := hab
  obtain ⟨before', rest', heq', hb', ha'⟩ := hba
  rcases List.append_eq_append_iff.mp (heq.symm.trans heq') with ⟨more, h, -⟩ | ⟨more, h, -⟩
  · rw [h] at ha'
    exact ha' (List.mem_append_left more ha)
  · rw [h] at hb
    exact hb (List.mem_append_left more hb')

theorem unique {names' : List String} (h : FirstOrder seen names) (h' : FirstOrder seen names') :
    names = names' := by
  have hperm : names.Perm names' := by
    apply (List.perm_ext_iff_of_nodup h.distinct h'.distinct).mpr
    intro name
    rw [h.complete, h'.complete]
  -- Of two names only one is met before the other, so both lists have them the same way round.
  apply hperm.eq_of_pairwise _ h.ordered h'.ordered
  intro a b _ _ hab hba
  exact (metBefore_asymm hab hba).elim

end FirstOrder

namespace Keyed

variable {α : Type}

/-- Every key once, where it is first met, with the value that it is last given. -/
structure Resolves (entries kept : List (String × α)) : Prop where
  order : FirstOrder (keys entries) (keys kept)
  last : ∀ key, kept.lookup key = entries.reverse.lookup key

theorem keys_insert (key : String) (value : α) (entries : List (String × α)) :
    keys (insert key value entries) =
      if key ∈ keys entries then keys entries else keys entries ++ [key] := by
  induction entries with
  | nil => rfl
  | cons entry rest ih =>
    obtain ⟨k, v⟩ := entry
    by_cases hk : k = key
    · simp [insert, hk]
    · simp only [insert, if_neg hk, keys_cons, ih, List.mem_cons, or_iff_right (Ne.symm hk)]
      split <;> rfl

theorem insert_of_not_mem {key : String} {entries : List (String × α)} (h : key ∉ keys entries)
    (value : α) : insert key value entries = entries ++ [(key, value)] := by
  induction entries with
  | nil => rfl
  | cons entry rest ih =>
    obtain ⟨hne, hrest⟩ := List.ne_and_not_mem_of_not_mem_cons h
    rw [insert, if_neg (Ne.symm hne), ih hrest, List.cons_append]

theorem ofList_append_singleton (entries : List (String × α)) (entry : String × α) :
    ofList (entries ++ [entry]) = insert entry.1 entry.2 (ofList entries) :=
  List.foldl_append

@[simp] theorem distinctKeys_append_singleton {entries : List (String × α)} {entry : String × α} :
    DistinctKeys (entries ++ [entry]) ↔ DistinctKeys entries ∧ entry.1 ∉ keys entries := by
  rw [DistinctKeys, keys_append, keys_cons, keys_nil,
    (List.perm_append_singleton entry.1 _).nodup_iff, List.nodup_cons]
  exact and_comm

theorem ofList_of_distinctKeys {entries : List (String × α)} (h : DistinctKeys entries) :
    ofList entries = entries := by
  induction entries using List.reverseRecOn with
  | nil => rfl
  | append_singleton entries entry ih =>
    obtain ⟨hdistinct, hkey⟩ := distinctKeys_append_singleton.mp h
    rw [ofList_append_singleton, ih hdistinct, insert_of_not_mem hkey]

theorem Resolves.insert {entries kept : List (String × α)} (h : Resolves entries kept)
    (entry : String × α) : Resolves (entries ++ [entry]) (insert entry.1 entry.2 kept) where
  order := by
    rw [keys_append, keys_insert]
    split <;> rename_i hmem
    · exact h.order.again hmem
    · exact h.order.fresh hmem
  last key := by
    rw [lookup_insert, List.reverse_append, List.reverse_singleton, List.singleton_append,
      lookup_cons_eq, h.last]

theorem resolves_ofList (entries : List (String × α)) : Resolves entries (ofList entries) := by
  induction entries using List.reverseRecOn with
  | nil => exact ⟨.nil, fun _ => rfl⟩
  | append_singleton entries entry ih =>
    rw [ofList_append_singleton]
    exact ih.insert entry

/-- A list with distinct keys is known from its keys and from what a lookup finds. -/
theorem eq_of_lookup {a b : List (String × α)} (ha : DistinctKeys a) (hb : DistinctKeys b)
    (hkeys : keys a = keys b) (hlookup : ∀ key, a.lookup key = b.lookup key) : a = b := by
  have hview : ∀ {entries : List (String × α)}, DistinctKeys entries →
      entries.map (fun entry => (entry.1, some entry.2)) =
        (keys entries).map (fun key => (key, entries.lookup key)) := by
    intro entries h
    rw [keys, List.map_map]
    apply List.map_congr_left
    intro entry hentry
    rw [Function.comp_apply, lookup_eq_some_of_mem h hentry]
  have hinjective : Function.Injective fun entry : String × α => (entry.1, some entry.2) := by
    rintro ⟨k, v⟩ ⟨k', v'⟩ heq
    simpa using heq
  apply hinjective.list_map
  rw [hview ha, hview hb, hkeys]
  apply List.map_congr_left
  intro key _
  rw [hlookup]

theorem resolves_iff {entries kept : List (String × α)} :
    Resolves entries kept ↔ kept = ofList entries := by
  constructor
  · intro h
    have hbuilt := resolves_ofList entries
    apply eq_of_lookup h.order.distinct hbuilt.order.distinct (h.order.unique hbuilt.order)
    intro key
    rw [h.last, hbuilt.last]
  · rintro rfl
    exact resolves_ofList entries

theorem resolves_self {entries : List (String × α)} (h : DistinctKeys entries) :
    Resolves entries entries :=
  resolves_iff.mpr (ofList_of_distinctKeys h).symm

/-- A lookup finds the same in two lists that agree on what the lookup may find. -/
theorem lookup_eq_of_forall₂ {p : α → Prop} {entries others : List (String × α)}
    (h : List.Forall₂ (fun entry other => other.1 = entry.1 ∧ (p entry.2 → other.2 = entry.2))
      entries others) {key : String} (hfound : ∀ value, entries.lookup key = some value → p value) :
    others.lookup key = entries.lookup key := by
  induction h with
  | nil => rfl
  | @cons entry other entries others hfirst _ ih =>
    obtain ⟨hkey, hvalue⟩ := hfirst
    rw [lookup_cons_eq, lookup_cons_eq, hkey]
    rw [lookup_cons_eq] at hfound
    by_cases hk : key = entry.1
    · rw [if_pos hk] at hfound
      rw [if_pos hk, if_pos hk, hvalue (hfound entry.2 rfl)]
    · rw [if_neg hk] at hfound
      rw [if_neg hk, if_neg hk, ih hfound]

end Keyed

end WireQuery
