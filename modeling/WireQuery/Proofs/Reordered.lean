import Mathlib.Data.Multiset.MapFold
import WireQuery.Proofs.Keyed
import WireQuery.Proofs.Outcome
import WireQuery.Scalar.Table

/-!
# Keyed lists in another order

One keyed list is another reordered if their entries match one to one, each with its key and a
related value. For lists with distinct keys this is what lookups tell.
-/

namespace WireQuery.Keyed
set_option autoImplicit false

variable {α β : Type} {R S : α → β → Prop} {xs : List (String × α)} {ys : List (String × β)}

/-- Two entries with one key and related values. -/
inductive Matching (R : α → β → Prop) : String × α → String × β → Prop where
  | intro (key : String) {a : α} {b : β} (values : R a b) : Matching R (key, a) (key, b)

/-- The entries of both lists match one to one, in whatever order. -/
def Reordered (R : α → β → Prop) (xs : List (String × α)) (ys : List (String × β)) : Prop :=
  Multiset.Rel (Matching R) xs ys

namespace Reordered

theorem length_eq (h : Reordered R xs ys) : xs.length = ys.length :=
  Multiset.card_eq_card_of_rel h

theorem exists_mem (h : Reordered R xs ys) {key : String} {a : α} (hx : (key, a) ∈ xs) :
    ∃ b, (key, b) ∈ ys ∧ R a b := by
  obtain ⟨_, hy, matching⟩ := Multiset.exists_mem_of_rel_of_mem h (Multiset.mem_coe.mpr hx)
  cases matching with
  | intro key values => exact ⟨_, Multiset.mem_coe.mp hy, values⟩

theorem mono (h : Reordered R xs ys)
    (hRS : ∀ {key a b}, (key, a) ∈ xs → (key, b) ∈ ys → R a b → S a b) : Reordered S xs ys := by
  refine Multiset.Rel.mono h ?_
  rintro _ hx _ hy ⟨key, values⟩
  exact .intro key (hRS (Multiset.mem_coe.mp hx) (Multiset.mem_coe.mp hy) values)

theorem flip (h : Reordered R xs ys) : Reordered (fun b a => R a b) ys xs := by
  refine (Multiset.rel_flip.mpr h).mono ?_
  rintro _ - _ - ⟨key, values⟩
  exact .intro key values

theorem map {γ δ : Type} {T : γ → δ → Prop} {f : String × α → γ} {g : String × β → δ}
    (h : Reordered R xs ys)
    (hT : ∀ {key a b}, (key, a) ∈ xs → (key, b) ∈ ys → R a b → T (f (key, a)) (g (key, b))) :
    Multiset.Rel T (xs.map f : Multiset γ) (ys.map g : Multiset δ) := by
  rw [← Multiset.map_coe, ← Multiset.map_coe, Multiset.rel_map]
  refine Multiset.Rel.mono h ?_
  rintro _ hx _ hy ⟨key, values⟩
  exact hT (Multiset.mem_coe.mp hx) (Multiset.mem_coe.mp hy) values

end Reordered

theorem reordered_of_lookup (hx : DistinctKeys xs) (hy : DistinctKeys ys)
    (length : xs.length = ys.length)
    (each : ∀ entry ∈ xs, ∃ b, ys.lookup entry.1 = some b ∧ R entry.2 b) : Reordered R xs ys := by
  induction xs generalizing ys with
  | nil =>
    rw [List.eq_nil_of_length_eq_zero length.symm]
    exact .zero
  | cons entry rest ih =>
    obtain ⟨⟨b, hb, hvalues⟩, hrest⟩ := List.forall_mem_cons.mp each
    obtain ⟨hkey, hrestDistinct⟩ := List.nodup_cons.mp hx
    -- The partner of the first entry is taken out, and the rest keeps its partners.
    obtain ⟨front, back, rfl, -⟩ := List.lookup_eq_some_iff.mp hb
    have hmiddle : (front ++ (entry.1, b) :: back).Perm ((entry.1, b) :: (front ++ back)) :=
      List.perm_middle
    have hcoe : (↑(front ++ (entry.1, b) :: back) : Multiset (String × β)) =
        (entry.1, b) ::ₘ ↑(front ++ back) := Multiset.coe_eq_coe.mpr hmiddle
    have hothers : DistinctKeys (front ++ back) :=
      (List.nodup_cons.mp ((hmiddle.map Prod.fst).nodup_iff.mp hy)).2
    rw [Reordered, hcoe]
    refine .cons (.intro entry.1 hvalues) (ih hrestDistinct hothers ?_ ?_)
    · rw [hmiddle.length_eq] at length
      exact Nat.succ.inj length
    · intro other hother
      obtain ⟨b', hb', hvalues'⟩ := hrest other hother
      refine ⟨b', ?_, hvalues'⟩
      rcases List.mem_cons.mp (hmiddle.mem_iff.mp (mem_of_lookup hb')) with heq | hmem
      · have hsame : other.1 = entry.1 := (Prod.mk.inj heq).1
        exact absurd (hsame ▸ List.mem_map_of_mem hother) hkey
      · exact lookup_eq_some_of_mem hothers hmem

/-- Lists with distinct keys match in some order exactly if they are equally long and a lookup finds
a partner for every entry. -/
theorem reordered_iff_lookup (hx : DistinctKeys xs) (hy : DistinctKeys ys) :
    Reordered R xs ys ↔ xs.length = ys.length ∧
      ∀ entry ∈ xs, ∃ b, ys.lookup entry.1 = some b ∧ R entry.2 b := by
  constructor
  · intro h
    refine ⟨h.length_eq, ?_⟩
    intro entry hentry
    obtain ⟨b, hb, hvalues⟩ := h.exists_mem hentry
    exact ⟨b, lookup_eq_some_of_mem hy hb, hvalues⟩
  · rintro ⟨length, each⟩
    exact reordered_of_lookup hx hy length each

theorem reordered_eq_iff {xs ys : List (String × α)} :
    Reordered (fun a b => a = b) xs ys ↔ xs.Perm ys := by
  have heq : Matching (fun a b : α => a = b) = fun x y => x = y := by
    funext x y
    apply propext
    constructor
    · rintro ⟨key, rfl⟩
      rfl
    · rintro rfl
      exact .intro x.1 rfl
  rw [Reordered, heq, Multiset.rel_eq, Multiset.coe_eq_coe]

theorem perm_iff_lookup {xs ys : List (String × α)} (hx : DistinctKeys xs) (hy : DistinctKeys ys) :
    xs.Perm ys ↔ xs.length = ys.length ∧ ∀ entry ∈ xs, ys.lookup entry.1 = some entry.2 := by
  rw [← reordered_eq_iff, reordered_iff_lookup hx hy]
  simp only [exists_eq_right']

/-- What keeps keys and succeeds throughout one list succeeds throughout the other, if it does so
for entries that match. -/
theorem Reordered.mapM {ε γ δ : Type} {T : γ → δ → Prop}
    {f : String × α → Except ε (String × γ)} {g : String × β → Except ε (String × δ)}
    (h : Reordered R xs ys) (hx : DistinctKeys xs) (hy : DistinctKeys ys)
    (hf : ∀ x field, f x = .ok field → field.1 = x.1)
    (hg : ∀ y field, g y = .ok field → field.1 = y.1)
    (each : ∀ {key a b}, (key, a) ∈ xs → (key, b) ∈ ys → R a b → ∀ {field},
      f (key, a) = .ok field → ∃ field', g (key, b) = .ok field' ∧ T field.2 field'.2)
    {fields : List (String × γ)} (mapped : xs.mapM f = .ok fields) :
    ∃ fields', ys.mapM g = .ok fields' ∧ Reordered T fields fields' := by
  have hsucceeds : ∀ y ∈ ys, ∃ field', g y = .ok field' := by
    rintro ⟨key, b⟩ hb
    obtain ⟨a, ha, hvalues⟩ := h.flip.exists_mem hb
    obtain ⟨field, -, hfield⟩ := Outcome.exists_of_mapM_eq_ok mapped ha
    obtain ⟨field', hfield', -⟩ := each ha hb hvalues hfield
    exact ⟨field', hfield'⟩
  obtain ⟨fields', mapped'⟩ := Outcome.exists_mapM_eq_ok hsucceeds
  have hkeys : keys fields = keys xs := Outcome.map_of_mapM_eq_ok mapped hf
  have hkeys' : keys fields' = keys ys := Outcome.map_of_mapM_eq_ok mapped' hg
  have distinct : DistinctKeys fields := by
    rw [DistinctKeys, hkeys]
    exact hx
  have distinct' : DistinctKeys fields' := by
    rw [DistinctKeys, hkeys']
    exact hy
  have hlength := congrArg List.length hkeys
  have hlength' := congrArg List.length hkeys'
  simp only [length_keys] at hlength hlength'
  refine ⟨fields', mapped', reordered_of_lookup distinct distinct' ?_ ?_⟩
  · rw [hlength, hlength']
    exact h.length_eq
  · intro field hfield
    obtain ⟨⟨key, a⟩, ha, hf'⟩ := Outcome.exists_mem_of_mapM_eq_ok mapped hfield
    obtain ⟨b, hb, hvalues⟩ := h.exists_mem ha
    obtain ⟨field', hfield', hg'⟩ := Outcome.exists_of_mapM_eq_ok mapped' hb
    obtain ⟨found, hfound, hfields⟩ := each ha hb hvalues hf'
    rw [hg'] at hfound
    cases hfound
    refine ⟨field'.2, ?_, hfields⟩
    rw [hf _ _ hf', ← hg _ _ hg']
    exact lookup_eq_some_of_mem distinct' hfield'

end WireQuery.Keyed

namespace WireQuery

/-- Tables are the same exactly if one has the entries of the other in some order. -/
@[simp] theorem ScalarTable.same_iff {a b : ScalarTable} :
    a.same b = true ↔ a.entries.Perm b.entries := by
  rw [Keyed.perm_iff_lookup a.distinct b.distinct]
  simp [same, size, get?]

end WireQuery
