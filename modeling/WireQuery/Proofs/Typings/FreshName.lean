import Mathlib.Data.List.Nodup
import Mathlib.Data.List.Perm.Subperm
import Mathlib.Data.Nat.Init
import WireQuery.Typings.Declaration

/-!
# Fresh names are free

There are more candidates than names in use, and no two candidates are the same, so one of them is
free, and counting up from two comes to an end. The search takes the candidate where it ends. Names
that are given one after another, each in use for those behind it, are all different.
-/

namespace WireQuery.Typings
set_option autoImplicit false

theorem repr_injective : Function.Injective Nat.repr := by
  intro m n h
  have hdigits : Nat.toDigits 10 m = Nat.toDigits 10 n := by
    simpa only [Nat.toList_repr] using congrArg String.toList h
  have hparsed := congrArg (fun digits => Nat.ofDigitChars 10 digits 0) hdigits
  simpa using hparsed

theorem numberedNames_nodup (base : String) (count : Nat) : (numberedNames base count).Nodup := by
  apply List.nodup_range.map
  intro m n h
  have hlist := congrArg String.toList h
  rw [String.toList_append, String.toList_append] at hlist
  have hrepr := repr_injective (String.toList_injective (List.append_cancel_left hlist))
  omega

theorem exists_free (used : List String) (base : String) :
    ∃ name ∈ numberedNames base (used.length + 1), name ∉ used := by
  by_contra hnone
  push Not at hnone
  have hle := ((numberedNames_nodup base (used.length + 1)).subperm hnone).length_le
  have hlength : (numberedNames base (used.length + 1)).length = used.length + 1 := by
    rw [numberedNames, List.length_map, List.length_range]
  omega

/-- Counting up from `k`, numbers whose names are in use are passed by. The first one with a free
name is the last. -/
inductive CountsUp (used : List String) (base : String) : Nat → Nat → Prop
  | free {k : Nat} (free : base ++ k.repr ∉ used) : CountsUp used base k k
  | taken {k last : Nat} (taken : base ++ k.repr ∈ used) (rest : CountsUp used base (k + 1) last) :
      CountsUp used base k last

variable {used : List String} {base : String}

/-- Counting up ends at the least number with a free name. -/
theorem CountsUp.least {k last : Nat} (h : CountsUp used base k last) :
    k ≤ last ∧ base ++ last.repr ∉ used ∧ ∀ j, k ≤ j → base ++ j.repr ∉ used → last ≤ j := by
  induction h with
  | free free => exact ⟨Nat.le_refl _, free, fun _ hj _ => hj⟩
  | @taken k last taken _ ih =>
    obtain ⟨hle, hfree, hleast⟩ := ih
    refine ⟨Nat.le_of_succ_le hle, hfree, ?_⟩
    intro j hj hjfree
    have hne : k ≠ j := by
      rintro rfl
      exact hjfree taken
    exact hleast j (Nat.lt_of_le_of_ne hj hne) hjfree

/-- Counting up ends at the latest where it meets a free name. -/
theorem exists_countsUp {k n : Nat} (h : k ≤ n) (free : base ++ n.repr ∉ used) :
    ∃ last ≤ n, CountsUp used base k last := by
  induction h using Nat.decreasingInduction with
  | self => exact ⟨n, Nat.le_refl n, .free free⟩
  | of_succ k hlt ih =>
    by_cases htaken : base ++ k.repr ∈ used
    · obtain ⟨last, hle, hrest⟩ := ih
      exact ⟨last, hle, .taken htaken hrest⟩
    · exact ⟨k, Nat.le_of_lt hlt, .free htaken⟩

/-- There are no more steps from two on than names in use. -/
theorem countsUp_ends (used : List String) (base : String) :
    ∃ last ≤ used.length + 2, CountsUp used base 2 last := by
  obtain ⟨name, hname, hfree⟩ := exists_free used base
  obtain ⟨n, hn, rfl⟩ := List.mem_map.mp hname
  obtain ⟨last, hle, hcounts⟩ := exists_countsUp (Nat.le_add_left 2 n) hfree
  have hrange := List.mem_range.mp hn
  exact ⟨last, by omega, hcounts⟩

theorem freshName_of_not_mem (h : base ∉ used) : freshName used base = base := by
  rw [freshName, if_neg (by simpa using h)]

theorem freshName_of_countsUp (h : base ∈ used) {last : Nat} (counts : CountsUp used base 2 last) :
    freshName used base = base ++ last.repr := by
  obtain ⟨hle, hfree, hleast⟩ := counts.least
  obtain ⟨last', hle', counts'⟩ := countsUp_ends used base
  have hbound : last ≤ last' := hleast last' counts'.least.1 counts'.least.2.1
  have hsearch : (List.range (used.length + 1)).find?
      ((fun name => !used.contains name) ∘ fun k => base ++ (k + 2).repr) = some (last - 2) := by
    rw [List.find?_range_eq_some, List.mem_range]
    refine ⟨?_, by omega, ?_⟩
    · simpa [Nat.sub_add_cancel hle] using hfree
    · intro j hj
      by_contra htaken
      have := hleast (j + 2) (Nat.le_add_left 2 j) (by simpa using htaken)
      omega
  rw [freshName, if_pos (by simpa using h), numberedNames, List.find?_map, hsearch]
  simp [Nat.sub_add_cancel hle]

theorem freshName_not_mem (used : List String) (base : String) : freshName used base ∉ used := by
  by_cases h : base ∈ used
  · obtain ⟨last, -, counts⟩ := countsUp_ends used base
    rw [freshName_of_countsUp h counts]
    exact counts.least.2.1
  · rw [freshName_of_not_mem h]
    exact h

/-- The names for bases, one after another. A name that has been given is in use from then on. -/
def freshNames (used : List String) : List String → List String
  | [] => []
  | base :: bases =>
    let name := freshName used base
    name :: freshNames (name :: used) bases

theorem freshNames_append (used bases others : List String) :
    freshNames used (bases ++ others) =
      freshNames used bases ++ freshNames ((freshNames used bases).reverse ++ used) others := by
  induction bases generalizing used with
  | nil => rfl
  | cons base bases ih =>
    rw [List.cons_append, freshNames, ih, freshNames, List.reverse_cons, List.append_assoc]
    rfl

theorem not_mem_of_mem_freshNames {name : String} {bases : List String}
    (h : name ∈ freshNames used bases) : name ∉ used := by
  induction bases generalizing used with
  | nil => cases h
  | cons base bases ih =>
    rcases List.mem_cons.mp h with rfl | h
    · exact freshName_not_mem used base
    · exact fun hused => ih h (List.mem_cons_of_mem _ hused)

theorem freshNames_nodup (used bases : List String) : (freshNames used bases).Nodup := by
  induction bases generalizing used with
  | nil => exact List.nodup_nil
  | cons base bases ih =>
    apply List.nodup_cons.mpr
    exact ⟨fun h => not_mem_of_mem_freshNames h List.mem_cons_self, ih _⟩

end WireQuery.Typings
