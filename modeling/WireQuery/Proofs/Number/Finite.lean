import Mathlib.Algebra.Ring.Nat
import WireQuery.Json.Basic

/-!
# Integers as binary64 numbers

An integer of 64 bits is far below the largest finite number, so rounding it gives a finite one.
Every JSON number therefore has a nearest binary64 number that can be written as JSON again.
-/

namespace WireQuery
set_option autoImplicit false

namespace Binary64

def finite? : Binary64 → Option Finite
  | finite x => some x
  | infinite _ | nan => none

theorem le_roundHalfEven (num den : Nat) : num / den ≤ roundHalfEven num den := by
  unfold roundHalfEven
  dsimp only
  split <;> omega

theorem roundHalfEven_le (num den : Nat) : roundHalfEven num den ≤ num / den + 1 := by
  unfold roundHalfEven
  dsimp only
  split <;> omega

theorem floorLog2_one {n : Nat} (hn : n ≠ 0) : floorLog2 n 1 = n.log2 := by
  have hone : Nat.log2 1 = 0 := by decide
  have hle : 2 ^ n.log2 ≤ n := Nat.log2_self_le hn
  simp [floorLog2, hone, inUnits, hle]

/-- In units of 52 binary places below its leading digit, a whole number has 53 digits. -/
theorem div_inUnits {n : Nat} (hn : n ≠ 0) (exponent : Int) (he : exponent = n.log2 - 52) :
    let scaled := inUnits n 1 exponent
    leastFull ≤ scaled.1 / scaled.2 ∧ scaled.1 / scaled.2 < 2 * leastFull := by
  have hlow : 2 ^ n.log2 ≤ n := Nat.log2_self_le hn
  have hhigh : n < 2 ^ (n.log2 + 1) := Nat.lt_log2_self
  have hfull : leastFull = 2 ^ 52 := by decide
  rw [hfull]
  by_cases h : 0 ≤ exponent
  · obtain ⟨k, rfl⟩ := Int.eq_ofNat_of_zero_le h
    have hk : n.log2 = 52 + k := by omega
    rw [hk] at hlow hhigh
    simp only [inUnits, if_pos h, Int.toNat_natCast, Nat.one_mul, Nat.pow_eq]
    constructor
    · rw [Nat.le_div_iff_mul_le (Nat.two_pow_pos k), ← Nat.pow_add]
      exact hlow
    · rw [Nat.div_lt_iff_lt_mul (Nat.two_pow_pos k), ← Nat.pow_succ', ← Nat.pow_add]
      rwa [show 52 + 1 + k = 52 + k + 1 by omega]
  · have hk : n.log2 + (-exponent).toNat = 52 := by omega
    simp only [inUnits, if_neg h, Nat.div_one, Nat.pow_eq]
    rw [← hk]
    constructor
    · rw [Nat.pow_add]
      exact Nat.mul_le_mul_right _ hlow
    · have hsplit : (n.log2 + (-exponent).toNat).succ = n.log2 + 1 + (-exponent).toNat := by omega
      rw [← Nat.pow_succ', hsplit, Nat.pow_add]
      exact Nat.mul_lt_mul_of_pos_right hhigh (Nat.two_pow_pos _)

theorem ofRatio_finite (negative : Bool) {n : Nat} (hn : n ≠ 0) (hlog : n.log2 ≤ 1000) :
    ∃ x, ofRatio negative n 1 = .finite x := by
  have hexponent : max (floorLog2 n 1 - 52) (-1074) = (n.log2 : Int) - 52 := by
    rw [floorLog2_one hn]
    omega
  obtain ⟨hlow, hhigh⟩ := div_inUnits hn _ rfl
  unfold ofRatio
  dsimp only
  rw [hexponent]
  generalize inUnits n 1 (n.log2 - 52) = scaled at hlow hhigh ⊢
  have hdown := le_roundHalfEven scaled.1 scaled.2
  have hup := roundHalfEven_le scaled.1 scaled.2
  generalize roundHalfEven scaled.1 scaled.2 = mantissa at hdown hup ⊢
  -- A mantissa of all ones may be rounded up to one digit more, which the exponent takes over.
  have hcanonical : ∀ carried : Nat × Int,
      carried = (if mantissa = 2 * leastFull then (leastFull, (n.log2 : Int) - 52 + 1)
        else (mantissa, (n.log2 : Int) - 52)) → Canonical carried.1 carried.2 := by
    rintro carried rfl
    unfold Canonical
    split <;> simp only [leastFull] at * <;> omega
  rw [dif_pos (hcanonical _ rfl)]
  exact ⟨_, rfl⟩

theorem ofInt_finite {n : Int} (h : n.natAbs < 2 ^ 64) : ∃ x, ofInt n = .finite x := by
  unfold ofInt
  split
  · exact ⟨_, rfl⟩
  · next hn =>
    have hzero : n.natAbs ≠ 0 := by omega
    have hlog : n.natAbs.log2 < 64 := (Nat.log2_lt hzero).mpr h
    exact ofRatio_finite _ hzero (by omega)

end Binary64

namespace Json.Number

theorem toBinary64_finite (n : Number) : ∃ x, n.toBinary64 = .finite x := by
  cases n with
  | float x => exact ⟨x, rfl⟩
  | integer n =>
    have least := n.least
    have below := n.below
    exact Binary64.ofInt_finite (by omega)

@[simp] theorem isSome_finite?_toBinary64 (n : Number) : n.toBinary64.finite?.isSome = true := by
  obtain ⟨x, hx⟩ := n.toBinary64_finite
  rw [hx]
  rfl

/-- The nearest binary64 number, which is always finite. -/
def nearest (n : Number) : Binary64.Finite :=
  n.toBinary64.finite?.get n.isSome_finite?_toBinary64

theorem toBinary64_eq (n : Number) : n.toBinary64 = .finite n.nearest := by
  have hnearest : n.toBinary64.finite? = some n.nearest := (Option.some_get _).symm
  obtain ⟨x, hx⟩ := n.toBinary64_finite
  rw [hx] at hnearest
  rw [hx, Option.some.inj hnearest]

end Json.Number

end WireQuery
