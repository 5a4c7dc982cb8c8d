/-!
# Binary64 numbers

A finite number is a sign and a magnitude `mantissa * 2 ^ exponent` in canonical form, so each
value has one representation. Rounding takes an exact ratio to the nearest number, a half going
to the even mantissa; a magnitude beyond the largest finite number becomes infinite.
-/

namespace WireQuery
set_option autoImplicit false

namespace Binary64

/-- The least number of 53 bits. -/
def leastFull : Nat := 0x10000000000000

/-- The canonical form: 53 bits at most, and all of them unless the exponent is the least one. -/
def Canonical (mantissa : Nat) (exponent : Int) : Prop :=
  mantissa < 2 * leastFull ∧ -1074 ≤ exponent ∧ exponent ≤ 971 ∧
    (leastFull ≤ mantissa ∨ exponent = -1074)

instance (mantissa : Nat) (exponent : Int) : Decidable (Canonical mantissa exponent) :=
  inferInstanceAs (Decidable (_ ∧ _))

structure Finite where
  negative : Bool
  mantissa : Nat
  exponent : Int
  canonical : Canonical mantissa exponent
  deriving DecidableEq, Repr

def Finite.zero (negative : Bool) : Finite := ⟨negative, 0, -1074, by decide⟩

end Binary64

/-- A binary64 number. -/
inductive Binary64 where
  | finite (x : Binary64.Finite)
  | infinite (negative : Bool)
  | nan
  deriving DecidableEq, Repr

namespace Binary64

/-- The natural number nearest to `num / den`; a half goes to the even neighbour. -/
def roundHalfEven (num den : Nat) : Nat :=
  let floor := num / den
  let rest := 2 * (num % den)
  if rest < den ∨ (rest = den ∧ floor % 2 = 0) then floor else floor + 1

/-- `num / den` in units of `2 ^ exponent`, as a numerator and a denominator. -/
def inUnits (num den : Nat) (exponent : Int) : Nat × Nat :=
  if 0 ≤ exponent then (num, den * Nat.pow 2 exponent.toNat)
  else (num * Nat.pow 2 (-exponent).toNat, den)

/-- The exponent of the greatest power of two up to `num / den`, for positive numbers. -/
def floorLog2 (num den : Nat) : Int :=
  let guess : Int := num.log2 - den.log2
  let scaled := inUnits num den guess
  if scaled.2 ≤ scaled.1 then guess else guess - 1

/-- The number nearest to `num / den`, which is positive, with the given sign. -/
def ofRatio (negative : Bool) (num den : Nat) : Binary64 :=
  let exponent := max (floorLog2 num den - 52) (-1074)
  let scaled := inUnits num den exponent
  let mantissa := roundHalfEven scaled.1 scaled.2
  let carried :=
    if mantissa = 2 * leastFull then (leastFull, exponent + 1) else (mantissa, exponent)
  if h : Canonical carried.1 carried.2 then .finite ⟨negative, carried.1, carried.2, h⟩
  else .infinite negative

/-- The number nearest to an integer. -/
def ofInt (n : Int) : Binary64 :=
  if n = 0 then .finite (.zero false) else ofRatio (n < 0) n.natAbs 1

end Binary64

end WireQuery
