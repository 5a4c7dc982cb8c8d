import WireQuery.Number.Binary64

/-!
# Decimal numbers

An exact decimal `± significand * 10 ^ exponent`, the binary64 number nearest to it, and the
shortest decimal that reads back as a given binary64 number.
-/

namespace WireQuery
set_option autoImplicit false

structure Decimal where
  negative : Bool
  significand : Nat
  exponent : Int
  deriving DecidableEq, Repr

namespace Decimal

/-- Decimal digits of the significand, most significant first. -/
def digits (d : Decimal) : List Char := Nat.toDigits 10 d.significand

/-- The nearest binary64 number. A decimal point more than 310 places to the right of the first
digit is beyond every finite number, one more than 330 places to its left is below half the
least positive one. -/
def toBinary64 (d : Decimal) : Binary64 :=
  let point := d.digits.length + d.exponent
  if d.significand = 0 ∨ point < -330 then .finite (.zero d.negative)
  else if 310 < point then .infinite d.negative
  else if 0 ≤ d.exponent then
    .ofRatio d.negative (d.significand * Nat.pow 10 d.exponent.toNat) 1
  else
    .ofRatio d.negative d.significand (Nat.pow 10 (-d.exponent).toNat)

end Decimal

namespace Binary64.Finite

/-- What a power of ten makes of the numbers that round to `x`: its own magnitude and the ends of
the interval around it, all in units of `10 ^ grid` and over one denominator. -/
structure Interval where
  low : Nat
  magnitude : Nat
  high : Nat
  denominator : Nat

/-- The interval is half a unit of the last place wide on either side, but only a quarter below a
power of two, where the numbers below lie twice as close. -/
def interval (x : Finite) (grid : Int) : Interval :=
  let below := if x.mantissa = leastFull ∧ -1074 < x.exponent then 1 else 2
  let quarter := x.exponent - 2
  let factor := Nat.pow 2 quarter.toNat * Nat.pow 10 (-grid).toNat
  { low := (4 * x.mantissa - below) * factor
    magnitude := 4 * x.mantissa * factor
    high := (4 * x.mantissa + 2) * factor
    denominator := Nat.pow 2 (-quarter).toNat * Nat.pow 10 grid.toNat }

/-- Whether `n` units read back as `x`. The ends of the interval do so for an even mantissa. -/
def readsBack (x : Finite) (i : Interval) (n : Nat) : Bool :=
  let scaled := n * i.denominator
  if x.mantissa % 2 = 0 then i.low ≤ scaled && scaled ≤ i.high
  else i.low < scaled && scaled < i.high

/-- The multiple of `10 ^ grid` that reads back as `x` and is nearest to it, if there is one. -/
def onGrid? (x : Finite) (grid : Int) : Option Nat :=
  let i := x.interval grid
  let floor := i.magnitude / i.denominator
  let nearest := roundHalfEven i.magnitude i.denominator
  let other := if nearest = floor then floor + 1 else floor
  if nearest ≠ 0 ∧ x.readsBack i nearest then some nearest
  else if other ≠ 0 ∧ x.readsBack i other then some other
  else none

/-- The first hit on the grids `10 ^ grid`, `10 ^ (grid - 1)`, … -/
def shortestFrom (x : Finite) : (steps : Nat) → (grid : Int) → Decimal
  | 0, grid =>
    let i := x.interval grid
    ⟨x.negative, roundHalfEven i.magnitude i.denominator, grid⟩
  | steps + 1, grid =>
    match x.onGrid? grid with
    | some n => ⟨x.negative, n, grid⟩
    | none => shortestFrom x steps (grid - 1)

/-- The decimal with the fewest digits that reads back as `x`, and of those the nearest. The
search starts at a power of ten beyond the magnitude; seventeen digits always suffice. -/
def shortest (x : Finite) : Decimal :=
  if x.mantissa = 0 then ⟨x.negative, 0, 0⟩
  else x.shortestFrom 20 ((x.mantissa.log2 + 1 + x.exponent) * 30103 / 100000 + 1)

end Binary64.Finite

end WireQuery
