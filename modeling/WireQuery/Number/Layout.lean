import WireQuery.Number.Decimal

/-!
# Number layout

How a decimal is written: with a point among its digits while its scientific exponent is small,
otherwise with one digit before the point and an exponent.
-/

namespace WireQuery
set_option autoImplicit false

/-- The choices of one number format. -/
structure NumberLayout where
  /-- The least scientific exponent that is written with a point alone. -/
  leastPositional : Int
  /-- The greatest scientific exponent that is written with a point alone. -/
  greatestPositional : Int
  /-- What follows a whole number written without an exponent. -/
  wholeTail : String
  /-- What stands before the digits of an exponent that is not negative. -/
  plusSign : String

namespace NumberLayout

private def zeros (n : Int) : List Char := List.replicate n.toNat '0'

/-- The digits with the point after the first `whole` of them; zeros fill the gap on either side. -/
def positional (layout : NumberLayout) (digits : List Char) (whole : Int) : String :=
  if whole ≤ 0 then
    "0." ++ String.ofList (zeros (-whole) ++ digits)
  else if digits.length ≤ whole then
    String.ofList (digits ++ zeros (whole - digits.length)) ++ layout.wholeTail
  else
    String.ofList (digits.take whole.toNat) ++ "." ++ String.ofList (digits.drop whole.toNat)

/-- The digits with the point after the first of them, and the exponent. -/
def scientific (layout : NumberLayout) (digits : List Char) (exponent : Int) : String :=
  let fraction := match digits.drop 1 with
    | [] => ""
    | rest => "." ++ String.ofList rest
  let sign := if exponent < 0 then "-" else layout.plusSign
  String.ofList (digits.take 1) ++ fraction ++ "e" ++ sign ++ exponent.natAbs.repr

def write (layout : NumberLayout) (d : Decimal) : String :=
  let digits := d.digits
  let exponent := digits.length - 1 + d.exponent
  let magnitude :=
    if layout.leastPositional ≤ exponent ∧ exponent ≤ layout.greatestPositional then
      layout.positional digits (exponent + 1)
    else
      layout.scientific digits exponent
  (if d.negative then "-" else "") ++ magnitude

end NumberLayout

end WireQuery
