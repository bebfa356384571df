import Zephirize.Decimal.Shortest

/-!
# Texts of doubles

The layout of a double's text is a record: between which exponents the digits are written out, how
an exponent is marked, and how the numbers without digits are named. `Layout.write` lays the
shortest digits out accordingly; a number written out always has a fraction.
-/

namespace Zephirize

/-- The decisions of a format for doubles. -/
structure Layout where
  /-- The least exponent of a number that is written out. -/
  plainFrom : Int
  /-- The greatest exponent of a number that is written out. -/
  plainTo : Int
  /-- What stands before an exponent that is not negative. -/
  positiveMark : String
  /-- Which of two equally near shortest decimals is written. -/
  tie : Tie
  notANumber : String
  infinity : String
  negativeInfinity : String
deriving Repr

namespace Layout

/-- Digits written out: the point stands after `exponent + 1` of them. -/
def plain (digits : String) (exponent : Int) : String :=
  let ds := digits.toList
  if exponent < 0 then
    "0." ++ String.ofList (List.replicate (-exponent - 1).toNat '0' ++ ds)
  else
    let before := exponent.toNat + 1
    let whole := ds.take before ++ List.replicate (before - ds.length) '0'
    let fraction := ds.drop before
    String.ofList whole ++ "." ++ (if fraction.isEmpty then "0" else String.ofList fraction)

/-- Digits with the point after the first one, and an exponent. -/
def scientific (l : Layout) (digits : String) (exponent : Int) : String :=
  let first := String.ofList (digits.toList.take 1)
  let others := String.ofList (digits.toList.drop 1)
  let mantissa := if others.isEmpty then first else first ++ "." ++ others
  let mark := if exponent < 0 then "-" else l.positiveMark
  mantissa ++ "e" ++ mark ++ toString exponent.natAbs

/-- The text of a decimal. -/
def writeDecimal (l : Layout) (d : Decimal) : String :=
  let digits := toString d.digits
  let exponent := d.power + digits.length - 1
  if l.plainFrom ≤ exponent ∧ exponent ≤ l.plainTo then plain digits exponent
  else l.scientific digits exponent

/-- The text of a double. -/
def write (l : Layout) (x : Float) : String :=
  let bits := x.toBits.toNat
  let negative := Nat.pow 2 63 ≤ bits
  let sign := if negative then "-" else ""
  match Binary.ofFloat x with
  | some b => sign ++ l.writeDecimal (b.shortest l.tie)
  | none =>
    if bits % Nat.pow 2 63 = 0 then sign ++ "0.0"
    else if bits % Nat.pow 2 52 ≠ 0 then l.notANumber
    else if negative then l.negativeInfinity
    else l.infinity

end Layout

end Zephirize
