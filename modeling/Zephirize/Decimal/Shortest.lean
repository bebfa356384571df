/-!
# The fewest decimal digits that read back

A finite double other than zero is `m · 2 ^ q`. The decimals that read back as this double are those
between the midpoints to its neighbours, the midpoints included when `m` is even. Of the decimals
with the fewest digits in that interval, `shortest` takes the nearest one; `Tie` says which of two
equally near ones.

* `Binary` — `m · 2 ^ q`, and whether the gap below is half the gap above.
* `Decimal` — `digits · 10 ^ power`.
* `Binary.ofFloat` — the value of a finite double.
* `Binary.shortest` — its shortest decimal.

All arithmetic is exact, on natural numbers: a bound of the interval is a count of quarter units
`2 ^ (q - 2)`.
-/

namespace Zephirize

/-- A positive binary number `mantissa · 2 ^ power`; `narrow` says that the gap to the next smaller
double is half the gap to the next larger one. -/
structure Binary where
  mantissa : Nat
  power : Int
  narrow : Bool
deriving DecidableEq, Repr

/-- A decimal `digits · 10 ^ power`. -/
structure Decimal where
  digits : Nat
  power : Int
deriving DecidableEq, Repr

/-- Which of two equally near decimals is taken. -/
inductive Tie where
  /-- The larger one. -/
  | up
  /-- The one with the even last digit. -/
  | even
deriving DecidableEq, Repr

namespace Binary

/-- The absolute value of a finite double other than zero; `none` for the others. -/
def ofFloat (x : Float) : Option Binary :=
  let bits := x.toBits.toNat % Nat.pow 2 63
  let exponent : Nat := bits / Nat.pow 2 52
  let fraction := bits % Nat.pow 2 52
  if exponent = 2047 then none
  else if exponent = 0 then
    if fraction = 0 then none else some ⟨fraction, -1074, false⟩
  else some ⟨Nat.pow 2 52 + fraction, (exponent : Int) - 1075, fraction = 0 && exponent != 1⟩

/-- A quarter unit is `up / down`, of which one is 1. -/
def up (b : Binary) : Nat := Nat.pow 2 (b.power - 2).toNat

/-- A quarter unit is `up / down`, of which one is 1. -/
def down (b : Binary) : Nat := Nat.pow 2 (2 - b.power).toNat

/-- The upper midpoint in quarter units. -/
def high (b : Binary) : Nat := 4 * b.mantissa + 2

/-- The lower midpoint in quarter units. -/
def low (b : Binary) : Nat := 4 * b.mantissa - if b.narrow then 1 else 2

/-- The decimal `n · 10 ^ k` lies among the reals that read back as `b`. -/
def holds (b : Binary) (n : Nat) (k : Int) : Bool :=
  let mid := n * Nat.pow 10 k.toNat * b.down
  let low := b.low * b.up * Nat.pow 10 (-k).toNat
  let high := b.high * b.up * Nat.pow 10 (-k).toNat
  if b.mantissa % 2 = 0 then low ≤ mid && mid ≤ high else low < mid && mid < high

/-- `b` in units of `10 ^ k`, as numerator and denominator. -/
def ratio (b : Binary) (k : Int) : Nat × Nat :=
  (4 * b.mantissa * b.up * Nat.pow 10 (-k).toNat, b.down * Nat.pow 10 k.toNat)

/-- The number of decimal digits before the point, counted below zero for a number under a tenth:
`10 ^ (magnitude - 1) ≤ b < 10 ^ magnitude`. -/
def magnitude (b : Binary) : Int :=
  let (num, den) := b.ratio 0
  if den ≤ num then (Nat.toDigits 10 (num / den)).length
  else 1 - ((List.range 400).find? fun j => den ≤ num * Nat.pow 10 j).getD 0

/-- The decimal for `b` on the grid of multiples of `10 ^ k`: of the two neighbours of `b`, those
that read back, the nearer one of two. -/
def onGrid (tie : Tie) (b : Binary) (k : Int) : Option Nat :=
  let (num, den) := b.ratio k
  let below := num / den
  let rest := num % den
  match b.holds below k, b.holds (below + 1) k with
  | false, false => none
  | true, false => some below
  | false, true => some (below + 1)
  | true, true =>
    if 2 * rest < den then some below
    else if den < 2 * rest then some (below + 1)
    else match tie with
      | .up => some (below + 1)
      | .even => some (if below % 2 = 0 then below else below + 1)

/-- Moves the trailing zeros of the digits into the power; `fuel` bounds their number. -/
def trimZeros : Nat → Decimal → Decimal
  | 0, d => d
  | fuel + 1, d =>
    if d.digits ≠ 0 ∧ d.digits % 10 = 0 then trimZeros fuel ⟨d.digits / 10, d.power + 1⟩ else d

/-- The shortest decimal that reads back as `b`. Seventeen digits always suffice. -/
def shortest (tie : Tie) (b : Binary) : Decimal :=
  let m := b.magnitude
  let found := (List.range 17).findSome? fun i : Nat =>
    let k := m - ((i : Int) + 1)
    (b.onGrid tie k).map fun n => (⟨n, k⟩ : Decimal)
  trimZeros 20 (found.getD ⟨b.mantissa, b.power⟩)

end Binary

end Zephirize
