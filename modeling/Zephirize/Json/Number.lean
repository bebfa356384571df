import Zephirize.Json.Basic

/-!
# Number literals

A literal is an optional minus, an integer part without leading zeros, an optional fraction and an
optional exponent.

* `Literal.ofChars?` — the parts of a literal.
* `Literal.value` — the number it is read as: an integer where it fits 64 bits, otherwise a double.
  A literal beyond the doubles has no value.

A double is computed from the digits that fit 64 bits and a power of ten, with a rounding at each
step. This gives the nearest double for short literals; for long ones the last place may differ:
`31.245270191439438` is read as `31.24527019143944`.
-/

namespace Zephirize

/-- The parts of a number literal. -/
structure Literal where
  negative : Bool
  whole : List Char
  /-- The digits after the point; empty when there is none. -/
  fraction : List Char
  exponent : Option Int

namespace Literal

/-- The number that decimal digits stand for. -/
def natOf (digits : List Char) : Nat :=
  digits.foldl (fun n c => 10 * n + (c.toNat - '0'.toNat)) 0

/-- The integer part: a zero alone, or digits that do not start with one. -/
def whole? (digits : List Char) : Option (List Char) :=
  match digits with
  | [] => none
  | '0' :: _ :: _ => none
  | _ => some digits

/-- The fraction at the start of `cs`, and what follows it. -/
def fraction? (cs : List Char) : Option (List Char × List Char) :=
  match cs with
  | '.' :: rest =>
    let (digits, rest) := rest.span Char.isDigit
    if digits.isEmpty then none else some (digits, rest)
  | _ => some ([], cs)

/-- The exponent that is all of `cs`. -/
def exponent? (cs : List Char) : Option (Option Int) :=
  let digits? (sign : Int) (digits : List Char) : Option (Option Int) :=
    if digits.isEmpty || !digits.all Char.isDigit then none else some (some (sign * natOf digits))
  match cs with
  | [] => some none
  | c :: rest =>
    if c ≠ 'e' ∧ c ≠ 'E' then none
    else
      match rest with
      | '+' :: digits => digits? 1 digits
      | '-' :: digits => digits? (-1) digits
      | digits => digits? 1 digits

/-- The parts of a literal, if the characters are one. -/
def ofChars? (cs : List Char) : Option Literal := do
  let (negative, cs) := match cs with
    | '-' :: rest => (true, rest)
    | cs => (false, cs)
  let (digits, rest) := cs.span Char.isDigit
  let whole ← whole? digits
  let (fraction, rest) ← fraction? rest
  let exponent ← exponent? rest
  return ⟨negative, whole, fraction, exponent⟩

/-- The number `significand` with as many of the digits behind it as fit 64 bits, and how many of
them are left over. -/
def gather (significand : Nat) : List Char → Nat × Nat
  | [] => (significand, 0)
  | c :: rest =>
    let next := 10 * significand + (c.toNat - '0'.toNat)
    if next < Nat.pow 2 64 then gather next rest else (significand, rest.length + 1)

/-- The double nearest to a power of ten. -/
def tenTo (n : Nat) : Float := Float.ofScientific 1 false n

/-- The double `significand · 10 ^ power`, if it is finite. Each operation rounds, and powers beyond
the doubles are divided by in two steps. -/
def scaled? (significand : Nat) (power : Int) : Option Float :=
  if 308 < power then if significand = 0 then some 0.0 else none
  else if 0 ≤ power then
    let x := Float.ofNat significand * tenTo power.toNat
    if x.isFinite then some x else none
  else if -308 ≤ power then some (Float.ofNat significand / tenTo power.natAbs)
  else if -616 ≤ power then some (Float.ofNat significand / tenTo 308 / tenTo (power.natAbs - 308))
  else some 0.0

/-- The double a literal is read as, if it is finite. Left over digits of the integer part count for
the power, those of the fraction do not count. -/
def float? (l : Literal) : Option Float :=
  let whole := gather 0 l.whole
  let all := gather whole.1 l.fraction
  let power := l.exponent.getD 0 + whole.2 - (l.fraction.length - all.2 : Nat)
  (scaled? all.1 power).map fun x => if l.negative then -x else x

/-- The literal has neither fraction nor exponent. -/
def isInteger (l : Literal) : Bool := l.fraction.isEmpty && l.exponent.isNone

/-- The integer a literal stands for, if it is written as one and fits 64 bits. The literal `-0` is
no integer. -/
def int? (l : Literal) : Option Int :=
  let n := natOf l.whole
  if !l.isInteger then none
  else if l.negative then if 0 < n ∧ n ≤ Nat.pow 2 63 then some (-n) else none
  else if n < Nat.pow 2 64 then some n else none

/-- The value of a literal. -/
def value (l : Literal) : Json :=
  match l.int? with
  | some i => .num (.int i)
  | none =>
    match l.float? with
    | some x => .num (.float x)
    | none => .unreadable

end Literal

end Zephirize
