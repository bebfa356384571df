import Zephirize.Text.Hex
import Zephirize.Text.Lines

/-!
# Modifiers

The modifiers of a class or member are a set of flags, kept in eight bits. Bits without a flag are
kept too.

* `Modifiers.ofText?`, `Modifiers.text` — reading and writing the flags as names joined by bars.
* `Modifiers.keywords` — the keywords in front of a declaration.
-/

namespace Zephirize

/-- A set of modifiers. -/
structure Modifiers where
  bits : UInt8 := 0
deriving DecidableEq, Repr, Inhabited

namespace Modifiers

/-- No modifier. -/
def empty : Modifiers := ⟨0⟩

/-- The modifier `public` alone. -/
def publicOnly : Modifiers := ⟨1⟩

/-- The flags with their names, in order. -/
def flags : List (UInt8 × String) :=
  [(1, "PUBLIC"), (2, "PROTECTED"), (4, "PRIVATE"), (8, "ABSTRACT"), (16, "STATIC"), (32, "FINAL")]

/-- All bits of `flag` are set. -/
def has (m : Modifiers) (flag : UInt8) : Bool := m.bits &&& flag == flag

/-- The modifiers of either. -/
def union (m n : Modifiers) : Modifiers := ⟨m.bits ||| n.bits⟩

/-! ### Text -/

/-- The bits that hexadecimal digits name, after an optional plus. -/
def hexBits? (cs : List Char) : Option UInt8 :=
  let digits := match cs with
    | '+' :: rest => rest
    | cs => cs
  if digits.isEmpty then none
  else do
    let n ← Text.hexNumber? digits
    if n < 256 then some n.toUInt8 else none

/-- The modifiers that one flag names: a flag's name, or `0x` and bits. -/
def flag? (s : String) : Option Modifiers :=
  match s.toList with
  | '0' :: 'x' :: digits => (hexBits? digits).map (⟨·⟩)
  | _ => (flags.find? fun (_, name) => name == s).map fun (bit, _) => ⟨bit⟩

/-- The modifiers that a text names. A blank text names none; an empty flag between bars is an
error. -/
def ofText? (s : String) : Option Modifiers :=
  if (Text.trim s).isEmpty then some empty
  else do
    let each ← (Text.splitOn '|' s).mapM fun part => flag? (Text.trim part)
    return each.foldl union empty

/-- The bits of `m` that no flag names. -/
def unnamed (m : Modifiers) : UInt8 := flags.foldl (fun bits (flag, _) => bits &&& ~~~flag) m.bits

/-- The names of the flags in order, then the other bits in hexadecimal, joined by bars. -/
def text (m : Modifiers) : String :=
  let names := (flags.filter fun (flag, _) => m.has flag).map (·.2)
  let rest := if m.unnamed = 0 then [] else
    ["0x" ++ String.ofList (Nat.toDigits 16 m.unnamed.toNat)]
  " | ".intercalate (names ++ rest)

/-! ### Keywords -/

/-- The keywords of the flags in order, each followed by a blank. -/
def keywords (m : Modifiers) : String :=
  String.join ((flags.filter fun (flag, _) => m.has flag).map fun (_, name) =>
    Text.asciiLower name ++ " ")

/-- A member without a visibility is public. -/
def withVisibility (m : Modifiers) : Modifiers :=
  if m.bits &&& 7 = 0 then m.union publicOnly else m

end Modifiers

end Zephirize
