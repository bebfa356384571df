import Zephirize.Decimal.Layout
import Zephirize.Json.Basic

/-!
# Writing JSON texts

* `Json.compact` — the text without blanks.
* `Json.pretty` — the text with every item and field on a line of its own, indented by two blanks.

In strings the quote, the backslash and the control characters below `U+0020` are escaped; all other
characters stand for themselves.
-/

namespace Zephirize.Json

/-- Doubles are written out from `1e-5` to below `1e16` and have a signed exponent otherwise; of two
equally short and near decimals the even one is written. -/
def numberLayout : Layout where
  plainFrom := -5
  plainTo := 15
  positiveMark := "+"
  tie := .even
  notANumber := "null"
  infinity := "null"
  negativeInfinity := "null"

/-- How one character is written inside a string. -/
def escape (c : Char) : List Char :=
  match c with
  | '"' => ['\\', '"']
  | '\\' => ['\\', '\\']
  | '\x08' => ['\\', 'b']
  | '\x0c' => ['\\', 'f']
  | '\n' => ['\\', 'n']
  | '\r' => ['\\', 'r']
  | '\t' => ['\\', 't']
  | c =>
    if c.toNat < 0x20 then
      ['\\', 'u', '0', '0', Nat.digitChar (c.toNat / 16), Nat.digitChar (c.toNat % 16)]
    else [c]

/-- A string between quotes. -/
def quoted (s : String) : String := String.ofList ('"' :: s.toList.flatMap escape ++ ['"'])

/-- The text of a number. -/
def numberText : Number → String
  | .int i => toString i
  | .float x => numberLayout.write x

mutual

/-- The text of a value without blanks. -/
def compact : Json → String
  | .null => "null"
  | .bool true => "true"
  | .bool false => "false"
  | .num n => numberText n
  | .str s => quoted s
  | .arr items => "[" ++ ",".intercalate (compactItems items) ++ "]"
  | .obj fields => "\x7b" ++ ",".intercalate (compactFields fields) ++ "\x7d"
  | .unreadable => "null"

/-- The texts of items. -/
def compactItems : List Json → List String
  | [] => []
  | v :: rest => compact v :: compactItems rest

/-- The texts of fields. -/
def compactFields : List (String × Json) → List String
  | [] => []
  | (name, v) :: rest => (quoted name ++ ":" ++ compact v) :: compactFields rest

end

/-- Entries between brackets, each on a line of its own after `margin` and two blanks. -/
def bracketed (opening closing margin : String) (entries : List String) : String :=
  if entries.isEmpty then opening ++ closing
  else
    let inner := "\n" ++ margin ++ "  "
    opening ++ inner ++ (("," ++ inner).intercalate entries) ++ "\n" ++ margin ++ closing

mutual

/-- The text of a value laid out on lines, where `margin` starts the line of the value. -/
def prettyFrom (margin : String) : Json → String
  | .arr items => bracketed "[" "]" margin (prettyItems (margin ++ "  ") items)
  | .obj fields => bracketed "\x7b" "\x7d" margin (prettyFields (margin ++ "  ") fields)
  | v => compact v

/-- The texts of items. -/
def prettyItems (margin : String) : List Json → List String
  | [] => []
  | v :: rest => prettyFrom margin v :: prettyItems margin rest

/-- The texts of fields. -/
def prettyFields (margin : String) : List (String × Json) → List String
  | [] => []
  | (name, v) :: rest => (quoted name ++ ": " ++ prettyFrom margin v) :: prettyFields margin rest

end

/-- The text of a value laid out on lines. -/
def pretty (v : Json) : String := prettyFrom "" v

end Zephirize.Json
