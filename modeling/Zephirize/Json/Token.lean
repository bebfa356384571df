import Zephirize.Json.Number
import Zephirize.Text.Hex

/-!
# JSON tokens

The lexer goes through a text character by character. Its state is what it is in the middle of
(`Lexing`) and the tokens found so far, the latest first.

* `Token` — a mark, a plain value or a string.
* `Lexer.step` — one character.
* `tokens?` — the tokens of a text.
-/

namespace Zephirize.Json

/-- A token of a JSON text. -/
inductive Token where
  | openList
  | closeList
  | openObject
  | closeObject
  | comma
  | colon
  /-- A number, `true`, `false` or `null`. -/
  | leaf (value : Json)
  /-- A string; `none` when its escapes name half a surrogate pair. -/
  | text (value : Option String)
deriving Inhabited

/-- What the lexer is in the middle of. Collected characters are kept in reverse. -/
inductive Lexing where
  | between
  /-- The letters of `true`, `false` or `null`. -/
  | word (letters : List Char)
  | number (chars : List Char)
  /-- The code units of a string. -/
  | string (units : List Nat)
  /-- A string after a backslash. -/
  | escape (units : List Nat)
  /-- A string after `\u` and some of the four hexadecimal digits. -/
  | hex (units : List Nat) (digits : List Char)

/-- The blanks between tokens. -/
def isBlank (c : Char) : Bool := c == ' ' || c == '\t' || c == '\n' || c == '\r'

/-- The character that a backslash before `c` stands for. -/
def unescape? : Char → Option Char
  | '"' => some '"'
  | '\\' => some '\\'
  | '/' => some '/'
  | 'b' => some '\x08'
  | 'f' => some '\x0c'
  | 'n' => some '\n'
  | 'r' => some '\r'
  | 't' => some '\t'
  | _ => none

/-- The first unit of a surrogate pair. -/
def isHighSurrogate (u : Nat) : Bool := 0xD800 ≤ u && u < 0xDC00

/-- The second unit of a surrogate pair. -/
def isLowSurrogate (u : Nat) : Bool := 0xDC00 ≤ u && u < 0xE000

/-- The characters of code units, where two units may form a surrogate pair. -/
def charsOf : List Nat → Option (List Char)
  | [] => some []
  | u :: rest =>
    if isHighSurrogate u then
      match rest with
      | v :: rest =>
        if isLowSurrogate v then
          (charsOf rest).map (Char.ofNat (0x10000 + (u - 0xD800) * 0x400 + (v - 0xDC00)) :: ·)
        else none
      | [] => none
    else if isLowSurrogate u then none
    else (charsOf rest).map (Char.ofNat u :: ·)

/-- The token of a finished word. -/
def wordToken? (letters : List Char) : Option Token :=
  match String.ofList letters.reverse with
  | "true" => some (.leaf (.bool true))
  | "false" => some (.leaf (.bool false))
  | "null" => some (.leaf .null)
  | _ => none

/-- The token of a finished number. -/
def numberToken? (chars : List Char) : Option Token :=
  (Literal.ofChars? chars.reverse).map fun l => .leaf l.value

/-- The token of a finished string. -/
def textToken (units : List Nat) : Token := .text ((charsOf units.reverse).map String.ofList)

/-- The token that is one character long. -/
def mark? : Char → Option Token
  | '[' => some .openList
  | ']' => some .closeList
  | '\x7b' => some .openObject
  | '\x7d' => some .closeObject
  | ',' => some .comma
  | ':' => some .colon
  | _ => none

/-- The characters that a number literal is made of. -/
def isNumberChar (c : Char) : Bool :=
  c.isDigit || c == '-' || c == '+' || c == '.' || c == 'e' || c == 'E'

/-- A lexer between two characters of the text. -/
structure Lexer where
  state : Lexing := .between
  /-- The tokens so far, the latest first. -/
  found : List Token := []

namespace Lexer

/-- Reads a character that no token has claimed. -/
def start (found : List Token) (c : Char) : Option Lexer :=
  if isBlank c then some ⟨.between, found⟩
  else if c = '"' then some ⟨.string [], found⟩
  else
    match mark? c with
    | some t => some ⟨.between, t :: found⟩
    | none =>
      if c.isDigit || c == '-' then some ⟨.number [c], found⟩
      else if c.isLower then some ⟨.word [c], found⟩
      else none

/-- Reads one character. A word and a number end at the first character that cannot belong to them,
which is then read afresh. -/
def step (l : Lexer) (c : Char) : Option Lexer :=
  match l.state with
  | .between => start l.found c
  | .word letters =>
    if c.isLower then some ⟨.word (c :: letters), l.found⟩
    else do start ((← wordToken? letters) :: l.found) c
  | .number chars =>
    if isNumberChar c then some ⟨.number (c :: chars), l.found⟩
    else do start ((← numberToken? chars) :: l.found) c
  | .string units =>
    if c = '"' then some ⟨.between, textToken units :: l.found⟩
    else if c = '\\' then some ⟨.escape units, l.found⟩
    else if c.toNat < 0x20 then none
    else some ⟨.string (c.toNat :: units), l.found⟩
  | .escape units =>
    if c = 'u' then some ⟨.hex units [], l.found⟩
    else (unescape? c).map fun d => ⟨.string (d.toNat :: units), l.found⟩
  | .hex units digits => do
    let _ ← Text.hexValue? c
    match digits with
    | [c3, c2, c1] =>
      let unit ← Text.hexNumber? [c1, c2, c3, c]
      some ⟨.string (unit :: units), l.found⟩
    | _ => some ⟨.hex units (c :: digits), l.found⟩

/-- The tokens at the end of the text, in order. -/
def finish (l : Lexer) : Option (List Token) :=
  match l.state with
  | .between => some l.found.reverse
  | .word letters => (wordToken? letters).map fun t => (t :: l.found).reverse
  | .number chars => (numberToken? chars).map fun t => (t :: l.found).reverse
  | _ => none

end Lexer

/-- The tokens of a text. -/
def tokens? (cs : List Char) : Option (List Token) := do
  (← cs.foldlM Lexer.step ({} : Lexer)).finish

end Zephirize.Json
