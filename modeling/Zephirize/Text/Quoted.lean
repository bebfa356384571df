/-!
# Quoted string literals

A string literal stands between double quotes; a quote, a backslash, a line feed, a carriage
return and a tab inside it are written with a backslash.

* `quote` — the literal of a string.
* `unquote` — the string of a literal.
-/

namespace Zephirize.Text.Quoted

/-- How one character is written inside a literal. -/
def escape : Char → List Char
  | '"' => ['\\', '"']
  | '\\' => ['\\', '\\']
  | '\n' => ['\\', 'n']
  | '\r' => ['\\', 'r']
  | '\t' => ['\\', 't']
  | c => [c]

/-- The string literal of `s`. -/
def quote (s : String) : String :=
  String.ofList ('"' :: s.toList.flatMap escape ++ ['"'])

/-- The character that a backslash before `c` stands for. -/
def unescape : Char → Option Char
  | '"' => some '"'
  | '\\' => some '\\'
  | 'n' => some '\n'
  | 'r' => some '\r'
  | 't' => some '\t'
  | _ => none

/-- Reads the inside of a literal up to its closing quote, which has to be the last character. -/
def decodeBody : List Char → Option (List Char)
  | [] => none
  | ['"'] => some []
  | '"' :: _ => none
  | '\\' :: c :: rest => do
    let d ← unescape c
    return d :: (← decodeBody rest)
  | c :: rest => (decodeBody rest).map (c :: ·)

/-- The string that a literal stands for, if the text is one complete literal. -/
def unquote (text : String) : Option String :=
  match text.toList with
  | '"' :: body => (decodeBody body).map String.ofList
  | _ => none

end Zephirize.Text.Quoted
