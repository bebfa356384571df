import Zephirize.Text.Space

/-!
# Lines and separated parts

* `lines` — the lines of a text: a line ends at a line feed, a carriage return right before it
  belongs to the ending, and nothing follows a final line feed.
* `splitOn` — the parts between the occurrences of a separating character, empty ones included.
* `joinLines` — texts on lines of their own.
* `indent` — every non-empty line moved to the right.
-/

namespace Zephirize.Text

namespace Chars

/-- The lines of a text. -/
def lines : List Char → List (List Char)
  | [] => []
  | '\r' :: '\n' :: rest => [] :: lines rest
  | '\n' :: rest => [] :: lines rest
  | c :: rest =>
    match lines rest with
    | [] => [[c]]
    | line :: more => (c :: line) :: more

/-- The parts of a text between the separators. -/
def splitOn (sep : Char) : List Char → List (List Char)
  | [] => [[]]
  | c :: rest =>
    if c = sep then [] :: splitOn sep rest
    else
      match splitOn sep rest with
      | [] => [[c]]
      | part :: more => (c :: part) :: more

end Chars

/-- The lines of a text. -/
def lines (s : String) : List String := (Chars.lines s.toList).map String.ofList

/-- The parts of a text between the separators. -/
def splitOn (sep : Char) (s : String) : List String :=
  (Chars.splitOn sep s.toList).map String.ofList

/-- Texts, each starting on a line of its own. -/
def joinLines (texts : List String) : String := "\n".intercalate texts

/-- A text with its non-empty lines moved to the right by `unit`. -/
def indent (unit s : String) : String :=
  joinLines ((lines s).map fun line => if line.isEmpty then line else unit ++ line)

/-- The text with ASCII letters in lower case; all other characters stay. -/
def asciiLower (s : String) : String := s.map Char.toLower

/-- The text with the leading part removed, when it starts with it. -/
def dropStart? (start s : String) : Option String :=
  if start.toList.isPrefixOf s.toList then
    some (String.ofList (s.toList.drop start.length))
  else none

/-- The text with the ending removed, when it ends with it. -/
def dropEnd? (ending s : String) : Option String :=
  if ending.toList.isSuffixOf s.toList then
    some (String.ofList (s.toList.take (s.length - ending.length)))
  else none

end Zephirize.Text
