import Zephirize.Text.Lines

/-!
# Qualified names

A name is a list of parts, such as `App\Models\User`; it is fully qualified when it is written with
a leading separator.

* `Name.ofString` — the name that a text spells.
* `Name.text` — the text of a name.
-/

namespace Zephirize

/-- A possibly qualified name. -/
structure Name where
  parts : List String
  /-- The name is written with a leading separator. -/
  fullyQualified : Bool := false
deriving DecidableEq, Repr, Inhabited

namespace Name

/-- What stands between the parts of a name. -/
def separator : Char := '\\'

/-- The name that a text spells; leading, trailing and repeated separators add no parts. -/
def ofString (s : String) : Name where
  parts := (Text.splitOn separator s).filter (!·.isEmpty)
  fullyQualified := s.toList.head? == some separator

/-- The parts with separators between them, without a leading one. -/
def joined (n : Name) : String := "\\".intercalate n.parts

/-- The text of a name. -/
def text (n : Name) : String := if n.fullyQualified then "\\" ++ n.joined else n.joined

/-- The last part; empty when there is none. -/
def last (n : Name) : String := n.parts.getLastD ""

end Name

/-- The part of a text after its last separator. -/
def lastSegment (s : String) : String := (Text.splitOn Name.separator s).getLastD ""

end Zephirize
