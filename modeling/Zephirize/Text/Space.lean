/-!
# White space

* `isSpace` — the characters with the Unicode property White_Space.
* `trimStart`, `trimEnd`, `trim` — a text without the white space at its ends.

The working functions are on lists of characters; those on `String` wrap them.
-/

namespace Zephirize.Text

/-- The white-space characters above `U+0020`, as inclusive ranges of code points. -/
def wideSpaces : List (Nat × Nat) :=
  [(0x85, 0x85), (0xA0, 0xA0), (0x1680, 0x1680), (0x2000, 0x200A), (0x2028, 0x2029),
    (0x202F, 0x202F), (0x205F, 0x205F), (0x3000, 0x3000)]

/-- `c` is white space: a blank, a control character from tab to carriage return, or one of
`wideSpaces`. -/
def isSpace (c : Char) : Bool :=
  c == ' ' || (0x09 ≤ c.toNat && c.toNat ≤ 0x0D) ||
    wideSpaces.any fun (lo, hi) => lo ≤ c.toNat && c.toNat ≤ hi

/-- The white-space characters of ASCII: blank, tab, line feed, form feed, carriage return. -/
def isAsciiSpace (c : Char) : Bool :=
  c == ' ' || c == '\t' || c == '\n' || c == '\x0c' || c == '\r'

namespace Chars

/-- The characters from the first one that is not white space. -/
def trimStart (cs : List Char) : List Char := cs.dropWhile isSpace

/-- The characters up to the last one that is not white space. -/
def trimEnd (cs : List Char) : List Char := (cs.reverse.dropWhile isSpace).reverse

/-- The characters without the white space at either end. -/
def trim (cs : List Char) : List Char := trimEnd (trimStart cs)

end Chars

/-- The text without leading white space. -/
def trimStart (s : String) : String := String.ofList (Chars.trimStart s.toList)

/-- The text without white space at either end. -/
def trim (s : String) : String := String.ofList (Chars.trim s.toList)

end Zephirize.Text
