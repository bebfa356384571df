/-!
# Glob patterns

A glob pattern is matched against a whole path, byte by byte. Wildcards do not stop at slashes.

* `Glob.Part` — the parts of a pattern.
* `Glob.remainders` — what may be left of a text after a part took some of it from the front.
* `Glob.covers` — a pattern covers a path.
-/

namespace Zephirize

namespace Glob

/-- The parts of a pattern. -/
inductive Part where
  | literal (c : Char)
  /-- `?`: one byte. -/
  | any
  /-- `*`: some bytes. -/
  | star
  /-- A double star and a slash at the start: any directories, or none. -/
  | leading
  /-- A slash and a double star at the end: all that is below a directory. -/
  | trailing
  /-- A double star between slashes: any directories, or none. -/
  | between
  /-- `[ab]`, `[a-z]`, `[!a]`: one byte among those of the characters, or none of them. -/
  | oneOf (negated : Bool) (ranges : List (Char × Char))
  /-- A brace group. Without branches it takes nothing. -/
  | choice (branches : List (List Part))

/-- The UTF-8 bytes of a character. -/
def charBytes (c : Char) : List UInt8 := (String.singleton c).toUTF8.toList

/-- The bytes of a text. -/
def textBytes (s : String) : List UInt8 := s.toUTF8.toList

/-- The byte of the slash. -/
def slash : UInt8 := 47

/-- The byte belongs to a range of characters: the last byte of the first character and the first
byte of the last one are the ends of a range of bytes, and the other bytes of both stand for
themselves. -/
def inRange (b : UInt8) (first last : Char) : Bool :=
  let low := charBytes first
  let high := charBytes last
  if first = last then low.contains b
  else low.dropLast.contains b || high.tail.contains b ||
    (low.getLast?.any (· ≤ b) && high.head?.any (b ≤ ·))

/-- The ends of a text, itself and the empty one included. -/
def ends : List UInt8 → List (List UInt8)
  | [] => [[]]
  | b :: rest => (b :: rest) :: ends rest

/-- The ends of a text after its slashes. -/
def endsAfterSlash : List UInt8 → List (List UInt8)
  | [] => []
  | b :: rest => if b = slash then rest :: endsAfterSlash rest else endsAfterSlash rest

/-- What is left after a slash at the front. -/
def afterSlash? : List UInt8 → Option (List UInt8)
  | [] => none
  | b :: rest => if b = slash then some rest else none

/-- What is left after some bytes at the front. -/
def after? : List UInt8 → List UInt8 → Option (List UInt8)
  | [], text => some text
  | _ :: _, [] => none
  | b :: start, c :: text => if b = c then after? start text else none

mutual

/-- What may be left of a text after a part. -/
def remainders : Part → List UInt8 → List (List UInt8)
  | .literal c, text => (after? (charBytes c) text).toList
  | .any, text => text.tail?.toList
  | .star, text => ends text
  | .leading, text => text :: endsAfterSlash text
  | .trailing, text => (afterSlash? text).toList.flatMap ends
  | .between, text => (afterSlash? text).toList.flatMap fun rest => rest :: endsAfterSlash rest
  | .oneOf negated ranges, text =>
    match text with
    | [] => []
    | b :: rest =>
      if ranges.any (fun (first, last) => inRange b first last) != negated then [rest] else []
  | .choice [], text => [text]
  | .choice (branch :: more), text => remaindersAny (branch :: more) text

/-- What may be left of a text after one of the branches. -/
def remaindersAny : List (List Part) → List UInt8 → List (List UInt8)
  | [], _ => []
  | branch :: more, text => remaindersAll branch [text] ++ remaindersAny more text

/-- What may be left of one of the texts after all the parts. -/
def remaindersAll : List Part → List (List UInt8) → List (List UInt8)
  | [], texts => texts
  | part :: parts, texts => remaindersAll parts (texts.flatMap (remainders part)).eraseDups

end

end Glob

/-- A pattern. -/
structure Glob where
  parts : List Glob.Part

namespace Glob

/-- The pattern covers a path. A double star alone covers every path. -/
def covers (g : Glob) (path : String) : Bool :=
  match g.parts with
  | [.leading] => true
  | parts => (remaindersAll parts [textBytes path]).contains []

end Glob

end Zephirize
