import Zephirize.Text.Lines

/-!
# Doc blocks

A doc comment is a summary followed by tags. A tag starts at an `@` that is at the start of the text
or after ASCII white space and before an ASCII letter; it reaches to the next tag.

* `DocBlock.body` — a comment without its markers and the stars in front of its lines.
* `DocBlock.segments` — the text before the first tag, and the text of each tag.
* `DocTag.ofSegment` — the tag that a segment writes.
* `DocBlock.ofText` — the doc block of a comment.
* `DocBlock.typeOfParam?`, `DocBlock.typeOfResult?` — the documented types.
-/

namespace Zephirize

/-- A tag of a doc block. -/
inductive DocTag where
  /-- The type of a parameter; the variable is kept as it is written. -/
  | param (type var : String)
  | returns (type : String)
  | throws (type : String)
  | other (name body : String)
deriving DecidableEq, Repr, Inhabited

/-- A doc comment. -/
structure DocBlock where
  summary : String
  tags : List DocTag
deriving DecidableEq, Repr, Inhabited

namespace DocTag

/-- The parameter that a tag names, without dollar sign and reference or variadic marks. -/
def parameter? : DocTag → Option String
  | .param _ var =>
    match var.toList.dropWhile fun c => c == '&' || c == '.' with
    | '$' :: name => some (String.ofList name)
    | _ => none
  | _ => none

/-- An opening bracket of a type. -/
def isOpening (c : Char) : Bool := c == '<' || c == '(' || c == '\x7b' || c == '['

/-- A closing bracket of a type. -/
def isClosing (c : Char) : Bool := c == '>' || c == ')' || c == '\x7d' || c == ']'

/-- Splits off the characters up to the first white space outside of brackets, where `depth`
brackets are open. -/
def splitType (depth : Nat) : List Char → List Char × List Char
  | [] => ([], [])
  | c :: rest =>
    if Text.isSpace c && depth == 0 then ([], c :: rest)
    else
      let inner := if isOpening c then depth + 1 else if isClosing c then depth - 1 else depth
      let (token, tail) := splitType inner rest
      (c :: token, tail)

/-- The first token of a text, and what follows it. -/
def nextType (cs : List Char) : List Char × List Char := splitType 0 (Text.Chars.trimStart cs)

/-- The token is a variable: a dollar sign, after a reference or a variadic mark. -/
def isVariable (cs : List Char) : Bool :=
  match cs with
  | '$' :: _ => true
  | '&' :: '$' :: _ => true
  | '.' :: '.' :: '.' :: '$' :: _ => true
  | _ => false

/-- The tag with this name and text. A parameter tag may leave out the type. -/
def ofParts (name : String) (rest : List Char) : DocTag :=
  match name with
  | "param" =>
    let (first, tail) := nextType rest
    if isVariable first then .param "" (String.ofList first)
    else .param (String.ofList first) (String.ofList (nextType tail).1)
  | "return" | "returns" => .returns (String.ofList (nextType rest).1)
  | "throws" | "throw" => .throws (String.ofList (nextType rest).1)
  | _ => .other name (String.ofList rest)

/-- The tag that a segment writes; the segment stands without its `@`. -/
def ofSegment (cs : List Char) : DocTag :=
  let name := cs.takeWhile fun c => !Text.isSpace c
  let rest := (cs.dropWhile fun c => !Text.isSpace c).drop 1
  ofParts (String.ofList name) (Text.Chars.trim rest)

end DocTag

namespace DocBlock

/-- One line of a comment without the star in front of it. -/
def strippedLine (line : String) : String :=
  let line := Text.trimStart line
  Text.trim ((Text.dropStart? "*" line).getD line)

/-- A comment without its markers and the stars in front of its lines. -/
def body (comment : String) : String :=
  let text := Text.trim comment
  let text := (Text.dropStart? "/**" text <|> Text.dropStart? "/*" text).getD text
  let text := (Text.dropEnd? "*/" text).getD text
  Text.joinLines ((Text.lines text).map strippedLine)

/-- The text starts with an ASCII letter. -/
def startsWithLetter : List Char → Bool
  | c :: _ => c.isAlpha
  | [] => false

/-- The text before the first tag, and the text of each tag, which starts with its `@`. `fresh` says
that a tag may start right here. -/
def segments (fresh : Bool) : List Char → List Char × List (List Char)
  | [] => ([], [])
  | c :: rest =>
    let (lead, tags) := segments (Text.isAsciiSpace c) rest
    if fresh && c == '@' && startsWithLetter rest then ([], (c :: lead) :: tags)
    else (c :: lead, tags)

/-- The doc block of a comment. -/
def ofText (comment : String) : DocBlock :=
  let (lead, tags) := segments true (body comment).toList
  { summary := String.ofList (Text.Chars.trim lead)
    tags := tags.map fun segment => DocTag.ofSegment (segment.drop 1) }

/-- The type of the first tag that documents this parameter with a type. -/
def typeOfParam? (d : DocBlock) (name : String) : Option String :=
  d.tags.findSome? fun tag =>
    match tag with
    | .param type _ => if !type.isEmpty && tag.parameter? == some name then some type else none
    | _ => none

/-- The type of the first tag that documents the result with a type. -/
def typeOfResult? (d : DocBlock) : Option String :=
  d.tags.findSome? fun
    | .returns type => if type.isEmpty then none else some type
    | _ => none

end DocBlock

end Zephirize
