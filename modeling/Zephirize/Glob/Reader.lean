import Zephirize.Glob.Basic

/-!
# Reading glob patterns

The text of a pattern is read in two steps: its characters make signs, so that escapes and character
sets are out of the way, and the signs make parts.

* `Glob.Sign`, `Glob.signs?` — the signs of a text. A set that is not closed, a range that runs
  backwards and a backslash at the end are errors.
* `Glob.parts?` — the parts of signs. A group that is not closed or not opened is an error.
* `Glob.ofText?` — the pattern of a text.
-/

namespace Zephirize

namespace Glob

/-- The signs of a pattern's text. -/
inductive Sign where
  | plain (c : Char)
  /-- A character after a backslash. -/
  | escaped (c : Char)
  | question
  | star
  | oneOf (negated : Bool) (ranges : List (Char × Char))
  | opening
  | closing
  | comma
deriving DecidableEq, Repr

namespace Sign

/-- The last character of a sign. -/
def lastChar : Sign → Char
  | .plain c => c
  | .escaped c => c
  | .question => '?'
  | .star => '*'
  | .oneOf _ _ => ']'
  | .opening => '\x7b'
  | .closing => '\x7d'
  | .comma => ','

end Sign

/-! ### Signs -/

/-- A character set while it is read. The latest range comes first. -/
structure OpenSet where
  negated : Bool := false
  ranges : List (Char × Char) := []
  /-- A hyphen was read after the latest range, which ends where it starts. -/
  hyphen : Bool := false

namespace OpenSet

/-- Adds a character: the end of the latest range after a hyphen, else a range of its own. -/
def add? (s : OpenSet) (c : Char) : Option OpenSet :=
  match s.hyphen, s.ranges with
  | true, (first, _) :: ranges =>
    if c < first then none else some { s with ranges := (first, c) :: ranges, hyphen := false }
  | _, ranges => some { s with ranges := (c, c) :: ranges }

/-- The set as a sign. A hyphen at the end stands for itself. -/
def sign (s : OpenSet) : Sign :=
  .oneOf s.negated ((if s.hyphen then ('-', '-') :: s.ranges else s.ranges).reverse)

end OpenSet

/-- What the reader of signs is at. -/
inductive Mode where
  | outside
  | afterBackslash
  /-- Right after the bracket that opens a set. -/
  | setStart
  | inSet (s : OpenSet)

/-- The signs so far, the latest first, and what the reader is at. -/
structure Progress where
  signs : List Sign := []
  mode : Mode := .outside

namespace Progress

/-- Adds a sign. -/
def add (p : Progress) (s : Sign) : Progress := ⟨s :: p.signs, .outside⟩

/-- A character in a set. The first one always stands for itself. -/
def inSet? (p : Progress) (s : OpenSet) (c : Char) : Option Progress :=
  if s.ranges.isEmpty then some { p with mode := .inSet { s with ranges := [(c, c)] } }
  else if c = ']' then some (p.add s.sign)
  else if c = '-' && !s.hyphen then some { p with mode := .inSet { s with hyphen := true } }
  else (s.add? c).map fun s => { p with mode := .inSet s }

/-- The next character. -/
def next? (p : Progress) (c : Char) : Option Progress :=
  match p.mode with
  | .outside =>
    match c with
    | '?' => some (p.add .question)
    | '*' => some (p.add .star)
    | '[' => some { p with mode := .setStart }
    | '\x7b' => some (p.add .opening)
    | '\x7d' => some (p.add .closing)
    | ',' => some (p.add .comma)
    | '\\' => some { p with mode := .afterBackslash }
    | c => some (p.add (.plain c))
  | .afterBackslash => some (p.add (.escaped c))
  | .setStart =>
    if c = '!' || c = '^' then some { p with mode := .inSet { negated := true } }
    else p.inSet? {} c
  | .inSet s => p.inSet? s c

end Progress

/-- The signs of a text. -/
def signs? (text : String) : Option (List Sign) := do
  let p : Progress ← text.toList.foldlM Progress.next? {}
  match p.mode with
  | .outside => some p.signs.reverse
  | _ => none

/-! ### Parts -/

/-- A group whose closing brace is still to come. -/
structure OpenGroup where
  /-- The parts before the group, the latest first. -/
  before : List Part
  /-- The branches that are complete, the latest first. -/
  branches : List (List Part) := []

/-- A part that takes nothing. -/
def isVoid : Part → Bool
  | .choice [] => true
  | _ => false

/-- A group of branches. Branches that take nothing are left out. -/
def group (branches : List (List Part)) : Part := .choice (branches.filter fun b => !b.all isVoid)

/-- A double star after a slash takes the slash with it; the parts are given with the latest first,
and another double star before the slash takes both. -/
def absorbSlash (double : Part) : List Part → List Part
  | .leading :: parts => .leading :: parts
  | .trailing :: parts => .trailing :: parts
  | _ :: parts => double :: parts
  | [] => [double]

/-- The parts of signs, given the groups that are open, the parts read in the innermost one with the
latest first, and the character before the signs. -/
def partsFrom? (groups : List OpenGroup) (parts : List Part) (before : Option Char) :
    List Sign → Option (List Part)
  | [] => if groups.isEmpty then some parts.reverse else none
  | .star :: .star :: rest =>
    let nested := !groups.isEmpty
    if parts.isEmpty then
      match rest with
      | [] => if nested then none else some [.leading]
      | .plain '/' :: rest => partsFrom? groups [.leading] (some '/') rest
      | rest => partsFrom? groups [.star, .star] (some '*') rest
    else if before = some '/' || (nested && (before = some ',' || before = some '\x7b')) then
      match rest with
      | [] => if nested then none else some (absorbSlash .trailing parts).reverse
      | .plain '/' :: rest => partsFrom? groups (absorbSlash .between parts) (some '/') rest
      | sign :: rest =>
        if nested && (sign = .comma || sign = .closing) then
          partsFrom? groups (absorbSlash .trailing parts) (some '*') (sign :: rest)
        else partsFrom? groups (.star :: .star :: parts) (some '*') (sign :: rest)
    else partsFrom? groups (.star :: .star :: parts) (some '*') rest
  | sign :: rest =>
    let last := some sign.lastChar
    match sign with
    | .plain c => partsFrom? groups (.literal c :: parts) last rest
    | .escaped c => partsFrom? groups (.literal c :: parts) last rest
    | .question => partsFrom? groups (.any :: parts) last rest
    | .star => partsFrom? groups (.star :: parts) last rest
    | .oneOf negated ranges => partsFrom? groups (.oneOf negated ranges :: parts) last rest
    | .opening => partsFrom? (⟨parts, []⟩ :: groups) [] last rest
    | .comma =>
      match groups with
      | [] => partsFrom? [] (.literal ',' :: parts) last rest
      | g :: groups =>
        partsFrom? (⟨g.before, parts.reverse :: g.branches⟩ :: groups) [] last rest
    | .closing =>
      match groups with
      | [] => none
      | g :: groups =>
        partsFrom? groups (group (parts.reverse :: g.branches).reverse :: g.before) last rest

/-- The parts of signs. -/
def parts? (signs : List Sign) : Option (List Part) := partsFrom? [] [] none signs

/-- The pattern of a text. -/
def ofText? (text : String) : Option Glob := do
  let signs ← signs? text
  let parts ← parts? signs
  return ⟨parts⟩

end Glob

end Zephirize
