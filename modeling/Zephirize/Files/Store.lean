import Zephirize.Files.Path

/-!
# File stores

A store holds directories and files at places. A place is the list of the names on the way from the
top directory, so there are no links: `..` leads to the directory above, and a path is followed only
through directories that exist.

* `Store.entry?` — what is at a place.
* `Store.locate?`, `Store.find?` — the place of a path, and what is there.
* `Store.filesBelow` — the files below a place.
* `Store.makeDirectories?`, `Store.write?` — the two changes; they may be impossible.
-/

namespace Zephirize

/-- What is at a place. -/
inductive Entry where
  | directory
  | text (content : String)
  /-- A file whose content is not text. -/
  | data
deriving DecidableEq, Repr, Inhabited

namespace Entry

/-- The entry is a file. -/
def isFile : Entry → Bool
  | .directory => false
  | .text _ => true
  | .data => true

/-- The text in a file. -/
def content? : Entry → Option String
  | .text content => some content
  | _ => none

end Entry

/-- The names on the way from the top directory. -/
abbrev Place := List String

/-- Directories and files at their places. -/
structure Store where
  entries : List (Place × Entry) := []
deriving DecidableEq, Repr, Inhabited

namespace Store

/-- What is at a place; the top directory always exists. -/
def entry? (s : Store) (place : Place) : Option Entry :=
  if place = [] then some .directory else s.entries.lookup place

/-- The store with an entry at a place, instead of the one that was there. -/
def put (s : Store) (place : Place) (e : Entry) : Store :=
  ⟨(place, e) :: s.entries.filter (·.1 ≠ place)⟩

/-- The most bytes in a name. -/
def nameLimit : Nat := 255

/-- The text can name a file or a directory. -/
def admits (name : String) : Bool := !name.toList.contains '\x00' && name.utf8ByteSize ≤ nameLimit

/-- The place of a segment as seen from a place, which has to be a directory. -/
def follow? (s : Store) (place : Place) (segment : String) : Option Place :=
  if s.entry? place ≠ some .directory then none
  else if Path.isIdle segment then some place
  else if segment = ".." then some place.dropLast
  else if admits segment then some (place ++ [segment])
  else none

/-- The place of a path. There may be nothing at it. -/
def locate? (s : Store) (p : Path) : Option Place := p.segments.foldlM s.follow? []

/-- What is at a path. -/
def find? (s : Store) (p : Path) : Option Entry := (s.locate? p).bind s.entry?

/-- There is a file at the path. -/
def isFile (s : Store) (p : Path) : Bool := (s.find? p).any Entry.isFile

/-- There is a directory at the path. -/
def isDirectory (s : Store) (p : Path) : Bool := s.find? p = some .directory

/-- The text in the file at a path. -/
def read? (s : Store) (p : Path) : Option String := (s.find? p).bind Entry.content?

/-- The ways from a place down to an entry below it, if it is there. -/
def below? (place other : Place) : Option (List String) :=
  if place.isPrefixOf other ∧ place ≠ other then some (other.drop place.length) else none

/-- The ways from a directory down to the files below it. -/
def filesBelow (s : Store) (place : Place) : List (List String) :=
  s.entries.filterMap fun (other, e) => if e.isFile then below? place other else none

/-- Makes the directory of a segment unless it is there, and goes to it. -/
def enter? (spot : Store × Place) (segment : String) : Option (Store × Place) :=
  let (s, place) := spot
  if Path.isIdle segment then some spot
  else if segment = ".." then some (s, place.dropLast)
  else if admits segment then
    let next := place ++ [segment]
    match s.entry? next with
    | some .directory => some (s, next)
    | some _ => none
    | none => some (s.put next .directory, next)
  else none

/-- Makes the directories that are missing on the way along a path. -/
def makeDirectories? (s : Store) (p : Path) : Option Store :=
  (p.segments.foldlM enter? (s, [])).map (·.1)

/-- Writes a file into a directory that exists. -/
def write? (s : Store) (p : Path) (content : String) : Option Store := do
  let place ← s.locate? p
  if s.entry? place = some .directory then none
  else some (s.put place (.text content))

end Store

end Zephirize
