import Zephirize.Text.Lines

/-!
# Paths

A path is a text of segments with slashes between them. Some segments lead nowhere: the empty ones,
which come from doubled and trailing slashes, and `.`; the others are its components. Joining keeps
the segments as they are written, while order and sameness of paths look at the components only.

* `Path.ofText`, `Path.text` — a path and its text.
* `Path.join` — a path as seen from another one.
* `Path.components`, `Path.precedes`, `Path.same` — the components and the order by them.
* `Path.parent?`, `Path.relativeTo?` — a path without its last component, or without its first ones.
* `Path.sorted` — paths in order, without repetition.
-/

namespace Zephirize

/-- A path as it is written: the parts of its text between the slashes. -/
structure Path where
  segments : List String
deriving DecidableEq, Repr, Inhabited

/-- What a segment stands for. -/
inductive Component where
  | root
  /-- A leading `.` of a relative path. -/
  | here
  | up
  | name (text : String)
deriving DecidableEq, Repr, Inhabited

namespace Component

/-- The component of a segment that leads somewhere. -/
def ofSegment (segment : String) : Component := if segment = ".." then .up else .name segment

/-- Numbers by which components are ordered: the root, `.`, `..`, and then the names. -/
def key : Component → List Nat
  | .root => [0]
  | .here => [1]
  | .up => [2]
  | .name text => 3 :: text.toList.map Char.toNat

end Component

namespace Path

/-- The path with a text. -/
def ofText (text : String) : Path := ⟨Text.splitOn '/' text⟩

/-- The text of a path. -/
def text (p : Path) : String := "/".intercalate p.segments

/-- The segment leads nowhere. -/
def isIdle (segment : String) : Bool := segment = "" || segment = "."

/-- The path starts at the root. -/
def isAbsolute (p : Path) : Bool :=
  match p.segments with
  | "" :: _ :: _ => true
  | _ => false

/-- The segments without a final empty one: a slash at the end is as good as the one that joins. -/
def openSegments (p : Path) : List String :=
  if p.segments.getLast? = some "" then p.segments.dropLast else p.segments

/-- The path `q` as seen from `p`. An absolute `q` stays as it is. -/
def join (p q : Path) : Path := if q.isAbsolute then q else ⟨p.openSegments ++ q.segments⟩

/-! ### Components -/

/-- Where a path starts, and the segments after that. -/
def anchored (p : Path) : Option Component × List String :=
  match p.segments with
  | "" :: segment :: rest => (some .root, segment :: rest)
  | "." :: rest => (some .here, rest)
  | segments => (none, segments)

/-- The components of a path. -/
def components (p : Path) : List Component :=
  p.anchored.1.toList ++ (p.anchored.2.filter (!isIdle ·)).map Component.ofSegment

/-- Paths are ordered by the keys of their components. -/
def key (p : Path) : List (List Nat) := p.components.map Component.key

/-- The components of `p` come before those of `q`. -/
def precedes (p q : Path) : Bool :=
  p.key.lex q.key fun a b => a.lex b fun i j => decide (i < j)

/-- The paths have the same components. -/
def same (p q : Path) : Bool := p.components == q.components

/-- The segments without idle ones at the end. -/
def trimEnd (segments : List String) : List String := (segments.reverse.dropWhile isIdle).reverse

/-- A path from where it starts and the segments after that. -/
def ofAnchored : Option Component → List String → Path
  | some .root, [] => ⟨["", ""]⟩
  | some .root, segments => ⟨"" :: segments⟩
  | some .here, segments => ⟨"." :: segments⟩
  | _, [] => ⟨[""]⟩
  | _, segments => ⟨segments⟩

/-- The path without its last component. The root and the empty path have none. -/
def parent? (p : Path) : Option Path :=
  let (start, segments) := p.anchored
  match trimEnd segments, start with
  | [], some .here => some ⟨[""]⟩
  | [], _ => none
  | segments, start => some (ofAnchored start (trimEnd segments.dropLast))

/-- The segments after those that make up the components. -/
def dropComponents? : List Component → List String → Option (List String)
  | [], segments => some segments
  | c :: cs, segments =>
    match segments.dropWhile isIdle with
    | [] => none
    | segment :: rest => if Component.ofSegment segment = c then dropComponents? cs rest else none

/-- The rest of a path whose first components are those of `base`. -/
def relativeTo? (p base : Path) : Option Path :=
  let (start, segments) := p.anchored
  let (baseStart, baseSegments) := base.anchored
  if start = baseStart then
    (dropComponents? ((baseSegments.filter (!isIdle ·)).map Component.ofSegment) segments).map
      fun rest => ofAnchored none (trimEnd (rest.dropWhile isIdle))
  else none

/-! ### Sorting -/

/-- The paths without those that repeat the one before them, when `p` comes before all of them. -/
def dropRepeatsAfter (p : Path) : List Path → List Path
  | [] => []
  | q :: rest => if q.same p then dropRepeatsAfter p rest else q :: dropRepeatsAfter q rest

/-- The paths without those that repeat the one before them. -/
def dropRepeats : List Path → List Path
  | [] => []
  | p :: rest => p :: dropRepeatsAfter p rest

/-- The paths in order; of paths that are the same the first one given stays. -/
def sorted (paths : List Path) : List Path :=
  dropRepeats (paths.mergeSort fun p q => !q.precedes p)

end Path

end Zephirize
