import Zephirize.Files.Store
import Zephirize.Glob.Reader
import Zephirize.Tree.Reader

/-!
# The inputs of a run

A root that is a file is an input as it is. Below a root that is a directory, the inputs are the
files whose names end in `.ast.json`, except those that a pattern covers. Patterns look at paths as
seen from the project's directory.

* `InputError` — why the inputs cannot be had.
* `exclusions` — the patterns read.
* `inputsBelow` — the inputs below one directory.
* `discover` — the inputs of all roots, sorted.
* `readInput` — the program text in an input.
-/

namespace Zephirize

/-- Why the inputs of a run cannot be had. -/
inductive InputError where
  | badPattern (pattern : String)
  | notFound (p : Path)
  | unreadable (p : Path)
  | malformed (p : Path)
deriving DecidableEq, Repr

/-- The text of an error. -/
def InputError.message : InputError → String
  | .badPattern pattern => "invalid exclude pattern: " ++ pattern
  | .notFound p => "input not found: " ++ p.text
  | .unreadable p => "failed to read " ++ p.text
  | .malformed p => "failed to parse tree in " ++ p.text

/-- The ending of the names of input files. -/
def inputSuffix : String := ".ast.json"

/-- The name is one of an input file. -/
def isInputName (name : String) : Bool := inputSuffix.toList.isSuffixOf name.toList

/-- Reads patterns. -/
def exclusions (patterns : List String) : Except InputError (List Glob) :=
  patterns.mapM fun pattern =>
    match Glob.ofText? pattern with
    | some glob => .ok glob
    | none => .error (.badPattern pattern)

/-- A pattern covers the path. -/
def isCovered (excluded : List Glob) (path : String) : Bool := excluded.any (·.covers path)

/-- The path as patterns see it: from the project's directory, or in full when it is not below
that. -/
def seenFrom (baseDir p : Path) : Path := (p.relativeTo? baseDir).getD p

/-- The inputs below a directory, given its path and its place. -/
def inputsBelow (store : Store) (baseDir : Path) (excluded : List Glob) (root : Path)
    (place : Place) : List Path :=
  ((store.filesBelow place).filter fun way => way.getLast?.any isInputName).map
      (fun way => root.join ⟨way⟩)
    |>.filter fun p => !isCovered excluded (seenFrom baseDir p).text

/-- The inputs of one root. -/
def inputsOf (store : Store) (baseDir : Path) (excluded : List Glob) (root : Path) :
    Except InputError (List Path) :=
  match store.locate? root with
  | none => throw (.notFound root)
  | some place =>
    match store.entry? place with
    | none => throw (.notFound root)
    | some .directory => return inputsBelow store baseDir excluded root place
    | some _ => return [root]

/-- The inputs of all roots, sorted and without repetition. -/
def discover (store : Store) (baseDir : Path) (excluded : List Glob) (roots : List Path) :
    Except InputError (List Path) := do
  let found ← roots.mapM (inputsOf store baseDir excluded)
  return Path.sorted found.flatten

/-- The program text in an input. It is said to be from that file unless it says where it is
from. -/
def readInput (store : Store) (p : Path) : Except InputError SourceFile :=
  match store.read? p with
  | none => throw (.unreadable p)
  | some text =>
    match SourceFile.ofText? text with
    | none => throw (.malformed p)
    | some file => return { file with path := file.path <|> some p.text }

end Zephirize
