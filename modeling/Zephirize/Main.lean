import Zephirize.Project.Run

/-!
# The command line

The program takes the part of the disk that a run may look at into a store, runs on the store, and
brings the changes back to the disk. The report goes to standard error.
-/

namespace Zephirize.CommandLine

/-- How to call the program. -/
def usage : String :=
  "Usage: p2z [-p PROJECT] [--out-dir DIR] [--known-class NAME]... [--indent-width N]\n" ++
  "           [--diagnostics FILE] [--fail-fast] [-q] [INPUT]..."

/-- The version of the program. -/
def version : String := "p2z 0.1.0"

/-- The text of a place on the disk. -/
def diskText (place : Place) : String := "/" ++ "/".intercalate place

/-- What the disk has at a place. Texts are read only where they are wanted. -/
def look (wanted : Bool) (place : Place) : IO (Option Entry) := do
  let path := (IO.FS.DirEntry.mk "/" (diskText place)).path
  if ← path.isDir then return some .directory
  if !(← path.pathExists) then return none
  if !wanted then return some .data
  try return some (.text (← IO.FS.readFile path))
  catch _ => return some .data

/-- Adds what the disk has on the way along a path. -/
def loadAlong (store : Store) (p : Path) : IO Store := do
  let mut store := store
  let mut place : Place := []
  for segment in p.segments do
    if segment = ".." then place := place.dropLast
    else if !Path.isIdle segment then
      place := place ++ [segment]
      if let some e ← look true place then store := store.put place e
  return store

/-- Adds what the disk has below a directory. -/
partial def loadBelow (store : Store) (place : Place) : IO Store := do
  let mut store := store
  for entry in ← (IO.FS.DirEntry.mk "/" (diskText place)).path.readDir do
    let next := place ++ [entry.fileName]
    if let some e ← look (isInputName entry.fileName) next then
      store := ⟨(next, e) :: store.entries⟩
      if e = .directory then store ← loadBelow store next
  return store

/-- Adds what the disk has at a path and below it. -/
def loadTree (store : Store) (p : Path) : IO Store := do
  let store ← loadAlong store p
  if store.isDirectory p then
    if let some place := store.locate? p then return ← loadBelow store place
  return store

/-- Brings the changes of a store to the disk, the earliest first. -/
def bringBack (before after : Store) : IO Unit := do
  for (place, e) in after.entries.reverse do
    if before.entry? place ≠ some e then
      match e with
      | .directory => IO.FS.createDirAll (diskText place)
      | .text content => IO.FS.writeFile (diskText place) content
      | .data => pure ()

/-- Runs with arguments; the exit status says whether all classes were converted. -/
def runWith (a : Arguments) : IO UInt32 := do
  let workDir := Path.ofText (← IO.currentDir).toString
  let named := (a.project.map workDir.join).toList
  let store ← (configIn workDir :: named ++ named.map configIn).foldlM loadAlong {}
  match resolve store workDir a with
  | .error e =>
    IO.eprintln ("Error: " ++ e.message)
    return 1
  | .ok s =>
    let store ← s.inputs.foldlM loadTree store
    let store ← (s.outDir :: s.diagnosticsFile.toList).foldlM loadTree store
    let (result, after) := (run s).run.run store
    bringBack store after
    match result with
    | .error e =>
      IO.eprintln ("Error: " ++ e.message)
      return 1
    | .ok summary =>
      let err ← IO.getStderr
      err.putStrLn (summary.report (← err.isTty) a.quiet)
      return if summary.failed then 1 else 0

end Zephirize.CommandLine

/-- The program. -/
def main (arguments : List String) : IO UInt32 := do
  match Zephirize.Arguments.ofList arguments with
  | .ok a => Zephirize.CommandLine.runWith a
  | .error .help =>
    IO.println Zephirize.CommandLine.usage
    return 0
  | .error .version =>
    IO.println Zephirize.CommandLine.version
    return 0
  | .error .misuse =>
    IO.eprintln Zephirize.CommandLine.usage
    return 2
