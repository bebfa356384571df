import Zephirize.Project.Inputs
import Zephirize.Project.Report
import Zephirize.Project.Settings

/-!
# Runs

A run reads all inputs, converts their classes, and writes the converted classes and, on request,
the diagnostics. When it is to stop at the first failure, nothing is written if a class cannot be
converted.

* `RunError` — why a run ended early.
* `Session` — steps that change a store; what was written before an error stays.
* `convertInputs` — the part of a run that only reads.
* `saveOutput` — the part of a run that writes.
* `run` — a whole run.
-/

namespace Zephirize

/-- Why a run ended early. -/
inductive RunError where
  | input (e : InputError)
  /-- A class cannot be converted, and the run stops at the first such class. -/
  | classFailed (name : String) (e : Refusal)
  | cannotCreate (p : Path)
  | cannotWrite (p : Path)

/-- The text of an error. -/
def RunError.message : RunError → String
  | .input e => e.message
  | .classFailed name e => "cannot convert " ++ name ++ ": " ++ e.message
  | .cannotCreate p => "failed to create " ++ p.text
  | .cannotWrite p => "failed to write " ++ p.text

/-- Steps that change a store and may fail. -/
abbrev Session := ExceptT RunError (StateM Store)

/-- The inputs of a run. -/
def readInputs (s : Settings) (store : Store) : Except InputError (List SourceFile) := do
  let excluded ← exclusions s.exclude
  let paths ← discover store s.baseDir excluded s.inputs
  paths.mapM (readInput store)

/-- The first class that could not be converted, with the reason. -/
def firstFailure? : List ClassResult → Option (String × Refusal)
  | [] => none
  | c :: rest =>
    match c.result with
    | .ok _ => firstFailure? rest
    | .error e => some (c.name, e)

/-- The number of inputs and their classes converted, or why the run ends before it writes
anything. -/
def convertInputs (s : Settings) (store : Store) : Except RunError (Nat × ProgramResult) := do
  let sources ← (readInputs s store).mapError RunError.input
  let output := zephirize sources s.options
  match s.failFast, firstFailure? output.classes with
  | true, some (name, e) => throw (.classFailed name e)
  | _, _ => return (sources.length, output)

/-- Writes a file, after making the directories for it. -/
def saveFile (p : Path) (content : String) : Session Unit := do
  match p.parent? with
  | none => pure ()
  | some directory =>
    match (← get).makeDirectories? directory with
    | none => throw (.cannotCreate directory)
    | some store => set store
  match (← get).write? p content with
  | none => throw (.cannotWrite p)
  | some store => set store

/-- The path of a class's file. -/
def outputPath (s : Settings) (c : ClassResult) : Path := s.outDir.join (.ofText c.path)

/-- Writes the file of a class, if the class was converted. -/
def saveClass (s : Settings) (c : ClassResult) : Session Unit :=
  match c.result with
  | .ok text => saveFile (outputPath s c) text
  | .error _ => pure ()

/-- The text of a file with diagnostics. -/
def diagnosticsText (ds : List Diagnostic) : String := (Json.ofList Diagnostic.toJson ds).pretty

/-- Writes the file with the diagnostics, if one is wanted. -/
def saveDiagnostics (s : Settings) (ds : List Diagnostic) : Session Unit :=
  match s.diagnosticsFile with
  | some p => saveFile p (diagnosticsText ds)
  | none => pure ()

/-- The class as one that could not be converted, if so. -/
def ClassResult.failure? (c : ClassResult) : Option FailedClass :=
  match c.result with
  | .ok _ => none
  | .error e => some ⟨c.name, e.message⟩

/-- What a run did that wrote all it had to. -/
def summarize (s : Settings) (inputs : Nat) (output : ProgramResult) : Summary where
  inputs
  written := (output.classes.filter (·.succeeded)).map (outputPath s)
  refused := output.classes.filterMap (·.failure?)
  diagnostics := output.diagnostics

/-- Writes what a run has to write. -/
def saveOutput (s : Settings) (output : ProgramResult) : Session Unit := do
  output.classes.forM (saveClass s)
  saveDiagnostics s output.diagnostics

/-- Runs a conversion. -/
def run (s : Settings) : Session Summary := do
  let (inputs, output) ← (convertInputs s (← get) : Except RunError _)
  saveOutput s output
  return summarize s inputs output

end Zephirize
