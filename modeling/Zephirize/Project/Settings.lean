import Zephirize.Files.Store
import Zephirize.Program
import Zephirize.Project.Arguments
import Zephirize.Project.Config

/-!
# The settings of a run

The project file is the one that the arguments name or the one in the working directory, if any. Its
paths are seen from its own directory, those of the arguments from the working directory, and the
arguments win over the file.

* `Settings` — all that a run needs to know.
* `ResolveError` — why there are no settings.
* `locateConfig` — the path of the project file.
* `Settings.ofConfig` — a project file and the arguments merged.
* `resolve` — the settings of a run.
-/

namespace Zephirize

/-- The settings of a run. -/
structure Settings where
  /-- The directory of the project. -/
  baseDir : Path
  inputs : List Path
  exclude : List String
  outDir : Path
  options : Options
  diagnosticsFile : Option Path
  failFast : Bool
deriving DecidableEq, Repr

/-- Why a run has no settings. -/
inductive ResolveError where
  | notFound (p : Path)
  | notAFile (p : Path)
  | unreadable (p : Path)
  | malformed (p : Path)
deriving DecidableEq, Repr

/-- The text of an error. -/
def ResolveError.message : ResolveError → String
  | .notFound p => Config.fileName ++ " not found at " ++ p.text
  | .notAFile p => "project path is not a file: " ++ p.text
  | .unreadable p => "failed to read config: " ++ p.text
  | .malformed p => "invalid config: " ++ p.text

/-- The path of the project file in a directory. -/
def configIn (directory : Path) : Path := directory.join (.ofText Config.fileName)

/-- The path of the project file, if there is one. -/
def locateConfig (store : Store) (workDir : Path) (project : Option Path) :
    Except ResolveError (Option Path) :=
  match project with
  | none => return if store.isFile (configIn workDir) then some (configIn workDir) else none
  | some project =>
    let named := workDir.join project
    let path := if store.isDirectory named then configIn named else named
    match store.find? path with
    | none => throw (.notFound path)
    | some .directory => throw (.notAFile path)
    | some _ => return some path

/-- Reads a project file. -/
def readConfig (store : Store) (path : Path) : Except ResolveError Config :=
  match store.read? path with
  | none => throw (.unreadable path)
  | some text =>
    match Config.ofText? text with
    | none => throw (.malformed path)
    | some config => return config

/-- The directory of the output when nothing names one. -/
def defaultOutDir : Path := .ofText "zephir"

/-- The settings from a project file and the arguments. -/
def Settings.ofConfig (a : Arguments) (workDir baseDir : Path) (c : Config) : Settings where
  baseDir
  inputs :=
    if !a.inputs.isEmpty then a.inputs.map workDir.join
    else if !c.inputs.isEmpty then c.inputs.map fun text => baseDir.join (.ofText text)
    else [baseDir]
  exclude := c.exclude
  outDir :=
    match a.outDir, c.outDir with
    | some path, _ => workDir.join path
    | none, some text => baseDir.join (.ofText text)
    | none, none => baseDir.join defaultOutDir
  options := {
    knownClasses := c.knownClasses ++ a.knownClasses
    indentWidth := (a.indentWidth <|> c.indentWidth).getD ({} : Options).indentWidth }
  diagnosticsFile :=
    match a.diagnosticsFile, c.diagnosticsFile with
    | some path, _ => some (workDir.join path)
    | none, some text => some (baseDir.join (.ofText text))
    | none, none => none
  failFast := a.failFast

/-- The settings of a run. -/
def resolve (store : Store) (workDir : Path) (a : Arguments) : Except ResolveError Settings := do
  match ← locateConfig store workDir a.project with
  | none => return .ofConfig a workDir workDir {}
  | some path =>
    let config ← readConfig store path
    return .ofConfig a workDir (path.parent?.getD workDir) config

end Zephirize
