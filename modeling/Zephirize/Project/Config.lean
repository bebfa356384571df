import Zephirize.Json.Reader
import Zephirize.Json.Record

/-!
# Project files

A project file is a JSON record of a project's settings. Each of them may be left out.
-/

namespace Zephirize

/-- What a project file says. -/
structure Config where
  /-- Files and directories to convert. -/
  inputs : List String := []
  /-- Glob patterns of inputs to leave out. -/
  exclude : List String := []
  outDir : Option String := none
  knownClasses : List String := []
  indentWidth : Option Nat := none
  diagnosticsFile : Option String := none
deriving DecidableEq, Repr, Inhabited

namespace Config

/-- The name of a project file. -/
def fileName : String := "p2z.json"

/-- Why the text of a project file was refused, in words. -/
def refusal : String := "failed to parse " ++ fileName

/-- A project file from JSON. -/
def ofJson? (v : Json) : Option Config := do
  let r ← v.record?
    ["include", "exclude", "outDir", "knownClasses", "indentWidth", "diagnosticsFile"]
  return {
    inputs := ← r.defaulted "include" [] (Json.list? Json.str?)
    exclude := ← r.defaulted "exclude" [] (Json.list? Json.str?)
    outDir := ← r.defaulted "outDir" none (Json.nullable? Json.str?)
    knownClasses := ← r.defaulted "knownClasses" [] (Json.list? Json.str?)
    indentWidth := ← r.defaulted "indentWidth" none (Json.nullable? Json.nat64?)
    diagnosticsFile := ← r.defaulted "diagnosticsFile" none (Json.nullable? Json.str?) }

/-- A project file from its text. -/
def ofText? (text : String) : Option Config := (Json.read? Json.nestingLimit text).bind ofJson?

end Config

end Zephirize
