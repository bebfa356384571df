import Zephirize.Diagnostic
import Zephirize.Files.Path
import Zephirize.Text.Lines

/-!
# Reports

A report lists the classes that could not be converted, then the diagnostics, and ends with a line
of counts. It may be coloured for a terminal.

* `Summary` — what a run did.
* `Summary.report` — the text of the report.
-/

namespace Zephirize

/-- A class that could not be converted. -/
structure FailedClass where
  name : String
  message : String
deriving DecidableEq, Repr, Inhabited

/-- What a run did. -/
structure Summary where
  /-- The number of input files. -/
  inputs : Nat := 0
  /-- The files with converted classes, in the order of the classes. -/
  written : List Path := []
  refused : List FailedClass := []
  diagnostics : List Diagnostic := []
deriving DecidableEq, Repr, Inhabited

/-- Colours of a report. -/
inductive Tint where
  | boldRed
  | boldYellow
  | cyan
  | red
  | green
deriving DecidableEq, Repr

/-- The terminal's code for a colour. -/
def Tint.code : Tint → String
  | .boldRed => "1;31"
  | .boldYellow => "1;33"
  | .cyan => "36"
  | .red => "31"
  | .green => "32"

/-- A text in a colour, if colours are wanted. -/
def tinted (color : Bool) (t : Tint) (text : String) : String :=
  if color then "\x1b[" ++ t.code ++ "m" ++ text ++ "\x1b[0m" else text

/-- The line of a class that could not be converted. -/
def FailedClass.line (color : Bool) (f : FailedClass) : String :=
  f.name ++ " - " ++ tinted color .boldRed "error" ++ ": " ++ f.message

/-- The line of a diagnostic. -/
def Diagnostic.line (color : Bool) (d : Diagnostic) : String :=
  let label := match d.severity with
    | .incompatibility category =>
      tinted color .boldYellow "incompatibility" ++ " [" ++ category ++ "]"
    | .informational => tinted color .cyan "info"
  d.cls ++ " - " ++ label ++ ": " ++ d.message ++ " (" ++ d.node ++ ")"

namespace Summary

/-- Some class could not be converted. -/
def failed (s : Summary) : Bool := !s.refused.isEmpty

/-- The line of counts. -/
def countLine (color : Bool) (s : Summary) : String :=
  tinted color (if s.failed then .red else .green) <|
    toString s.inputs ++ " input file(s), " ++ toString s.written.length ++
      " class(es) written, " ++ toString s.refused.length ++ " failed, " ++
      toString s.diagnostics.length ++ " diagnostic(s)"

/-- The report. A quiet one leaves out informational diagnostics. -/
def report (color quiet : Bool) (s : Summary) : String :=
  Text.joinLines <|
    s.refused.map (FailedClass.line color) ++
      (s.diagnostics.filter fun d => !quiet || d.isIncompatibility).map (Diagnostic.line color) ++
      [s.countLine color]

end Summary

end Zephirize
