import Zephirize.Json.Writer

/-!
# Diagnostics

A diagnostic tells of something in a class that the conversion weakened or left out. It does not
stop the conversion.
-/

namespace Zephirize

/-- How much a diagnostic matters. -/
inductive Severity where
  /-- The target language has no faithful form; the category groups such diagnostics. -/
  | incompatibility (category : String)
  | informational
deriving DecidableEq, Repr, Inhabited

/-- A note about a node of a class. -/
structure Diagnostic where
  severity : Severity
  message : String
  /-- What the note is about, such as `param $a`. -/
  node : String
  /-- The full name of the class. -/
  cls : String
deriving DecidableEq, Repr, Inhabited

namespace Diagnostic

/-- The diagnostic tells of an incompatibility. -/
def isIncompatibility (d : Diagnostic) : Bool :=
  match d.severity with
  | .incompatibility _ => true
  | .informational => false

/-- The text of a diagnostic. -/
def text (d : Diagnostic) : String :=
  match d.severity with
  | .incompatibility category =>
    d.cls ++ ": [" ++ category ++ "] " ++ d.message ++ " (" ++ d.node ++ ")"
  | .informational => d.cls ++ ": " ++ d.message ++ " (" ++ d.node ++ ")"

/-- A diagnostic as JSON. -/
def toJson (d : Diagnostic) : Json :=
  let kind := match d.severity with
    | .incompatibility category =>
      [("kind", .str "incompatibility"), ("category", .str category)]
    | .informational => [("kind", .str "informational")]
  .obj (kind ++ [("messageText", .str d.message), ("node", .str d.node), ("class", .str d.cls)])

end Diagnostic

end Zephirize
