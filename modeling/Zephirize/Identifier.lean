import Zephirize.Text.Lines

/-!
# Identifiers

* `isReserved` — a word that the target language keeps for itself, in any ASCII case.
* `safeName` — the identifier under which a source name is written: a reserved word gets a suffix.
* `isAmbient` — a variable that exists without being declared.
-/

namespace Zephirize

/-- The words that the target language keeps for itself. -/
def reservedWords : List String :=
  ["abstract", "array", "bool", "boolean", "break", "callable", "case", "catch", "char", "class",
    "clone", "const", "continue", "default", "do", "double", "else", "elseif", "empty", "enum",
    "export", "extends", "false", "fetch", "final", "finally", "float", "for", "foreach",
    "function", "if", "implements", "inline", "instanceof", "int", "integer", "interface",
    "internal", "isset",
    "let", "likely", "long", "loop", "namespace", "new", "null", "object", "private", "protected",
    "public", "require", "resource", "return", "static", "string", "switch", "throw", "true", "try",
    "typeof", "uint", "ulong", "unlikely", "unset", "use", "var", "void", "while"]

/-- The name is a reserved word, in any ASCII case. -/
def isReserved (name : String) : Bool := reservedWords.contains (Text.asciiLower name)

/-- The identifier under which a source name is written. -/
def safeName (name : String) : String := if isReserved name then name ++ "Fixed" else name

/-- The variables that exist without being declared. -/
def ambientNames : List String :=
  ["this", "_SERVER", "_GET", "_POST", "_FILES", "_COOKIE", "_SESSION", "_REQUEST", "_ENV"]

/-- The variable exists without being declared. -/
def isAmbient (name : String) : Bool := ambientNames.contains name

end Zephirize
