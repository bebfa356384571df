import Zephirize.Json.Record
import Zephirize.Lowering.Class

/-!
# Converting programs

All classes are registered first; then each is converted on its own against the registry. A class
that cannot be converted does not stop the others, and a second declaration of a name is refused.

* `Options` — the caller's choices.
* `ClassResult` — the result for one declaration.
* `classText` — a class with its diagnostics.
* `zephirize` — all classes of a program.
-/

namespace Zephirize

/-- The caller's choices. -/
structure Options where
  /-- Classes that are known beside those of the language. -/
  knownClasses : List String := []
  /-- The blanks by which a block is indented. -/
  indentWidth : Nat := 4
deriving DecidableEq, Repr, Inhabited

/-- Options from JSON; each has a default. -/
def Options.ofJson? (v : Json) : Option Options := do
  let r ← v.record? ["knownClasses", "indentWidth"]
  return {
    knownClasses := ← r.defaulted "knownClasses" [] (Json.list? Json.str?)
    indentWidth := ← r.defaulted "indentWidth" 4 Json.nat64? }

/-- As many blanks. -/
def blanks (width : Nat) : String := String.ofList (List.replicate width ' ')

/-- The result for one class declaration. -/
structure ClassResult where
  /-- The full name of the class. -/
  name : String
  result : Except Refusal String

/-- The path of the file for a class: its name in lower case, with a directory for each part. -/
def classFile (fullName : String) : String :=
  let segments := (Text.splitOn Name.separator fullName).filter (!·.isEmpty)
  "/".intercalate (segments.map Text.lower) ++ ".zep"

namespace ClassResult

/-- The path of the class's file. -/
def path (c : ClassResult) : String := classFile c.name

/-- The class was converted. -/
def succeeded (c : ClassResult) : Bool :=
  match c.result with
  | .ok _ => true
  | .error _ => false

end ClassResult

/-- The results for a program. -/
structure ProgramResult where
  /-- One entry for each class declaration, in order. -/
  classes : List ClassResult := []
  diagnostics : List Diagnostic := []

/-- The entries of the classes that could not be converted. -/
def ProgramResult.refused (p : ProgramResult) : List ClassResult := p.classes.filter (!·.succeeded)

/-- Converts a class. The diagnostics are there also when it fails. -/
def classText (ctx : Context) (width : Nat) : Except Refusal String × List Diagnostic :=
  let (result, s) := (lowerDecl ctx).run.run {}
  (result.map (ClassCode.render (blanks width)), s.diagnostics)

/-- The result for one declaration against the registry of its program: the declaration that is not
registered under its name is a duplicate. -/
def resultFor (resolver : Resolver) (width : Nat) (d : Declared) :
    ClassResult × List Diagnostic :=
  if (resolver.registry.get? d.fullName).map Declared.place = some d.place then
    let (result, notes) := classText ⟨Scope.of d.file d.decl, resolver⟩ width
    (⟨d.fullName, result⟩, notes)
  else (⟨d.fullName, .error (.duplicateClass d.fullName)⟩, [])

/-- Converts all classes of a program. -/
def zephirize (files : List SourceFile) (options : Options) : ProgramResult :=
  let resolver : Resolver :=
    ⟨Registry.ofFiles files, ClassSet.builtin.add options.knownClasses⟩
  let outputs := (declarations files).map (resultFor resolver options.indentWidth)
  ⟨outputs.map (·.1), outputs.flatMap (·.2)⟩

end Zephirize
