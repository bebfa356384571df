import Zephirize.Lowering.Locals
import Zephirize.Typing.Signature

/-!
# Converting methods

* `MethodCode` — a method's heading, its variables and its code.
* `resultType` — the type of the result as it is written.
* `lowerMethod` — a method.
* `MethodCode.render` — its text.
-/

namespace Zephirize

/-- A converted method; one without a body has only a heading. -/
structure MethodCode where
  head : String
  /-- The variables to declare and the code. -/
  body : Option (List String × List Code)

/-- The text of a converted method. -/
def MethodCode.render (unit : String) (m : MethodCode) : String :=
  match m.body with
  | none => m.head ++ ";"
  | some (vars, code) =>
    let statements := Code.renderAll unit code
    let declaration := if vars.isEmpty then [] else
      [Text.indent unit ("var " ++ ", ".intercalate vars ++ ";")]
    let body := if statements.isEmpty then [] else [Text.indent unit statements]
    let parts := declaration ++ body
    let inside := if parts.isEmpty then "" else "\n" ++ "\n\n".intercalate parts
    m.head ++ "\n\x7b" ++ inside ++ "\n\x7d"

/-- What a class is converted against. -/
structure Context where
  scope : Scope
  resolver : Resolver

/-- The full name of the class. -/
def Context.cls (c : Context) : String := c.scope.fullName

open Lowering

/-- Reports the marks of parameters and methods that the target language does not know. -/
def reportParam (cls : String) (p : Param) : Lowering Unit := do
  reportIf p.byRef cls "reference"
    ("Reference not supported in parameter (var \"" ++ p.name ++ "\")") ("param $" ++ p.name)
  reportIf p.variadic cls "variadic"
    ("Variadic parameter \"" ++ p.name ++ "\" converted to a plain one") ("param $" ++ p.name)

/-- Reports the marks of a method's parameters. -/
def reportParams (cls : String) : List Param → Lowering Unit
  | [] => return
  | p :: rest => do
    reportParam cls p
    reportParams cls rest

/-- The type in front of a parameter. An ambiguous type is left off and noted. -/
def paramTypeText (cls name : String) (type : Option UnionType) : Lowering String :=
  match type with
  | none => return ""
  | some union =>
    match union.soleType with
    | .single member =>
      match member.render with
      | .ok (some text) => return text ++ " "
      | .ok none => return ""
      | .error e => throw (.malformedType e)
    | .ambiguous => do
      inform cls ("Union type \"" ++ union.text ++ "\" left off the parameter") ("param $" ++ name)
      return ""
    | .untyped => return ""

/-- The text of a default value, after an equals sign. -/
def defaultText (cls : String) (value : Option Expr) : Lowering String :=
  match value with
  | some value => return " = " ++ (← exprText cls value)
  | none => return ""

/-- The text of a parameter, whose name in the source is `name`. -/
def paramText (cls name : String) (spec : ParamSpec) : Lowering String := do
  let type ← paramTypeText cls name spec.type
  return type ++ spec.name ++ (← defaultText cls spec.value)

/-- The texts of parameters in order. -/
def paramTexts (cls : String) : List (Param × ParamSpec) → Lowering (List String)
  | [] => return []
  | (p, spec) :: rest => do
    let text ← paramText cls p.name spec
    return text :: (← paramTexts cls rest)

/-- The documented type of the result as it is written. -/
def documentedResult (sig : Signature) : Except TypeFault (Option String) :=
  match sig.result with
  | some union => union.render
  | none => .ok none

/-- The declared type of the result as it is written. The documented type stands for a union, where
the method has a body that returns. -/
def declaredResult (m : Method) (sig : Signature) (hint : TypeExpr) :
    Except TypeFault (Option String) :=
  let documented :=
    if anyOfKind ((m.body.getD []).map .stmt) .ret then documentedResult sig else .ok none
  match hint with
  | .builtin name =>
    let name := Text.trim name
    .ok (if name.isEmpty then none else some name)
  | .ofClass name =>
    if name.parts.isEmpty then .error .unnamedResult else .ok (some ("<" ++ name.text ++ ">"))
  | .nullable _ => documented
  | .union _ => documented

/-- The type of the result as it is written. A declared type comes before the documented one; a
constructor has none. -/
def resultType (m : Method) (sig : Signature) : Except TypeFault (Option String) :=
  if m.isConstructor then .ok none
  else
    match m.returnType with
    | none => documentedResult sig
    | some (.nullable inner) =>
      (declaredResult m sig inner).map fun type => type.map (· ++ " | null")
    | some hint => declaredResult m sig hint

/-- The signature of a method, with its notes recorded. -/
def resolveSignature (ctx : Context) (m : Method) : Lowering Signature := do
  let (sig, notes) := ctx.resolver.signature ctx.scope m
  modify fun s => { s with diagnostics := s.diagnostics ++ notes }
  match sig with
  | .ok sig => return sig
  | .error e => throw (.malformedType e)

/-- The heading of a method with the type of its result. -/
def withResultType (m : Method) (sig : Signature) (head : String) : Lowering String :=
  match resultType m sig with
  | .ok (some type) => return head ++ " -> " ++ type
  | .ok none => return head
  | .error e => throw (.malformedType e)

/-- The heading of a method, and the names of its parameters. Lines that the default values hoist
are dropped. -/
def lowerHead (ctx : Context) (m : Method) : Lowering (String × List String) := do
  let sig ← resolveSignature ctx m
  reportParams ctx.cls m.params
  reportIf m.byRef ctx.cls "reference" "Reference not supported" ("method " ++ m.name)
  let params ← paramTexts ctx.cls (m.params.zip sig.params)
  modify fun s => { s with hoisted := [] }
  let head ← withResultType m sig (m.flags.withVisibility.keywords ++ "function " ++ m.name ++ "(" ++
    ", ".intercalate params ++ ")")
  return (head, sig.params.map ParamSpec.name)

/-- Converts the body of a method. -/
def lowerBody (cls : String) (body : List Stmt) (params : List String) :
    Lowering (List String × List Code) := do
  let vars ← (locals cls body params : StateM State (List String))
  let code ← lowerBlock cls body
  return (vars, code)

/-- Converts a method. Nothing but the records is kept from what was converted before. -/
def lowerMethod (ctx : Context) (m : Method) : Lowering MethodCode := do
  modify fun s => s.reset (some m.name)
  let (head, params) ← lowerHead ctx m
  match m.body with
  | none => return ⟨head, none⟩
  | some body => return ⟨head, some (← lowerBody ctx.cls body params)⟩

end Zephirize
