import Zephirize.Diagnostic
import Zephirize.DocBlock
import Zephirize.Identifier
import Zephirize.Registry
import Zephirize.Typing.ClassSet
import Zephirize.Typing.Union

/-!
# The types of a signature

A parameter has its declared type, or else the one its doc tag gives. A result has the type of a doc
tag: that of an implemented interface, where one documents the method, before the method's own.

* `Resolver.resolve` — the union that a documented type stands for.
* `TypeExpr.declaredType` — the union that a declared type stands for.
* `Resolver.signature` — the types of a method.

What is left out of a documented type is noted; results that come with notes are pairs.
-/

namespace Zephirize

/-- The names of primitive types. -/
def primitiveTypes : List String :=
  ["string", "int", "integer", "float", "double", "bool", "boolean", "array", "null", "callable",
    "scalar", "void", "object", "var"]

/-- The documented types without a counterpart in the target language. -/
def typesWithoutCounterpart : List String :=
  ["mixed", "callable", "callable[]", "scalar", "scalar[]", "void", "object", "self", "resource",
    "true"]

/-- The type has no counterpart, in any ASCII case. -/
def lacksCounterpart (name : String) : Bool :=
  typesWithoutCounterpart.contains (Text.asciiLower name)

/-- The type that a part of a documented union names. -/
def normalizeType (part : String) : String :=
  match Text.asciiLower part with
  | "integer" => "int"
  | "mixed" => "var"
  | _ => part

/-- The types that a documented union names, without repetition. -/
def namedTypes (raw : String) : List String :=
  let parts := (Text.splitOn '|' raw).map Text.trim
  firstOccurrences ((parts.filter (!·.isEmpty)).map normalizeType)

/-- The full name ends with `name`, right after a separator. -/
def endsInName (full name : String) : Bool :=
  !name.isEmpty && ('\\' :: name.toList).isSuffixOf full.toList

/-- What types are resolved against. -/
structure Resolver where
  registry : Registry
  known : ClassSet

namespace TypeExpr

mutual

/-- The union that a declared type stands for; none for a blank one. Nullability is not part of
it. -/
def declaredType : TypeExpr → Except TypeFault (Option UnionType)
  | .builtin name =>
    let name := Text.trim name
    if name.isEmpty then .ok none
    else .ok (some (.single (.primitive (if name == "mixed" then "var" else name))))
  | .ofClass name =>
    if name.parts.isEmpty then .error .unnamedDeclaration
    else .ok (some (.single (.ofClass name.text)))
  | .nullable inner => declaredType inner
  | .union types => do
    let union := UnionType.ofList (← declaredMembers types)
    return if union.isEmpty then none else some union

/-- The members that declared types stand for. -/
def declaredMembers : List TypeExpr → Except TypeFault (List TypeMember)
  | [] => .ok []
  | t :: rest => do
    let union ← declaredType t
    let more ← declaredMembers rest
    return (union.getD {}).members ++ more

end

end TypeExpr

/-- A parameter as it is written. -/
structure ParamSpec where
  name : String
  value : Option Expr
  type : Option UnionType

/-- The types of a method. -/
structure Signature where
  params : List ParamSpec
  /-- The documented type of the result. -/
  result : Option UnionType

namespace Resolver

/-- The member that a documented type stands for: a known class, an imported or registered class, an
array, a primitive type, or else a class. -/
def memberFor (r : Resolver) (scope : Scope) (raw : String) : TypeMember :=
  let bare := (Text.dropStart? "\\" raw).getD raw
  let registered := r.registry.names.findSome? fun name =>
    if endsInName name bare then some (TypeMember.ofClass bare)
    else if name == bare then some (.ofClass raw)
    else none
  if r.known.contains raw then .ofClass raw
  else if scope.importTargets.any fun full => endsInName full bare then .ofClass bare
  else
    match registered with
    | some m => m
    | none =>
      if (Text.dropEnd? "[]" raw).isSome then .primitive "array"
      else if primitiveTypes.contains (Text.asciiLower raw) then .primitive (Text.asciiLower raw)
      else .ofClass raw

/-- The note about a type without a counterpart. -/
def exclusionNote (scope : Scope) (node raw name : String) : Diagnostic where
  severity := .informational
  message := "Type \"" ++ name ++ "\" of \"" ++ raw ++ "\" is in the exclude list"
  node := node
  cls := scope.fullName

/-- The union that a documented type stands for, and a note for each type that was left out. A union
from which all was left out is the marker for "no type". -/
def resolve (r : Resolver) (scope : Scope) (node raw : String) : UnionType × List Diagnostic :=
  let names := namedTypes raw
  let notes := (names.filter lacksCounterpart).map (exclusionNote scope node raw)
  let union := UnionType.ofList ((names.filter (!lacksCounterpart ·)).map (r.memberFor scope))
  (if union.isEmpty then .single .noType else union, notes)

/-- The documentation of a method in the first implemented interface that documents it. -/
def docFromInterfaces (r : Resolver) (scope : Scope) (method : String) : Option DocBlock :=
  let candidates := scope.decl.interfaces.flatMap scope.interfaceKeys
  (candidates.findSome? fun cls =>
    match r.registry.lookupMethod cls method with
    | .ok found => found.doc
    | .error _ => none).map DocBlock.ofText

/-- The type of a parameter. -/
def param (r : Resolver) (scope : Scope) (doc : Option DocBlock) (p : Param) :
    Except TypeFault ParamSpec × List Diagnostic :=
  let spec (type : Option UnionType) : ParamSpec := ⟨safeName p.name, p.value, type⟩
  match p.type with
  | some hint => (hint.declaredType.map spec, [])
  | none =>
    match doc.bind fun d => d.typeOfParam? p.name with
    | some raw =>
      let (union, notes) := r.resolve scope ("param $" ++ p.name) raw
      (.ok (spec (some union)), notes)
    | none => (.ok (spec none), [])

/-- The types of parameters, up to the first error. -/
def params (r : Resolver) (scope : Scope) (doc : Option DocBlock) :
    List Param → Except TypeFault (List ParamSpec) × List Diagnostic
  | [] => (.ok [], [])
  | p :: rest =>
    match r.param scope doc p with
    | (.error e, notes) => (.error e, notes)
    | (.ok spec, notes) =>
      let (specs, more) := r.params scope doc rest
      (specs.map (spec :: ·), notes ++ more)

/-- The documented type of a result. -/
def result (r : Resolver) (scope : Scope) (doc : Option DocBlock) (method : String) :
    Option UnionType × List Diagnostic :=
  let inherited := (r.docFromInterfaces scope method).bind DocBlock.typeOfResult?
  match inherited <|> doc.bind DocBlock.typeOfResult? with
  | some raw =>
    let (union, notes) := r.resolve scope ("method " ++ method) raw
    (some union, notes)
  | none => (none, [])

/-- The types of a method. A constructor has no result. -/
def signature (r : Resolver) (scope : Scope) (m : Method) :
    Except TypeFault Signature × List Diagnostic :=
  let doc := m.doc.map DocBlock.ofText
  match r.params scope doc m.params with
  | (.error e, notes) => (.error e, notes)
  | (.ok params, notes) =>
    if m.isConstructor then (.ok ⟨params, none⟩, notes)
    else
      let (result, more) := r.result scope doc m.name
      (.ok ⟨params, result⟩, notes ++ more)

end Resolver

end Zephirize
