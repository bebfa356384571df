import Zephirize.Lowering.Method

/-!
# Converting classes

* `docText` — a doc comment with its lines aligned.
* `MemberCode` — a converted member.
* `lowerMembers` — the members in order.
* `ClassCode.render` — the text of a class: constants, then properties, then methods.
* `lowerDecl` — a class.
-/

namespace Zephirize

/-- A doc comment with its lines aligned: a line that starts with a star moves one to the right. -/
def docText (doc : String) : String :=
  match (Text.lines (Text.trim doc)).map Text.trim with
  | [] => ""
  | first :: rest =>
    Text.joinLines (first :: rest.map fun line =>
      if line.toList.head? == some '*' then " " ++ line else line)

/-- A doc comment on the lines above what it documents. -/
def documented (doc : Option String) (text : String) : String :=
  match doc with
  | some doc => docText doc ++ "\n" ++ text
  | none => text

/-- A converted member. -/
inductive MemberCode where
  | constant (text : String)
  | property (text : String)
  | method (doc : Option String) (code : MethodCode)

/-- A converted class. -/
structure ClassCode where
  nameSpace : Option String
  imports : List (String × String)
  doc : Option String
  head : String
  members : List MemberCode

/-- The import of a name, under another local name where that differs from its last part. -/
def useText (localName full : String) : String :=
  if lastSegment full == localName then "use " ++ full ++ ";"
  else "use " ++ full ++ " as " ++ localName ++ ";"

/-- The text of a class's members: the constants, the properties and each method are set apart by a
blank line. -/
def MemberCode.renderAll (unit : String) (members : List MemberCode) : String :=
  let constants := members.filterMap fun
    | .constant text => some text
    | _ => none
  let properties := members.filterMap fun
    | .property text => some text
    | _ => none
  let methods := members.filterMap fun
    | .method doc code => some (documented doc (code.render unit))
    | _ => none
  let constantBlock := if constants.isEmpty then [] else [Text.joinLines constants]
  let propertyBlock := if properties.isEmpty then [] else ["\n\n".intercalate properties]
  "\n\n".intercalate (constantBlock ++ propertyBlock ++ methods)

/-- The text of a class. -/
def ClassCode.render (unit : String) (c : ClassCode) : String :=
  let nameSpace := c.nameSpace.toList.map fun ns => "namespace " ++ ns ++ ";"
  let uses := if c.imports.isEmpty then [] else
    [Text.joinLines (c.imports.map fun (localName, full) => useText localName full)]
  let members := MemberCode.renderAll unit c.members
  let declaration := documented c.doc c.head ++ "\n" ++ block unit members
  "\n\n".intercalate (nameSpace ++ uses ++ [declaration]) ++ "\n"

open Lowering

/-- Names in a heading after a keyword; nothing without names. -/
def headNames (keyword : String) (names : List Name) : String :=
  if names.isEmpty then "" else " " ++ keyword ++ " " ++ ", ".intercalate (names.map Name.text)

/-- The heading of a class. A trait becomes a class. -/
def classHead (cls : String) (decl : ClassDecl) : Lowering String := do
  reportIf (decl.kind == .trait) cls "trait"
    ("Trait \"" ++ decl.name ++ "\" converted to a class") "trait"
  let parents := headNames "extends" decl.parents
  match decl.kind with
  | .interface => return "interface " ++ decl.name ++ parents
  | _ =>
    return decl.flags.keywords ++ "class " ++ decl.name ++ parents ++
      headNames "implements" decl.interfaces

/-- Converts a constant. -/
def lowerConstant (cls : String) (c : Constant) : Lowering String := do
  modify fun s => s.reset none
  return "const " ++ c.name ++ " = " ++ (← exprText cls c.value) ++ ";"

/-- Converts a property. -/
def lowerProperty (cls : String) (p : Property) : Lowering String := do
  modify fun s => s.reset none
  let value ← defaultText cls p.value
  return documented p.doc (p.flags.withVisibility.keywords ++ p.name ++ value ++ ";")

/-- Converts a member. -/
def lowerMember (ctx : Context) : Member → Lowering MemberCode
  | .constant c => return .constant (← lowerConstant ctx.cls c)
  | .property p => return .property (← lowerProperty ctx.cls p)
  | .method m => return .method m.doc (← lowerMethod ctx m)

/-- Converts members in order. -/
def lowerMembers (ctx : Context) : List Member → Lowering (List MemberCode)
  | [] => return []
  | m :: rest => do
    let code ← lowerMember ctx m
    return code :: (← lowerMembers ctx rest)

/-- Converts the class of a context. -/
def lowerDecl (ctx : Context) : Lowering ClassCode := do
  let decl := ctx.scope.decl
  let head ← classHead ctx.cls decl
  let members ← lowerMembers ctx decl.members
  return ⟨ctx.scope.nameSpace, ctx.scope.imports, decl.doc, head, members⟩

end Zephirize
