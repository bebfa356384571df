import Zephirize.Tree.Modifiers
import Zephirize.Tree.Stmt

/-!
# Declarations

Declared types, class members, classes and source files.
-/

namespace Zephirize

/-- A type as it is declared in the source. -/
inductive TypeExpr where
  /-- A built-in type. -/
  | builtin (name : String)
  /-- A class or interface. -/
  | ofClass (name : Name)
  | nullable (inner : TypeExpr)
  | union (types : List TypeExpr)
deriving Inhabited

/-- The type of the class whose name `s` spells. -/
def TypeExpr.ofClassNamed (s : String) : TypeExpr := .ofClass (Name.ofString s)

/-- A parameter of a method. -/
structure Param where
  name : String
  type : Option TypeExpr := none
  value : Option Expr := none
  byRef : Bool := false
  variadic : Bool := false
deriving Inhabited

/-- A method; an abstract one has no body. -/
structure Method where
  name : String
  flags : Modifiers := Modifiers.publicOnly
  byRef : Bool := false
  params : List Param := []
  returnType : Option TypeExpr := none
  body : Option (List Stmt) := some []
  doc : Option String := none
deriving Inhabited

/-- The method is the constructor of its class. -/
def Method.isConstructor (m : Method) : Bool :=
  Text.asciiLower (Text.trim m.name) == "__construct"

/-- A property of a class. -/
structure Property where
  name : String
  flags : Modifiers := Modifiers.empty
  value : Option Expr := none
  doc : Option String := none
deriving Inhabited

/-- A constant of a class. -/
structure Constant where
  name : String
  value : Expr
deriving Inhabited

/-- A member of a class. -/
inductive Member where
  | method (method : Method)
  | property (property : Property)
  | constant (constant : Constant)
deriving Inhabited

/-- The three kinds of class declarations. -/
inductive ClassForm where
  | plain
  | interface
  | trait
deriving DecidableEq, Repr, Inhabited

/-- A class, interface or trait. -/
structure ClassDecl where
  kind : ClassForm := .plain
  name : String
  flags : Modifiers := Modifiers.empty
  parents : List Name := []
  interfaces : List Name := []
  members : List Member := []
  doc : Option String := none
deriving Inhabited

/-- The methods of a class in order. -/
def ClassDecl.methods (c : ClassDecl) : List Method :=
  c.members.filterMap fun
    | .method m => some m
    | _ => none

/-- An imported name, possibly under another local name. -/
structure Import where
  name : Name
  shortName : Option String := none
deriving DecidableEq, Repr, Inhabited

namespace Import

/-- The import of the name that `s` spells. -/
def ofString (s : String) : Import := ⟨Name.ofString s, none⟩

/-- The name under which the import is known in its file. -/
def localName (u : Import) : String := u.shortName.getD u.name.last

end Import

/-- A source file. -/
structure SourceFile where
  path : Option String := none
  nameSpace : Option Name := none
  uses : List Import := []
  classes : List ClassDecl := []
deriving Inhabited

end Zephirize
