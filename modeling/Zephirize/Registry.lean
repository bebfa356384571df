import Zephirize.Tree.Declaration

/-!
# The classes of a program

* `Declared` — a class declaration with its file and its place in the program.
* `Registry` — the classes by full name; of several declarations with one name the first counts.
* `Scope` — the names that a class sees: its namespace and the imports of its file.
-/

namespace Zephirize

/-- The full name of a class, without a leading separator. -/
def nameWithin (nameSpace : Option Name) (cls : String) : String :=
  match nameSpace with
  | some ns => if ns.parts.isEmpty then cls else ns.joined ++ "\\" ++ cls
  | none => cls

/-- A class declaration in a program. -/
structure Declared where
  file : SourceFile
  decl : ClassDecl
  /-- The positions of the file in the program and of the class in the file. -/
  place : Nat × Nat
deriving Inhabited

/-- The full name of the declared class. -/
def Declared.fullName (d : Declared) : String := nameWithin d.file.nameSpace d.decl.name

/-- The class declarations of a program, in order. -/
def declarations (files : List SourceFile) : List Declared :=
  files.zipIdx.flatMap fun (file, i) =>
    file.classes.zipIdx.map fun (decl, j) => ⟨file, decl, (i, j)⟩

/-- Why a class or method was not found. -/
inductive NotFound where
  | classNotFound (cls : String)
  | methodNotFound (cls method : String)
deriving DecidableEq, Repr

/-- The message of an error. -/
def NotFound.message : NotFound → String
  | .classNotFound cls => "class '" ++ cls ++ "' is not registered"
  | .methodNotFound cls method => "method '" ++ method ++ "' not found in '" ++ cls ++ "'"

/-- The method of a class with exactly this name. -/
def ClassDecl.lookupMethod (c : ClassDecl) (name : String) : Except NotFound Method :=
  match c.methods.find? fun m => m.name == name with
  | some m => .ok m
  | none => .error (.methodNotFound c.name name)

/-- The classes of a program by full name, in the order of their first declarations. -/
structure Registry where
  classes : List Declared := []
deriving Inhabited

namespace Registry

/-- The class with this full name. -/
def get? (r : Registry) (name : String) : Option Declared :=
  r.classes.find? fun d => d.fullName == name

/-- A class with this full name is registered. -/
def contains (r : Registry) (name : String) : Bool := (r.get? name).isSome

/-- Adds a class unless its name is taken. -/
def insert (r : Registry) (d : Declared) : Registry :=
  if r.contains d.fullName then r else ⟨r.classes ++ [d]⟩

/-- The registry of a program. -/
def ofFiles (files : List SourceFile) : Registry := (declarations files).foldl insert {}

/-- The full names in order. -/
def names (r : Registry) : List String := r.classes.map Declared.fullName

/-- The method of a registered class. -/
def lookupMethod (r : Registry) (cls method : String) : Except NotFound Method :=
  match r.get? cls with
  | none => .error (.classNotFound cls)
  | some d =>
    match d.decl.methods.find? fun m => m.name == method with
    | some m => .ok m
    | none => .error (.methodNotFound cls method)

end Registry

/-- The names that a class sees. -/
structure Scope where
  /-- The namespace without a leading separator; `none` for the global one. -/
  nameSpace : Option String
  /-- The imports: the local name and the full name, in order. -/
  imports : List (String × String)
  decl : ClassDecl
  /-- The full name of the class. -/
  fullName : String
deriving Inhabited

namespace Scope

/-- Adds an import; one with the same local name is replaced where it stands. -/
def addImport (imports : List (String × String)) (use : Import) : List (String × String) :=
  if imports.any fun (name, _) => name == use.localName then
    imports.map fun (name, full) =>
      if name == use.localName then (name, use.name.joined) else (name, full)
  else imports ++ [(use.localName, use.name.joined)]

/-- The scope of a class in a file. -/
def of (file : SourceFile) (decl : ClassDecl) : Scope where
  nameSpace := (file.nameSpace.filter fun ns => !ns.parts.isEmpty).map Name.joined
  imports := file.uses.foldl addImport []
  decl := decl
  fullName := nameWithin file.nameSpace decl.name

/-- The full names of the imports. -/
def importTargets (s : Scope) : List String := s.imports.map (·.2)

/-- The full names that an interface may be registered under: a fully qualified name as written;
otherwise the name inside the namespace of the class, then the import that its first part names. -/
def interfaceKeys (s : Scope) (interface : Name) : List String :=
  if interface.fullyQualified then [interface.joined]
  else
    let near := match s.nameSpace with
      | some ns => ns ++ "\\" ++ interface.joined
      | none => interface.joined
    match interface.parts with
    | first :: rest =>
      match s.imports.lookup first with
      | some full =>
        let imported := "\\".intercalate (full :: rest)
        if imported == near then [near] else [near, imported]
      | none => [near]
    | [] => [near]

end Scope

end Zephirize
