import Zephirize.Json.Reader
import Zephirize.Json.Record
import Zephirize.Tree.Writer

/-!
# Trees from JSON

Reading a tree undoes writing it, whatever the order of the fields, and accepts records written as
arrays. Expressions, statements and types contain each other to any depth; `Expr.read?` and its
companions take a bound on the number of levels, and `ofJson?` passes the depth of the value.

* `Expr.ofJson?`, `Stmt.ofJson?`, `TypeExpr.ofJson?`, `Member.ofJson?` — a node on its own, which
  has to name its kind and to be readable throughout.
* `Name.ofJson?`, `ClassDecl.ofJson?`, `SourceFile.ofJson?`, … — plain records.

Inside a node a kind may be given by its position among the kinds.
-/

namespace Zephirize

open Json (str? bool? list? nullable? innerChoice? choice?)

/-- The value of a type whose name is given, among the values with their names. -/
def byName? {α : Type} (name : α → String) (values : List α) (s : String) : Option α :=
  values.find? fun a => name a == s

/-- All binary operators. -/
def BinaryOp.all : List BinaryOp :=
  [.add, .sub, .mul, .div, .mod, .pow, .concat, .bitAnd, .bitOr, .bitXor, .shiftLeft, .shiftRight,
    .booleanAnd, .booleanOr, .logicalXor, .equal, .notEqual, .identical, .notIdentical, .greater,
    .greaterOrEqual, .smaller, .smallerOrEqual, .coalesce]

/-- The operator that a choice names. -/
def BinaryOp.ofName? (s : String) : Option BinaryOp := byName? name all s

/-- The operator that a choice names. -/
def UnaryOp.ofName? (s : String) : Option UnaryOp :=
  byName? name [.not, .minus, .plus, .bitNot] s

/-- The operator that a choice names. -/
def StepOp.ofName? (s : String) : Option StepOp :=
  byName? name [.preInc, .preDec, .postInc, .postDec] s

/-- The type that a choice names. -/
def CastTarget.ofName? (s : String) : Option CastTarget :=
  byName? name [.int, .float, .string, .bool, .array, .object] s

/-- The kind of class that a choice names. -/
def ClassForm.ofName? (s : String) : Option ClassForm := byName? name [.plain, .interface, .trait] s

/-- A name. -/
def Name.ofJson? (v : Json) : Option Name := do
  let r ← v.record? ["parts", "fully_qualified"]
  return {
    parts := ← r.required "parts" (list? str?)
    fullyQualified := ← r.defaulted "fully_qualified" false bool? }

/-- Modifiers. -/
def Modifiers.ofJson? (v : Json) : Option Modifiers := do Modifiers.ofText? (← v.str?)

/-! ### Expressions -/

/-- An array item, given a reader of expressions. -/
def Item.read? (expr : Json → Option Expr) (v : Json) : Option Item := do
  let r ← v.record? ["key", "value", "by_ref", "unpack"]
  return {
    key := ← r.optional "key" expr
    value := ← r.required "value" expr
    byRef := ← r.defaulted "by_ref" false bool?
    unpack := ← r.defaulted "unpack" false bool? }

/-- An argument, given a reader of expressions. -/
def Argument.read? (expr : Json → Option Expr) (v : Json) : Option Argument := do
  let r ← v.record? ["value", "by_ref", "unpack"]
  return {
    value := ← r.required "value" expr
    byRef := ← r.defaulted "by_ref" false bool?
    unpack := ← r.defaulted "unpack" false bool? }

/-- The name of a variable: a string, or else an expression. -/
def VarRef.read? (expr : Json → Option Expr) (v : Json) : Option VarRef :=
  match v with
  | .str name => some (.literal name)
  | v => (expr v).map .dynamic

namespace Expr

/-- The kinds of expressions. -/
def kinds : List String :=
  ["Variable", "Assign", "AssignOp", "IncDec", "PropertyFetch", "StaticPropertyFetch",
    "ArrayDimFetch", "List", "Array", "FuncCall", "MethodCall", "StaticCall", "New",
    "ClassConstFetch", "ConstFetch", "String", "Int", "Float", "BinaryOp", "UnaryOp", "Ternary",
    "Isset", "Empty", "Instanceof", "Cast", "Eval", "ShellExec"]

/-- An expression of a kind from its fields, given a reader of the expressions inside. -/
def ofFields? (expr : Json → Option Expr) (kind : String) (body : Json) : Option Expr :=
  let binary v := do BinaryOp.ofName? (← innerChoice? v)
  let args (r : Record) := r.defaulted "args" [] (list? (Argument.read? expr))
  match kind with
  | "Variable" => do
    let r ← body.record? ["name"]
    return .var (← r.required "name" (VarRef.read? expr))
  | "Assign" => do
    let r ← body.record? ["target", "value", "by_ref"]
    return .assign (← r.required "target" expr) (← r.required "value" expr)
      (← r.defaulted "by_ref" false bool?)
  | "AssignOp" => do
    let r ← body.record? ["op", "target", "value"]
    return .assignOp (← r.required "op" binary) (← r.required "target" expr)
      (← r.required "value" expr)
  | "IncDec" => do
    let r ← body.record? ["op", "target"]
    return .incDec (← r.required "op" fun v => do StepOp.ofName? (← innerChoice? v))
      (← r.required "target" expr)
  | "PropertyFetch" => do
    let r ← body.record? ["object", "property"]
    return .property (← r.required "object" expr) (← r.required "property" str?)
  | "StaticPropertyFetch" => do
    let r ← body.record? ["class", "property"]
    return .staticProperty (← r.required "class" Name.ofJson?) (← r.required "property" str?)
  | "ArrayDimFetch" => do
    let r ← body.record? ["base", "dim"]
    return .dim (← r.required "base" expr) (← r.optional "dim" expr)
  | "List" => do
    let r ← body.record? ["items"]
    return .list (← r.required "items" (list? (nullable? (Item.read? expr))))
  | "Array" => do
    let r ← body.record? ["items"]
    return .array (← r.required "items" (list? (Item.read? expr)))
  | "FuncCall" => do
    let r ← body.record? ["name", "args"]
    return .call (← r.required "name" Name.ofJson?) (← args r)
  | "MethodCall" => do
    let r ← body.record? ["object", "method", "args"]
    return .methodCall (← r.required "object" expr) (← r.required "method" str?) (← args r)
  | "StaticCall" => do
    let r ← body.record? ["class", "method", "args"]
    return .staticCall (← r.required "class" Name.ofJson?) (← r.required "method" str?) (← args r)
  | "New" => do
    let r ← body.record? ["class", "args"]
    return .new (← r.required "class" Name.ofJson?) (← args r)
  | "ClassConstFetch" => do
    let r ← body.record? ["class", "constant"]
    return .classConst (← r.required "class" Name.ofJson?) (← r.required "constant" str?)
  | "ConstFetch" => do
    let r ← body.record? ["name"]
    return .const (← r.required "name" Name.ofJson?)
  | "String" => do
    let r ← body.record? ["value"]
    return .string (← r.required "value" str?)
  | "Int" => do
    let r ← body.record? ["value"]
    return .int (← r.required "value" Json.int64?)
  | "Float" => do
    let r ← body.record? ["value"]
    return .float (← r.required "value" Json.float?)
  | "BinaryOp" => do
    let r ← body.record? ["op", "left", "right"]
    return .binary (← r.required "op" binary) (← r.required "left" expr) (← r.required "right" expr)
  | "UnaryOp" => do
    let r ← body.record? ["op", "operand"]
    return .unary (← r.required "op" fun v => do UnaryOp.ofName? (← innerChoice? v))
      (← r.required "operand" expr)
  | "Ternary" => do
    let r ← body.record? ["cond", "then", "otherwise"]
    return .ternary (← r.required "cond" expr) (← r.optional "then" expr)
      (← r.required "otherwise" expr)
  | "Isset" => do
    let r ← body.record? ["vars"]
    return .isset (← r.required "vars" (list? expr))
  | "Empty" => do
    let r ← body.record? ["expr"]
    return .empty (← r.required "expr" expr)
  | "Instanceof" => do
    let r ← body.record? ["expr", "class"]
    return .instanceOf (← r.required "expr" expr) (← r.required "class" Name.ofJson?)
  | "Cast" => do
    let r ← body.record? ["to", "expr"]
    return .cast (← r.required "to" fun v => do CastTarget.ofName? (← innerChoice? v))
      (← r.required "expr" expr)
  | "Eval" => do
    let r ← body.record? ["expr"]
    return .eval (← r.required "expr" expr)
  | "ShellExec" => do
    let r ← body.record? ["parts"]
    return .shell (← r.required "parts" (list? expr))
  | _ => none

/-- An expression of at most `n` levels. -/
def read? : Nat → Json → Option Expr
  | 0, _ => none
  | n + 1, v => do
    let t ← v.tagged?
    ofFields? (read? n) (← Json.kindName? kinds t.kind) t.body

/-- An expression inside a node. -/
def inner? (v : Json) : Option Expr := read? v.depth v

/-- An expression on its own. -/
def ofJson? (v : Json) : Option Expr := if v.isNode then inner? v else none

end Expr

/-- An array item on its own. -/
def Item.ofJson? (v : Json) : Option Item := read? Expr.ofJson? v

/-- An argument on its own. -/
def Argument.ofJson? (v : Json) : Option Argument := read? Expr.ofJson? v

/-! ### Statements -/

/-- A static variable, given a reader of expressions. -/
def StaticLocal.read? (expr : Json → Option Expr) (v : Json) : Option StaticLocal := do
  let r ← v.record? ["name", "default"]
  return { name := ← r.required "name" str?, value := ← r.optional "default" expr }

/-- A further test of an `if`, given readers of what it holds. -/
def ElseIf.read? (expr : Json → Option Expr) (stmt : Json → Option Stmt) (v : Json) :
    Option ElseIf := do
  let r ← v.record? ["cond", "body"]
  return { test := ← r.required "cond" expr, body := ← r.required "body" (list? stmt) }

/-- A case, given readers of what it holds. -/
def Case.read? (expr : Json → Option Expr) (stmt : Json → Option Stmt) (v : Json) :
    Option Case := do
  let r ← v.record? ["test", "body"]
  return { test := ← r.optional "test" expr, body := ← r.required "body" (list? stmt) }

/-- A handler, given a reader of statements. -/
def Handler.read? (stmt : Json → Option Stmt) (v : Json) : Option Handler := do
  let r ← v.record? ["types", "var", "body"]
  return {
    types := ← r.required "types" (list? Name.ofJson?)
    var := ← r.optional "var" str?
    body := ← r.required "body" (list? stmt) }

namespace Stmt

/-- The kinds of statements. -/
def kinds : List String :=
  ["Expression", "Return", "If", "While", "DoWhile", "For", "Foreach", "Switch", "Static",
    "TryCatch", "Throw", "Break", "Continue", "Echo", "Unset", "Goto", "Label", "InlineHtml", "Nop"]

/-- A statement of a kind from its fields, given a reader of the statements inside. -/
def ofFields? (stmt : Json → Option Stmt) (kind : String) (body : Json) : Option Stmt :=
  let expr := Expr.inner?
  let exprs := list? expr
  let block := list? stmt
  match kind with
  | "Expression" => do
    let r ← body.record? ["expr"]
    return .expression (← r.required "expr" expr)
  | "Return" => do
    let r ← body.record? ["expr"]
    return .ret (← r.optional "expr" expr)
  | "If" => do
    let r ← body.record? ["cond", "then", "elseifs", "otherwise"]
    return .ifElse (← r.required "cond" expr) (← r.required "then" block)
      (← r.defaulted "elseifs" [] (list? (ElseIf.read? expr stmt))) (← r.optional "otherwise" block)
  | "While" => do
    let r ← body.record? ["cond", "body"]
    return .whileLoop (← r.required "cond" expr) (← r.required "body" block)
  | "DoWhile" => do
    let r ← body.record? ["body", "cond"]
    return .doWhile (← r.required "body" block) (← r.required "cond" expr)
  | "For" => do
    let r ← body.record? ["init", "cond", "step", "body"]
    return .forLoop (← r.defaulted "init" [] exprs) (← r.defaulted "cond" [] exprs)
      (← r.defaulted "step" [] exprs) (← r.required "body" block)
  | "Foreach" => do
    let r ← body.record? ["expr", "key", "value", "by_ref", "body"]
    return .foreach (← r.required "expr" expr) (← r.optional "key" expr) (← r.required "value" expr)
      (← r.defaulted "by_ref" false bool?) (← r.required "body" block)
  | "Switch" => do
    let r ← body.record? ["subject", "cases"]
    return .switch (← r.required "subject" expr)
      (← r.required "cases" (list? (Case.read? expr stmt)))
  | "Static" => do
    let r ← body.record? ["vars"]
    return .static (← r.required "vars" (list? (StaticLocal.read? expr)))
  | "TryCatch" => do
    let r ← body.record? ["body", "catches", "finally"]
    return .tryCatch (← r.required "body" block)
      (← r.defaulted "catches" [] (list? (Handler.read? stmt))) (← r.optional "finally" block)
  | "Throw" => do
    let r ← body.record? ["expr"]
    return .raise (← r.required "expr" expr)
  | "Break" => body.bare?.map fun _ => .breakLoop
  | "Continue" => body.bare?.map fun _ => .continueLoop
  | "Echo" => do
    let r ← body.record? ["exprs"]
    return .echo (← r.required "exprs" exprs)
  | "Unset" => do
    let r ← body.record? ["vars"]
    return .unset (← r.required "vars" exprs)
  | "Goto" => do
    let r ← body.record? ["label"]
    return .goto (← r.required "label" str?)
  | "Label" => do
    let r ← body.record? ["name"]
    return .label (← r.required "name" str?)
  | "InlineHtml" => do
    let r ← body.record? ["value"]
    return .html (← r.required "value" str?)
  | "Nop" => body.bare?.map fun _ => .nop
  | _ => none

/-- A statement of at most `n` levels. -/
def read? : Nat → Json → Option Stmt
  | 0, _ => none
  | n + 1, v => do
    let t ← v.tagged?
    ofFields? (read? n) (← Json.kindName? kinds t.kind) t.body

/-- A statement inside a node. -/
def inner? (v : Json) : Option Stmt := read? v.depth v

/-- A statement on its own. -/
def ofJson? (v : Json) : Option Stmt := if v.isNode then inner? v else none

end Stmt

/-- A further test of an `if` on its own. -/
def ElseIf.ofJson? (v : Json) : Option ElseIf := read? Expr.ofJson? Stmt.ofJson? v

/-- A case on its own. -/
def Case.ofJson? (v : Json) : Option Case := read? Expr.ofJson? Stmt.ofJson? v

/-- A handler on its own. -/
def Handler.ofJson? (v : Json) : Option Handler := read? Stmt.ofJson? v

/-- A static variable on its own. -/
def StaticLocal.ofJson? (v : Json) : Option StaticLocal := read? Expr.ofJson? v

/-! ### Declarations -/

namespace TypeExpr

/-- The kinds of types. -/
def kinds : List String := ["Identifier", "Name", "Nullable", "Union"]

/-- A type of a kind from its fields, given a reader of the types inside. -/
def ofFields? (hint : Json → Option TypeExpr) (kind : String) (body : Json) : Option TypeExpr :=
  match kind with
  | "Identifier" => do
    let r ← body.record? ["name"]
    return .builtin (← r.required "name" str?)
  | "Name" => do
    let r ← body.record? ["name"]
    return .ofClass (← r.required "name" Name.ofJson?)
  | "Nullable" => do
    let r ← body.record? ["inner"]
    return .nullable (← r.required "inner" hint)
  | "Union" => do
    let r ← body.record? ["types"]
    return .union (← r.required "types" (list? hint))
  | _ => none

/-- A type of at most `n` levels. -/
def read? : Nat → Json → Option TypeExpr
  | 0, _ => none
  | n + 1, v => do
    let t ← v.tagged?
    ofFields? (read? n) (← Json.kindName? kinds t.kind) t.body

/-- A type inside a node. -/
def inner? (v : Json) : Option TypeExpr := read? v.depth v

/-- A type on its own. -/
def ofJson? (v : Json) : Option TypeExpr := if v.isNode then inner? v else none

end TypeExpr

/-- The readers of the three kinds of nodes that declarations hold. -/
structure NodeReaders where
  expr : Json → Option Expr
  stmt : Json → Option Stmt
  hint : Json → Option TypeExpr

/-- The readers inside a node. -/
def NodeReaders.inner : NodeReaders := ⟨Expr.inner?, Stmt.inner?, TypeExpr.inner?⟩

/-- The readers outside of any node. -/
def NodeReaders.outer : NodeReaders := ⟨Expr.ofJson?, Stmt.ofJson?, TypeExpr.ofJson?⟩

/-- A parameter, given readers of what it holds. -/
def Param.read? (nodes : NodeReaders) (v : Json) : Option Param := do
  let r ← v.record? ["name", "type_hint", "default", "by_ref", "variadic"]
  return {
    name := ← r.required "name" str?
    type := ← r.optional "type_hint" nodes.hint
    value := ← r.optional "default" nodes.expr
    byRef := ← r.defaulted "by_ref" false bool?
    variadic := ← r.defaulted "variadic" false bool? }

/-- A method, given readers of what it holds. -/
def Method.read? (nodes : NodeReaders) (v : Json) : Option Method := do
  let r ← v.record? ["name", "flags", "by_ref", "params", "return_type", "body", "doc"]
  return {
    name := ← r.required "name" str?
    flags := ← r.defaulted "flags" Modifiers.empty Modifiers.ofJson?
    byRef := ← r.defaulted "by_ref" false bool?
    params := ← r.defaulted "params" [] (list? (Param.read? nodes))
    returnType := ← r.optional "return_type" nodes.hint
    body := ← r.optional "body" (list? nodes.stmt)
    doc := ← r.optional "doc" str? }

/-- A method as a plain record. -/
def Method.ofJson? (v : Json) : Option Method := Method.read? .outer v

/-- A parameter as a plain record. -/
def Param.ofJson? (v : Json) : Option Param := Param.read? .outer v

/-- A class member of a kind from its fields. -/
def Member.ofFields? (kind : String) (body : Json) : Option Member :=
  match kind with
  | "Method" => (Method.read? .inner body).map .method
  | "Property" => do
    let r ← body.record? ["name", "flags", "default", "doc"]
    return .property {
      name := ← r.required "name" str?
      flags := ← r.defaulted "flags" Modifiers.empty Modifiers.ofJson?
      value := ← r.optional "default" Expr.inner?
      doc := ← r.optional "doc" str? }
  | "Constant" => do
    let r ← body.record? ["name", "value"]
    return .constant {
      name := ← r.required "name" str?
      value := ← r.required "value" Expr.inner? }
  | _ => none

/-- A class member. -/
def Member.ofJson? (v : Json) : Option Member :=
  if v.isNode then do
    let t ← v.tagged?
    ofFields? (← t.kind.str?) t.body
  else none

/-- A class. -/
def ClassDecl.ofJson? (v : Json) : Option ClassDecl := do
  let r ← v.record? ["kind", "name", "flags", "extends", "implements", "members", "doc"]
  return {
    kind := ← r.defaulted "kind" ClassForm.plain fun v => do ClassForm.ofName? (← choice? v)
    name := ← r.required "name" str?
    flags := ← r.defaulted "flags" Modifiers.empty Modifiers.ofJson?
    parents := ← r.defaulted "extends" [] (list? Name.ofJson?)
    interfaces := ← r.defaulted "implements" [] (list? Name.ofJson?)
    members := ← r.defaulted "members" [] (list? Member.ofJson?)
    doc := ← r.optional "doc" str? }

/-- An import. -/
def Import.ofJson? (v : Json) : Option Import := do
  let r ← v.record? ["name", "alias"]
  return { name := ← r.required "name" Name.ofJson?, shortName := ← r.optional "alias" str? }

/-- A source file. -/
def SourceFile.ofJson? (v : Json) : Option SourceFile := do
  let r ← v.record? ["path", "namespace", "uses", "classes"]
  return {
    path := ← r.defaulted "path" none (nullable? str?)
    nameSpace := ← r.optional "namespace" Name.ofJson?
    uses := ← r.defaulted "uses" [] (list? Import.ofJson?)
    classes := ← r.defaulted "classes" [] (list? ClassDecl.ofJson?) }

/-- A source file from its text. -/
def SourceFile.ofText? (text : String) : Option SourceFile := do
  SourceFile.ofJson? (← Json.read? Json.nestingLimit text)

end Zephirize
