import Zephirize.Json.Writer
import Zephirize.Tree.Declaration

/-!
# Trees as JSON

Every node is an object with all its fields in declaration order. Statements, expressions, types
and class members start with their `kind`; an empty optional field is `null`.
-/

namespace Zephirize

namespace Json

/-- A node with its kind. -/
def node (kind : String) (fields : List (String × Json)) : Json :=
  .obj (("kind", .str kind) :: fields)

/-- An optional value. -/
def ofOption {α : Type} (write : α → Json) : Option α → Json
  | none => .null
  | some a => write a

/-- A list of values. -/
def ofList {α : Type} (write : α → Json) (items : List α) : Json := .arr (items.map write)

end Json

open Json (node ofOption ofList)

/-- The name of an operator. -/
def BinaryOp.name : BinaryOp → String
  | .add => "Add"
  | .sub => "Sub"
  | .mul => "Mul"
  | .div => "Div"
  | .mod => "Mod"
  | .pow => "Pow"
  | .concat => "Concat"
  | .bitAnd => "BitAnd"
  | .bitOr => "BitOr"
  | .bitXor => "BitXor"
  | .shiftLeft => "ShiftLeft"
  | .shiftRight => "ShiftRight"
  | .booleanAnd => "BooleanAnd"
  | .booleanOr => "BooleanOr"
  | .logicalXor => "LogicalXor"
  | .equal => "Equal"
  | .notEqual => "NotEqual"
  | .identical => "Identical"
  | .notIdentical => "NotIdentical"
  | .greater => "Greater"
  | .greaterOrEqual => "GreaterOrEqual"
  | .smaller => "Smaller"
  | .smallerOrEqual => "SmallerOrEqual"
  | .coalesce => "Coalesce"

/-- The name of an operator. -/
def UnaryOp.name : UnaryOp → String
  | .not => "Not"
  | .minus => "Minus"
  | .plus => "Plus"
  | .bitNot => "BitNot"

/-- The name of an operator. -/
def StepOp.name : StepOp → String
  | .preInc => "PreInc"
  | .preDec => "PreDec"
  | .postInc => "PostInc"
  | .postDec => "PostDec"

/-- The name of a type. -/
def CastTarget.name : CastTarget → String
  | .int => "Int"
  | .float => "Float"
  | .string => "String"
  | .bool => "Bool"
  | .array => "Array"
  | .object => "Object"

/-- The name of a kind of class. -/
def ClassForm.name : ClassForm → String
  | .plain => "Class"
  | .interface => "Interface"
  | .trait => "Trait"

/-- A name as JSON. -/
def Name.toJson (n : Name) : Json :=
  .obj [("parts", ofList .str n.parts), ("fully_qualified", .bool n.fullyQualified)]

/-- Modifiers as JSON. -/
def Modifiers.toJson (m : Modifiers) : Json := .str m.text

/-- A double as JSON; only finite doubles have a number. -/
def Json.ofFloat (x : Float) : Json := if x.isFinite then .num (.float x) else .null

mutual

/-- The name of a variable as JSON. -/
def VarRef.toJson : VarRef → Json
  | .literal name => .str name
  | .dynamic name => name.toJson

/-- An expression as JSON. -/
def Expr.toJson : Expr → Json
  | .var name => node "Variable" [("name", name.toJson)]
  | .assign target value byRef =>
    node "Assign" [("target", target.toJson), ("value", value.toJson), ("by_ref", .bool byRef)]
  | .assignOp op target value =>
    node "AssignOp" [("op", .str op.name), ("target", target.toJson), ("value", value.toJson)]
  | .incDec op target => node "IncDec" [("op", .str op.name), ("target", target.toJson)]
  | .property object name =>
    node "PropertyFetch" [("object", object.toJson), ("property", .str name)]
  | .staticProperty cls name =>
    node "StaticPropertyFetch" [("class", cls.toJson), ("property", .str name)]
  | .dim base index =>
    node "ArrayDimFetch" [("base", base.toJson), ("dim", Expr.optionToJson index)]
  | .list items => node "List" [("items", .arr (Item.slotsToJson items))]
  | .array items => node "Array" [("items", .arr (Item.listToJson items))]
  | .call name args =>
    node "FuncCall" [("name", name.toJson), ("args", .arr (Argument.listToJson args))]
  | .methodCall object method args =>
    node "MethodCall" [("object", object.toJson), ("method", .str method),
      ("args", .arr (Argument.listToJson args))]
  | .staticCall cls method args =>
    node "StaticCall" [("class", cls.toJson), ("method", .str method),
      ("args", .arr (Argument.listToJson args))]
  | .new cls args => node "New" [("class", cls.toJson), ("args", .arr (Argument.listToJson args))]
  | .classConst cls constant =>
    node "ClassConstFetch" [("class", cls.toJson), ("constant", .str constant)]
  | .const name => node "ConstFetch" [("name", name.toJson)]
  | .string value => node "String" [("value", .str value)]
  | .int value => node "Int" [("value", .num (.int value.toInt))]
  | .float value => node "Float" [("value", .ofFloat value)]
  | .binary op left right =>
    node "BinaryOp" [("op", .str op.name), ("left", left.toJson), ("right", right.toJson)]
  | .unary op operand => node "UnaryOp" [("op", .str op.name), ("operand", operand.toJson)]
  | .ternary test yes no =>
    node "Ternary" [("cond", test.toJson), ("then", Expr.optionToJson yes),
      ("otherwise", no.toJson)]
  | .isset vars => node "Isset" [("vars", .arr (Expr.listToJson vars))]
  | .empty value => node "Empty" [("expr", value.toJson)]
  | .instanceOf value cls => node "Instanceof" [("expr", value.toJson), ("class", cls.toJson)]
  | .cast type value => node "Cast" [("to", .str type.name), ("expr", value.toJson)]
  | .eval code => node "Eval" [("expr", code.toJson)]
  | .shell parts => node "ShellExec" [("parts", .arr (Expr.listToJson parts))]

/-- An optional expression as JSON. -/
def Expr.optionToJson : Option Expr → Json
  | none => .null
  | some e => e.toJson

/-- Expressions as JSON. -/
def Expr.listToJson : List Expr → List Json
  | [] => []
  | e :: rest => e.toJson :: Expr.listToJson rest

/-- An array item as JSON. -/
def Item.toJson : Item → Json
  | ⟨key, value, byRef, unpack⟩ =>
    .obj [("key", Expr.optionToJson key), ("value", value.toJson), ("by_ref", .bool byRef),
      ("unpack", .bool unpack)]

/-- Array items as JSON. -/
def Item.listToJson : List Item → List Json
  | [] => []
  | item :: rest => item.toJson :: Item.listToJson rest

/-- Slots of a destructuring target as JSON. -/
def Item.slotsToJson : List (Option Item) → List Json
  | [] => []
  | none :: rest => .null :: Item.slotsToJson rest
  | some item :: rest => item.toJson :: Item.slotsToJson rest

/-- An argument as JSON. -/
def Argument.toJson : Argument → Json
  | ⟨value, byRef, unpack⟩ =>
    .obj [("value", value.toJson), ("by_ref", .bool byRef), ("unpack", .bool unpack)]

/-- Arguments as JSON. -/
def Argument.listToJson : List Argument → List Json
  | [] => []
  | arg :: rest => arg.toJson :: Argument.listToJson rest

end

/-- A static variable as JSON. -/
def StaticLocal.toJson (v : StaticLocal) : Json :=
  .obj [("name", .str v.name), ("default", ofOption Expr.toJson v.value)]

mutual

/-- A statement as JSON. -/
def Stmt.toJson : Stmt → Json
  | .expression value => node "Expression" [("expr", value.toJson)]
  | .ret value => node "Return" [("expr", ofOption Expr.toJson value)]
  | .ifElse test body elseIfs otherwise =>
    node "If" [("cond", test.toJson), ("then", .arr (Stmt.listToJson body)),
      ("elseifs", .arr (ElseIf.listToJson elseIfs)), ("otherwise", Stmt.optionToJson otherwise)]
  | .whileLoop test body =>
    node "While" [("cond", test.toJson), ("body", .arr (Stmt.listToJson body))]
  | .doWhile body test =>
    node "DoWhile" [("body", .arr (Stmt.listToJson body)), ("cond", test.toJson)]
  | .forLoop init tests steps body =>
    node "For" [("init", ofList Expr.toJson init), ("cond", ofList Expr.toJson tests),
      ("step", ofList Expr.toJson steps), ("body", .arr (Stmt.listToJson body))]
  | .foreach subject key value byRef body =>
    node "Foreach" [("expr", subject.toJson), ("key", ofOption Expr.toJson key),
      ("value", value.toJson), ("by_ref", .bool byRef), ("body", .arr (Stmt.listToJson body))]
  | .switch subject cases =>
    node "Switch" [("subject", subject.toJson), ("cases", .arr (Case.listToJson cases))]
  | .static vars => node "Static" [("vars", ofList StaticLocal.toJson vars)]
  | .tryCatch body catches cleanup =>
    node "TryCatch" [("body", .arr (Stmt.listToJson body)),
      ("catches", .arr (Handler.listToJson catches)), ("finally", Stmt.optionToJson cleanup)]
  | .raise value => node "Throw" [("expr", value.toJson)]
  | .breakLoop => node "Break" []
  | .continueLoop => node "Continue" []
  | .echo values => node "Echo" [("exprs", ofList Expr.toJson values)]
  | .unset vars => node "Unset" [("vars", ofList Expr.toJson vars)]
  | .goto label => node "Goto" [("label", .str label)]
  | .label name => node "Label" [("name", .str name)]
  | .html text => node "InlineHtml" [("value", .str text)]
  | .nop => node "Nop" []

/-- Statements as JSON. -/
def Stmt.listToJson : List Stmt → List Json
  | [] => []
  | s :: rest => s.toJson :: Stmt.listToJson rest

/-- An optional block as JSON. -/
def Stmt.optionToJson : Option (List Stmt) → Json
  | none => .null
  | some body => .arr (Stmt.listToJson body)

/-- Further tests of an `if` as JSON. -/
def ElseIf.listToJson : List ElseIf → List Json
  | [] => []
  | ⟨test, body⟩ :: rest =>
    .obj [("cond", test.toJson), ("body", .arr (Stmt.listToJson body))] :: ElseIf.listToJson rest

/-- Cases as JSON. -/
def Case.listToJson : List Case → List Json
  | [] => []
  | ⟨test, body⟩ :: rest =>
    .obj [("test", ofOption Expr.toJson test), ("body", .arr (Stmt.listToJson body))] ::
      Case.listToJson rest

/-- Handlers as JSON. -/
def Handler.listToJson : List Handler → List Json
  | [] => []
  | ⟨types, var, body⟩ :: rest =>
    .obj [("types", ofList Name.toJson types), ("var", ofOption .str var),
      ("body", .arr (Stmt.listToJson body))] :: Handler.listToJson rest

end

mutual

/-- A declared type as JSON. -/
def TypeExpr.toJson : TypeExpr → Json
  | .builtin name => node "Identifier" [("name", .str name)]
  | .ofClass name => node "Name" [("name", name.toJson)]
  | .nullable inner => node "Nullable" [("inner", inner.toJson)]
  | .union types => node "Union" [("types", .arr (TypeExpr.listToJson types))]

/-- Declared types as JSON. -/
def TypeExpr.listToJson : List TypeExpr → List Json
  | [] => []
  | t :: rest => t.toJson :: TypeExpr.listToJson rest

end

/-- A parameter as JSON. -/
def Param.toJson (p : Param) : Json :=
  .obj [("name", .str p.name), ("type_hint", ofOption TypeExpr.toJson p.type),
    ("default", ofOption Expr.toJson p.value), ("by_ref", .bool p.byRef),
    ("variadic", .bool p.variadic)]

/-- The fields of a method. -/
def Method.fields (m : Method) : List (String × Json) :=
  [("name", .str m.name), ("flags", m.flags.toJson), ("by_ref", .bool m.byRef),
    ("params", ofList Param.toJson m.params),
    ("return_type", ofOption TypeExpr.toJson m.returnType),
    ("body", ofOption (ofList Stmt.toJson) m.body), ("doc", ofOption .str m.doc)]

/-- A class member as JSON. -/
def Member.toJson : Member → Json
  | .method m => node "Method" m.fields
  | .property p =>
    node "Property" [("name", .str p.name), ("flags", p.flags.toJson),
      ("default", ofOption Expr.toJson p.value), ("doc", ofOption .str p.doc)]
  | .constant c => node "Constant" [("name", .str c.name), ("value", c.value.toJson)]

/-- A class as JSON. -/
def ClassDecl.toJson (c : ClassDecl) : Json :=
  .obj [("kind", .str c.kind.name), ("name", .str c.name), ("flags", c.flags.toJson),
    ("extends", ofList Name.toJson c.parents), ("implements", ofList Name.toJson c.interfaces),
    ("members", ofList Member.toJson c.members), ("doc", ofOption .str c.doc)]

/-- An import as JSON. -/
def Import.toJson (u : Import) : Json :=
  .obj [("name", u.name.toJson), ("alias", ofOption .str u.shortName)]

/-- A source file as JSON. -/
def SourceFile.toJson (f : SourceFile) : Json :=
  .obj [("path", ofOption .str f.path), ("namespace", ofOption Name.toJson f.nameSpace),
    ("uses", ofList Import.toJson f.uses), ("classes", ofList ClassDecl.toJson f.classes)]

end Zephirize
