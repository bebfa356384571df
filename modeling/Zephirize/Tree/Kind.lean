import Zephirize.Tree.Declaration

/-!
# Node kinds

The kind of a node is its constructor, without what it holds.

* `Kind.text` — the name of a kind in messages.
* `Stmt.kind`, `Expr.kind`, `Member.kind` — the kind of a node.
-/

namespace Zephirize

/-- The kinds of nodes. -/
inductive Kind where
  | method
  | property
  | classConst
  | expressionStmt
  | ret
  | ifElse
  | elseIf
  | whileLoop
  | doWhile
  | forLoop
  | foreach
  | switch
  | case
  | static
  | staticLocal
  | tryCatch
  | handler
  | raise
  | breakLoop
  | continueLoop
  | echo
  | unset
  | goto
  | label
  | html
  | nop
  | var
  | assign
  | assignOp
  | incDec
  | propertyFetch
  | staticProperty
  | dim
  | list
  | array
  | item
  | call
  | methodCall
  | staticCall
  | new
  | argument
  | classConstFetch
  | const
  | string
  | int
  | float
  | binary
  | unary
  | ternary
  | isset
  | empty
  | instanceOf
  | cast
  | eval
  | shell
deriving DecidableEq, Repr, Inhabited

/-- The name of a kind among all kinds, where expression statements stand apart from expressions. -/
def Kind.tag : Kind → String
  | .method => "Method"
  | .property => "Property"
  | .classConst => "ClassConst"
  | .expressionStmt => "ExpressionStmt"
  | .ret => "Return"
  | .ifElse => "If"
  | .elseIf => "ElseIf"
  | .whileLoop => "While"
  | .doWhile => "DoWhile"
  | .forLoop => "For"
  | .foreach => "Foreach"
  | .switch => "Switch"
  | .case => "Case"
  | .static => "Static"
  | .staticLocal => "StaticVar"
  | .tryCatch => "TryCatch"
  | .handler => "Catch"
  | .raise => "Throw"
  | .breakLoop => "Break"
  | .continueLoop => "Continue"
  | .echo => "Echo"
  | .unset => "Unset"
  | .goto => "Goto"
  | .label => "Label"
  | .html => "InlineHtml"
  | .nop => "Nop"
  | .var => "Variable"
  | .assign => "Assign"
  | .assignOp => "AssignOp"
  | .incDec => "IncDec"
  | .propertyFetch => "PropertyFetch"
  | .staticProperty => "StaticPropertyFetch"
  | .dim => "ArrayDimFetch"
  | .list => "List"
  | .array => "Array"
  | .item => "ArrayItem"
  | .call => "FuncCall"
  | .methodCall => "MethodCall"
  | .staticCall => "StaticCall"
  | .new => "New"
  | .argument => "Arg"
  | .classConstFetch => "ClassConstFetch"
  | .const => "ConstFetch"
  | .string => "String"
  | .int => "Int"
  | .float => "Float"
  | .binary => "BinaryOp"
  | .unary => "UnaryOp"
  | .ternary => "Ternary"
  | .isset => "Isset"
  | .empty => "Empty"
  | .instanceOf => "Instanceof"
  | .cast => "Cast"
  | .eval => "Eval"
  | .shell => "ShellExec"

/-- The name of a kind in messages: the kind that the tree format gives the node. -/
def Kind.text : Kind → String
  | .expressionStmt => "Expression"
  | k => k.tag

/-- The kind of a statement. -/
def Stmt.kind : Stmt → Kind
  | .expression .. => .expressionStmt
  | .ret .. => .ret
  | .ifElse .. => .ifElse
  | .whileLoop .. => .whileLoop
  | .doWhile .. => .doWhile
  | .forLoop .. => .forLoop
  | .foreach .. => .foreach
  | .switch .. => .switch
  | .static .. => .static
  | .tryCatch .. => .tryCatch
  | .raise .. => .raise
  | .breakLoop => .breakLoop
  | .continueLoop => .continueLoop
  | .echo .. => .echo
  | .unset .. => .unset
  | .goto .. => .goto
  | .label .. => .label
  | .html .. => .html
  | .nop => .nop

/-- The kind of an expression. -/
def Expr.kind : Expr → Kind
  | .var .. => .var
  | .assign .. => .assign
  | .assignOp .. => .assignOp
  | .incDec .. => .incDec
  | .property .. => .propertyFetch
  | .staticProperty .. => .staticProperty
  | .dim .. => .dim
  | .list .. => .list
  | .array .. => .array
  | .call .. => .call
  | .methodCall .. => .methodCall
  | .staticCall .. => .staticCall
  | .new .. => .new
  | .classConst .. => .classConstFetch
  | .const .. => .const
  | .string .. => .string
  | .int .. => .int
  | .float .. => .float
  | .binary .. => .binary
  | .unary .. => .unary
  | .ternary .. => .ternary
  | .isset .. => .isset
  | .empty .. => .empty
  | .instanceOf .. => .instanceOf
  | .cast .. => .cast
  | .eval .. => .eval
  | .shell .. => .shell

/-- The kind of a class member. -/
def Member.kind : Member → Kind
  | .method _ => .method
  | .property _ => .property
  | .constant _ => .classConst

end Zephirize
