import Zephirize.Tree.Name

/-!
# Expressions

The expressions of the source language, with their operators. An item of a destructuring target may
be missing, and the name of a variable may be computed.
-/

namespace Zephirize

/-- An operator with two operands. -/
inductive BinaryOp where
  | add
  | sub
  | mul
  | div
  | mod
  | pow
  | concat
  | bitAnd
  | bitOr
  | bitXor
  | shiftLeft
  | shiftRight
  | booleanAnd
  | booleanOr
  | logicalXor
  | equal
  | notEqual
  | identical
  | notIdentical
  | greater
  | greaterOrEqual
  | smaller
  | smallerOrEqual
  | coalesce
deriving DecidableEq, Repr, Inhabited

/-- An operator in front of its operand. -/
inductive UnaryOp where
  | not
  | minus
  | plus
  | bitNot
deriving DecidableEq, Repr, Inhabited

/-- A step of a variable by one. -/
inductive StepOp where
  | preInc
  | preDec
  | postInc
  | postDec
deriving DecidableEq, Repr, Inhabited

/-- The type that a cast names. -/
inductive CastTarget where
  | int
  | float
  | string
  | bool
  | array
  | object
deriving DecidableEq, Repr, Inhabited

mutual

/-- The name of a variable. -/
inductive VarRef where
  | literal (name : String)
  | dynamic (name : Expr)

/-- An expression. -/
inductive Expr where
  | var (name : VarRef)
  | assign (target value : Expr) (byRef : Bool)
  | assignOp (op : BinaryOp) (target value : Expr)
  | incDec (op : StepOp) (target : Expr)
  | property (object : Expr) (name : String)
  | staticProperty (cls : Name) (name : String)
  /-- An indexed fetch; the index is missing in `a[]`. -/
  | dim (base : Expr) (index : Option Expr)
  /-- A destructuring target; a gap is `none`. -/
  | list (items : List (Option Item))
  | array (items : List Item)
  | call (name : Name) (args : List Argument)
  | methodCall (object : Expr) (method : String) (args : List Argument)
  | staticCall (cls : Name) (method : String) (args : List Argument)
  | new (cls : Name) (args : List Argument)
  | classConst (cls : Name) (constant : String)
  | const (name : Name)
  | string (value : String)
  | int (value : Int64)
  | float (value : Float)
  | binary (op : BinaryOp) (left right : Expr)
  | unary (op : UnaryOp) (operand : Expr)
  /-- A conditional; the middle is missing in `a ?: b`. -/
  | ternary (test : Expr) (yes : Option Expr) (no : Expr)
  | isset (vars : List Expr)
  | empty (value : Expr)
  | instanceOf (value : Expr) (cls : Name)
  | cast (type : CastTarget) (value : Expr)
  | eval (code : Expr)
  | shell (parts : List Expr)

/-- An item of an array literal or of a destructuring target. -/
structure Item where
  key : Option Expr
  value : Expr
  byRef : Bool
  unpack : Bool

/-- An argument of a call. -/
structure Argument where
  value : Expr
  byRef : Bool
  unpack : Bool

end

instance : Inhabited Expr := ⟨.int 0⟩
instance : Inhabited Item := ⟨⟨none, default, false, false⟩⟩
instance : Inhabited Argument := ⟨⟨default, false, false⟩⟩

/-- An argument that is a plain value. -/
def Argument.ofValue (value : Expr) : Argument := ⟨value, false, false⟩

namespace Item

/-- An item without a key. -/
def ofValue (value : Expr) : Item := ⟨none, value, false, false⟩

/-- An item with a key. -/
def keyed (key value : Expr) : Item := ⟨some key, value, false, false⟩

end Item

namespace Expr

/-- The variable with this name. -/
def named (name : String) : Expr := .var (.literal name)

/-- The constant whose name `name` spells. -/
def constant (name : String) : Expr := .const (Name.ofString name)

/-- The assignment of a value. -/
def assignTo (target value : Expr) : Expr := .assign target value false

/-- The call of the function whose name `name` spells, with plain arguments. -/
def callOf (name : String) (args : List Expr) : Expr :=
  .call (Name.ofString name) (args.map Argument.ofValue)

/-- The call of a method with plain arguments. -/
def methodCallOf (object : Expr) (method : String) (args : List Expr) : Expr :=
  .methodCall object method (args.map Argument.ofValue)

/-- The array literal of these values. -/
def arrayOf (values : List Expr) : Expr := .array (values.map Item.ofValue)

/-- The destructuring target with these slots. -/
def listOf (slots : List (Option Expr)) : Expr := .list (slots.map (·.map Item.ofValue))

/-- The name of a variable that is not computed. -/
def literalName? : Expr → Option String
  | .var (.literal name) => some name
  | _ => none

end Expr

end Zephirize
