import Zephirize.Tree.Expr

/-!
# Code of the target language

Statements of the target language with the texts of their expressions.

* `Update` — what an assignment does to its target.
* `Code` — a statement.
* `Chain` — what follows the first block of an `if`.
* `Clause` — a case of a `switch` or a handler of a `try`.
-/

namespace Zephirize

/-- What an assignment does to its target. -/
inductive Update where
  | set (value : String)
  | combine (op : BinaryOp) (value : String)
  | increment
  | decrement
deriving DecidableEq, Repr

mutual

/-- A statement of the target language. -/
inductive Code where
  | assign (target : String) (update : Update)
  /-- The assignment of a value to a temporary of the conversion. -/
  | keep (temp value : String)
  | eval (text : String)
  | ret (value : Option String)
  | raise (value : String)
  | echo (values : List String)
  | unset (var : String)
  | breakLoop
  | continueLoop
  | branch (test : String) (body : List Code) (rest : Chain)
  | whileLoop (test : String) (body : List Code)
  /-- A loop without a test. -/
  | loop (body : List Code)
  | doWhile (body : List Code) (test : String)
  | forIn (binding subject : String) (body : List Code)
  | switch (subject : String) (cases : List Clause)
  | tryCatch (body : List Code) (handlers : List Clause)

/-- What follows the first block of an `if`. -/
inductive Chain where
  | done
  | elseIf (test : String) (body : List Code) (rest : Chain)
  | otherwise (body : List Code)

/-- A block under a heading. -/
inductive Clause where
  | mk (head : String) (body : List Code)

end

/-- Leaves the innermost loop unless the test holds. -/
def Code.leaveUnless (test : String) : Code := .branch ("!(" ++ test ++ ")") [.breakLoop] .done

/-- The assignment of a value. -/
def Code.set (target value : String) : Code := .assign target (.set value)

/-- The spelling of an operator. -/
def BinaryOp.symbol : BinaryOp → String
  | .add => "+"
  | .sub => "-"
  | .mul => "*"
  | .div => "/"
  | .mod => "%"
  | .pow => "**"
  | .concat => "."
  | .bitAnd => "&"
  | .bitOr => "|"
  | .bitXor => "^"
  | .shiftLeft => "<<"
  | .shiftRight => ">>"
  | .booleanAnd => "&&"
  | .booleanOr => "||"
  | .logicalXor => "^"
  | .equal => "=="
  | .notEqual => "!="
  | .identical => "==="
  | .notIdentical => "!=="
  | .greater => ">"
  | .greaterOrEqual => ">="
  | .smaller => "<"
  | .smallerOrEqual => "<="
  | .coalesce => "??"

/-- The spelling of an operator. -/
def UnaryOp.symbol : UnaryOp → String
  | .not => "!"
  | .minus => "-"
  | .plus => "+"
  | .bitNot => "~"

/-- The keyword of a type. -/
def CastTarget.keyword : CastTarget → String
  | .int => "int"
  | .float => "double"
  | .string => "string"
  | .bool => "boolean"
  | .array => "array"
  | .object => "object"

end Zephirize
