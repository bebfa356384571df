import Zephirize.Tree.Expr

/-!
# Statements

The statements of the source language, with the clauses they are made of.
-/

namespace Zephirize

/-- A static variable with its first value. -/
structure StaticLocal where
  name : String
  value : Option Expr
deriving Inhabited

mutual

/-- A statement. -/
inductive Stmt where
  | expression (value : Expr)
  | ret (value : Option Expr)
  | ifElse (test : Expr) (body : List Stmt) (elseIfs : List ElseIf)
      (otherwise : Option (List Stmt))
  | whileLoop (test : Expr) (body : List Stmt)
  | doWhile (body : List Stmt) (test : Expr)
  | forLoop (init tests steps : List Expr) (body : List Stmt)
  | foreach (subject : Expr) (key : Option Expr) (value : Expr) (byRef : Bool) (body : List Stmt)
  | switch (subject : Expr) (cases : List Case)
  | static (vars : List StaticLocal)
  | tryCatch (body : List Stmt) (catches : List Handler) (cleanup : Option (List Stmt))
  | raise (value : Expr)
  | breakLoop
  | continueLoop
  | echo (values : List Expr)
  | unset (vars : List Expr)
  | goto (label : String)
  | label (name : String)
  | html (text : String)
  | nop

/-- A further test of an `if`. -/
structure ElseIf where
  test : Expr
  body : List Stmt

/-- A case of a `switch`; the default case has no test. -/
structure Case where
  test : Option Expr
  body : List Stmt

/-- A handler of a `try`. -/
structure Handler where
  types : List Name
  var : Option String
  body : List Stmt

end

instance : Inhabited Stmt := ⟨.nop⟩
instance : Inhabited ElseIf := ⟨⟨default, []⟩⟩
instance : Inhabited Case := ⟨⟨none, []⟩⟩
instance : Inhabited Handler := ⟨⟨[], none, []⟩⟩

/-- An `if` without further clauses. -/
def Stmt.ifThen (test : Expr) (body : List Stmt) : Stmt := .ifElse test body [] none

end Zephirize
