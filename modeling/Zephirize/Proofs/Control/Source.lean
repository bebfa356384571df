import Zephirize.Proofs.Control.Execution
import Zephirize.Proofs.Lowering.Inline

/-!
# Executing the loops of the source

The source programs made of loops, branches and expressions, and how they are executed. To evaluate an
expression is to execute the lines that it hoists and then what its text says, so a program is
executed with the converted expressions in the places of its expressions.

* `Control ε` — programs over expressions of type `ε`; `Control.toStmt` gives the statement.
* `Evaluated` — an expression as it is converted at its place; `Expr.evaluate` converts it.
* `Control.evaluate` — converts the expressions of a program and nothing else.
* `Control.execute` — executes a program: a `continue` of a `for` goes on with its steps, that of any
  other loop with its test, and a `break` leaves the loop.
-/

namespace Zephirize

open Execution

/-- A program of loops, branches and expressions. What a `foreach` binds are plain variables. -/
inductive Control (ε : Type) where
  | expression (value : ε)
  | branch (test : ε) (body : List (Control ε)) (otherwise : Option (List (Control ε)))
  | whileLoop (test : ε) (body : List (Control ε))
  | doWhile (body : List (Control ε)) (test : ε)
  | forLoop (init tests steps : List ε) (body : List (Control ε))
  | foreach (subject : ε) (key : Option String) (value : String) (byRef : Bool)
      (body : List (Control ε))
  | breakLoop
  | continueLoop

mutual

/-- The statement that a program is. -/
def Control.toStmt : Control Expr → Stmt
  | .expression value => .expression value
  | .branch test body otherwise => .ifElse test (Control.toStmts body) [] (Control.toElse otherwise)
  | .whileLoop test body => .whileLoop test (Control.toStmts body)
  | .doWhile body test => .doWhile (Control.toStmts body) test
  | .forLoop init tests steps body => .forLoop init tests steps (Control.toStmts body)
  | .foreach subject key value byRef body =>
    .foreach subject (key.map Expr.named) (.named value) byRef (Control.toStmts body)
  | .breakLoop => .breakLoop
  | .continueLoop => .continueLoop

/-- The statements that programs are. -/
def Control.toStmts : List (Control Expr) → List Stmt
  | [] => []
  | c :: rest => c.toStmt :: Control.toStmts rest

/-- The last block of an `if`. -/
def Control.toElse : Option (List (Control Expr)) → Option (List Stmt)
  | none => none
  | some body => some (Control.toStmts body)

end

/-! ### Expressions at their places -/

/-- An expression as it is converted at its place, with the lines that it hoists. -/
structure Evaluated where
  hoisted : List Code
  lowered : Lowered

namespace Evaluated

/-- The expression as a statement. -/
def asLines (e : Evaluated) : List Code := e.hoisted ++ e.lowered.asStatement

/-- The lines before the expression's value is read. -/
def lines (e : Evaluated) : List Code := e.hoisted ++ e.lowered.lines

/-- The text that the expression's value is read from. -/
def text (e : Evaluated) : String :=
  match e.lowered with
  | .value text => text
  | .assigned _ target => target

/-- The expression is evaluated for a test. -/
def holds (o : Oracle) (e : Evaluated) : Execution Bool := do
  emit e.lines
  ask o e.text

end Evaluated

/-- Steps that count temporaries and may be refused. -/
abbrev Numbering (α : Type) : Type := StateT ℕ (Except Refusal) α

/-- Converts an expression after so many temporaries. -/
def Expr.evaluate (cls : String) (arrays : Bool) (e : Expr) : Numbering Evaluated := fun dims =>
  let run := (lower cls e).run.run { dims := dims, hoistArrays := arrays }
  run.1.map fun lowered => (⟨run.2.hoisted, lowered⟩, run.2.dims)

/-- Converts expressions in order. -/
def Expr.evaluateEach (cls : String) (arrays : Bool) : List Expr → Numbering (List Evaluated)
  | [] => return []
  | e :: rest => do
    let first ← e.evaluate cls arrays
    return first :: (← Expr.evaluateEach cls arrays rest)

mutual

/-- Converts the expressions of a program. The temporaries of a loop's test are numbered before those
of its body, and the test of an `if` keeps its array literals. -/
def Control.evaluate (cls : String) (arrays : Bool) : Control Expr → Numbering (Control Evaluated)
  | .expression value => return .expression (← value.evaluate cls arrays)
  | .branch test body otherwise => do
    let test ← test.evaluate cls true
    let body ← Control.evaluateAll cls arrays body
    return .branch test body (← Control.evaluateElse cls arrays otherwise)
  | .whileLoop test body => do
    let test ← test.evaluate cls arrays
    return .whileLoop test (← Control.evaluateAll cls arrays body)
  | .doWhile body test => do
    let test ← test.evaluate cls arrays
    return .doWhile (← Control.evaluateAll cls arrays body) test
  | .forLoop init tests steps body => do
    let init ← Expr.evaluateEach cls arrays init
    let tests ← Expr.evaluateEach cls arrays tests
    let steps ← Expr.evaluateEach cls arrays steps
    return .forLoop init tests steps (← Control.evaluateAll cls arrays body)
  | .foreach subject key value byRef body => do
    let subject ← subject.evaluate cls arrays
    return .foreach subject key value byRef (← Control.evaluateAll cls arrays body)
  | .breakLoop => return .breakLoop
  | .continueLoop => return .continueLoop

/-- Converts the expressions of programs in order. -/
def Control.evaluateAll (cls : String) (arrays : Bool) :
    List (Control Expr) → Numbering (List (Control Evaluated))
  | [] => return []
  | c :: rest => do
    let first ← c.evaluate cls arrays
    return first :: (← Control.evaluateAll cls arrays rest)

/-- Converts the expressions of the last block of an `if`. -/
def Control.evaluateElse (cls : String) (arrays : Bool) :
    Option (List (Control Expr)) → Numbering (Option (List (Control Evaluated)))
  | none => return none
  | some body => return some (← Control.evaluateAll cls arrays body)

end

/-! ### Executions -/

/-- What a `foreach` binds, as it is written. -/
def bindingOf (key : Option String) (value : String) : String :=
  match key with
  | some key => safeName key ++ ", " ++ safeName value
  | none => safeName value

/-- The tests of a `for`: all are evaluated and the last one decides; without a test the loop goes
on. -/
def Evaluated.lastHolds (o : Oracle) : List Evaluated → Execution Bool
  | [] => return true
  | [last] => last.holds o
  | e :: rest => do
    emit e.asLines
    Evaluated.lastHolds o rest

/-- The body of a `for` with the steps after it: they come also after a `continue`, but not after a
`break`. -/
def Execution.stepping (body : Execution Exit) (steps : List Code) : Execution Exit := do
  match ← body with
  | .normal | .continues =>
    emit steps
    return .normal
  | exit => return exit

mutual

/-- Executes a program, with at most `n` rounds of each loop. -/
def Control.execute (o : Oracle) (n : ℕ) : Control Evaluated → Execution Exit
  | .expression value => do
    emit value.asLines
    return .normal
  | .branch test body otherwise => do
    if ← test.holds o then Control.executeAll o n body else Control.executeElse o n otherwise
  | .whileLoop test body => rounds (testedRound (test.holds o) (Control.executeAll o n body)) n
  | .doWhile body test => rounds (roundTested (Control.executeAll o n body) (test.holds o)) n
  | .forLoop init tests steps body => do
    emit (init.flatMap Evaluated.asLines)
    rounds (testedRound (Evaluated.lastHolds o tests)
      ((Control.executeAll o n body).stepping (steps.flatMap Evaluated.asLines))) n
  | .foreach subject key value _ body => do
    emit subject.lines
    rounds (testedRound (consult o (.step (bindingOf key value) subject.text))
      (Control.executeAll o n body)) n
  | .breakLoop => return .breaks
  | .continueLoop => return .continues

/-- Executes programs one after the other. -/
def Control.executeAll (o : Oracle) (n : ℕ) : List (Control Evaluated) → Execution Exit
  | [] => return .normal
  | c :: rest => (c.execute o n).andThen (Control.executeAll o n rest)

/-- Executes the last block of an `if`. -/
def Control.executeElse (o : Oracle) (n : ℕ) : Option (List (Control Evaluated)) → Execution Exit
  | none => return .normal
  | some body => Control.executeAll o n body

end

end Zephirize
