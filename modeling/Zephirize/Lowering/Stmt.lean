import Zephirize.Code.Render
import Zephirize.Lowering.Expr
import Zephirize.Tree.Node

/-!
# Converting statements

A statement becomes a list of statements of the target language. The lines that an expression hoists
stand right before its statement; where a test has to run more than once, or only after another
test, they stand where the test is.

* `lowerStmt` — a statement.
* `lowerStmts` — statements, each after the lines it hoists.
* `lowerBlock` — the code of a block.
-/

namespace Zephirize

open Lowering

/-- A further test of an `if`, converted: the lines it hoists, its test and its body. -/
structure Arm where
  hoisted : List Code
  test : String
  body : List Code

/-- Puts a further test in front of what follows it. One that hoists lines stands in an `else` of
its own, so that the lines run only when the test is reached. -/
def Arm.attach (arm : Arm) (rest : Chain) : Chain :=
  if arm.hoisted.isEmpty then .elseIf arm.test arm.body rest
  else .otherwise (arm.hoisted ++ [.branch arm.test arm.body rest])

/-- What follows the first block of an `if`. -/
def Chain.ofArms (arms : List Arm) (last : Chain) : Chain := arms.foldr Arm.attach last

/-- A loop that runs `checks` and leaves unless the test holds; a plain `while` if there are
none. -/
def Code.testedLoop (checks : List Code) (test : String) (body : List Code) : Code :=
  if checks.isEmpty then .whileLoop test body
  else .loop (checks ++ .leaveUnless test :: body)

/-- The tests of a `for`: all but the last one run as statements, and the last one is the test. -/
def forTests (cls : String) : List Expr → Lowering (List Code × String)
  | [] => return ([], "true")
  | [last] => do
    let (test, hoisted) ← isolate (exprText cls last)
    return (hoisted, test)
  | e :: rest => do
    let lines ← asLines cls e
    let (more, test) ← forTests cls rest
    return (lines ++ more, test)

/-- Expressions as statements. -/
def allAsLines (cls : String) : List Expr → Lowering (List Code)
  | [] => return []
  | e :: rest => do
    let lines ← asLines cls e
    return lines ++ (← allAsLines cls rest)

/-- The assignment of a static variable's first value. -/
def lowerStaticLocal (cls : String) (v : StaticLocal) : Lowering Code :=
  match v.value with
  | some value => return .set (safeName v.name) (← exprText cls value)
  | none => return .set (safeName v.name) "null"

/-- The assignments of static variables' first values. -/
def lowerStaticLocals (cls : String) : List StaticLocal → Lowering (List Code)
  | [] => return []
  | v :: rest => do
    let line ← lowerStaticLocal cls v
    return line :: (← lowerStaticLocals cls rest)

/-- What a `foreach` binds, given the text of its value. -/
def bindingText (cls : String) (key : Option Expr) (value : String) : Lowering String :=
  match key with
  | some key => return (← exprText cls key) ++ ", " ++ value
  | none => return value

/-- The heading of a case. -/
def caseHead (cls : String) : Option Expr → Lowering String
  | some test => return "case " ++ (← exprText cls test) ++ ":"
  | none => return "default:"

/-- The heading of a handler. -/
def handlerHead (types : List Name) (var : Option String) : String :=
  let head := "catch " ++ "|".intercalate (types.map Name.text)
  match var with
  | some var => head ++ ", " ++ safeName var
  | none => head

mutual

/-- Converts a statement of the class `cls`. -/
def lowerStmt (cls : String) : Stmt → Lowering (List Code)
  | .expression value => return (← lower cls value).asStatement
  | .ret none => return [.ret none]
  | .ret (some (.array items)) => return [.ret (some (← keptArrayText cls items))]
  | .ret (some value) => return [.ret (some (← exprText cls value))]
  | .ifElse test body elseIfs otherwise => do
    let test ← withArrayHoisting (exprText cls test)
    let body ← inBlock (lowerStmts cls body)
    let arms ← lowerArms cls elseIfs
    let last ← lowerOtherwise cls otherwise
    return [.branch test body (Chain.ofArms arms last)]
  | .whileLoop test body => do
    let (test, checks) ← isolate (exprText cls test)
    let body ← withinLoop [] (inBlock (lowerStmts cls body))
    return [.testedLoop checks test body]
  | .doWhile body test => do
    let (test, checks) ← isolate (exprText cls test)
    if checks.isEmpty then
      let body ← withinLoop [] (inBlock (lowerStmts cls body))
      return [.doWhile body test]
    else
      let checks := checks ++ [.leaveUnless test]
      let body ← withinLoop checks (inBlock (lowerStmts cls body))
      return [.loop (body ++ checks)]
  | .forLoop init tests steps body => do
    let init ← allAsLines cls init
    let (checks, test) ← forTests cls tests
    let steps ← allAsLines cls steps
    let body ← withinLoop steps (inBlock (lowerStmts cls body))
    return init ++ [.testedLoop checks test (body ++ steps)]
  | .foreach subject key value byRef body => do
    reportIf byRef cls "reference" "Reference not supported in foreach" "foreach"
    let subject ← exprText cls subject
    let value ← exprText cls value
    let binding ← bindingText cls key value
    let body ← withinLoop [] (inBlock (lowerStmts cls body))
    return [.forIn binding subject body]
  | .switch subject cases => do
    let subject ← exprText cls subject
    return [.switch subject (← lowerCases cls cases)]
  | .static vars => do
    let names := ", ".intercalate (vars.map fun v => "$" ++ v.name)
    report cls "static" ("Static variable(s) " ++ names ++ " converted to locals") "static"
    lowerStaticLocals cls vars
  | .tryCatch body handlers cleanup => do
    let body ← inBlock (lowerStmts cls body)
    let handlers ← lowerHandlers cls handlers
    match cleanup with
    | some cleanup =>
      report cls "finally" "Finally not supported, its body runs after the try" "finally"
      return .tryCatch body handlers :: (← inBlock (lowerStmts cls cleanup))
    | none => return [.tryCatch body handlers]
  | .raise value => return [.raise (← exprText cls value)]
  | .breakLoop => return [.breakLoop]
  | .continueLoop => return (← get).loops.headD [] ++ [.continueLoop]
  | .echo values => return [.echo (← lowerAll cls values)]
  | .unset vars => return (← lowerAll cls vars).map .unset
  | .goto _ => refuse cls .goto
  | .label _ => refuse cls .label
  | .html _ => refuse cls .html
  | .nop => return []

/-- Converts statements, each after the lines that it hoists. -/
def lowerStmts (cls : String) : List Stmt → Lowering (List Code)
  | [] => return []
  | s :: rest => do
    let lines ← lowerStmt cls s
    let hoisted ← takeHoisted
    return hoisted ++ lines ++ (← lowerStmts cls rest)

/-- Converts the further tests of an `if`. -/
def lowerArms (cls : String) : List ElseIf → Lowering (List Arm)
  | [] => return []
  | ⟨test, body⟩ :: rest => do
    let (test, hoisted) ← isolate (exprText cls test)
    let body ← inBlock (lowerStmts cls body)
    return ⟨hoisted, test, body⟩ :: (← lowerArms cls rest)

/-- Converts the last block of an `if`. -/
def lowerOtherwise (cls : String) : Option (List Stmt) → Lowering Chain
  | some body => return .otherwise (← inBlock (lowerStmts cls body))
  | none => return .done

/-- Converts cases. -/
def lowerCases (cls : String) : List Case → Lowering (List Clause)
  | [] => return []
  | ⟨test, body⟩ :: rest => do
    let head ← caseHead cls test
    let body ← inBlock (lowerStmts cls body)
    return .mk head body :: (← lowerCases cls rest)

/-- Converts handlers. -/
def lowerHandlers (cls : String) : List Handler → Lowering (List Clause)
  | [] => return []
  | ⟨types, var, body⟩ :: rest => do
    let body ← inBlock (lowerStmts cls body)
    return .mk (handlerHead types var) body :: (← lowerHandlers cls rest)

end

/-- The code of a block. -/
def lowerBlock (cls : String) (stmts : List Stmt) : Lowering (List Code) :=
  inBlock (lowerStmts cls stmts)

/-- The text of a node, with blocks indented by `unit`. -/
def nodeText (cls unit : String) : Node → Lowering String
  | .stmt s => return Code.renderAll unit (← lowerStmt cls s)
  | .expr e => exprText cls e
  | .argument a => lowerArg cls a
  | .item i => lowerItem cls i
  | .elseIf c => do
    let test ← exprText cls c.test
    let body ← lowerBlock cls c.body
    return "elseif " ++ test ++ " " ++ block unit (Code.renderAll unit body)
  | .case c => do
    let head ← caseHead cls c.test
    let body ← lowerBlock cls c.body
    return caseText unit head (Code.renderAll unit body)
  | .handler c => do
    let body ← lowerBlock cls c.body
    return handlerHead c.types c.var ++ " " ++ block unit (Code.renderAll unit body)
  | .staticLocal v => return (← lowerStaticLocal cls v).render unit

end Zephirize
