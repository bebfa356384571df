import Zephirize.Code.Basic
import Zephirize.Text.Lines

/-!
# The text of code

Statements stand on lines of their own, and blocks are indented by one unit.

* `block` — a text between braces.
* `Code.render` — the text of a statement.
* `Code.renderAll` — the text of statements.
-/

namespace Zephirize

/-- A text between braces, indented. -/
def block (unit body : String) : String :=
  if body.isEmpty then "\x7b\n\x7d" else "\x7b\n" ++ Text.indent unit body ++ "\n\x7d"

/-- The text of an assignment. -/
def Update.render (target : String) : Update → String
  | .set value => "let " ++ target ++ " = " ++ value ++ ";"
  | .combine op value => "let " ++ target ++ " " ++ op.symbol ++ "= " ++ value ++ ";"
  | .increment => "let " ++ target ++ "++;"
  | .decrement => "let " ++ target ++ "--;"

/-- A case: its heading, and its body indented below. -/
def caseText (unit head body : String) : String :=
  if body.isEmpty then head else head ++ "\n" ++ Text.indent unit body

mutual

/-- The text of a statement. -/
def Code.render (unit : String) : Code → String
  | .assign target update => update.render target
  | .keep temp value => Update.render temp (.set value)
  | .eval text => text ++ ";"
  | .ret none => "return;"
  | .ret (some value) => "return " ++ value ++ ";"
  | .raise value => "throw " ++ value ++ ";"
  | .echo values => "echo " ++ ", ".intercalate values ++ ";"
  | .unset var => "unset " ++ var ++ ";"
  | .breakLoop => "break;"
  | .continueLoop => "continue;"
  | .branch test body rest =>
    "if " ++ test ++ " " ++ block unit (Text.joinLines (Code.renderEach unit body)) ++
      rest.render unit
  | .whileLoop test body =>
    "while " ++ test ++ " " ++ block unit (Text.joinLines (Code.renderEach unit body))
  | .loop body => "loop " ++ block unit (Text.joinLines (Code.renderEach unit body))
  | .doWhile body test =>
    "do " ++ block unit (Text.joinLines (Code.renderEach unit body)) ++ " while " ++ test ++ ";"
  | .forIn binding subject body =>
    "for " ++ binding ++ " in " ++ subject ++ " " ++
      block unit (Text.joinLines (Code.renderEach unit body))
  | .switch subject cases =>
    "switch " ++ subject ++ " " ++ block unit (Text.joinLines (Clause.renderCases unit cases))
  | .tryCatch body handlers =>
    " ".intercalate (("try " ++ block unit (Text.joinLines (Code.renderEach unit body))) ::
      Clause.renderHandlers unit handlers)

/-- The texts of statements. -/
def Code.renderEach (unit : String) : List Code → List String
  | [] => []
  | c :: rest => c.render unit :: Code.renderEach unit rest

/-- The text of what follows the first block of an `if`. -/
def Chain.render (unit : String) : Chain → String
  | .done => ""
  | .elseIf test body rest =>
    " elseif " ++ test ++ " " ++ block unit (Text.joinLines (Code.renderEach unit body)) ++
      rest.render unit
  | .otherwise body => " else " ++ block unit (Text.joinLines (Code.renderEach unit body))

/-- The texts of cases. -/
def Clause.renderCases (unit : String) : List Clause → List String
  | [] => []
  | .mk head body :: rest =>
    caseText unit head (Text.joinLines (Code.renderEach unit body)) ::
      Clause.renderCases unit rest

/-- The texts of handlers. -/
def Clause.renderHandlers (unit : String) : List Clause → List String
  | [] => []
  | .mk head body :: rest =>
    (head ++ " " ++ block unit (Text.joinLines (Code.renderEach unit body))) ::
      Clause.renderHandlers unit rest

end

/-- The text of statements. -/
def Code.renderAll (unit : String) (codes : List Code) : String :=
  Text.joinLines (Code.renderEach unit codes)

end Zephirize
