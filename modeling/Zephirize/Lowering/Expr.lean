import Zephirize.Lowering.State
import Zephirize.Text.Quoted

/-!
# Converting expressions

An expression becomes a text. Assignments are statements in the target language: inside an
expression they are hoisted before the statement, and their target is read instead.

* `Lowered` — a value, or an assignment with the target that its value is read from.
* `lower` — an expression. Its companions convert items, slots and arguments.
* `destructure` — the assignments that take a value apart.
* `exprText` — the text of an expression.
-/

namespace Zephirize

/-- Doubles are written out from `1e-4` to below `1e16` and have an unsigned exponent otherwise; of
two equally short and near decimals the larger one is written. -/
def codeLayout : Layout where
  plainFrom := -4
  plainTo := 15
  positiveMark := ""
  tie := .up
  notANumber := "NaN"
  infinity := "inf"
  negativeInfinity := "-inf"

/-- What an expression becomes. -/
inductive Lowered where
  | value (text : String)
  /-- Assignments, and the text from which the value can be read afterwards. -/
  | assigned (lines : List Code) (target : String)

namespace Lowered

/-- The expression as a statement. -/
def asStatement : Lowered → List Code
  | .value text => [.eval text]
  | .assigned lines _ => lines

/-- The text of the expression's value; assignments are hoisted. -/
def asValue : Lowered → Lowering String
  | .value text => pure text
  | .assigned lines target => do
    Lowering.hoist lines
    return target

end Lowered

namespace Expr

/-- An index can be applied to the expression directly. -/
def takesIndex : Expr → Bool
  | .var _ => true
  | .property .. => true
  | .staticProperty .. => true
  | .dim .. => true
  | _ => false

/-- The expression needs parentheses as an operand. -/
def isLoose : Expr → Bool
  | .binary .. => true
  | .ternary .. => true
  | .instanceOf .. => true
  | _ => false

/-- The text of the expression as an operand. -/
def operand (e : Expr) (text : String) : String := if e.isLoose then "(" ++ text ++ ")" else text

end Expr

namespace StepOp

/-- What the step does to its target. -/
def update : StepOp → Update
  | .preInc => .increment
  | .postInc => .increment
  | .preDec => .decrement
  | .postDec => .decrement

end StepOp

namespace Lowering

/-- The text of an array literal with these items; it is kept in a temporary where asked. -/
def arrayText (items : List Item) (texts : List String) (keep : Bool) : Lowering String := do
  let literal := "[" ++ ", ".intercalate texts ++ "]"
  if keep then
    hoist [.keep (arrayTemp items) literal]
    return arrayTemp items
  else return literal

/-- The text of an indexed fetch's base; one that cannot be indexed is kept in a temporary. -/
def baseText (base : Expr) (text : String) : Lowering String := do
  if base.takesIndex then return text
  else
    let temp ← newDim
    hoist [.keep temp text]
    return temp

end Lowering

open Lowering

mutual

/-- Converts an expression of the class `cls`. -/
def lower (cls : String) : Expr → Lowering Lowered
  | .var (.literal name) => return .value (safeName name)
  | .var (.dynamic name) => do
    let text ← (← lower cls name).asValue
    return .value ("\x7b" ++ text ++ "\x7d")
  | .assign target value byRef => do
    reportIf byRef cls "reference" "Assignment by reference not supported" "assign"
    match target with
    | .list items =>
      let text ← (← lower cls value).asValue
      let lines ← destructure cls (listTemp items) 0 items
      return .assigned (.keep (listTemp items) text :: lines) (listTemp items)
    | target =>
      let text ← (← lower cls value).asValue
      let target ← (← lower cls target).asValue
      return .assigned [.set target text] target
  | .assignOp op target value => do
    let text ← (← lower cls value).asValue
    let target ← (← lower cls target).asValue
    return .assigned [.assign target (.combine op text)] target
  | .incDec op target => do
    let target ← (← lower cls target).asValue
    return .assigned [.assign target op.update] target
  | .property object name => do
    let object ← (← lower cls object).asValue
    return .value (object ++ "->" ++ name)
  | .staticProperty owner name => return .value (owner.text ++ "::" ++ name)
  | .dim base index => do
    let text ← (← lower cls base).asValue
    let text ← baseText base text
    let index ← lowerOption cls index
    return .value (text ++ "[" ++ index ++ "]")
  | .list items => do
    let slots ← lowerSlots cls items
    return .value ("[" ++ ", ".intercalate slots ++ "]")
  | .array items => do
    let keep := (← get).hoistArrays
    let texts ← lowerItems cls items
    return .value (← arrayText items texts keep)
  | .call name args => do
    let args ← lowerArgs cls args
    return .value (name.text ++ "(" ++ ", ".intercalate args ++ ")")
  | .methodCall object method args => do
    let object ← (← lower cls object).asValue
    let args ← lowerArgs cls args
    return .value (object ++ "->" ++ method ++ "(" ++ ", ".intercalate args ++ ")")
  | .staticCall owner method args => do
    let args ← lowerArgs cls args
    return .value (owner.text ++ "::" ++ method ++ "(" ++ ", ".intercalate args ++ ")")
  | .new owner args => do
    let args ← lowerArgs cls args
    return .value ("new " ++ owner.text ++ "(" ++ ", ".intercalate args ++ ")")
  | .classConst owner constant => return .value (owner.text ++ "::" ++ constant)
  | .const name => return .value name.text
  | .string value => return .value (Text.Quoted.quote value)
  | .int value => return .value (toString value.toInt)
  | .float value => return .value (codeLayout.write value)
  | .binary op left right => do
    let l ← (← lower cls left).asValue
    let r ← (← lower cls right).asValue
    return .value (left.operand l ++ " " ++ op.symbol ++ " " ++ right.operand r)
  | .unary op operand => do
    let text ← (← lower cls operand).asValue
    return .value (op.symbol ++ operand.operand text)
  | .ternary test (some yes) no => do
    let t ← (← lower cls test).asValue
    let y ← (← lower cls yes).asValue
    let n ← (← lower cls no).asValue
    return .value (test.operand t ++ " ? " ++ yes.operand y ++ " : " ++ no.operand n)
  | .ternary test none no => do
    let t ← (← lower cls test).asValue
    let n ← (← lower cls no).asValue
    return .value (test.operand t ++ " ? " ++ test.operand t ++ " : " ++ no.operand n)
  | .isset vars => do
    let texts ← lowerAll cls vars
    return .value (" && ".intercalate (texts.map ("isset " ++ ·)))
  | .empty value => do
    let text ← (← lower cls value).asValue
    return .value ("empty " ++ value.operand text)
  | .instanceOf value owner => do
    let text ← (← lower cls value).asValue
    return .value (value.operand text ++ " instanceof " ++ owner.text)
  | .cast type value => do
    let text ← (← lower cls value).asValue
    return .value ("(" ++ type.keyword ++ ") " ++ value.operand text)
  | .eval _ => refuse cls .eval
  | .shell _ => refuse cls .shell

/-- Converts an expression that may be missing. -/
def lowerOption (cls : String) : Option Expr → Lowering String
  | none => return ""
  | some e => do (← lower cls e).asValue

/-- Converts expressions in order. -/
def lowerAll (cls : String) : List Expr → Lowering (List String)
  | [] => return []
  | e :: rest => do
    let text ← (← lower cls e).asValue
    return text :: (← lowerAll cls rest)

/-- Converts an array item. -/
def lowerItem (cls : String) : Item → Lowering String
  | ⟨key, value, byRef, unpack⟩ => do
    reportIf byRef cls "reference" "Reference not supported in array item" "array item"
    reportIf unpack cls "unpack" "Array unpacking not supported" "array item"
    match key with
    | some key =>
      let key ← (← lower cls key).asValue
      let text ← (← lower cls value).asValue
      return key ++ ": " ++ text
    | none => (← lower cls value).asValue

/-- Converts array items in order. -/
def lowerItems (cls : String) : List Item → Lowering (List String)
  | [] => return []
  | item :: rest => do
    let text ← lowerItem cls item
    return text :: (← lowerItems cls rest)

/-- Converts the slots of a destructuring target that stands for a value. -/
def lowerSlots (cls : String) : List (Option Item) → Lowering (List String)
  | [] => return []
  | none :: rest => return "" :: (← lowerSlots cls rest)
  | some item :: rest => do
    let text ← lowerItem cls item
    return text :: (← lowerSlots cls rest)

/-- The assignments that take the value in `source` apart, from the slot at `position` on. -/
def destructure (cls source : String) (position : Nat) :
    List (Option Item) → Lowering (List Code)
  | [] => return []
  | none :: rest => destructure cls source (position + 1) rest
  | some ⟨key, value, _, _⟩ :: rest => do
    let index ← (match key with
      | some key => do (← lower cls key).asValue
      | none => pure (toString position))
    let lines ← (match value with
      | .list nested => do
        let inner ← destructure cls (listTemp nested) 0 nested
        return .keep (listTemp nested) (source ++ "[" ++ index ++ "]") :: inner
      | target => do
        let target ← (← lower cls target).asValue
        return [.set target (source ++ "[" ++ index ++ "]")])
    return lines ++ (← destructure cls source (position + 1) rest)

/-- Converts an argument; an array literal is kept in a temporary. -/
def lowerArg (cls : String) : Argument → Lowering String
  | ⟨value, _, unpack⟩ => do
    reportIf unpack cls "unpack" "Argument unpacking not supported" "argument"
    match value with
    | .array items =>
      let texts ← lowerItems cls items
      arrayText items texts true
    | value => (← lower cls value).asValue

/-- Converts arguments in order. -/
def lowerArgs (cls : String) : List Argument → Lowering (List String)
  | [] => return []
  | arg :: rest => do
    let text ← lowerArg cls arg
    return text :: (← lowerArgs cls rest)

end

/-- The text of an expression. -/
def exprText (cls : String) (e : Expr) : Lowering String := do (← lower cls e).asValue

/-- The text of an array literal that is kept in a temporary. -/
def keptArrayText (cls : String) (items : List Item) : Lowering String := do
  let texts ← lowerItems cls items
  arrayText items texts true

/-- An expression as a statement, after the lines that it hoists. -/
def asLines (cls : String) (e : Expr) : Lowering (List Code) := do
  let (lowered, hoisted) ← isolate (lower cls e)
  return hoisted ++ lowered.asStatement

end Zephirize
