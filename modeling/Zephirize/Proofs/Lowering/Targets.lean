import Zephirize.Lowering.Stmt

/-!
# Targets and values that are passed on

The conversion looks at the form of an expression before it converts it in two kinds of places. A
target that is a list of slots is taken apart, in an assignment and again inside of another target.
A value that is an array literal is kept in a temporary where it is passed to a call or returned.

`assignInto` and `passedText` name these steps, and the equations below write the conversion with
them. So a property of steps needs one rule for each step, and not one for each place.
-/

namespace Zephirize

open Lowering

/-- The assignments of an expression that are not yet hoisted. -/
def Lowered.lines : Lowered → List Code
  | .value _ => []
  | .assigned lines _ => lines

/-- Assigns `text` to a target. A list of slots is taken apart by way of a temporary. -/
def assignInto (cls text : String) : Expr → Lowering Lowered
  | .list items => do
    let lines ← destructure cls (listTemp items) 0 items
    return .assigned (.keep (listTemp items) text :: lines) (listTemp items)
  | target => do
    let target ← exprText cls target
    return .assigned [.set target text] target

/-- The index that a slot is read from: its key, or else its position. -/
def indexText (cls : String) (position : Nat) : Option Expr → Lowering String
  | some key => exprText cls key
  | none => return toString position

/-- The text of a value that is passed on. An array literal is kept in a temporary. -/
def passedText (cls : String) : Expr → Lowering String
  | .array items => keptArrayText cls items
  | value => exprText cls value

variable (cls : String)

theorem lower_assign_eq (target value : Expr) (byRef : Bool) :
    lower cls (.assign target value byRef) = (do
      reportIf byRef cls "reference" "Assignment by reference not supported" "assign"
      let text ← (← lower cls value).asValue
      assignInto cls text target) := by
  unfold assignInto
  split
  case h_1 items => rw [lower]
  case h_2 other =>
    rw [lower]
    · simp only [exprText, bind_assoc]
    · exact other

/-- A slot is assigned as a target of its own. -/
theorem destructure_cons (source : String) (position : Nat) (key : Option Expr) (value : Expr)
    (byRef unpack : Bool) (rest : List (Option Item)) :
    destructure cls source position (some ⟨key, value, byRef, unpack⟩ :: rest) = (do
      let index ← indexText cls position key
      let assigned ← assignInto cls (source ++ "[" ++ index ++ "]") value
      return assigned.lines ++ (← destructure cls source (position + 1) rest)) := by
  rw [destructure.eq_def]
  unfold indexText assignInto
  cases key with
  | none => dsimp only; split <;> simp only [exprText, bind_assoc, pure_bind, Lowered.lines]
  | some key => dsimp only; split <;> simp only [exprText, bind_assoc, pure_bind, Lowered.lines]

theorem indexText_some (position : Nat) (key : Expr) :
    indexText cls position (some key) = lowerOption cls (some key) := by
  rw [lowerOption, indexText, exprText]

theorem lowerArg_eq (value : Expr) (byRef unpack : Bool) :
    lowerArg cls ⟨value, byRef, unpack⟩ = (do
      reportIf unpack cls "unpack" "Argument unpacking not supported" "argument"
      passedText cls value) := by
  unfold passedText
  split
  case h_1 items => rw [lowerArg, keptArrayText]
  case h_2 other =>
    rw [lowerArg, exprText]
    exact other

theorem lowerStmt_ret (value : Expr) :
    lowerStmt cls (.ret (some value)) = (do return [.ret (some (← passedText cls value))]) := by
  unfold passedText
  split
  case h_1 items => rw [lowerStmt]
  case h_2 other =>
    rw [lowerStmt]
    exact other

end Zephirize
