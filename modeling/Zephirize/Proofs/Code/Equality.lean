import Mathlib.Tactic
import Zephirize.Lowering.Method

/-!
# Comparing code

The types of code contain lists of each other, so their equality is decided by comparing code part
by part (`Code.same`). Results and states of conversions can then be compared as well, and a run of
a conversion on a given input can be computed.
-/

namespace Zephirize

mutual

/-- The statements are the same. -/
def Code.same : Code → Code → Bool
  | .assign target update, .assign target' update' => target = target' && update = update'
  | .keep temp value, .keep temp' value' => temp = temp' && value = value'
  | .eval text, .eval text' => text = text'
  | .ret value, .ret value' => value = value'
  | .raise value, .raise value' => value = value'
  | .echo values, .echo values' => values = values'
  | .unset var, .unset var' => var = var'
  | .breakLoop, .breakLoop => true
  | .continueLoop, .continueLoop => true
  | .branch test body rest, .branch test' body' rest' =>
    test = test' && Code.sameAll body body' && rest.same rest'
  | .whileLoop test body, .whileLoop test' body' => test = test' && Code.sameAll body body'
  | .loop body, .loop body' => Code.sameAll body body'
  | .doWhile body test, .doWhile body' test' => Code.sameAll body body' && test = test'
  | .forIn binding subject body, .forIn binding' subject' body' =>
    binding = binding' && subject = subject' && Code.sameAll body body'
  | .switch subject cases, .switch subject' cases' =>
    subject = subject' && Clause.sameAll cases cases'
  | .tryCatch body handlers, .tryCatch body' handlers' =>
    Code.sameAll body body' && Clause.sameAll handlers handlers'
  | _, _ => false

/-- The statements are the same one by one. -/
def Code.sameAll : List Code → List Code → Bool
  | [], [] => true
  | code :: rest, code' :: rest' => code.same code' && Code.sameAll rest rest'
  | _, _ => false

/-- What follows the first block is the same. -/
def Chain.same : Chain → Chain → Bool
  | .done, .done => true
  | .elseIf test body rest, .elseIf test' body' rest' =>
    test = test' && Code.sameAll body body' && rest.same rest'
  | .otherwise body, .otherwise body' => Code.sameAll body body'
  | _, _ => false

/-- The blocks and their headings are the same. -/
def Clause.same : Clause → Clause → Bool
  | .mk head body, .mk head' body' => head = head' && Code.sameAll body body'

/-- The blocks are the same one by one. -/
def Clause.sameAll : List Clause → List Clause → Bool
  | [], [] => true
  | clause :: rest, clause' :: rest' => clause.same clause' && Clause.sameAll rest rest'
  | _, _ => false

end

/-- The induction is on the two codes at once, as `Code.same` goes through them. -/
theorem Code.same_iff_eq : (∀ a b : Code, a.same b = true ↔ a = b) ∧
    (∀ a b : List Clause, Clause.sameAll a b = true ↔ a = b) ∧
    (∀ a b : Clause, a.same b = true ↔ a = b) ∧
    (∀ a b : List Code, Code.sameAll a b = true ↔ a = b) ∧
    ∀ a b : Chain, a.same b = true ↔ a = b := by
  apply Code.same.mutual_induct
  -- The parts are of different kinds.
  case case17 | case20 | case24 | case28 =>
    intro a b
    intros
    have differ : a ≠ b := by
      rintro rfl
      cases a <;> grind
    simp [Code.same, Code.sameAll, Chain.same, Clause.sameAll, *]
  all_goals
    intros
    simp [Code.same, Code.sameAll, Chain.same, Clause.same, Clause.sameAll, and_assoc, *]

instance : DecidableEq Code := fun a b =>
  decidable_of_iff (a.same b = true) (Code.same_iff_eq.1 a b)

deriving instance DecidableEq for State, MethodCode

/-- The result of a run is compared as the pair that it is. -/
instance decidableEqRun {α : Type} [DecidableEq α] : DecidableEq (Id α) :=
  inferInstanceAs (DecidableEq α)

end Zephirize
