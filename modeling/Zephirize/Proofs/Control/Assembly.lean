import Zephirize.Proofs.Control.Source

/-!
# Loops of the source and their code

`Control.assemble` puts the code of a program together from its converted expressions. It takes the
lines that run before the loop around continues, since they stand before each `continue` of that loop.

`executeAll_assembleAll`: the code of a program executes as the program does, except that a `continue`
of the loop around runs these lines first. The loops then put the lines in the right place: the steps
of a `for` follow its body, and a test that needs lines follows the body of its `do`.
-/

namespace Zephirize

open Execution

namespace Evaluated

/-- The lines before the last test of a `for` is read. -/
def checks : List Evaluated → List Code
  | [] => []
  | [last] => last.lines
  | e :: rest => e.asLines ++ checks rest

/-- The text of the last test of a `for`. -/
def lastText : List Evaluated → String
  | [] => "true"
  | [last] => last.text
  | _ :: rest => lastText rest

/-- The lines that leave a loop unless the test holds. -/
def guards (test : Evaluated) : List Code := test.lines ++ [.leaveUnless test.text]

end Evaluated

namespace Control

mutual

/-- The code of a program, given the lines that run before the loop around continues. -/
def assemble (pending : List Code) : Control Evaluated → List Code
  | .expression value => value.asLines
  | .branch test body otherwise =>
    test.lines ++ [.branch test.text (assembleAll pending body) (assembleElse pending otherwise)]
  | .whileLoop test body => [.testedLoop test.lines test.text (assembleAll [] body)]
  | .doWhile body test =>
    if test.lines.isEmpty then [.doWhile (assembleAll [] body) test.text]
    else [.loop (assembleAll test.guards body ++ test.guards)]
  | .forLoop init tests steps body =>
    init.flatMap Evaluated.asLines ++
      [.testedLoop (Evaluated.checks tests) (Evaluated.lastText tests)
        (assembleAll (steps.flatMap Evaluated.asLines) body ++ steps.flatMap Evaluated.asLines)]
  | .foreach subject key value _ body =>
    subject.lines ++ [.forIn (bindingOf key value) subject.text (assembleAll [] body)]
  | .breakLoop => [.breakLoop]
  | .continueLoop => pending ++ [.continueLoop]

/-- The code of programs one after the other. -/
def assembleAll (pending : List Code) : List (Control Evaluated) → List Code
  | [] => []
  | c :: rest => assemble pending c ++ assembleAll pending rest

/-- The code of the last block of an `if`. -/
def assembleElse (pending : List Code) : Option (List (Control Evaluated)) → Chain
  | none => .done
  | some body => .otherwise (assembleAll pending body)

end

end Control

/-! ### Simple lines -/

/-- A line that is executed as a whole. -/
def Code.IsSimple : Code → Prop
  | .assign .. => True
  | .keep .. => True
  | .eval _ => True
  | _ => False

theorem Code.IsLet.isSimple {c : Code} (h : c.IsLet) : c.IsSimple := by
  cases c <;> first | exact h.elim | trivial

theorem Lowered.asStatement_simple {l : Lowered} (lets : ∀ c ∈ l.lines, c.IsLet) :
    ∀ c ∈ l.asStatement, c.IsSimple := by
  intro c hc
  cases l with
  | value text =>
    rw [List.mem_singleton.1 hc]
    trivial
  | assigned lines target => exact (lets c hc).isSimple

section Simple

variable {o : Oracle} {n : ℕ}

theorem Code.IsSimple.execute_eq {c : Code} (h : c.IsSimple) :
    c.execute o n = (do emit [c]; return .normal) := by
  cases c <;> first | exact h.elim | simp only [Code.execute]

/-- Simple lines are executed one after the other. -/
theorem Code.executeAll_simple {lines : List Code} (simple : ∀ c ∈ lines, c.IsSimple) :
    Code.executeAll o n lines = (do emit lines; return .normal) := by
  induction lines with
  | nil => simp
  | cons c rest ih =>
    have together : emit (c :: rest) = (do emit [c]; emit rest) := emit_append [c] rest
    rw [Code.executeAll_cons, (simple c List.mem_cons_self).execute_eq, andThen_bind,
      ih fun d hd => simple d (List.mem_cons_of_mem _ hd), together, bind_assoc]
    simp only [andThen_normal]

theorem Code.executeAll_simple_append {lines : List Code} (simple : ∀ c ∈ lines, c.IsSimple)
    (rest : List Code) :
    Code.executeAll o n (lines ++ rest) = (do emit lines; Code.executeAll o n rest) := by
  rw [Code.executeAll_append, Code.executeAll_simple simple, andThen_bind]
  simp only [andThen_normal]

end Simple

/-- All lines of an expression are simple: it hoists assignments only. -/
structure Evaluated.IsPlain (e : Evaluated) : Prop where
  hoisted : ∀ c ∈ e.hoisted, c.IsLet
  lowered : ∀ c ∈ e.lowered.lines, c.IsLet

namespace Evaluated.IsPlain

variable {e : Evaluated}

theorem lines (h : e.IsPlain) : ∀ c ∈ e.lines, c.IsSimple := by
  intro c hc
  rcases List.mem_append.1 hc with hc | hc
  · exact (h.hoisted c hc).isSimple
  · exact (h.lowered c hc).isSimple

theorem asLines (h : e.IsPlain) : ∀ c ∈ e.asLines, c.IsSimple := by
  intro c hc
  rcases List.mem_append.1 hc with hc | hc
  · exact (h.hoisted c hc).isSimple
  · exact Lowered.asStatement_simple h.lowered c hc

theorem flatMap_asLines {es : List Evaluated} (h : ∀ e ∈ es, e.IsPlain) :
    ∀ c ∈ es.flatMap Evaluated.asLines, c.IsSimple := by
  intro c hc
  obtain ⟨e, he, hc⟩ := List.mem_flatMap.1 hc
  exact (h e he).asLines c hc

theorem checks {es : List Evaluated} (h : ∀ e ∈ es, e.IsPlain) :
    ∀ c ∈ Evaluated.checks es, c.IsSimple := by
  fun_induction Evaluated.checks es with
  | case1 => simp
  | case2 last => exact (h last List.mem_cons_self).lines
  | case3 e rest _ ih =>
    intro c hc
    rcases List.mem_append.1 hc with hc | hc
    · exact (h e List.mem_cons_self).asLines c hc
    · exact ih (fun e he => h e (List.mem_cons_of_mem _ he)) c hc

end Evaluated.IsPlain

mutual

/-- All expressions of a program are plain. -/
def Control.IsPlain : Control Evaluated → Prop
  | .expression value => value.IsPlain
  | .branch test body otherwise =>
    test.IsPlain ∧ Control.ArePlain body ∧ Control.IsPlainElse otherwise
  | .whileLoop test body => test.IsPlain ∧ Control.ArePlain body
  | .doWhile body test => test.IsPlain ∧ Control.ArePlain body
  | .forLoop init tests steps body =>
    (∀ e ∈ init, e.IsPlain) ∧ (∀ e ∈ tests, e.IsPlain) ∧ (∀ e ∈ steps, e.IsPlain) ∧
      Control.ArePlain body
  | .foreach subject _ _ _ body => subject.IsPlain ∧ Control.ArePlain body
  | .breakLoop => True
  | .continueLoop => True

def Control.ArePlain : List (Control Evaluated) → Prop
  | [] => True
  | c :: rest => c.IsPlain ∧ Control.ArePlain rest

def Control.IsPlainElse : Option (List (Control Evaluated)) → Prop
  | none => True
  | some body => Control.ArePlain body

end

/-! ### Executing assembled code -/

namespace Execution

/-- A `continue` runs these lines first. -/
def continuing (o : Oracle) (n : ℕ) (pending : List Code) (x : Execution Exit) : Execution Exit := do
  match ← x with
  | .continues => (Code.executeAll o n pending).andThen (return .continues)
  | exit => return exit

variable {o : Oracle} {n : ℕ}

theorem continuing_pure {pending : List Code} {exit : Exit} (h : exit ≠ .continues) :
    continuing o n pending (pure exit) = pure exit := by
  cases exit with
  | continues => exact absurd rfl h
  | normal | breaks | leaves => rw [continuing, pure_bind]

theorem continuing_continues {pending : List Code} :
    continuing o n pending (pure .continues) =
      (Code.executeAll o n pending).andThen (return .continues) := by
  rw [continuing, pure_bind]

theorem continuing_bind {α : Type} {pending : List Code} (x : Execution α)
    (f : α → Execution Exit) :
    continuing o n pending (x >>= f) = (do continuing o n pending (f (← x))) := by
  rw [continuing, bind_assoc]
  rfl

theorem continuing_nil (x : Execution Exit) : continuing o n [] x = x := by
  have same : ∀ exit : Exit, continuing o n [] (pure exit) = pure exit := by
    intro exit
    cases exit with
    | continues => rw [continuing_continues, Code.executeAll_nil, andThen_normal]
    | normal | breaks | leaves => exact continuing_pure (by decide)
  calc
    continuing o n [] x = continuing o n [] (x >>= pure) := by rw [bind_pure]
    _ = x >>= fun exit => continuing o n [] (pure exit) := continuing_bind x pure
    _ = x := by simp only [same, bind_pure]

/-- A loop takes all `continue`s inside it. -/
theorem continuing_rounds {pending : List Code} (round : Execution Round) (m : ℕ) :
    continuing o n pending (rounds round m) = rounds round m := by
  induction m with
  | zero => rfl
  | succ m ih =>
    rw [rounds, continuing_bind]
    refine bind_congr fun next => ?_
    cases next with
    | again => exact ih
    | done | leaves => exact continuing_pure (by decide)

theorem continuing_andThen {pending : List Code} (x y : Execution Exit) :
    continuing o n pending (x.andThen y) =
      (continuing o n pending x).andThen (continuing o n pending y) := by
  -- What a `continue` becomes does not come to its end.
  have ends : ∀ z : Execution Exit, (z.andThen (pure .continues)).andThen
      (continuing o n pending y) = z.andThen (pure .continues) := by
    intro z
    rw [andThen_assoc, andThen_pure (by decide)]
  have each : ∀ exit : Exit, continuing o n pending (andThen (pure exit) y) =
      (continuing o n pending (pure exit)).andThen (continuing o n pending y) := by
    intro exit
    cases exit with
    | normal => rw [andThen_normal, continuing_pure (by decide), andThen_normal]
    | continues => rw [andThen_pure (by decide), continuing_continues, ends]
    | breaks | leaves =>
      rw [andThen_pure (by decide), continuing_pure (by decide), andThen_pure (by decide)]
  calc
    continuing o n pending (x.andThen y) =
        continuing o n pending (x >>= fun exit => andThen (pure exit) y) := by
      rw [← andThen_bind, bind_pure]
    _ = x >>= fun exit =>
        (continuing o n pending (pure exit)).andThen (continuing o n pending y) := by
      rw [continuing_bind]
      exact bind_congr each
    _ = (continuing o n pending x).andThen (continuing o n pending y) := by
      rw [← andThen_bind, ← continuing_bind, bind_pure]

/-- How a loop goes on after code: the same for code that ends alike up to `continue` at the end. -/
theorem testedRound_congr {test : Execution Bool} {x y : Execution Exit}
    (h : (do return Round.ofExit (← x)) = (do return Round.ofExit (← y) : Execution Round)) :
    testedRound test x = testedRound test y := by
  refine bind_congr fun holds => ?_
  cases holds with
  | false => rfl
  | true => exact h

/-- The steps of a `for` stand after its body and before each of its `continue`s. -/
theorem ofExit_stepping {steps : List Code} (simple : ∀ c ∈ steps, c.IsSimple)
    (body : Execution Exit) :
    (do return Round.ofExit (← (continuing o n steps body).andThen (Code.executeAll o n steps))) =
      (do return Round.ofExit (← body.stepping steps) : Execution Round) := by
  rw [Code.executeAll_simple simple, continuing, andThen_bind, stepping, bind_assoc, bind_assoc]
  refine bind_congr fun exit => ?_
  cases exit with
  | normal => simp
  | continues =>
    have stops : Exit.continues ≠ .normal := by decide
    simp only [Code.executeAll_simple simple, andThen_bind, andThen_normal, andThen_pure stops,
      bind_assoc, pure_bind, Round.ofExit]
  | breaks | leaves => simp [andThen_pure]

/-- Leaving a loop unless the test holds. -/
theorem executeAll_guards {test : Evaluated} (plain : test.IsPlain) :
    Code.executeAll o n test.guards = (do
      if ← test.holds o then return .normal else return .breaks) := by
  rw [Evaluated.guards, Code.executeAll_simple_append plain.lines, Code.executeAll_singleton,
    Code.execute_leaveUnless, Evaluated.holds, bind_assoc]

/-- The test of a `do` stands after its body and before each of its `continue`s. -/
theorem ofExit_guards {test : Evaluated} (plain : test.IsPlain) (body : Execution Exit) :
    (do return Round.ofExit (← (continuing o n test.guards body).andThen
        (Code.executeAll o n test.guards))) =
      roundTested body (test.holds o) := by
  rw [executeAll_guards plain, continuing, andThen_bind, roundTested, bind_assoc]
  refine bind_congr fun exit => ?_
  cases exit with
  | normal =>
    simp only [andThen_normal, bind_assoc, Round.ofExit]
    refine bind_congr fun holds => ?_
    cases holds <;> simp
  | continues =>
    rw [executeAll_guards plain]
    simp only [andThen_bind, bind_assoc, Round.ofExit]
    refine bind_congr fun holds => ?_
    cases holds <;> simp [andThen_pure]
  | breaks | leaves => simp [andThen_pure, Round.ofExit]

end Execution

section Loops

variable {o : Oracle} {n : ℕ}

/-- A loop with its test in front, whether the test needs lines or not. -/
theorem Code.execute_testedLoop {checks : List Code} (simple : ∀ c ∈ checks, c.IsSimple)
    (test : String) (body : List Code) :
    (Code.testedLoop checks test body).execute o n =
      rounds (testedRound (do emit checks; ask o test) (Code.executeAll o n body)) n := by
  unfold Code.testedLoop
  split_ifs with empty
  · rw [List.isEmpty_iff.1 empty, Code.execute, emit_nil, pure_bind]
  · have round : (do
        return Round.ofExit (← Code.executeAll o n (checks ++ .leaveUnless test :: body))) =
        testedRound (do emit checks; ask o test) (Code.executeAll o n body) := by
      rw [Code.executeAll_simple_append simple, Code.executeAll_cons, Code.execute_leaveUnless,
        andThen_bind, testedRound]
      simp only [bind_assoc]
      refine bind_congr fun _ => bind_congr fun holds => ?_
      cases holds <;> simp [andThen_pure, Round.ofExit]
    rw [Code.execute, round]

/-- All tests of a `for` are evaluated, and the last one is asked. -/
theorem Evaluated.lastHolds_eq (tests : List Evaluated) :
    Evaluated.lastHolds o tests = (do
      emit (Evaluated.checks tests)
      ask o (Evaluated.lastText tests)) := by
  fun_induction Evaluated.checks tests with
  | case1 => simp [Evaluated.lastHolds, Evaluated.lastText, ask_true]
  | case2 last => simp [Evaluated.lastHolds, Evaluated.lastText, Evaluated.holds]
  | case3 e rest more ih =>
    rw [Evaluated.lastHolds, ih, emit_append, bind_assoc, Evaluated.lastText]
    · exact more
    · exact more

mutual

theorem Control.executeAll_assemble : ∀ (c : Control Evaluated), c.IsPlain →
    ∀ pending, Code.executeAll o n (c.assemble pending) = continuing o n pending (c.execute o n)
  | .expression value, plain, pending => by
    rw [Control.assemble, Code.executeAll_simple plain.asLines, Control.execute, continuing_bind]
    refine bind_congr fun _ => ?_
    rw [continuing_pure (by decide)]
  | .branch test body otherwise, ⟨plain, plainBody, plainElse⟩, pending => by
    rw [Control.assemble, Code.executeAll_simple_append plain.lines, Code.executeAll_singleton,
      Code.execute, Control.execute, Evaluated.holds, bind_assoc, continuing_bind]
    refine bind_congr fun _ => ?_
    rw [continuing_bind]
    refine bind_congr fun holds => ?_
    cases holds with
    | false => exact Control.execute_assembleElse otherwise plainElse pending
    | true => exact Control.executeAll_assembleAll body plainBody pending
  | .whileLoop test body, ⟨plain, plainBody⟩, pending => by
    rw [Control.assemble, Code.executeAll_singleton, Code.execute_testedLoop plain.lines,
      Control.executeAll_assembleAll body plainBody, continuing_nil, Control.execute,
      continuing_rounds, Evaluated.holds]
  | .doWhile body test, ⟨plain, plainBody⟩, pending => by
    rw [Control.assemble, Control.execute, continuing_rounds]
    split_ifs with empty
    · rw [Code.executeAll_singleton, Code.execute, Control.executeAll_assembleAll body plainBody,
        continuing_nil, Evaluated.holds, List.isEmpty_iff.1 empty, emit_nil, pure_bind]
    · rw [Code.executeAll_singleton, Code.execute, Code.executeAll_append,
        Control.executeAll_assembleAll body plainBody, ofExit_guards plain]
  | .forLoop init tests steps body, ⟨plainInit, plainTests, plainSteps, plainBody⟩, pending => by
    have simple := Evaluated.IsPlain.flatMap_asLines plainSteps
    rw [Control.assemble, Code.executeAll_simple_append (Evaluated.IsPlain.flatMap_asLines plainInit),
      Code.executeAll_singleton, Code.execute_testedLoop (Evaluated.IsPlain.checks plainTests),
      Code.executeAll_append, Control.executeAll_assembleAll body plainBody,
      testedRound_congr (ofExit_stepping simple _), Control.execute, Evaluated.lastHolds_eq,
      continuing_bind]
    simp only [continuing_rounds]
  | .foreach subject key value byRef body, ⟨plain, plainBody⟩, pending => by
    rw [Control.assemble, Code.executeAll_simple_append plain.lines, Code.executeAll_singleton,
      Code.execute, Control.executeAll_assembleAll body plainBody, continuing_nil, Control.execute,
      continuing_bind]
    simp only [continuing_rounds]
  | .breakLoop, _, pending => by
    rw [Control.assemble, Code.executeAll_singleton, Code.execute, Control.execute,
      continuing_pure (by decide)]
  | .continueLoop, _, pending => by
    rw [Control.assemble, Code.executeAll_append, Code.executeAll_singleton, Code.execute,
      Control.execute, continuing_continues]

/-- The code of programs executes as they do, except that a `continue` of the loop around runs the
pending lines first. -/
theorem Control.executeAll_assembleAll : ∀ (cs : List (Control Evaluated)), Control.ArePlain cs →
    ∀ pending, Code.executeAll o n (Control.assembleAll pending cs) =
      continuing o n pending (Control.executeAll o n cs)
  | [], _, pending => by
    rw [Control.assembleAll, Code.executeAll_nil, Control.executeAll, continuing_pure (by decide)]
  | c :: rest, ⟨plain, plainRest⟩, pending => by
    rw [Control.assembleAll, Code.executeAll_append, Control.executeAll_assemble c plain,
      Control.executeAll_assembleAll rest plainRest, Control.executeAll, continuing_andThen]

theorem Control.execute_assembleElse : ∀ (otherwise : Option (List (Control Evaluated))),
    Control.IsPlainElse otherwise → ∀ pending,
    (Control.assembleElse pending otherwise).execute o n =
      continuing o n pending (Control.executeElse o n otherwise)
  | none, _, pending => by
    rw [Control.assembleElse, Chain.execute, Control.executeElse, continuing_pure (by decide)]
  | some body, plain, pending => by
    rw [Control.assembleElse, Chain.execute, Control.executeElse,
      Control.executeAll_assembleAll body plain]

end

end Loops

end Zephirize
