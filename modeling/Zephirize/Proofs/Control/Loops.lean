import Zephirize.Proofs.Code.Equality
import Zephirize.Proofs.Control.Assembly

/-!
# Loops keep their control flow

The conversion of a program of loops does two things at once: it converts the expressions, and it puts
the code together. `Follows` compares it with a conversion of the expressions alone, and so
`follows_stmts` takes the two apart: the code of a program is what `Control.assembleAll` makes of its
converted expressions.

`executeAll_lowerBlock`: the code of every program executes exactly as the program does, whatever the
oracle decides.
-/

namespace Zephirize

open Lowering Execution

/-- The state has come to a place: so many temporaries, the mode, and the lines to run before the
loop around continues. -/
structure State.At (s : State) (dims : ℕ) (arrays : Bool) (pending : List Code) : Prop where
  dims : s.dims = dims
  hoistArrays : s.hoistArrays = arrays
  pending : s.pending = pending

theorem State.Resumes.at {s t : State} {lines pending : List Code} {m n : ℕ} {arrays : Bool}
    (h : s.Resumes t lines m) (place : s.At n arrays pending) : t.At m arrays pending where
  dims := h.dims
  hoistArrays := h.hoistArrays.trans place.hoistArrays
  pending := by rw [State.pending, h.loops, ← place.pending, State.pending]

section Follows

variable {α β γ δ : Type}

/-- From every state at the place, the conversion `x` gives a result and hoists lines that fit the
result of `y`, and counts on as `y` does, or both are refused for the same reason. -/
def Follows (arrays : Bool) (pending : List Code) (x : Lowering α) (y : Numbering β)
    (fits : α → β → List Code → Prop) : Prop :=
  ∀ n, (∃ a b lines m, y n = .ok (b, m) ∧ fits a b lines ∧
      ∀ s : State, s.At n arrays pending → ∃ t, x.run.run s = (.ok a, t) ∧ s.Resumes t lines m) ∨
    ∃ r, y n = .error r ∧
      ∀ s : State, s.At n arrays pending → ∃ t, x.run.run s = (.error r, t)

/-- The same for a step that starts and ends with no line waiting. -/
def FollowsBlock (arrays : Bool) (pending : List Code) (x : Lowering α) (y : Numbering β)
    (fits : α → β → Prop) : Prop :=
  ∀ n, (∃ a b m, y n = .ok (b, m) ∧ fits a b ∧
      ∀ s : State, s.At n arrays pending → s.hoisted = [] →
        ∃ t, x.run.run s = (.ok a, t) ∧ s.Resumes t [] m) ∨
    ∃ r, y n = .error r ∧
      ∀ s : State, s.At n arrays pending → s.hoisted = [] → ∃ t, x.run.run s = (.error r, t)

variable {arrays : Bool} {pending : List Code} {x : Lowering α} {y : Numbering β}

theorem Numbering.bind_ok {g : β → Numbering δ} {n m : ℕ} {b : β} (h : y n = .ok (b, m)) :
    (y >>= g) n = g b m := by
  have run : (y >>= g) n = (y n).bind fun r => g r.1 r.2 := rfl
  rw [run, h]
  rfl

theorem Numbering.bind_error {g : β → Numbering δ} {n : ℕ} {r : Refusal} (h : y n = .error r) :
    (y >>= g) n = .error r := by
  have run : (y >>= g) n = (y n).bind fun r => g r.1 r.2 := rfl
  rw [run, h]
  rfl

namespace Follows

variable {fits : α → β → List Code → Prop}

theorem pure {a : α} {b : β} (h : fits a b []) :
    Follows arrays pending (Pure.pure a) (Pure.pure b) fits := by
  intro n
  refine .inl ⟨a, b, [], n, rfl, h, fun s place => ⟨s, rfl, place.dims, ?_, rfl, rfl⟩⟩
  rw [List.append_nil]

theorem mono {fits' : α → β → List Code → Prop} (hx : Follows arrays pending x y fits)
    (h : ∀ a b lines, fits a b lines → fits' a b lines) : Follows arrays pending x y fits' := by
  intro n
  rcases hx n with ⟨a, b, lines, m, eval, fit, run⟩ | refused
  · exact .inl ⟨a, b, lines, m, eval, h a b lines fit, run⟩
  · exact .inr refused

theorem bind {f : α → Lowering γ} {g : β → Numbering δ} {fits' : γ → δ → List Code → Prop}
    (hx : Follows arrays pending x y fits)
    (hf : ∀ a b lines, fits a b lines →
      Follows arrays pending (f a) (g b) fun c d more => fits' c d (lines ++ more)) :
    Follows arrays pending (x >>= f) (y >>= g) fits' := by
  intro n
  rcases hx n with ⟨a, b, lines, m, eval, fit, run⟩ | ⟨r, eval, run⟩
  · rcases hf a b lines fit m with ⟨c, d, more, k, eval', fit', run'⟩ | ⟨r, eval', run'⟩
    · refine .inl ⟨c, d, lines ++ more, k, by rw [Numbering.bind_ok eval, eval'], fit', ?_⟩
      intro s place
      obtain ⟨t, first, resumes⟩ := run s place
      obtain ⟨u, second, resumes'⟩ := run' t (resumes.at place)
      exact ⟨u, by rw [run_bind_ok first, second], resumes.trans resumes'⟩
    · refine .inr ⟨r, by rw [Numbering.bind_ok eval, eval'], fun s place => ?_⟩
      obtain ⟨t, first, resumes⟩ := run s place
      obtain ⟨u, second⟩ := run' t (resumes.at place)
      exact ⟨u, by rw [run_bind_ok first, second]⟩
  · refine .inr ⟨r, Numbering.bind_error eval, fun s place => ?_⟩
    obtain ⟨t, first⟩ := run s place
    exact ⟨t, run_bind_error first⟩

/-- A further step of the conversion that evaluates nothing. -/
theorem bindPure {f : α → Lowering γ} {fits' : γ → β → List Code → Prop}
    (hx : Follows arrays pending x y fits)
    (hf : ∀ a b lines, fits a b lines →
      Follows arrays pending (f a) (Pure.pure b) fun c d more => fits' c d (lines ++ more)) :
    Follows arrays pending (x >>= f) y fits' := by
  rw [← bind_pure y]
  exact hx.bind hf

/-- A step that runs `x` from another state, to which the place is carried over: it is enough to know
what becomes of each result of `x`. -/
theorem entering {inner : List Code} {mode : Bool} {x' : Lowering γ}
    {fits' : γ → β → List Code → Prop} (hx : Follows mode inner x y fits) (enter : State → State)
    (entered : ∀ n s, State.At s n arrays pending → (enter s).At n mode inner)
    (ok : ∀ a b lines, fits a b lines → ∃ c more, fits' c b more ∧ ∀ s t m,
      x.run.run (enter s) = (.ok a, t) → (enter s).Resumes t lines m →
        ∃ u, x'.run.run s = (.ok c, u) ∧ s.Resumes u more m)
    (error : ∀ s t r, x.run.run (enter s) = (.error r, t) → ∃ u, x'.run.run s = (.error r, u)) :
    Follows arrays pending x' y fits' := by
  intro n
  rcases hx n with ⟨a, b, lines, m, eval, fit, run⟩ | ⟨r, eval, run⟩
  · obtain ⟨c, more, fit', runs⟩ := ok a b lines fit
    refine .inl ⟨c, b, more, m, eval, fit', fun s place => ?_⟩
    obtain ⟨t, first, resumes⟩ := run _ (entered n s place)
    exact runs s t m first resumes
  · refine .inr ⟨r, eval, fun s place => ?_⟩
    obtain ⟨t, first⟩ := run _ (entered n s place)
    exact error s t r first

theorem reportedIf {holds : Bool} {cls category message node : String} {f : Unit → Lowering α}
    (hf : Follows arrays pending (f ()) y fits) :
    Follows arrays pending (reportIf holds cls category message node >>= f) y fits := by
  obtain ⟨notes, run⟩ := run_reportIf holds cls category message node
  refine hf.entering (·.noting notes) ?_ ?_ ?_
  · exact fun n s place => ⟨place.dims, place.hoistArrays, place.pending⟩
  · refine fun a b lines fit => ⟨a, lines, fit, fun s t m first resumes => ?_⟩
    exact ⟨t, by rw [run_bind_ok (run s), first], resumes.dims, resumes.hoisted,
      resumes.hoistArrays, resumes.loops⟩
  · exact fun s t r first => ⟨t, by rw [run_bind_ok (run s), first]⟩

theorem isolate (hx : Follows arrays pending x y fits) :
    Follows arrays pending (Lowering.isolate x) y fun r b lines => lines = [] ∧ fits r.1 b r.2 := by
  refine hx.entering (fun s => { s with hoisted := [] }) ?_ ?_ ?_
  · exact fun n s place => ⟨place.dims, place.hoistArrays, place.pending⟩
  · refine fun a b lines fit => ⟨(a, lines), [], ⟨rfl, fit⟩, fun s t m first resumes => ?_⟩
    have hoisted : t.hoisted = lines := resumes.hoisted
    refine ⟨{ t with hoisted := s.hoisted }, by rw [run_isolate_ok first, hoisted], resumes.dims, ?_,
      resumes.hoistArrays, resumes.loops⟩
    exact (List.append_nil _).symm
  · exact fun s t r first => ⟨_, run_isolate_error first⟩

theorem withArrayHoisting (hx : Follows true pending x y fits) :
    Follows arrays pending (Lowering.withArrayHoisting x) y fits := by
  refine hx.entering (fun s => { s with hoistArrays := true }) ?_ ?_ ?_
  · exact fun n s place => ⟨place.dims, rfl, place.pending⟩
  · exact fun a b lines fit => ⟨a, lines, fit, fun s t m first resumes =>
      ⟨_, run_around_ok first, resumes.dims, resumes.hoisted, rfl, resumes.loops⟩⟩
  · exact fun s t r first => ⟨_, run_around_ok first⟩

theorem withinLoop {inner : List Code} (hx : Follows arrays inner x y fits) :
    Follows arrays pending (Lowering.withinLoop inner x) y fits := by
  refine hx.entering (fun s => { s with loops := inner :: s.loops }) ?_ ?_ ?_
  · exact fun n s place => ⟨place.dims, place.hoistArrays, rfl⟩
  · refine fun a b lines fit => ⟨a, lines, fit, fun s t m first resumes => ?_⟩
    refine ⟨_, run_around_ok first, resumes.dims, resumes.hoisted, resumes.hoistArrays, ?_⟩
    rw [resumes.loops, List.tail_cons]
  · exact fun s t r first => ⟨_, run_around_ok first⟩

theorem inBlock {fits : α → β → Prop} (hx : FollowsBlock arrays pending x y fits) :
    Follows arrays pending (Lowering.inBlock x) y fun a b lines => lines = [] ∧ fits a b := by
  have cleared : ∀ {n} {s : State}, s.At n arrays pending →
      State.At { s with hoisted := [] } n arrays pending :=
    fun place => ⟨place.dims, place.hoistArrays, place.pending⟩
  intro n
  rcases hx n with ⟨a, b, m, eval, fit, run⟩ | ⟨r, eval, run⟩
  · refine .inl ⟨a, b, [], m, eval, ⟨rfl, fit⟩, fun s place => ?_⟩
    obtain ⟨t, first, resumes⟩ := run _ (cleared place) rfl
    refine ⟨_, run_inBlock_ok first, resumes.dims, ?_, resumes.hoistArrays, resumes.loops⟩
    exact (List.append_nil _).symm
  · refine .inr ⟨r, eval, fun s place => ?_⟩
    obtain ⟨t, first⟩ := run _ (cleared place) rfl
    exact ⟨t, run_inBlock_error first⟩

end Follows

theorem FollowsBlock.mono {fits fits' : α → β → Prop} (hx : FollowsBlock arrays pending x y fits)
    (h : ∀ a b, fits a b → fits' a b) : FollowsBlock arrays pending x y fits' := by
  intro n
  rcases hx n with ⟨a, b, m, eval, fit, run⟩ | refused
  · exact .inl ⟨a, b, m, eval, h a b fit, run⟩
  · exact .inr refused

/-- A statement stands after the lines that it hoists, and before the statements that follow. -/
theorem FollowsBlock.cons {x rest : Lowering (List Code)} {z : Numbering (List β)}
    {fits : List Code → β → Prop} {fits' : List Code → List β → Prop}
    (hx : Follows arrays pending x y fun code b lines => fits (lines ++ code) b)
    (hr : FollowsBlock arrays pending rest z fits') :
    FollowsBlock arrays pending (do
        let lines ← x
        let hoisted ← takeHoisted
        return hoisted ++ lines ++ (← rest))
      (do
        let first ← y
        return first :: (← z))
      fun code bs => ∃ first more b bs', code = first ++ more ∧ bs = b :: bs' ∧ fits first b ∧
        fits' more bs' := by
  intro n
  rcases hx n with ⟨a, b, lines, m, eval, fit, run⟩ | ⟨r, eval, run⟩
  · -- Nothing waited before, so all that waits now was hoisted by the statement.
    have taken : ∀ s : State, s.At n arrays pending → s.hoisted = [] → ∃ t,
        x.run.run s = (.ok a, t) ∧ takeHoisted.run.run t = (.ok lines, { t with hoisted := [] }) ∧
        s.Resumes { t with hoisted := [] } [] m := by
      intro s place empty
      obtain ⟨t, first, resumes⟩ := run s place
      have hoisted : t.hoisted = lines := by rw [resumes.hoisted, empty, List.nil_append]
      refine ⟨t, first, by rw [← hoisted]; rfl, resumes.dims, ?_, resumes.hoistArrays, resumes.loops⟩
      rw [empty]
      rfl
    rcases hr m with ⟨more, bs, k, eval', fit', run'⟩ | ⟨r, eval', run'⟩
    · refine .inl ⟨lines ++ a ++ more, b :: bs, k, ?_, ⟨_, _, _, _, rfl, rfl, fit, fit'⟩, ?_⟩
      · rw [Numbering.bind_ok eval, Numbering.bind_ok eval']
        rfl
      · intro s place empty
        obtain ⟨t, first, second, resumes⟩ := taken s place empty
        obtain ⟨u, third, resumes'⟩ := run' _ (resumes.at place) rfl
        refine ⟨u, by rw [run_bind_ok first, run_bind_ok second, run_bind_ok third]; rfl, ?_⟩
        exact resumes.trans resumes'
    · refine .inr ⟨r, by rw [Numbering.bind_ok eval, Numbering.bind_error eval'], ?_⟩
      intro s place empty
      obtain ⟨t, first, second, resumes⟩ := taken s place empty
      obtain ⟨u, third⟩ := run' _ (resumes.at place) rfl
      exact ⟨u, by rw [run_bind_ok first, run_bind_ok second, run_bind_error third]⟩
  · refine .inr ⟨r, Numbering.bind_error eval, fun s place _ => ?_⟩
    obtain ⟨t, first⟩ := run s place
    exact ⟨t, run_bind_error first⟩

end Follows

/-! ### Expressions -/

section Expressions

variable {cls : String} {arrays : Bool} {pending : List Code}

theorem follows_lower (e : Expr) : Follows arrays pending (lower cls e) (e.evaluate cls arrays)
    fun lowered evaluated lines => evaluated = ⟨lines, lowered⟩ ∧ evaluated.IsPlain := by
  intro n
  have inline : Inline (lower cls e) Lowered.lines := inline_lower e
  obtain ⟨r, lines, m, lets, handed, run⟩ := inline n arrays
  obtain ⟨t, first, resumes⟩ := run { dims := n, hoistArrays := arrays } rfl rfl
  have hoisted : t.hoisted = lines := resumes.hoisted
  have eval : e.evaluate cls arrays n = r.map fun lowered => (⟨lines, lowered⟩, m) := by
    unfold Expr.evaluate
    rw [first]
    simp only [hoisted, resumes.dims]
  cases r with
  | ok lowered =>
    exact .inl ⟨lowered, ⟨lines, lowered⟩, lines, m, eval, ⟨rfl, lets, handed lowered rfl⟩,
      fun s place => run s place.dims place.hoistArrays⟩
  | error r =>
    refine .inr ⟨r, eval, fun s place => ?_⟩
    obtain ⟨t, run, -⟩ := run s place.dims place.hoistArrays
    exact ⟨t, run⟩

theorem follows_exprText (e : Expr) :
    Follows arrays pending (exprText cls e) (e.evaluate cls arrays)
      fun text evaluated lines =>
        text = evaluated.text ∧ lines = evaluated.lines ∧ evaluated.IsPlain := by
  refine (follows_lower e).bindPure ?_
  rintro lowered evaluated lines ⟨rfl, plain⟩
  cases lowered with
  | value text => exact .pure ⟨rfl, rfl, plain⟩
  | assigned assignments target =>
    intro n
    exact .inl ⟨target, _, assignments, n, rfl, ⟨rfl, rfl, plain⟩,
      fun s place => ⟨_, rfl, place.dims, rfl, rfl, rfl⟩⟩

theorem follows_isolate (e : Expr) :
    Follows arrays pending (isolate (exprText cls e)) (e.evaluate cls arrays)
      fun r evaluated lines => lines = [] ∧ r = (evaluated.text, evaluated.lines) ∧
        evaluated.IsPlain := by
  refine (follows_exprText e).isolate.mono ?_
  rintro ⟨_, _⟩ evaluated _ ⟨rfl, rfl, rfl, plain⟩
  exact ⟨rfl, rfl, plain⟩

theorem follows_asLines (e : Expr) :
    Follows arrays pending (asLines cls e) (e.evaluate cls arrays)
      fun code evaluated lines => lines = [] ∧ code = evaluated.asLines ∧ evaluated.IsPlain := by
  refine (follows_lower e).isolate.bindPure ?_
  rintro r evaluated _ ⟨rfl, rfl, plain⟩
  exact .pure ⟨rfl, rfl, plain⟩

theorem follows_allAsLines (es : List Expr) :
    Follows arrays pending (allAsLines cls es) (Expr.evaluateEach cls arrays es)
      fun code evaluated lines => lines = [] ∧ code = evaluated.flatMap Evaluated.asLines ∧
        ∀ e ∈ evaluated, e.IsPlain := by
  induction es with
  | nil =>
    rw [allAsLines, Expr.evaluateEach]
    exact .pure ⟨rfl, rfl, by simp⟩
  | cons e rest ih =>
    rw [allAsLines, Expr.evaluateEach]
    refine (follows_asLines e).bind ?_
    rintro _ first _ ⟨rfl, rfl, plain⟩
    refine ih.bind ?_
    rintro _ others _ ⟨rfl, rfl, plains⟩
    exact .pure ⟨rfl, rfl, List.forall_mem_cons.2 ⟨plain, plains⟩⟩

theorem follows_forTests : ∀ tests : List Expr,
    Follows arrays pending (forTests cls tests) (Expr.evaluateEach cls arrays tests)
      fun r evaluated lines => lines = [] ∧
        r = (Evaluated.checks evaluated, Evaluated.lastText evaluated) ∧
        (evaluated = [] ↔ tests = []) ∧ ∀ e ∈ evaluated, e.IsPlain
  | [] => by
    rw [forTests, Expr.evaluateEach]
    exact .pure ⟨rfl, rfl, by simp, by simp⟩
  | [last] => by
    rw [forTests, Expr.evaluateEach, Expr.evaluateEach]
    refine (follows_isolate last).bind ?_
    rintro _ evaluated _ ⟨rfl, rfl, plain⟩
    exact .pure ⟨rfl, rfl, by simp, by simpa using plain⟩
  | e :: next :: rest => by
    rw [forTests, Expr.evaluateEach]
    · refine (follows_asLines e).bind ?_
      rintro _ first _ ⟨rfl, rfl, plain⟩
      refine (follows_forTests (next :: rest)).bind ?_
      rintro _ others _ ⟨rfl, rfl, filled, plains⟩
      have more : others = [] → False := by simp [filled]
      refine .pure ⟨rfl, ?_, by simp, List.forall_mem_cons.2 ⟨plain, plains⟩⟩
      rw [Evaluated.checks, Evaluated.lastText]
      · exact more
      · exact more
    · simp

theorem exprText_named (name : String) : exprText cls (.named name) = Pure.pure (safeName name) := by
  rw [exprText, Expr.named, lower]
  rfl

theorem bindingText_named (key : Option String) (value : String) :
    bindingText cls (key.map Expr.named) (safeName value) = Pure.pure (bindingOf key value) := by
  cases key with
  | none => rfl
  | some key =>
    rw [Option.map_some, bindingText, exprText_named, pure_bind]
    rfl

end Expressions

/-! ### Programs -/

section Programs

variable {cls : String} {arrays : Bool}

/-- The code is assembled from the converted program, all whose expressions are plain. -/
structure IsCodeOf (pending code : List Code) (program : Control Evaluated) : Prop where
  code : code = program.assemble pending
  plain : program.IsPlain

/-- The conversion of a block follows its expressions, and gives what is assembled from them. -/
abbrev FollowsStmts (cls : String) (arrays : Bool) (cs : List (Control Expr)) : Prop :=
  ∀ pending, FollowsBlock arrays pending (lowerStmts cls (Control.toStmts cs))
    (Control.evaluateAll cls arrays cs)
    fun code evaluated => code = Control.assembleAll pending evaluated ∧ Control.ArePlain evaluated

mutual

theorem follows_stmt : ∀ (c : Control Expr) (pending : List Code),
    Follows arrays pending (lowerStmt cls c.toStmt) (c.evaluate cls arrays)
      fun code evaluated lines => IsCodeOf pending (lines ++ code) evaluated
  | .expression value, pending => by
    rw [Control.toStmt, lowerStmt, Control.evaluate]
    refine (follows_lower value).bind ?_
    rintro lowered _ lines ⟨rfl, plain⟩
    exact .pure ⟨by rw [Control.assemble, List.append_nil]; rfl, plain⟩
  | .branch test body otherwise, pending => by
    rw [Control.toStmt, lowerStmt, Control.evaluate]
    refine (follows_exprText test).withArrayHoisting.bind ?_
    rintro _ evaluated _ ⟨rfl, rfl, plain⟩
    refine (Follows.inBlock (follows_stmts body pending)).bind ?_
    rintro _ bodies _ ⟨rfl, rfl, plainBody⟩
    rw [lowerArms, pure_bind]
    refine (follows_otherwise otherwise pending).bind ?_
    rintro _ others _ ⟨rfl, rfl, plainElse⟩
    exact .pure ⟨by rw [Control.assemble]; simp [Chain.ofArms], plain, plainBody, plainElse⟩
  | .whileLoop test body, pending => by
    rw [Control.toStmt, lowerStmt, Control.evaluate]
    refine (follows_isolate test).bind ?_
    rintro _ evaluated _ ⟨rfl, rfl, plain⟩
    refine (Follows.inBlock (follows_stmts body [])).withinLoop.bind ?_
    rintro _ bodies _ ⟨rfl, rfl, plainBody⟩
    exact .pure ⟨by rw [Control.assemble]; rfl, plain, plainBody⟩
  | .doWhile body test, pending => by
    rw [Control.toStmt, lowerStmt, Control.evaluate]
    refine (follows_isolate test).bind ?_
    rintro _ evaluated _ ⟨rfl, rfl, plain⟩
    dsimp only
    split_ifs with empty
    · refine (Follows.inBlock (follows_stmts body [])).withinLoop.bind ?_
      rintro _ bodies _ ⟨rfl, rfl, plainBody⟩
      exact .pure ⟨by rw [Control.assemble, if_pos empty]; rfl, plain, plainBody⟩
    · -- What a `continue` runs first is what the loop ends with.
      refine (Follows.inBlock (follows_stmts body evaluated.guards)).withinLoop.bind ?_
      rintro _ bodies _ ⟨rfl, rfl, plainBody⟩
      exact .pure ⟨by rw [Control.assemble, if_neg empty]; rfl, plain, plainBody⟩
  | .forLoop init tests steps body, pending => by
    rw [Control.toStmt, lowerStmt, Control.evaluate]
    refine (follows_allAsLines init).bind ?_
    rintro _ inits _ ⟨rfl, rfl, plainInit⟩
    refine (follows_forTests tests).bind ?_
    rintro _ checks _ ⟨rfl, rfl, -, plainTests⟩
    refine (follows_allAsLines steps).bind ?_
    rintro _ stepsOf _ ⟨rfl, rfl, plainSteps⟩
    refine (Follows.inBlock (follows_stmts body _)).withinLoop.bind ?_
    rintro _ bodies _ ⟨rfl, rfl, plainBody⟩
    exact .pure ⟨by rw [Control.assemble]; rfl, plainInit, plainTests, plainSteps, plainBody⟩
  | .foreach subject key value byRef body, pending => by
    rw [Control.toStmt, lowerStmt, Control.evaluate, exprText_named]
    refine .reportedIf ((follows_exprText subject).bind ?_)
    rintro _ evaluated _ ⟨rfl, rfl, plain⟩
    rw [pure_bind, bindingText_named, pure_bind]
    refine (Follows.inBlock (follows_stmts body [])).withinLoop.bind ?_
    rintro _ bodies _ ⟨rfl, rfl, plainBody⟩
    exact .pure ⟨by rw [Control.assemble]; simp, plain, plainBody⟩
  | .breakLoop, pending => by
    rw [Control.toStmt, lowerStmt, Control.evaluate]
    exact .pure ⟨by rw [Control.assemble]; rfl, trivial⟩
  | .continueLoop, pending => by
    rw [Control.toStmt, lowerStmt, Control.evaluate]
    have code : [] ++ (pending ++ [.continueLoop]) = Control.continueLoop.assemble pending := by
      rw [Control.assemble, List.nil_append]
    intro n
    refine .inl ⟨_, _, [], n, rfl, ⟨code, trivial⟩, fun s place => ⟨s, ?_, place.dims, ?_, rfl, rfl⟩⟩
    · rw [← place.pending]
      rfl
    · rw [List.append_nil]

theorem follows_stmts : ∀ cs : List (Control Expr), FollowsStmts cls arrays cs
  | [], pending => by
    rw [Control.toStmts, lowerStmts, Control.evaluateAll]
    have code : [] = Control.assembleAll pending [] := by rw [Control.assembleAll]
    intro n
    refine .inl ⟨[], [], n, rfl, ⟨code, trivial⟩, fun s place _ => ⟨s, rfl, place.dims, ?_, rfl, rfl⟩⟩
    rw [List.append_nil]
  | c :: rest, pending => by
    rw [Control.toStmts, lowerStmts, Control.evaluateAll]
    refine (FollowsBlock.cons (follows_stmt c pending) (follows_stmts rest pending)).mono ?_
    rintro _ _ ⟨_, _, b, bs, rfl, rfl, ⟨rfl, plain⟩, rfl, plains⟩
    exact ⟨by rw [Control.assembleAll], plain, plains⟩

theorem follows_otherwise : ∀ (otherwise : Option (List (Control Expr))) (pending : List Code),
    Follows arrays pending (lowerOtherwise cls (Control.toElse otherwise))
      (Control.evaluateElse cls arrays otherwise)
      fun chain evaluated lines => lines = [] ∧ chain = Control.assembleElse pending evaluated ∧
        Control.IsPlainElse evaluated
  | none, pending => by
    rw [Control.toElse, lowerOtherwise, Control.evaluateElse]
    exact .pure ⟨rfl, by rw [Control.assembleElse], trivial⟩
  | some body, pending => by
    rw [Control.toElse, lowerOtherwise, Control.evaluateElse]
    refine (Follows.inBlock (follows_stmts body pending)).bind ?_
    rintro _ bodies _ ⟨rfl, rfl, plainBody⟩
    exact .pure ⟨rfl, by rw [Control.assembleElse], plainBody⟩

end

end Programs

/-- The conversion of a program of loops outside of any loop is refused exactly as the conversion of
its expressions is. If it is not, its code executes as the program does for every oracle and every
bound. -/
theorem executeAll_lowerBlock (cls : String) (program : List (Control Expr)) {s : State}
    (outside : s.loops = []) :
    (∃ code t evaluated dims,
      (lowerBlock cls (Control.toStmts program)).run.run s = (.ok code, t) ∧
      Control.evaluateAll cls s.hoistArrays program s.dims = .ok (evaluated, dims) ∧
      ∀ o n, Code.executeAll o n code = Control.executeAll o n evaluated) ∨
    ∃ r t, (lowerBlock cls (Control.toStmts program)).run.run s = (.error r, t) ∧
      Control.evaluateAll cls s.hoistArrays program s.dims = .error r := by
  have place : s.At s.dims s.hoistArrays [] := ⟨rfl, rfl, by rw [State.pending, outside]; rfl⟩
  have follows : FollowsStmts cls s.hoistArrays program := follows_stmts program
  rcases Follows.inBlock (follows []) s.dims with
    ⟨code, evaluated, lines, dims, eval, ⟨-, rfl, plain⟩, run⟩ | ⟨r, eval, run⟩
  · obtain ⟨t, run, -⟩ := run s place
    refine .inl ⟨_, t, evaluated, dims, run, eval, fun o n => ?_⟩
    rw [Control.executeAll_assembleAll evaluated plain, continuing_nil]
  · obtain ⟨t, run⟩ := run s place
    exact .inr ⟨r, t, run, eval⟩

end Zephirize
