import Zephirize.Lowering.Stmt
import Zephirize.Proofs.Code.Shown
import Zephirize.Proofs.Lowering.Spelling

/-!
# The brackets of code

Code is bracketed if its text is well bracketed, with blocks indented by a number of blanks. Each
form of code keeps this: if the texts and the blocks in it are bracketed, so is the whole.
-/

namespace Zephirize

open Text (Neutral WellBracketed)

/-- The text of the code is well bracketed. -/
def Code.Bracketed (width : ℕ) (c : Code) : Prop := WellBracketed (c.render (blanks width))

/-- What follows the first block of an `if` is well bracketed. -/
def Chain.Bracketed (width : ℕ) (chain : Chain) : Prop :=
  WellBracketed (chain.render (blanks width))

/-- The heading and the statements of a clause are well bracketed. -/
def Clause.Bracketed (width : ℕ) : Clause → Prop
  | .mk head body => WellBracketed head ∧ ∀ c ∈ body, c.Bracketed width

/-- The parts of a further test are well bracketed. -/
structure Arm.Bracketed (width : ℕ) (arm : Arm) : Prop where
  hoisted : ∀ c ∈ arm.hoisted, c.Bracketed width
  test : WellBracketed arm.test
  body : ∀ c ∈ arm.body, c.Bracketed width

variable {width : ℕ}

/-! ### Blocks -/

section Blocks

theorem Code.bracketed_renderEach {code : List Code} (h : ∀ c ∈ code, c.Bracketed width) :
    ∀ text ∈ Code.renderEach (blanks width) code, WellBracketed text := by
  induction code with
  | nil => simp [Code.renderEach]
  | cons c rest ih =>
    rw [List.forall_mem_cons] at h
    rw [Code.renderEach, List.forall_mem_cons]
    exact ⟨h.1, ih h.2⟩

theorem Code.bracketed_renderAll {code : List Code} (h : ∀ c ∈ code, c.Bracketed width) :
    WellBracketed (Code.renderAll (blanks width) code) :=
  .joinLines (bracketed_renderEach h)

theorem Code.bracketed_block {code : List Code} (h : ∀ c ∈ code, c.Bracketed width) :
    WellBracketed
      (block (blanks width) (Text.joinLines (Code.renderEach (blanks width) code))) :=
  .block (eq_blank_of_mem_blanks width) (bracketed_renderAll h)

theorem Clause.bracketed_cases {clauses : List Clause} (h : ∀ c ∈ clauses, c.Bracketed width) :
    ∀ text ∈ Clause.renderCases (blanks width) clauses, WellBracketed text := by
  induction clauses with
  | nil => simp [Clause.renderCases]
  | cons clause rest ih =>
    obtain ⟨head, body⟩ := clause
    rw [List.forall_mem_cons] at h
    rw [Clause.renderCases, List.forall_mem_cons]
    refine ⟨?_, ih h.2⟩
    exact .caseText (eq_blank_of_mem_blanks width) h.1.1 (Code.bracketed_renderAll h.1.2)

theorem Clause.bracketed_handlers {clauses : List Clause} (h : ∀ c ∈ clauses, c.Bracketed width) :
    ∀ text ∈ Clause.renderHandlers (blanks width) clauses, WellBracketed text := by
  induction clauses with
  | nil => simp [Clause.renderHandlers]
  | cons clause rest ih =>
    obtain ⟨head, body⟩ := clause
    rw [List.forall_mem_cons] at h
    rw [Clause.renderHandlers, List.forall_mem_cons]
    exact ⟨h.1.1.joined (by decide) (Code.bracketed_block h.1.2), ih h.2⟩

end Blocks

/-! ### Statements -/

theorem Chain.Bracketed.done : Chain.done.Bracketed width := by
  rw [Bracketed, render]
  exact .empty

namespace Code.Bracketed

section Simple

variable {target value : String}

theorem set (ht : WellBracketed target) (hv : WellBracketed value) :
    (Code.set target value).Bracketed width := by
  rw [Bracketed, Code.set, render]
  exact ((ht.after (by decide)).joined (by decide) hv).before (by decide)

theorem combine (op : BinaryOp) (ht : WellBracketed target) (hv : WellBracketed value) :
    (Code.assign target (.combine op value)).Bracketed width := by
  rw [Bracketed, render]
  have left := ((ht.after (a := "let ") (by decide)).before (b := " ") (by decide)).before
    op.plain_symbol.neutral
  exact (left.joined (by decide) hv).before (by decide)

theorem step (op : StepOp) (ht : WellBracketed target) :
    (Code.assign target op.update).Bracketed width := by
  rw [Bracketed, render]
  cases op <;> exact (ht.after (by decide)).before (by decide)

/-- A value that is kept in a temporary. -/
theorem keep (ht : WellBracketed target) (hv : WellBracketed value) :
    (Code.keep target value).Bracketed width := by
  have same : (Code.set target value).Bracketed width := set ht hv
  rw [Bracketed, Code.set, render] at same
  rwa [Bracketed, render]

theorem eval (h : WellBracketed value) : (Code.eval value).Bracketed width := by
  rw [Bracketed, render]
  exact h.before (by decide)

theorem retNone : (Code.ret none).Bracketed width := by
  rw [Bracketed, render]
  decide

theorem ret (h : WellBracketed value) : (Code.ret (some value)).Bracketed width := by
  rw [Bracketed, render]
  exact (h.after (by decide)).before (by decide)

theorem raise (h : WellBracketed value) : (Code.raise value).Bracketed width := by
  rw [Bracketed, render]
  exact (h.after (by decide)).before (by decide)

theorem echo {values : List String} (h : ∀ text ∈ values, WellBracketed text) :
    (Code.echo values).Bracketed width := by
  rw [Bracketed, render]
  exact ((WellBracketed.intercalate (by decide) h).after (by decide)).before (by decide)

theorem unset (h : WellBracketed value) : (Code.unset value).Bracketed width := by
  rw [Bracketed, render]
  exact (h.after (by decide)).before (by decide)

theorem breakLoop : Code.breakLoop.Bracketed width := by
  rw [Bracketed, render]
  decide

theorem continueLoop : Code.continueLoop.Bracketed width := by
  rw [Bracketed, render]
  decide

end Simple

section Compound

variable {test : String} {body : List Code}

theorem branch {rest : Chain} (ht : WellBracketed test) (hb : ∀ c ∈ body, c.Bracketed width)
    (hr : rest.Bracketed width) : (Code.branch test body rest).Bracketed width := by
  rw [Bracketed, render]
  exact ((ht.after (by decide)).joined (by decide) (bracketed_block hb)).append hr

theorem whileLoop (ht : WellBracketed test) (hb : ∀ c ∈ body, c.Bracketed width) :
    (Code.whileLoop test body).Bracketed width := by
  rw [Bracketed, render]
  exact (ht.after (by decide)).joined (by decide) (bracketed_block hb)

theorem loop (hb : ∀ c ∈ body, c.Bracketed width) : (Code.loop body).Bracketed width := by
  rw [Bracketed, render]
  exact (bracketed_block hb).after (by decide)

theorem doWhile (hb : ∀ c ∈ body, c.Bracketed width) (ht : WellBracketed test) :
    (Code.doWhile body test).Bracketed width := by
  rw [Bracketed, render]
  exact (((bracketed_block hb).after (by decide)).joined (by decide) ht).before (by decide)

theorem forIn {binding subject : String} (hv : WellBracketed binding) (hs : WellBracketed subject)
    (hb : ∀ c ∈ body, c.Bracketed width) : (Code.forIn binding subject body).Bracketed width := by
  rw [Bracketed, render]
  exact ((hv.after (by decide)).joined (by decide) hs).joined (by decide) (bracketed_block hb)

theorem switch {subject : String} {cases : List Clause} (hs : WellBracketed subject)
    (hc : ∀ c ∈ cases, c.Bracketed width) : (Code.switch subject cases).Bracketed width := by
  rw [Bracketed, render]
  exact (hs.after (by decide)).joined (by decide)
    (.block (eq_blank_of_mem_blanks width) (.joinLines (Clause.bracketed_cases hc)))

theorem tryCatch {handlers : List Clause} (hb : ∀ c ∈ body, c.Bracketed width)
    (hh : ∀ c ∈ handlers, c.Bracketed width) : (Code.tryCatch body handlers).Bracketed width := by
  rw [Bracketed, render]
  refine .intercalate (by decide) ?_
  rw [List.forall_mem_cons]
  exact ⟨(bracketed_block hb).after (by decide), Clause.bracketed_handlers hh⟩

end Compound

end Code.Bracketed

/-! ### Further tests -/

namespace Chain.Bracketed

variable {body : List Code}

theorem otherwise (hb : ∀ c ∈ body, c.Bracketed width) :
    (Chain.otherwise body).Bracketed width := by
  rw [Bracketed, render]
  exact (Code.bracketed_block hb).after (by decide)

theorem attach {arm : Arm} {rest : Chain} (ha : arm.Bracketed width) (hr : rest.Bracketed width) :
    (arm.attach rest).Bracketed width := by
  unfold Arm.attach
  split_ifs
  · rw [Bracketed, render]
    exact ((ha.test.after (by decide)).joined (by decide)
      (Code.bracketed_block ha.body)).append hr
  · refine .otherwise ?_
    rw [List.forall_mem_append, List.forall_mem_singleton]
    exact ⟨ha.hoisted, .branch ha.test ha.body hr⟩

theorem ofArms {arms : List Arm} {last : Chain} (ha : ∀ arm ∈ arms, arm.Bracketed width)
    (hl : last.Bracketed width) : (Chain.ofArms arms last).Bracketed width := by
  induction arms with
  | nil => exact hl
  | cons arm rest ih =>
    rw [List.forall_mem_cons] at ha
    exact attach ha.1 (ih ha.2)

end Chain.Bracketed

end Zephirize
