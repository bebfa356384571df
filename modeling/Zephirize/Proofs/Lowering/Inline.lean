import Zephirize.Proofs.Lowering.Expressions

/-!
# Converting expressions in line

What converting an expression gives depends on the place only through the number of temporaries so
far and through whether array literals are kept. All that it leaves behind are assignments, put after
the lines that wait (`Inline`). The loops around and the waiting lines themselves do not matter.

`inline_lower` states this for every expression, `inline_destructure` for a list of slots that is
assigned.
-/

namespace Zephirize

open Lowering

/-- An assignment. -/
def Code.IsLet : Code → Prop
  | .assign .. => True
  | .keep .. => True
  | _ => False

/-- From `s` to `t` these lines were put after those that wait, and the count of temporaries has come
to `dims`. -/
structure State.Resumes (s t : State) (lines : List Code) (dims : ℕ) : Prop where
  dims : t.dims = dims
  hoisted : t.hoisted = s.hoisted ++ lines
  hoistArrays : t.hoistArrays = s.hoistArrays
  loops : t.loops = s.loops

theorem State.Resumes.trans {s t u : State} {lines more : List Code} {m n : ℕ}
    (h : s.Resumes t lines m) (h' : t.Resumes u more n) : s.Resumes u (lines ++ more) n where
  dims := h'.dims
  hoisted := by rw [h'.hoisted, h.hoisted, List.append_assoc]
  hoistArrays := h'.hoistArrays.trans h.hoistArrays
  loops := h'.loops.trans h.loops

/-- The step depends on the count of temporaries and on the mode only. It hoists assignments, and the
lines `out a` that it hands on with its result `a` are assignments. -/
def Inline {α : Type} (step : Lowering α) (out : α → List Code) : Prop :=
  ∀ n arrays, ∃ r lines m, (∀ c ∈ lines, c.IsLet) ∧ (∀ a, r = .ok a → ∀ c ∈ out a, c.IsLet) ∧
    ∀ s : State, s.dims = n → s.hoistArrays = arrays →
      ∃ t, step.run.run s = (r, t) ∧ s.Resumes t lines m

/-! ### Rules -/

namespace Inline

variable {α β : Type} {cls : String} {out : α → List Code}

theorem ofNotes {step : Lowering α} {r : Except Refusal α}
    (h : ∃ notes, ∀ s : State, step.run.run s = (r, s.noting notes))
    (lets : ∀ a, r = .ok a → ∀ c ∈ out a, c.IsLet) : Inline step out := by
  obtain ⟨notes, run⟩ := h
  intro n arrays
  refine ⟨r, [], n, by simp, lets, fun s dims _ => ⟨_, run s, dims, ?_, rfl, rfl⟩⟩
  exact (List.append_nil _).symm

theorem pure {a : α} (lets : ∀ c ∈ out a, c.IsLet) : Inline (Pure.pure a) out := by
  refine ofNotes (r := .ok a) ⟨fun _ => [], fun s => by rw [s.noting_nil]; rfl⟩ ?_
  rintro _ ⟨⟩
  exact lets

theorem refuse (kind : Kind) : Inline (Lowering.refuse cls kind) out :=
  ofNotes (r := .error (.unsupported kind cls))
    ⟨fun _ => [], fun s => by rw [s.noting_nil]; rfl⟩ (by rintro _ ⟨⟩)

theorem hoist {lines : List Code} (lets : ∀ c ∈ lines, c.IsLet) :
    Inline (Lowering.hoist lines) fun _ => [] := by
  intro n arrays
  exact ⟨.ok (), lines, n, lets, by simp, fun s dims _ => ⟨_, rfl, dims, rfl, rfl, rfl⟩⟩

theorem newDim : Inline Lowering.newDim fun _ => [] := by
  intro n arrays
  refine ⟨.ok (dimTemp (n + 1)), [], n + 1, by simp, by simp, ?_⟩
  rintro s rfl -
  exact ⟨_, rfl, rfl, (List.append_nil _).symm, rfl, rfl⟩

theorem bind {x : Lowering α} {f : α → Lowering β} {mid : α → List Code} {out : β → List Code}
    (hx : Inline x mid) (hf : ∀ a, (∀ c ∈ mid a, c.IsLet) → Inline (f a) out) :
    Inline (x >>= f) out := by
  intro n arrays
  obtain ⟨r, lines, m, lets, handed, run⟩ := hx n arrays
  cases r with
  | error e =>
    refine ⟨.error e, lines, m, lets, by rintro _ ⟨⟩, fun s dims mode => ?_⟩
    obtain ⟨t, first, resumes⟩ := run s dims mode
    exact ⟨t, run_bind_error first, resumes⟩
  | ok a =>
    obtain ⟨r, more, k, lets', handed', run'⟩ := hf a (handed a rfl) m arrays
    refine ⟨r, lines ++ more, k, ?_, handed', fun s dims mode => ?_⟩
    · intro c hc
      exact (List.mem_append.1 hc).elim (lets c) (lets' c)
    · obtain ⟨t, first, resumes⟩ := run s dims mode
      obtain ⟨u, second, resumes'⟩ := run' t resumes.dims (resumes.hoistArrays.trans mode)
      exact ⟨u, by rw [run_bind_ok first, second], resumes.trans resumes'⟩

/-- A step that reads whether array literals are kept. -/
theorem ofMode {f : Bool → Lowering α} (hf : ∀ arrays, Inline (f arrays) out) :
    Inline (do f (← get).hoistArrays) out := by
  intro n arrays
  obtain ⟨r, lines, m, lets, handed, run⟩ := hf arrays n arrays
  refine ⟨r, lines, m, lets, handed, ?_⟩
  rintro s dims rfl
  exact run s dims rfl

theorem reportIf (holds : Bool) (cls category message node : String) :
    Inline (Lowering.reportIf holds cls category message node) fun _ => [] :=
  ofNotes (run_reportIf holds cls category message node) (by simp)

theorem reportedIf {holds : Bool} {category message node : String} {f : Unit → Lowering α}
    (hf : Inline (f ()) out) :
    Inline (Lowering.reportIf holds cls category message node >>= f) out :=
  (reportIf holds cls category message node).bind fun _ _ => hf

theorem asValue {l : Lowered} (lets : ∀ c ∈ l.lines, c.IsLet) : Inline l.asValue fun _ => [] := by
  cases l with
  | value text => exact pure (by simp)
  | assigned lines target => exact (hoist lets).bind fun _ _ => pure (by simp)

/-- The value of an expression is read, its assignments being hoisted, and goes into a further
step. -/
theorem value {e : Expr} {k : String → Lowering α} (he : Inline (lower cls e) Lowered.lines)
    (hk : ∀ text, Inline (k text) out) :
    Inline (lower cls e >>= fun l => l.asValue >>= k) out :=
  he.bind fun _ lets => (asValue lets).bind fun text _ => hk text

theorem exprText {e : Expr} (he : Inline (lower cls e) Lowered.lines) :
    Inline (exprText cls e) fun _ => [] :=
  he.bind fun _ lets => asValue lets

theorem withArrayHoisting {x : Lowering α} (hx : Inline x out) :
    Inline (Lowering.withArrayHoisting x) out := by
  intro n arrays
  obtain ⟨r, lines, m, lets, handed, run⟩ := hx n true
  refine ⟨r, lines, m, lets, handed, fun s dims _ => ?_⟩
  obtain ⟨t, ends, resumes⟩ := run { s with hoistArrays := true } dims rfl
  exact ⟨_, run_around_ok ends, resumes.dims, resumes.hoisted, rfl, resumes.loops⟩

theorem text (text : String) : Inline (Pure.pure (.value text)) Lowered.lines :=
  pure (by simp [Lowered.lines])

/-- One assignment as a result. -/
theorem assigned (target value : String) (update : Update) :
    Inline (Pure.pure (.assigned [.assign target update] value)) Lowered.lines :=
  pure (by simp [Lowered.lines, Code.IsLet])

theorem arrayText (items : List Item) (texts : List String) (keep : Bool) :
    Inline (Lowering.arrayText items texts keep) fun _ => [] := by
  cases keep with
  | false => exact pure (by simp)
  | true => exact (hoist (by simp [Code.IsLet])).bind fun _ _ => pure (by simp)

theorem baseText (base : Expr) (text : String) :
    Inline (Lowering.baseText base text) fun _ => [] := by
  unfold Lowering.baseText
  split
  · exact pure (by simp)
  · exact newDim.bind fun _ _ => (hoist (by simp [Code.IsLet])).bind fun _ _ => pure (by simp)

end Inline

variable {cls : String}

/-- An assignment to a target, given what is known of it as a list of slots and as a value. -/
theorem Inline.assignInto {target : Expr} {text : String}
    (ht : Inline (lower cls target) Lowered.lines)
    (slots : ∀ items, target = .list items → ∀ source, Inline (destructure cls source 0 items) id) :
    Inline (assignInto cls text target) Lowered.lines := by
  unfold Zephirize.assignInto
  split
  case h_1 items =>
    refine .bind (slots items rfl _) fun lines lets => .pure ?_
    simpa [Lowered.lines, Code.IsLet] using lets
  case h_2 => exact .bind (.exprText ht) fun _ _ => .assigned _ _ _

/-- The index that a slot is read from. -/
theorem Inline.indexText {key : Option Expr} (position : ℕ)
    (hk : Inline (lowerOption cls key) fun _ => []) :
    Inline (indexText cls position key) fun _ => [] := by
  cases key with
  | none => exact .pure (by simp)
  | some key => rwa [indexText_some]

/-- A value that is passed on, given what is known of it as an array literal and as a value. -/
theorem Inline.passedText {value : Expr} (hv : Inline (lower cls value) Lowered.lines)
    (literal : ∀ items, value = .array items → Inline (lowerItems cls items) fun _ => []) :
    Inline (passedText cls value) fun _ => [] := by
  unfold Zephirize.passedText
  split
  case h_1 items => exact .bind (literal items rfl) fun texts _ => .arrayText items texts true
  case h_2 => exact .exprText hv

mutual

theorem inline_lower : ∀ e : Expr, Inline (lower cls e) Lowered.lines
  | .var (.literal name) => by
    rw [lower]
    exact .text _
  | .var (.dynamic name) => by
    rw [lower]
    exact .value (inline_lower name) fun _ => .text _
  | .assign target value byRef => by
    rw [lower_assign_eq]
    exact .reportedIf (.value (inline_lower value) fun _ =>
      .assignInto (inline_lower target) (inline_slots target))
  | .assignOp op target value => by
    rw [lower]
    exact .value (inline_lower value) fun _ => .value (inline_lower target) fun _ =>
      .assigned _ _ _
  | .incDec op target => by
    rw [lower]
    exact .value (inline_lower target) fun _ => .assigned _ _ _
  | .property object name => by
    rw [lower]
    exact .value (inline_lower object) fun _ => .text _
  | .dim base index => by
    rw [lower]
    exact .value (inline_lower base) fun text => .bind (.baseText base text) fun _ _ =>
      .bind (inline_lowerOption index) fun _ _ => .text _
  | .list items => by
    rw [lower]
    exact .bind (inline_lowerSlots items) fun _ _ => .text _
  | .array items => by
    rw [lower]
    exact Inline.ofMode (f := fun keep => do
      let texts ← lowerItems cls items
      return Lowered.value (← Lowering.arrayText items texts keep)) fun keep =>
        .bind (inline_lowerItems items) fun texts _ => .bind (.arrayText items texts keep)
        fun _ _ => .text _
  | .call name args => by
    rw [lower]
    exact .bind (inline_lowerArgs args) fun _ _ => .text _
  | .methodCall object method args => by
    rw [lower]
    exact .value (inline_lower object) fun _ => .bind (inline_lowerArgs args) fun _ _ => .text _
  | .staticCall owner method args => by
    rw [lower]
    exact .bind (inline_lowerArgs args) fun _ _ => .text _
  | .new owner args => by
    rw [lower]
    exact .bind (inline_lowerArgs args) fun _ _ => .text _
  | .binary op left right => by
    rw [lower]
    exact .value (inline_lower left) fun _ => .value (inline_lower right) fun _ => .text _
  | .unary op operand => by
    rw [lower]
    exact .value (inline_lower operand) fun _ => .text _
  | .ternary test (some yes) no => by
    rw [lower]
    exact .value (inline_lower test) fun _ => .value (inline_lower yes) fun _ =>
      .value (inline_lower no) fun _ => .text _
  | .ternary test none no => by
    rw [lower]
    exact .value (inline_lower test) fun _ => .value (inline_lower no) fun _ => .text _
  | .isset vars => by
    rw [lower]
    exact .bind (inline_lowerAll vars) fun _ _ => .text _
  | .empty value | .instanceOf value _ | .cast _ value => by
    rw [lower]
    exact .value (inline_lower value) fun _ => .text _
  | .eval _ | .shell _ => by
    rw [lower]
    exact .refuse _
  | .staticProperty .. | .classConst .. | .const _ | .string _ | .int _ | .float _ => by
    rw [lower]
    exact .text _

/-- A list of slots as the target of an assignment. -/
theorem inline_slots : ∀ (target : Expr) (items : List (Option Item)), target = .list items →
    ∀ source, Inline (destructure cls source 0 items) id
  | .list items, _, rfl, source => inline_destructure source 0 items

/-- An array literal that is kept whatever the state says. -/
theorem inline_literal : ∀ (value : Expr) (items : List Item), value = .array items →
    Inline (lowerItems cls items) fun _ => []
  | .array items, _, rfl => inline_lowerItems items

theorem inline_lowerOption : ∀ e : Option Expr, Inline (lowerOption cls e) fun _ => []
  | none => by
    rw [lowerOption]
    exact .pure (by simp)
  | some e => by
    rw [lowerOption]
    exact .exprText (inline_lower e)

theorem inline_lowerAll : ∀ es : List Expr, Inline (lowerAll cls es) fun _ => []
  | [] => by
    rw [lowerAll]
    exact .pure (by simp)
  | e :: rest => by
    rw [lowerAll]
    exact .value (inline_lower e) fun _ => .bind (inline_lowerAll rest) fun _ _ => .pure (by simp)

theorem inline_lowerItem : ∀ item : Item, Inline (lowerItem cls item) fun _ => []
  | ⟨some key, value, byRef, unpack⟩ => by
    rw [lowerItem]
    exact .reportedIf (.reportedIf (.value (inline_lower key) fun _ =>
      .value (inline_lower value) fun _ => .pure (by simp)))
  | ⟨none, value, byRef, unpack⟩ => by
    rw [lowerItem]
    exact .reportedIf (.reportedIf (.exprText (inline_lower value)))

theorem inline_lowerItems : ∀ items : List Item, Inline (lowerItems cls items) fun _ => []
  | [] => by
    rw [lowerItems]
    exact .pure (by simp)
  | item :: rest => by
    rw [lowerItems]
    exact .bind (inline_lowerItem item) fun _ _ => .bind (inline_lowerItems rest) fun _ _ =>
      .pure (by simp)

theorem inline_lowerSlots : ∀ items : List (Option Item), Inline (lowerSlots cls items) fun _ => []
  | [] => by
    rw [lowerSlots]
    exact .pure (by simp)
  | none :: rest => by
    rw [lowerSlots]
    exact .bind (inline_lowerSlots rest) fun _ _ => .pure (by simp)
  | some item :: rest => by
    rw [lowerSlots]
    exact .bind (inline_lowerItem item) fun _ _ => .bind (inline_lowerSlots rest) fun _ _ =>
      .pure (by simp)

theorem inline_destructure (source : String) (position : ℕ) :
    ∀ items : List (Option Item), Inline (destructure cls source position items) id
  | [] => by
    rw [destructure]
    exact .pure (by simp)
  | none :: rest => by
    rw [destructure]
    exact inline_destructure source (position + 1) rest
  | some ⟨key, value, byRef, unpack⟩ :: rest => by
    rw [destructure_cons]
    refine .bind (.indexText position (inline_lowerOption key)) fun _ _ =>
      .bind (.assignInto (inline_lower value) (inline_slots value)) fun assigned lets =>
      .bind (inline_destructure source (position + 1) rest) fun more lets' => .pure ?_
    intro c hc
    exact (List.mem_append.1 hc).elim (lets c) (lets' c)

theorem inline_lowerArg : ∀ arg : Argument, Inline (lowerArg cls arg) fun _ => []
  | ⟨value, byRef, unpack⟩ => by
    rw [lowerArg_eq]
    exact .reportedIf (.passedText (inline_lower value) (inline_literal value))

theorem inline_lowerArgs : ∀ args : List Argument, Inline (lowerArgs cls args) fun _ => []
  | [] => by
    rw [lowerArgs]
    exact .pure (by simp)
  | arg :: rest => by
    rw [lowerArgs]
    exact .bind (inline_lowerArg arg) fun _ _ => .bind (inline_lowerArgs rest) fun _ _ =>
      .pure (by simp)

end

end Zephirize
