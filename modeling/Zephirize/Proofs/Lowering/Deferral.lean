import Zephirize.Proofs.Code.Equality
import Zephirize.Proofs.Lowering.Origins
import Zephirize.Proofs.Lowering.Statements

/-!
# Hoisted lines of operands that may not run

The lines that a conversion hoists are followed back to the expressions that they are hoisted for
(`Hoists`). The lines come in groups, one for each source of the node, in the order of the sources
(`hoists_lower`, `hoists_switch`).

`hoisted_from_always_iff` says when all of them come from what the source always runs: exactly if no
operand that may not run hoists a line where it is converted.
-/

namespace Zephirize

open Lowering

/-! ### Lines and their sources -/

/-- The lines that may be hoisted for an expression. -/
def Expr.Emits : Expr → List Code → Prop
  | .assign (.list items) _ _, lines => ∃ value rest, lines = .keep (listTemp items) value :: rest
  | .assign .., lines => ∃ target value, lines = [.set target value]
  | .assignOp op .., lines => ∃ target value, lines = [.assign target (.combine op value)]
  | .incDec op _, lines => ∃ target, lines = [.assign target op.update]
  | .dim .., lines => ∃ i value, lines = [.keep (dimTemp i) value]
  | .array items, lines => ∃ value, lines = [.keep (arrayTemp items) value]
  | _, _ => False

/-- Assignments that are still in hand, if there are any. -/
def Lowered.inHand : Lowered → List (List Code)
  | .value _ => []
  | .assigned lines _ => [lines]

/-- Whenever the step succeeds, it keeps the mode and hoists one group of lines after the other. With
the groups `out a` that it hands on with its result `a`, there is one group for each of the sources,
in their order. -/
def Hoists {α : Type} (step : Lowering α) (sources : Bool → List Expr)
    (out : α → List (List Code)) : Prop :=
  ∀ (s t : State) (a : α), step.run.run s = (.ok a, t) → t.hoistArrays = s.hoistArrays ∧
    ∃ groups : List (List Code), t.hoisted = s.hoisted ++ groups.flatten ∧
      List.Forall₂ Expr.Emits (sources s.hoistArrays) (groups ++ out a)

namespace Hoists

variable {α β : Type} {cls : String} {sources more : Bool → List Expr} {out : α → List (List Code)}

theorem congr {step : Lowering α} (h : Hoists step sources out)
    (same : ∀ arrays, sources arrays = more arrays) : Hoists step more out := by
  obtain rfl : sources = more := funext same
  exact h

/-- The lines of a node, given that they come from its turns. -/
theorem node {step : Lowering α} {n : Node} (h : Hoists step sources out)
    (same : ∀ arrays, sources arrays = (n.turns arrays).flatMap (Turn.sources arrays)) :
    Hoists step (fun arrays => n.sources arrays) out :=
  h.congr fun arrays => by rw [same, Node.sources_eq]

theorem pure {a : α} (emits : ∀ arrays, List.Forall₂ Expr.Emits (sources arrays) (out a)) :
    Hoists (Pure.pure a) sources out := by
  intro s t b run
  cases run
  exact ⟨rfl, [], by simp, emits _⟩

theorem refuse (kind : Kind) : Hoists (Lowering.refuse cls kind) sources out := by
  intro s t a run
  cases run

theorem hoist {e : Expr} {lines : List Code} (emits : e.Emits lines) :
    Hoists (Lowering.hoist lines) (fun _ => [e]) fun _ => [] := by
  intro s t a run
  cases run
  exact ⟨rfl, [lines], by simp, .cons emits .nil⟩

theorem bind {x : Lowering α} {f : α → Lowering β} {out : β → List (List Code)}
    (hx : Hoists x sources fun _ => []) (hf : ∀ a, Hoists (f a) more out) :
    Hoists (x >>= f) (fun arrays => sources arrays ++ more arrays) out := by
  intro s u b run
  obtain ⟨a, t, first, second⟩ := exists_of_run_bind run
  obtain ⟨mode, groups, hoisted, emits⟩ := hx s t a first
  obtain ⟨mode', groups', hoisted', emits'⟩ := hf a t u b second
  refine ⟨mode'.trans mode, groups ++ groups', ?_, ?_⟩
  · rw [hoisted', hoisted, List.flatten_append, List.append_assoc]
  · rw [List.append_nil] at emits
    rw [mode] at emits'
    rw [List.append_assoc]
    exact List.rel_append emits emits'

/-- A step that reads whether array literals are kept. -/
theorem ofMode {f : Bool → Lowering α} {sources : Bool → Bool → List Expr}
    (hf : ∀ arrays, Hoists (f arrays) (sources arrays) out) :
    Hoists (do f (← get).hoistArrays) (fun arrays => sources arrays arrays) out :=
  fun s t a run => hf s.hoistArrays s t a run

theorem reportedIf {holds : Bool} {category message node : String} {f : Unit → Lowering α}
    (hf : Hoists (f ()) sources out) :
    Hoists (Lowering.reportIf holds cls category message node >>= f) sources out := by
  intro s t a run
  obtain ⟨notes, report⟩ := run_reportIf holds cls category message node
  rw [run_bind_ok (report s)] at run
  exact hf (s.noting notes) t a run

/-- Assignments in hand are hoisted where a value is needed. -/
theorem exprText {e : Expr} (he : Hoists (lower cls e) sources Lowered.inHand) :
    Hoists (exprText cls e) sources fun _ => [] := by
  intro s u text run
  obtain ⟨l, t, first, second⟩ := exists_of_run_bind run
  obtain ⟨mode, groups, hoisted, emits⟩ := he s t l first
  cases l with
  | value text =>
    cases second
    exact ⟨mode, groups, hoisted, emits⟩
  | assigned lines target =>
    cases second
    refine ⟨mode, groups ++ [lines], ?_, by simpa [Lowered.inHand] using emits⟩
    simp [hoisted]

theorem value {e : Expr} {k : String → Lowering α}
    (he : Hoists (lower cls e) sources Lowered.inHand) (hk : ∀ text, Hoists (k text) more out) :
    Hoists (lower cls e >>= fun l => l.asValue >>= k)
      (fun arrays => sources arrays ++ more arrays) out := by
  have both : (lower cls e >>= fun l => l.asValue >>= k) = Zephirize.exprText cls e >>= k :=
    (bind_assoc _ _ _).symm
  rw [both]
  exact he.exprText.bind hk

theorem text (text : String) : Hoists (Pure.pure (.value text)) (fun _ => []) Lowered.inHand :=
  pure fun _ => .nil

theorem assigned {e : Expr} {lines : List Code} (target : String) (emits : e.Emits lines) :
    Hoists (Pure.pure (.assigned lines target)) (fun _ => [e]) Lowered.inHand :=
  pure fun _ => .cons emits .nil

theorem arrayText (items : List Item) (texts : List String) (keep : Bool) :
    Hoists (Lowering.arrayText items texts keep) (fun _ => if keep then [.array items] else [])
      fun _ => [] := by
  cases keep with
  | false => exact pure fun _ => .nil
  | true => exact (hoist (e := .array items) ⟨_, rfl⟩).bind fun _ => pure fun _ => .nil

theorem baseText (base : Expr) (index : Option Expr) (text : String) :
    Hoists (Lowering.baseText base text)
      (fun _ => if base.takesIndex then [] else [.dim base index]) fun _ => [] := by
  intro s t a run
  unfold Lowering.baseText at run
  split at run
  case isTrue takes =>
    cases run
    exact ⟨rfl, [], by simp, by simp [takes]⟩
  case isFalse kept =>
    cases run
    refine ⟨rfl, [[.keep (dimTemp (s.dims + 1)) text]], by simp, ?_⟩
    simp only [kept]
    exact .cons ⟨_, _, rfl⟩ .nil

end Hoists

variable {cls : String}

/-- The expressions that the slots of a list have lines for. -/
def slotSources (arrays : Bool) (items : List (Option Item)) : List Expr :=
  (items.filterMap id).flatMap fun item => (Node.item item).sources arrays

theorem sources_list (arrays : Bool) (items : List (Option Item)) :
    (Node.expr (.list items)).sources arrays = slotSources arrays items := by
  simp [Node.sources_eq, slotSources, Node.turns, Expr.turns, Node.ofExpr, List.flatMap_map]

/-- An assignment to a target, given what is known of it as a list of slots and as a value. Its
lines are handed on, and may or may not belong to an expression of their own. -/
theorem Hoists.assignInto {target : Expr} {text : String} {own : List Expr}
    {out : Lowered → List (List Code)}
    (ht : Hoists (lower cls target) (fun arrays => (Node.expr target).sources arrays) Lowered.inHand)
    (slots : ∀ items, target = .list items → ∀ source,
      Hoists (destructure cls source 0 items) (fun arrays => slotSources arrays items) fun _ => [])
    (handed : ∀ lines name, (∀ value byRef, (Expr.assign target value byRef).Emits lines) →
      List.Forall₂ Expr.Emits own (out (.assigned lines name))) :
    Hoists (assignInto cls text target) (fun arrays => (Node.expr target).sources arrays ++ own)
      out := by
  unfold Zephirize.assignInto
  split
  case h_1 items =>
    refine .congr (.bind (slots items rfl _) fun lines =>
      .pure fun _ => handed _ _ fun _ _ => ⟨_, _, rfl⟩) fun arrays => ?_
    rw [sources_list]
  case h_2 other =>
    refine .bind ht.exprText fun _ => .pure fun _ => handed _ _ fun value byRef => ?_
    rw [Expr.Emits]
    · exact ⟨_, _, rfl⟩
    · exact other

/-- The index that a slot is read from. -/
theorem Hoists.indexText {key : Option Expr} (position : ℕ)
    (hk : Hoists (lowerOption cls key)
      (fun arrays => key.toList.flatMap fun e => (Node.expr e).sources arrays) fun _ => []) :
    Hoists (indexText cls position key)
      (fun arrays => key.toList.flatMap fun e => (Node.expr e).sources arrays) fun _ => [] := by
  cases key with
  | none => exact .pure fun _ => .nil
  | some key => rwa [indexText_some]

/-- A value that is passed on, given what is known of it as an array literal and as a value. -/
theorem Hoists.passedText {value : Expr} {byRef unpack : Bool}
    (hv : Hoists (lower cls value) (fun arrays => (Node.expr value).sources arrays) Lowered.inHand)
    (literal : ∀ items, value = .array items → Hoists (lowerItems cls items)
      (fun arrays => items.flatMap fun item => (Node.item item).sources arrays) fun _ => []) :
    Hoists (passedText cls value)
      (fun arrays => (Node.argument ⟨value, byRef, unpack⟩).sources arrays) fun _ => [] := by
  unfold Zephirize.passedText
  split
  case h_1 items =>
    refine .node (.bind (literal items rfl) fun texts => .arrayText items texts true)
      fun arrays => ?_
    simp [Node.turns, List.flatMap_map]
  case h_2 other =>
    refine .node hv.exprText fun arrays => ?_
    rw [Node.turns]
    · simp
    · rintro items _ _ ⟨⟩
      exact other items rfl

mutual

/-- The lines that an expression hoists or hands on belong to its sources. -/
theorem hoists_lower : ∀ e : Expr,
    Hoists (lower cls e) (fun arrays => (Node.expr e).sources arrays) Lowered.inHand
  | .var (.literal name) => by
    rw [lower]
    exact .node (.text _) fun arrays => rfl
  | .var (.dynamic name) => by
    rw [lower]
    refine .node (.value (hoists_lower name) fun _ => .text _) fun arrays => ?_
    simp [Node.turns, Expr.turns, Node.ofExpr]
  | .assign target value byRef => by
    rw [lower_assign_eq]
    refine .node (.reportedIf (.value (hoists_lower value) fun _ =>
      .assignInto (hoists_lower target) (hoists_slots target)
        fun _ _ emits => .cons (emits value byRef) .nil)) fun arrays => ?_
    simp [Node.turns, Expr.turns]
  | .assignOp op target value => by
    rw [lower]
    refine .node (.value (hoists_lower value) fun _ => .value (hoists_lower target) fun _ =>
      .assigned (e := .assignOp op target value) _ ⟨_, _, rfl⟩) fun arrays => ?_
    simp [Node.turns, Expr.turns]
  | .incDec op target => by
    rw [lower]
    refine .node (.value (hoists_lower target) fun _ =>
      .assigned (e := .incDec op target) _ ⟨_, rfl⟩) fun arrays => ?_
    simp [Node.turns, Expr.turns]
  | .property object name => by
    rw [lower]
    refine .node (.value (hoists_lower object) fun _ => .text _) fun arrays => ?_
    simp [Node.turns, Expr.turns, Node.ofExpr]
  | .dim base index => by
    rw [lower]
    refine .node (.value (hoists_lower base) fun text => .bind (.baseText base index text) fun _ =>
      .bind (hoists_lowerOption index) fun _ => .text _) fun arrays => ?_
    rw [Node.turns, Expr.turns]
    split <;> simp [List.flatMap_map]
  | .list items => by
    rw [lower]
    refine .congr (.bind (hoists_lowerSlots items) fun _ => .text _) fun arrays => ?_
    rw [sources_list, List.append_nil]
  | .array items => by
    rw [lower]
    refine .node (.ofMode (f := fun keep => do
      let texts ← lowerItems cls items
      return Lowered.value (← Lowering.arrayText items texts keep)) fun keep =>
        .bind (hoists_lowerItems items) fun texts => .bind (.arrayText items texts keep)
        fun _ => .text _) fun arrays => ?_
    rw [Node.turns, Expr.turns]
    split <;> simp [List.flatMap_map]
  | .call name args => by
    rw [lower]
    refine .node (.bind (hoists_lowerArgs args) fun _ => .text _) fun arrays => ?_
    simp [Node.turns, Expr.turns, Node.ofExpr, List.flatMap_map]
  | .methodCall object method args => by
    rw [lower]
    refine .node (.value (hoists_lower object) fun _ => .bind (hoists_lowerArgs args) fun _ =>
      .text _) fun arrays => ?_
    simp [Node.turns, Expr.turns, Node.ofExpr, List.flatMap_map]
  | .staticCall owner method args => by
    rw [lower]
    refine .node (.bind (hoists_lowerArgs args) fun _ => .text _) fun arrays => ?_
    simp [Node.turns, Expr.turns, Node.ofExpr, List.flatMap_map]
  | .new owner args => by
    rw [lower]
    refine .node (.bind (hoists_lowerArgs args) fun _ => .text _) fun arrays => ?_
    simp [Node.turns, Expr.turns, Node.ofExpr, List.flatMap_map]
  | .binary op left right => by
    rw [lower]
    refine .node (.value (hoists_lower left) fun _ => .value (hoists_lower right) fun _ => .text _)
      fun arrays => ?_
    simp [Node.turns, Expr.turns]
  | .unary op operand => by
    rw [lower]
    refine .node (.value (hoists_lower operand) fun _ => .text _) fun arrays => ?_
    simp [Node.turns, Expr.turns, Node.ofExpr]
  | .ternary test (some yes) no => by
    rw [lower]
    refine .node (.value (hoists_lower test) fun _ => .value (hoists_lower yes) fun _ =>
      .value (hoists_lower no) fun _ => .text _) fun arrays => ?_
    simp [Node.turns, Expr.turns]
  | .ternary test none no => by
    rw [lower]
    refine .node (.value (hoists_lower test) fun _ => .value (hoists_lower no) fun _ => .text _)
      fun arrays => ?_
    simp [Node.turns, Expr.turns]
  | .isset vars => by
    rw [lower]
    refine .node (.bind (hoists_lowerAll vars) fun _ => .text _) fun arrays => ?_
    simp [Node.turns, Expr.turns]
  | .empty value | .instanceOf value _ | .cast _ value => by
    rw [lower]
    refine .node (.value (hoists_lower value) fun _ => .text _) fun arrays => ?_
    simp [Node.turns, Expr.turns, Node.ofExpr]
  | .eval _ | .shell _ => by
    rw [lower]
    exact .refuse _
  | .staticProperty .. | .classConst .. | .const _ | .string _ | .int _ | .float _ => by
    rw [lower]
    exact .node (.text _) fun arrays => rfl

/-- A list of slots as the target of an assignment. -/
theorem hoists_slots : ∀ (target : Expr) (items : List (Option Item)), target = .list items →
    ∀ source,
      Hoists (destructure cls source 0 items) (fun arrays => slotSources arrays items) fun _ => []
  | .list items, _, rfl, source => hoists_destructure source 0 items

/-- An array literal that is kept whatever the state says. -/
theorem hoists_literal : ∀ (value : Expr) (items : List Item), value = .array items →
    Hoists (lowerItems cls items)
      (fun arrays => items.flatMap fun item => (Node.item item).sources arrays) fun _ => []
  | .array items, _, rfl => hoists_lowerItems items

theorem hoists_lowerOption : ∀ e : Option Expr, Hoists (lowerOption cls e)
    (fun arrays => e.toList.flatMap fun e => (Node.expr e).sources arrays) fun _ => []
  | none => by
    rw [lowerOption]
    exact .pure fun _ => .nil
  | some e => by
    rw [lowerOption]
    exact .congr (.exprText (hoists_lower e)) fun arrays => by simp

theorem hoists_lowerAll : ∀ es : List Expr, Hoists (lowerAll cls es)
    (fun arrays => es.flatMap fun e => (Node.expr e).sources arrays) fun _ => []
  | [] => by
    rw [lowerAll]
    exact .pure fun _ => .nil
  | e :: rest => by
    rw [lowerAll]
    refine .congr (.value (hoists_lower e) fun _ => .bind (hoists_lowerAll rest) fun _ =>
      .pure fun _ => .nil) fun arrays => ?_
    rw [List.flatMap_cons, List.append_nil]

theorem hoists_lowerItem : ∀ item : Item,
    Hoists (lowerItem cls item) (fun arrays => (Node.item item).sources arrays) fun _ => []
  | ⟨some key, value, byRef, unpack⟩ => by
    rw [lowerItem]
    refine .node (.reportedIf (.reportedIf (.value (hoists_lower key) fun _ =>
      .value (hoists_lower value) fun _ => .pure fun _ => .nil))) fun arrays => ?_
    simp [Node.turns]
  | ⟨none, value, byRef, unpack⟩ => by
    rw [lowerItem]
    refine .node (.reportedIf (.reportedIf (.exprText (hoists_lower value)))) fun arrays => ?_
    simp [Node.turns]

theorem hoists_lowerItems : ∀ items : List Item, Hoists (lowerItems cls items)
    (fun arrays => items.flatMap fun item => (Node.item item).sources arrays) fun _ => []
  | [] => by
    rw [lowerItems]
    exact .pure fun _ => .nil
  | item :: rest => by
    rw [lowerItems]
    refine .congr (.bind (hoists_lowerItem item) fun _ => .bind (hoists_lowerItems rest) fun _ =>
      .pure fun _ => .nil) fun arrays => ?_
    rw [List.flatMap_cons, List.append_nil]

theorem hoists_lowerSlots : ∀ items : List (Option Item),
    Hoists (lowerSlots cls items) (fun arrays => slotSources arrays items) fun _ => []
  | [] => by
    rw [lowerSlots]
    exact .pure fun _ => .nil
  | none :: rest => by
    rw [lowerSlots]
    refine .congr (.bind (hoists_lowerSlots rest) fun _ => .pure fun _ => .nil) fun arrays => ?_
    simp [slotSources]
  | some item :: rest => by
    rw [lowerSlots]
    refine .congr (.bind (hoists_lowerItem item) fun _ => .bind (hoists_lowerSlots rest) fun _ =>
      .pure fun _ => .nil) fun arrays => ?_
    simp [slotSources]

theorem hoists_destructure (source : String) (position : ℕ) : ∀ items : List (Option Item),
    Hoists (destructure cls source position items) (fun arrays => slotSources arrays items)
      fun _ => []
  | [] => by
    rw [destructure]
    exact .pure fun _ => .nil
  | none :: rest => by
    rw [destructure]
    exact .congr (hoists_destructure source (position + 1) rest) fun arrays => by simp [slotSources]
  | some ⟨key, value, byRef, unpack⟩ :: rest => by
    rw [destructure_cons]
    refine .congr (.bind (.indexText position (hoists_lowerOption key)) fun _ =>
      .bind (.assignInto (hoists_lower value) (hoists_slots value) fun _ _ _ => .nil) fun _ =>
      .bind (hoists_destructure source (position + 1) rest) fun more => .pure fun _ => .nil)
      fun arrays => ?_
    simp [slotSources, Node.sources_eq arrays (.item _), Node.turns, List.flatMap_map]

theorem hoists_lowerArg : ∀ arg : Argument,
    Hoists (lowerArg cls arg) (fun arrays => (Node.argument arg).sources arrays) fun _ => []
  | ⟨value, byRef, unpack⟩ => by
    rw [lowerArg_eq]
    exact .reportedIf (.passedText (hoists_lower value) (hoists_literal value))

theorem hoists_lowerArgs : ∀ args : List Argument, Hoists (lowerArgs cls args)
    (fun arrays => args.flatMap fun arg => (Node.argument arg).sources arrays) fun _ => []
  | [] => by
    rw [lowerArgs]
    exact .pure fun _ => .nil
  | arg :: rest => by
    rw [lowerArgs]
    refine .congr (.bind (hoists_lowerArg arg) fun _ => .bind (hoists_lowerArgs rest) fun _ =>
      .pure fun _ => .nil) fun arrays => ?_
    rw [List.flatMap_cons, List.append_nil]

end

/-! ### Statements with several tests -/

/-- A block keeps its lines. -/
theorem hoists_block (body : List Stmt) :
    Hoists (inBlock (lowerStmts cls body)) (fun _ => []) fun _ => [] := by
  intro s t code run
  rcases (settles_stmts body).run_inBlock s with
    ⟨code', t', run', alike, -, same, -⟩ | ⟨k, t', run', -⟩
  · rw [run] at run'
    cases run'
    exact ⟨alike.hoistArrays, [], by simp [same], .nil⟩
  · rw [run] at run'
    cases run'

theorem hoists_caseHead (test : Option Expr) : Hoists (caseHead cls test)
    (fun arrays => test.toList.flatMap fun e => (Node.expr e).sources arrays) fun _ => [] := by
  cases test with
  | none => exact .pure fun _ => .nil
  | some e =>
    refine .congr (.bind (.exprText (hoists_lower e)) fun _ => .pure fun _ => .nil) fun arrays => ?_
    simp

theorem hoists_lowerCases (cases : List Case) : Hoists (lowerCases cls cases)
    (fun arrays => (cases.filterMap Case.test).flatMap fun e => (Node.expr e).sources arrays)
    fun _ => [] := by
  induction cases with
  | nil =>
    rw [lowerCases]
    exact .pure fun _ => .nil
  | cons clause rest ih =>
    rcases clause with ⟨test, body⟩
    rw [lowerCases]
    refine .congr (.bind (hoists_caseHead test) fun _ => .bind (hoists_block body) fun _ =>
      .bind ih fun _ => .pure fun _ => .nil) fun arrays => ?_
    cases test <;> simp

theorem hoists_switch (subject : Expr) (cases : List Case) :
    Hoists (lowerStmt cls (.switch subject cases))
      (fun arrays => (Node.stmt (.switch subject cases)).sources arrays) fun _ => [] := by
  rw [lowerStmt]
  refine .node (.bind (.exprText (hoists_lower subject)) fun _ =>
    .bind (hoists_lowerCases cases) fun _ => .pure fun _ => .nil) fun arrays => ?_
  simp [Node.turns]

/-! ### Operands that may not run -/

theorem Expr.Emits.ne_nil {e : Expr} {lines : List Code} (h : e.Emits lines) : lines ≠ [] := by
  rintro rfl
  unfold Emits at h
  split at h <;> simp at h

/-- Each source has a line. -/
theorem flatten_eq_nil_iff {sources : List Expr} {groups : List (List Code)}
    (h : List.Forall₂ Expr.Emits sources groups) : groups.flatten = [] ↔ sources = [] := by
  cases h with
  | nil => simp
  | cons emits _ => simp [emits.ne_nil]

/-- An expression hoists a line exactly if it has a source. -/
theorem hoisted_eq_iff {e : Expr} {s t : State} {text : String}
    (run : (exprText cls e).run.run s = (.ok text, t)) :
    t.hoisted = s.hoisted ↔ (Node.expr e).sources s.hoistArrays = [] := by
  obtain ⟨-, groups, hoisted, emits⟩ := (hoists_lower e).exprText s t text run
  rw [List.append_nil] at emits
  rw [hoisted, List.append_right_eq_self, flatten_eq_nil_iff emits]

/-- A step that succeeds meets nothing that is refused. -/
theorem Converts.clean {α : Type} {step : Lowering α} {held : List Code} {tally : Tally}
    {lines : α → List Code} (h : Converts cls step held tally lines) {s t : State} {a : α}
    (run : step.run.run s = (.ok a, t)) : tally.refused = ∅ := by
  rcases h.outcome s with ⟨_, _, -, -, clean, -⟩ | ⟨k, u, fails, -⟩
  · exact clean
  · rw [run] at fails
    cases fails

/-- What lies in a node that is converted is converted from any state. -/
theorem run_of_within {n : Node} {e : Expr} (clean : n.fullTally.refused = ∅)
    (within : (Node.expr e).Within n) (s : State) :
    ∃ text t, (exprText cls e).run.run s = (.ok text, t) := by
  have converts : Converts cls (exprText cls e) [] (Node.expr e).fullTally fun _ => [] :=
    converts_exprText e
  rcases converts.outcome s with ⟨text, t, run, -⟩ | ⟨k, t, -, -, refused⟩
  · exact ⟨text, t, run⟩
  · have visited : .expr e ∈ nodesOf [n] := mem_nodesOf.2 ⟨n, List.mem_singleton_self n, within⟩
    rw [Tally.refused_eq_empty_of_mem clean visited] at refused
    cases refused

/-- The lines of an expression or of a `switch`, in which nothing is refused. -/
theorem nodeText_hoists {unit : String} {n : Node}
    (kind : (∃ e, n = .expr e) ∨ ∃ subject cases, n = .stmt (.switch subject cases)) {s t : State}
    {text : String} (run : (nodeText cls unit n).run.run s = (.ok text, t)) :
    n.fullTally.refused = ∅ ∧ ∃ groups : List (List Code), t.hoisted = s.hoisted ++ groups.flatten ∧
      List.Forall₂ Expr.Emits (n.sources s.hoistArrays) groups := by
  rcases kind with ⟨e, rfl⟩ | ⟨subject, cases, rfl⟩
  · obtain ⟨-, groups, hoisted, emits⟩ := (hoists_lower e).exprText s t text run
    exact ⟨(converts_exprText e).clean run, groups, hoisted, by simpa using emits⟩
  · obtain ⟨code, u, converted, rendered⟩ := exists_of_run_bind run
    cases rendered
    obtain ⟨-, groups, hoisted, emits⟩ := hoists_switch subject cases s _ code converted
    exact ⟨(converts_stmt _).clean converted, groups, hoisted, by simpa using emits⟩

/-- The lines that an expression or a `switch` hoists come in groups, one for each origin. All of
them come from what the source always runs exactly if every operand that may not run is converted
without hoisting a line, wherever it is converted. -/
theorem hoisted_from_always_iff {cls unit : String} {n : Node}
    (kind : (∃ e, n = .expr e) ∨ ∃ subject cases, n = .stmt (.switch subject cases)) {s t : State}
    {text : String} (run : (nodeText cls unit n).run.run s = (.ok text, t)) :
    ∃ groups : List (List Code), t.hoisted = s.hoisted ++ groups.flatten ∧
      List.Forall₂ (fun origin lines => origin.expr.Emits lines) (n.origins s.hoistArrays true)
        groups ∧
      ((∀ origin ∈ n.origins s.hoistArrays true, origin.always = true) ↔
        ∀ e, n.Defers s.hoistArrays e → ∀ s' : State, s'.hoistArrays = s.hoistArrays →
          ∃ value t', (exprText cls e).run.run s' = (.ok value, t') ∧ t'.hoisted = s'.hoisted) := by
  obtain ⟨clean, groups, hoisted, emits⟩ := nodeText_hoists kind run
  refine ⟨groups, hoisted, List.forall₂_map_left_iff.1 emits, ?_⟩
  rw [n.origins_always_iff]
  constructor
  · intro none e defers s' mode
    obtain ⟨value, t', converted⟩ := run_of_within clean defers.within s'
    refine ⟨value, t', converted, (hoisted_eq_iff converted).2 ?_⟩
    rw [mode]
    exact none e defers
  · intro silent e defers
    obtain ⟨value, t', converted, same⟩ := silent e defers s rfl
    exact (hoisted_eq_iff converted).1 same

/-- `switch (x = f()) { case g()[0]: case a || b: }`: the second test may not run, and it hoists no
line. -/
theorem hoisted_from_always_iff_switch :
    let second : Expr := .binary .booleanOr (.named "a") (.named "b")
    let n : Node := .stmt (.switch (.assignTo (.named "x") (.callOf "f" []))
      [⟨some (.dim (.callOf "g" []) (some (.int 0))), []⟩, ⟨some second, []⟩])
    ((nodeText "A" "" n).run.run {}).2.hoisted = [.set "x" "f()", .keep "tmpDim1" "g()"] ∧
      ∀ s' : State, s'.hoistArrays = false →
        ∃ value t', (exprText "A" second).run.run s' = (.ok value, t') ∧ t'.hoisted = s'.hoisted := by
  intro second n
  have always : ∀ origin ∈ n.origins false true, origin.always = true := by
    simp [n, second, Expr.named, Expr.assignTo, Expr.callOf, Node.origins_eq, Node.turns, Expr.turns,
      Turn.origins, Turn.oneByOne, Turn.rightOf, BinaryOp.isLazy, Node.ofExpr, Expr.takesIndex]
  have converted : ((nodeText "A" "" n).run.run {}).1.isOk := by decide +kernel
  refine ⟨by decide +kernel, ?_⟩
  rcases run : (nodeText "A" "" n).run.run {} with ⟨r, t⟩
  cases r with
  | error e =>
    rw [run] at converted
    cases converted
  | ok text =>
    obtain ⟨-, -, -, silent⟩ := hoisted_from_always_iff (.inr ⟨_, _, rfl⟩) run
    exact silent.1 always second (.here (by simp [second, Node.turns, Turn.oneByOne]))

/-- `a && (b = f())`: the call runs only if `a` holds, but its line stands before the statement. -/
theorem deferred_call_hoisted :
    let call : Expr := .assignTo (.named "b") (.callOf "f" [])
    let e : Expr := .binary .booleanAnd (.named "a") call
    ((exprText "A" e).run.run {}).1 = .ok "a && b" ∧
      ((exprText "A" e).run.run {}).2.hoisted = [.set "b" "f()"] ∧
      (Node.expr e).origins false true = [⟨call, false⟩] := by
  intro call e
  refine ⟨by decide +kernel, by decide +kernel, ?_⟩
  simp [e, call, Expr.named, Expr.assignTo, Expr.callOf, Node.origins_eq, Node.turns, Expr.turns,
    Turn.origins, Turn.rightOf, BinaryOp.isLazy, Node.ofExpr]

end Zephirize
