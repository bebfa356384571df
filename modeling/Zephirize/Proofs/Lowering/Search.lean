import Zephirize.Proofs.Lowering.Collection
import Zephirize.Proofs.Lowering.Frames

/-!
# The search for variables leaves nothing behind

The search converts indexed fetches on trial, also such that are refused halfway. What a trial
creates depends on nothing but the count of temporaries: `InStep` says of two steps that from states
with the same count they create the same temporaries and both succeed or both fail, whatever their
texts are. `inStep_lower` states this for the conversions of an expression in two classes.

So a search finds the same names from all states with the same count, and changes nothing but the
count (`Scans`). `locals_frame` puts this together for the variables of a body.
-/

namespace Zephirize

open Lowering

/-- From `s` to `t` the count has come to `n`, and these temporaries were created. -/
structure State.Counts (s t : State) (n : ℕ) (names : List String) : Prop where
  dims : t.dims = n
  created : t.created = s.created ++ names

theorem State.Counts.trans {s t u : State} {m n : ℕ} {names more : List String}
    (h : s.Counts t m names) (h' : t.Counts u n more) : s.Counts u n (names ++ more) :=
  ⟨h'.dims, by rw [h'.created, h.created, List.append_assoc]⟩

/-- From states with the same count, the steps create the same temporaries, and both succeed or both
fail. -/
def InStep {α β : Type} (x : Lowering α) (y : Lowering β) : Prop :=
  ∀ s s' : State, s.dims = s'.dims → ∃ n names,
    (x.run.run s).1.isOk = (y.run.run s').1.isOk ∧
      s.Counts (x.run.run s).2 n names ∧ s'.Counts (y.run.run s').2 n names

namespace InStep

variable {α β γ δ : Type} {cls cls' : String}

/-- Steps that create nothing. -/
theorem ofSilent {x : Lowering α} {y : Lowering β}
    (ok : ∀ s s' : State, (x.run.run s).1.isOk = (y.run.run s').1.isOk)
    (hx : ∀ s : State, s.Counts (x.run.run s).2 s.dims [])
    (hy : ∀ s : State, s.Counts (y.run.run s).2 s.dims []) : InStep x y :=
  fun s s' same => ⟨s.dims, [], ok s s', hx s, same ▸ hy s'⟩

theorem pure (a : α) (b : β) : InStep (Pure.pure a) (Pure.pure b) :=
  ofSilent (fun _ _ => rfl) (fun _ => ⟨rfl, (List.append_nil _).symm⟩)
    fun _ => ⟨rfl, (List.append_nil _).symm⟩

theorem refuse (kind : Kind) :
    InStep (Lowering.refuse cls kind : Lowering α) (Lowering.refuse cls' kind : Lowering β) :=
  ofSilent (fun _ _ => rfl) (fun _ => ⟨rfl, (List.append_nil _).symm⟩)
    fun _ => ⟨rfl, (List.append_nil _).symm⟩

theorem hoist (lines lines' : List Code) : InStep (Lowering.hoist lines) (Lowering.hoist lines') :=
  ofSilent (fun _ _ => rfl) (fun _ => ⟨rfl, (List.append_nil _).symm⟩)
    fun _ => ⟨rfl, (List.append_nil _).symm⟩

theorem reportIf (holds : Bool) (category message node : String) :
    InStep (Lowering.reportIf holds cls category message node)
      (Lowering.reportIf holds cls' category message node) := by
  obtain ⟨notes, run⟩ := run_reportIf holds cls category message node
  obtain ⟨notes', run'⟩ := run_reportIf holds cls' category message node
  refine ofSilent (fun s s' => by rw [run, run']) (fun s => ?_) fun s => ?_
  · rw [run]
    exact ⟨rfl, (List.append_nil _).symm⟩
  · rw [run']
    exact ⟨rfl, (List.append_nil _).symm⟩

theorem newDim : InStep Lowering.newDim Lowering.newDim := by
  intro s s' same
  refine ⟨s.dims + 1, [dimTemp (s.dims + 1)], rfl, ⟨rfl, rfl⟩, ?_⟩
  rw [same]
  exact ⟨rfl, rfl⟩

/-- Steps in a row. The second steps have to go together whatever the results of the first ones. -/
theorem bind {x : Lowering α} {y : Lowering β} {f : α → Lowering γ} {g : β → Lowering δ}
    (hxy : InStep x y) (hfg : ∀ a b, InStep (f a) (g b)) : InStep (x >>= f) (y >>= g) := by
  intro s s' same
  obtain ⟨n, names, ok, counts, counts'⟩ := hxy s s' same
  rcases run : x.run.run s with ⟨r, t⟩
  rcases run' : y.run.run s' with ⟨r', t'⟩
  rw [run, run'] at ok
  rw [run] at counts
  rw [run'] at counts'
  cases r with
  | ok a =>
    cases r' with
    | ok b =>
      obtain ⟨m, more, ok', next, next'⟩ := hfg a b t t' (counts.dims.trans counts'.dims.symm)
      rw [run_bind_ok run, run_bind_ok run']
      exact ⟨m, names ++ more, ok', counts.trans next, counts'.trans next'⟩
    | error e => cases ok
  | error e =>
    cases r' with
    | ok b => cases ok
    | error e' =>
      rw [run_bind_error run, run_bind_error run']
      exact ⟨n, names, rfl, counts, counts'⟩

theorem reportedIf {holds : Bool} {category message node : String} {f : Unit → Lowering α}
    {g : Unit → Lowering β} (h : InStep (f ()) (g ())) :
    InStep (Lowering.reportIf holds cls category message node >>= f)
      (Lowering.reportIf holds cls' category message node >>= g) :=
  (reportIf holds category message node).bind fun _ _ => h

/-- Steps that read whether array literals are kept. -/
theorem ofMode {f : Bool → Lowering α} {g : Bool → Lowering β}
    (h : ∀ arrays arrays', InStep (f arrays) (g arrays')) :
    InStep (do f (← get).hoistArrays) (do g (← get).hoistArrays) :=
  fun s s' same => h s.hoistArrays s'.hoistArrays s s' same

theorem asValue (l l' : Lowered) : InStep l.asValue l'.asValue := by
  cases l <;> cases l'
  case value.value => exact pure _ _
  case assigned.assigned => exact (hoist _ _).bind fun _ _ => pure _ _
  all_goals
    exact ofSilent (fun _ _ => rfl) (fun _ => ⟨rfl, (List.append_nil _).symm⟩)
      fun _ => ⟨rfl, (List.append_nil _).symm⟩

theorem exprText {e : Expr} (he : InStep (lower cls e) (lower cls' e)) :
    InStep (exprText cls e) (exprText cls' e) :=
  he.bind asValue

/-- The value of an expression goes into a further step. -/
theorem value {e : Expr} {k : String → Lowering α} {k' : String → Lowering β}
    (he : InStep (lower cls e) (lower cls' e)) (hk : ∀ text text', InStep (k text) (k' text')) :
    InStep (lower cls e >>= fun l => l.asValue >>= k)
      (lower cls' e >>= fun l => l.asValue >>= k') :=
  he.bind fun l l' => (asValue l l').bind hk

theorem arrayText (items : List Item) (texts texts' : List String) (keep keep' : Bool) :
    InStep (Lowering.arrayText items texts keep) (Lowering.arrayText items texts' keep') := by
  cases keep <;> cases keep'
  all_goals
    exact ofSilent (fun _ _ => rfl) (fun _ => ⟨rfl, (List.append_nil _).symm⟩)
      fun _ => ⟨rfl, (List.append_nil _).symm⟩

theorem baseText (base : Expr) (text text' : String) :
    InStep (Lowering.baseText base text) (Lowering.baseText base text') := by
  unfold Lowering.baseText
  split
  · exact pure _ _
  · exact newDim.bind fun _ _ => (hoist _ _).bind fun _ _ => pure _ _

/-- An assignment to a target, given what is known of it as a list of slots and as a value. -/
theorem assignInto {target : Expr} {text text' : String}
    (ht : InStep (lower cls target) (lower cls' target))
    (slots : ∀ items, target = .list items → ∀ source source',
      InStep (destructure cls source 0 items) (destructure cls' source' 0 items)) :
    InStep (assignInto cls text target) (assignInto cls' text' target) := by
  unfold Zephirize.assignInto
  split
  case h_1 items => exact (slots items rfl _ _).bind fun _ _ => pure _ _
  case h_2 => exact (exprText ht).bind fun _ _ => pure _ _

/-- The index that a slot is read from. -/
theorem indexText {key : Option Expr} (position : ℕ)
    (hk : InStep (lowerOption cls key) (lowerOption cls' key)) :
    InStep (indexText cls position key) (indexText cls' position key) := by
  cases key with
  | none => exact pure _ _
  | some key => rwa [indexText_some, indexText_some]

/-- A value that is passed on, given what is known of it as an array literal and as a value. -/
theorem passedText {value : Expr} (hv : InStep (lower cls value) (lower cls' value))
    (literal : ∀ items, value = .array items →
      InStep (lowerItems cls items) (lowerItems cls' items)) :
    InStep (passedText cls value) (passedText cls' value) := by
  unfold Zephirize.passedText
  split
  case h_1 items => exact (literal items rfl).bind fun _ _ => arrayText items _ _ true true
  case h_2 => exact exprText hv

end InStep

variable {cls cls' : String}

mutual

/-- The conversions of an expression in two classes create the same temporaries. -/
theorem inStep_lower : ∀ e : Expr, InStep (lower cls e) (lower cls' e)
  | .var (.literal name) => by
    rw [lower, lower]
    exact .pure _ _
  | .var (.dynamic name) => by
    rw [lower, lower]
    exact .value (inStep_lower name) fun _ _ => .pure _ _
  | .assign target value byRef => by
    rw [lower_assign_eq, lower_assign_eq]
    exact .reportedIf (.value (inStep_lower value) fun _ _ =>
      .assignInto (inStep_lower target) (inStep_slots target))
  | .assignOp op target value => by
    rw [lower, lower]
    exact .value (inStep_lower value) fun _ _ => .value (inStep_lower target) fun _ _ => .pure _ _
  | .incDec op target => by
    rw [lower, lower]
    exact .value (inStep_lower target) fun _ _ => .pure _ _
  | .property object name => by
    rw [lower, lower]
    exact .value (inStep_lower object) fun _ _ => .pure _ _
  | .dim base index => by
    rw [lower, lower]
    exact .value (inStep_lower base) fun _ _ => .bind (.baseText base _ _) fun _ _ =>
      .bind (inStep_lowerOption index) fun _ _ => .pure _ _
  | .list items => by
    rw [lower, lower]
    exact .bind (inStep_lowerSlots items) fun _ _ => .pure _ _
  | .array items => by
    rw [lower, lower]
    exact InStep.ofMode
      (f := fun keep => do
        let texts ← lowerItems cls items
        return Lowered.value (← Lowering.arrayText items texts keep))
      (g := fun keep => do
        let texts ← lowerItems cls' items
        return Lowered.value (← Lowering.arrayText items texts keep))
      fun keep keep' => .bind (inStep_lowerItems items) fun _ _ =>
        .bind (.arrayText items _ _ keep keep') fun _ _ => .pure _ _
  | .call name args => by
    rw [lower, lower]
    exact .bind (inStep_lowerArgs args) fun _ _ => .pure _ _
  | .methodCall object method args => by
    rw [lower, lower]
    exact .value (inStep_lower object) fun _ _ => .bind (inStep_lowerArgs args) fun _ _ =>
      .pure _ _
  | .staticCall owner method args => by
    rw [lower, lower]
    exact .bind (inStep_lowerArgs args) fun _ _ => .pure _ _
  | .new owner args => by
    rw [lower, lower]
    exact .bind (inStep_lowerArgs args) fun _ _ => .pure _ _
  | .binary op left right => by
    rw [lower, lower]
    exact .value (inStep_lower left) fun _ _ => .value (inStep_lower right) fun _ _ => .pure _ _
  | .unary op operand => by
    rw [lower, lower]
    exact .value (inStep_lower operand) fun _ _ => .pure _ _
  | .ternary test (some yes) no => by
    rw [lower, lower]
    exact .value (inStep_lower test) fun _ _ => .value (inStep_lower yes) fun _ _ =>
      .value (inStep_lower no) fun _ _ => .pure _ _
  | .ternary test none no => by
    rw [lower, lower]
    exact .value (inStep_lower test) fun _ _ => .value (inStep_lower no) fun _ _ => .pure _ _
  | .isset vars => by
    rw [lower, lower]
    exact .bind (inStep_lowerAll vars) fun _ _ => .pure _ _
  | .empty value | .instanceOf value _ | .cast _ value => by
    rw [lower, lower]
    exact .value (inStep_lower value) fun _ _ => .pure _ _
  | .eval _ | .shell _ => by
    rw [lower, lower]
    exact .refuse _
  | .staticProperty .. | .classConst .. | .const _ | .string _ | .int _ | .float _ => by
    rw [lower, lower]
    exact .pure _ _

/-- A list of slots as the target of an assignment. -/
theorem inStep_slots : ∀ (target : Expr) (items : List (Option Item)), target = .list items →
    ∀ source source',
      InStep (destructure cls source 0 items) (destructure cls' source' 0 items)
  | .list items, _, rfl, source, source' => inStep_destructure source source' 0 items

/-- An array literal that is kept whatever the state says. -/
theorem inStep_literal : ∀ (value : Expr) (items : List Item), value = .array items →
    InStep (lowerItems cls items) (lowerItems cls' items)
  | .array items, _, rfl => inStep_lowerItems items

theorem inStep_lowerOption : ∀ e : Option Expr, InStep (lowerOption cls e) (lowerOption cls' e)
  | none => by
    rw [lowerOption, lowerOption]
    exact .pure _ _
  | some e => by
    rw [lowerOption, lowerOption]
    exact .exprText (inStep_lower e)

theorem inStep_lowerAll : ∀ es : List Expr, InStep (lowerAll cls es) (lowerAll cls' es)
  | [] => by
    rw [lowerAll, lowerAll]
    exact .pure _ _
  | e :: rest => by
    rw [lowerAll, lowerAll]
    exact .value (inStep_lower e) fun _ _ => .bind (inStep_lowerAll rest) fun _ _ => .pure _ _

theorem inStep_lowerItem : ∀ item : Item, InStep (lowerItem cls item) (lowerItem cls' item)
  | ⟨some key, value, byRef, unpack⟩ => by
    rw [lowerItem, lowerItem]
    exact .reportedIf (.reportedIf (.value (inStep_lower key) fun _ _ =>
      .value (inStep_lower value) fun _ _ => .pure _ _))
  | ⟨none, value, byRef, unpack⟩ => by
    rw [lowerItem, lowerItem]
    exact .reportedIf (.reportedIf (.exprText (inStep_lower value)))

theorem inStep_lowerItems : ∀ items : List Item,
    InStep (lowerItems cls items) (lowerItems cls' items)
  | [] => by
    rw [lowerItems, lowerItems]
    exact .pure _ _
  | item :: rest => by
    rw [lowerItems, lowerItems]
    exact .bind (inStep_lowerItem item) fun _ _ => .bind (inStep_lowerItems rest) fun _ _ =>
      .pure _ _

theorem inStep_lowerSlots : ∀ items : List (Option Item),
    InStep (lowerSlots cls items) (lowerSlots cls' items)
  | [] => by
    rw [lowerSlots, lowerSlots]
    exact .pure _ _
  | none :: rest => by
    rw [lowerSlots, lowerSlots]
    exact .bind (inStep_lowerSlots rest) fun _ _ => .pure _ _
  | some item :: rest => by
    rw [lowerSlots, lowerSlots]
    exact .bind (inStep_lowerItem item) fun _ _ => .bind (inStep_lowerSlots rest) fun _ _ =>
      .pure _ _

theorem inStep_destructure (source source' : String) (position : ℕ) :
    ∀ items : List (Option Item),
      InStep (destructure cls source position items) (destructure cls' source' position items)
  | [] => by
    rw [destructure, destructure]
    exact .pure _ _
  | none :: rest => by
    rw [destructure, destructure]
    exact inStep_destructure source source' (position + 1) rest
  | some ⟨key, value, byRef, unpack⟩ :: rest => by
    rw [destructure_cons, destructure_cons]
    exact .bind (.indexText position (inStep_lowerOption key)) fun _ _ =>
      .bind (.assignInto (inStep_lower value) (inStep_slots value)) fun _ _ =>
      .bind (inStep_destructure source source' (position + 1) rest) fun _ _ => .pure _ _

theorem inStep_lowerArg : ∀ arg : Argument, InStep (lowerArg cls arg) (lowerArg cls' arg)
  | ⟨value, byRef, unpack⟩ => by
    rw [lowerArg_eq, lowerArg_eq]
    exact .reportedIf (.passedText (inStep_lower value) (inStep_literal value))

theorem inStep_lowerArgs : ∀ args : List Argument,
    InStep (lowerArgs cls args) (lowerArgs cls' args)
  | [] => by
    rw [lowerArgs, lowerArgs]
    exact .pure _ _
  | arg :: rest => by
    rw [lowerArgs, lowerArgs]
    exact .bind (inStep_lowerArg arg) fun _ _ => .bind (inStep_lowerArgs rest) fun _ _ =>
      .pure _ _

end

/-! ### Searches -/

/-- From all states with the same count the search gives the same, whatever the class. It changes
nothing but the count. -/
def Scans {α : Type} (search : String → StateM State α) : Prop :=
  ∀ n, ∃ a m, ∀ (cls : String) (s : State), s.dims = n →
    (search cls).run s = (a, { s with dims := m })

theorem Scans.pure {α : Type} (a : α) : Scans fun _ => (Pure.pure a : StateM State α) := by
  refine fun n => ⟨a, n, fun cls s dims => ?_⟩
  subst dims
  rfl

theorem Scans.bind {α β : Type} {x : String → StateM State α} {f : String → α → StateM State β}
    (hx : Scans x) (hf : ∀ a, Scans fun cls => f cls a) : Scans fun cls => x cls >>= f cls := by
  intro n
  obtain ⟨a, m, first⟩ := hx n
  obtain ⟨b, k, second⟩ := hf a m
  refine ⟨b, k, fun cls s dims => ?_⟩
  have start : (x cls >>= f cls).run s = (f cls ((x cls).run s).1).run ((x cls).run s).2 := rfl
  rw [start, first cls s dims, second cls { s with dims := m } rfl]

/-- A step keeps the method, the loops and the mode, whether it succeeds or not. -/
theorem Framed.alike {α : Type} {step : Lowering α} (h : Framed step) (s : State) :
    s.Alike (step.run.run s).2 := by
  rcases run : step.run.run s with ⟨r, t⟩
  cases r with
  | ok a => exact (h.ok run).toAlike
  | error r => exact h.error run

/-- A trial conversion gives the temporaries that it creates, also if it is refused. -/
theorem scans_dimTemps (e : Expr) : Scans fun cls => dimTemps cls e := by
  intro n
  have inStep (cls : String) : InStep (exprText "" e) (exprText cls e) := (inStep_lower e).exprText
  -- One run gives the count and the names, and all others are in step with it.
  obtain ⟨m, names, -, counts, -⟩ := inStep "" { dims := n } { dims := n } rfl
  refine ⟨names, m, fun cls s dims => ?_⟩
  obtain ⟨m', names', -, counts', trial⟩ := inStep cls { dims := n }
    { s with hoisted := [], diagnostics := [], hoistArrays := false } dims.symm
  obtain rfl : m' = m := counts'.dims.symm.trans counts.dims
  obtain rfl : names' = names := by simpa using counts'.created.symm.trans counts.created
  have framed : Framed (exprText cls e) := (converts_exprText e).framed
  have alike := framed.alike { s with hoisted := [], diagnostics := [], hoistArrays := false }
  rw [dimTemps_eq]
  simp only [trial.created, trial.dims, alike.method, alike.loops, List.drop_left, List.take_left]

theorem scans_visitNames (v : Visit) : Scans fun cls => visitNames cls v := by
  unfold visitNames
  split
  · split_ifs
    · exact .pure _
    · exact scans_dimTemps _
  · exact .pure _

theorem scans_allNames (visits : List Visit) : Scans fun cls => allNames cls visits := by
  induction visits with
  | nil => exact .pure _
  | cons v rest ih => exact (scans_visitNames v).bind fun _ => ih.bind fun _ => .pure _

/-- The search for the variables of a body gives the same from all states with the same count,
whatever the class, and brings everything back but the count, which starts again. -/
theorem locals_scans (body : List Stmt) (params : List String) (n : ℕ) :
    ∃ vars, ∀ (cls : String) (s : State), s.dims = n →
      (locals cls body params).run s = (vars, { s with dims := 0, created := [] }) := by
  obtain ⟨names, m, run⟩ := scans_allNames (descendants (body.map .stmt)) n
  refine ⟨declaredNames params names, fun cls s dims => ?_⟩
  rw [locals_eq, run cls { s with hoisted := [], diagnostics := [], hoistArrays := false } dims]

/-- The search for variables leaves nothing behind, also where the body holds what is refused: all
that it changes is that the count of temporaries starts again. What it finds depends on the body,
the parameters and the count only, so any two searches that come after some other search find the
same. -/
theorem locals_frame (cls : String) (body : List Stmt) (params : List String) (s : State) :
    ((locals cls body params).run s).2 = { s with dims := 0, created := [] } ∧
      (∀ (cls' : String) (s' : State), s'.dims = s.dims →
        ((locals cls' body params).run s').1 = ((locals cls body params).run s).1) ∧
      ∀ (earlier earlier' : List Stmt) (others others' : List String) (u u' : State),
        ((locals cls body params).run ((locals cls earlier others).run u).2).1 =
          ((locals cls body params).run ((locals cls earlier' others').run u').2).1 := by
  have after (earlier : List Stmt) (others : List String) (u : State) :
      ((locals cls earlier others).run u).2.dims = 0 := by
    obtain ⟨vars, run⟩ := locals_scans earlier others u.dims
    rw [run cls u rfl]
  obtain ⟨vars, run⟩ := locals_scans body params s.dims
  obtain ⟨again, rerun⟩ := locals_scans body params 0
  refine ⟨by rw [run cls s rfl], fun cls' s' dims => ?_,
    fun earlier earlier' others others' u u' => ?_⟩
  · rw [run cls' s' dims, run cls s rfl]
  · rw [rerun cls _ (after earlier others u), rerun cls _ (after earlier' others' u')]

end Zephirize
