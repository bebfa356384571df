import Mathlib.Tactic
import Zephirize.Lowering.Stmt

/-!
# Running steps

How the ways to put steps together run, and `Uniform`: a step gives the same result from states that
differ only in the method and in the records of what happened, and adds the same to the records. A
conversion reads no more than the counters, the waiting lines, the mode and the loops, and the name
of the method for its notes, so all its steps are uniform.
-/

namespace Zephirize

/-- The states agree in all that a conversion reads. They may differ in the method and in the
records of what happened. -/
structure State.Agree (s t : State) : Prop where
  dims : t.dims = s.dims
  hoisted : t.hoisted = s.hoisted
  created : t.created = s.created
  hoistArrays : t.hoistArrays = s.hoistArrays
  loops : t.loops = s.loops

theorem State.Agree.refl (s : State) : s.Agree s := ⟨rfl, rfl, rfl, rfl, rfl⟩

/-- From `s` to `t` the records have grown by these lines and these notes. -/
structure State.Logs (s t : State) (lines : List Code) (notes : List Diagnostic) : Prop where
  method : t.method = s.method
  queued : t.queued = s.queued ++ lines
  diagnostics : t.diagnostics = s.diagnostics ++ notes

/-- A change that does not touch the records. -/
theorem State.Logs.silent {s t : State} (method : t.method = s.method)
    (queued : t.queued = s.queued) (diagnostics : t.diagnostics = s.diagnostics) :
    s.Logs t [] [] where
  method
  queued := by rw [queued, List.append_nil]
  diagnostics := by rw [diagnostics, List.append_nil]

theorem State.Logs.refl (s : State) : s.Logs s [] [] := .silent rfl rfl rfl

theorem State.Logs.trans {s t u : State} {lines more : List Code} {notes others : List Diagnostic}
    (h : s.Logs t lines notes) (h' : t.Logs u more others) :
    s.Logs u (lines ++ more) (notes ++ others) where
  method := h'.method.trans h.method
  queued := by rw [h'.queued, h.queued, List.append_assoc]
  diagnostics := by rw [h'.diagnostics, h.diagnostics, List.append_assoc]

/-- The state with more notes, which may name the method. -/
def State.noting (s : State) (notes : Option String → List Diagnostic) : State :=
  { s with diagnostics := s.diagnostics ++ notes s.method }

theorem State.noting_nil (s : State) : (s.noting fun _ => []) = s := by
  rw [noting, List.append_nil]

theorem State.noting_noting (s : State) (notes more : Option String → List Diagnostic) :
    (s.noting notes).noting more = s.noting fun method => notes method ++ more method := by
  rw [noting, noting, noting, List.append_assoc]

/-- From states that agree, the step gives the same result, hoists the same lines and leaves states
that agree. Its notes depend on the method only. -/
def Uniform {α : Type} (step : Lowering α) : Prop :=
  ∀ s s' : State, s.Agree s' → ∃ r t t' lines, ∃ notes : Option String → List Diagnostic,
    step.run.run s = (r, t) ∧ step.run.run s' = (r, t') ∧ t.Agree t' ∧
      s.Logs t lines (notes s.method) ∧ s'.Logs t' lines (notes s'.method)

/-! ### Running steps -/

namespace Lowering

variable {α β : Type}

theorem run_pure (a : α) (s : State) : (pure a : Lowering α).run.run s = (.ok a, s) := rfl

theorem run_bind (x : Lowering α) (f : α → Lowering β) (s : State) :
    (x >>= f).run.run s =
      match x.run.run s with
      | (.ok a, t) => (f a).run.run t
      | (.error e, t) => (.error e, t) := by
  have start : (x >>= f).run.run s = ExceptT.bindCont f (x.run.run s).1 (x.run.run s).2 := rfl
  rw [start]
  rcases x.run.run s with ⟨r, t⟩
  cases r <;> rfl

theorem run_bind_ok {x : Lowering α} {f : α → Lowering β} {s t : State} {a : α}
    (h : x.run.run s = (.ok a, t)) : (x >>= f).run.run s = (f a).run.run t := by
  rw [run_bind, h]

theorem run_bind_error {x : Lowering α} {f : α → Lowering β} {s t : State} {e : Refusal}
    (h : x.run.run s = (.error e, t)) : (x >>= f).run.run s = (.error e, t) := by
  rw [run_bind, h]

theorem run_map (x : Lowering α) (f : α → β) (s : State) :
    (do return f (← x) : Lowering β).run.run s = ((x.run.run s).1.map f, (x.run.run s).2) := by
  rw [run_bind]
  split
  case h_1 h | h_2 h =>
    rw [h]
    rfl

theorem run_modify (f : State → State) (s : State) :
    (modify f : Lowering Unit).run.run s = (.ok (), f s) := rfl

theorem run_around_ok {before : State → State} {after : State → State → State} {x : Lowering α}
    {s t : State} {r : Except Refusal α} (h : x.run.run (before s) = (r, t)) :
    (around before after x).run.run s = (r, after s t) := by
  have start : (around before after x).run.run s =
      ((x.run.run (before s)).1, after s (x.run.run (before s)).2) := rfl
  rw [start, h]

theorem run_isolate {x : Lowering α} {s t : State} {r : Except Refusal α}
    (h : x.run.run { s with hoisted := [] } = (r, t)) :
    (isolate x).run.run s = (r.map (·, t.hoisted), { t with hoisted := s.hoisted }) := by
  have start : (isolate x).run.run s =
      ((x.run.run { s with hoisted := [] }).1.map
          (·, (x.run.run { s with hoisted := [] }).2.hoisted),
        { (x.run.run { s with hoisted := [] }).2 with hoisted := s.hoisted }) := rfl
  rw [start, h]

theorem run_isolate_ok {x : Lowering α} {s t : State} {a : α}
    (h : x.run.run { s with hoisted := [] } = (.ok a, t)) :
    (isolate x).run.run s = (.ok (a, t.hoisted), { t with hoisted := s.hoisted }) := run_isolate h

theorem run_isolate_error {x : Lowering α} {s t : State} {e : Refusal}
    (h : x.run.run { s with hoisted := [] } = (.error e, t)) :
    (isolate x).run.run s = (.error e, { t with hoisted := s.hoisted }) := run_isolate h

theorem run_inBlock_ok {x : Lowering α} {s t : State} {a : α}
    (h : x.run.run { s with hoisted := [] } = (.ok a, t)) :
    (inBlock x).run.run s = (.ok a, { t with hoisted := s.hoisted }) := by
  have taken : takeHoisted.run.run s = (.ok s.hoisted, { s with hoisted := [] }) := rfl
  rw [inBlock, run_bind_ok taken, run_bind_ok h]
  rfl

theorem run_inBlock_error {x : Lowering α} {s t : State} {e : Refusal}
    (h : x.run.run { s with hoisted := [] } = (.error e, t)) :
    (inBlock x).run.run s = (.error e, t) := by
  have taken : takeHoisted.run.run s = (.ok s.hoisted, { s with hoisted := [] }) := rfl
  rw [inBlock, run_bind_ok taken, run_bind_error h]

theorem exists_of_run_fst {x : Lowering α} {s : State} {r : Except Refusal α}
    (h : (x.run.run s).1 = r) : ∃ t, x.run.run s = (r, t) :=
  ⟨_, Prod.ext h rfl⟩

theorem exists_of_run_bind {x : Lowering α} {f : α → Lowering β} {s u : State} {b : β}
    (h : (x >>= f).run.run s = (.ok b, u)) :
    ∃ a t, x.run.run s = (.ok a, t) ∧ (f a).run.run t = (.ok b, u) := by
  rcases first : x.run.run s with ⟨r, t⟩
  cases r with
  | ok a => exact ⟨a, t, rfl, by rw [← run_bind_ok first, h]⟩
  | error r =>
    rw [run_bind_error first] at h
    cases h

theorem exists_of_run_inBlock {x : Lowering α} {s u : State} {a : α}
    (h : (inBlock x).run.run s = (.ok a, u)) :
    ∃ t : State, x.run.run { s with hoisted := [] } = (.ok a, t) ∧
      u = { t with hoisted := s.hoisted } := by
  rcases inside : x.run.run { s with hoisted := [] } with ⟨r, t⟩
  cases r with
  | ok b =>
    rw [run_inBlock_ok inside] at h
    cases h
    exact ⟨t, rfl, rfl⟩
  | error r =>
    rw [run_inBlock_error inside] at h
    cases h

theorem exists_of_run_isolate {x : Lowering α} {s u : State} {r : α × List Code}
    (h : (isolate x).run.run s = (.ok r, u)) :
    ∃ t : State, x.run.run { s with hoisted := [] } = (.ok r.1, t) ∧ r.2 = t.hoisted ∧
      u = { t with hoisted := s.hoisted } := by
  rcases inside : x.run.run { s with hoisted := [] } with ⟨r', t⟩
  cases r' with
  | ok b =>
    rw [run_isolate_ok inside] at h
    cases h
    exact ⟨t, rfl, rfl, rfl⟩
  | error r' =>
    rw [run_isolate_error inside] at h
    cases h

theorem exists_of_run_withinLoop {x : Lowering α} {s u : State} {inner : List Code} {a : α}
    (h : (withinLoop inner x).run.run s = (.ok a, u)) :
    ∃ t : State, x.run.run { s with loops := inner :: s.loops } = (.ok a, t) ∧
      u = { t with loops := t.loops.tail } := by
  rcases inside : x.run.run { s with loops := inner :: s.loops } with ⟨r, t⟩
  rw [withinLoop, run_around_ok inside] at h
  cases h
  exact ⟨t, rfl, rfl⟩

theorem run_reportIf (holds : Bool) (cls category message node : String) :
    ∃ notes, ∀ s : State,
      (reportIf holds cls category message node).run.run s = (.ok (), s.noting notes) := by
  cases holds with
  | false => exact ⟨fun _ => [], fun s => by rw [s.noting_nil]; rfl⟩
  | true =>
    exact ⟨fun method =>
      [⟨.incompatibility category, message, label { method := method } node, cls⟩], fun _ => rfl⟩

theorem run_inform (cls message node : String) :
    ∃ notes, ∀ s : State, (inform cls message node).run.run s = (.ok (), s.noting notes) :=
  ⟨fun method => [⟨.informational, message, label { method := method } node, cls⟩], fun _ => rfl⟩

end Lowering

/-! ### Steps that read little of the state -/

namespace Uniform

open Lowering

variable {α β : Type}

theorem pure (a : α) : Uniform (Pure.pure a : Lowering α) :=
  fun s s' agree => ⟨.ok a, s, s', [], fun _ => [], rfl, rfl, agree, .refl s, .refl s'⟩

theorem refuse (cls : String) (kind : Kind) : Uniform (Lowering.refuse cls kind : Lowering α) :=
  fun s s' agree => ⟨.error (.unsupported kind cls), s, s', [], fun _ => [], rfl, rfl, agree,
    .refl s, .refl s'⟩

/-- A step that only adds notes. -/
theorem ofNotes {x : Lowering α} {r : Except Refusal α}
    (h : ∃ notes, ∀ s : State, x.run.run s = (r, s.noting notes)) : Uniform x := by
  obtain ⟨notes, run⟩ := h
  have logs (s : State) : s.Logs (s.noting notes) [] (notes s.method) :=
    ⟨rfl, (List.append_nil _).symm, rfl⟩
  exact fun s s' agree => ⟨r, _, _, [], notes, run s, run s',
    ⟨agree.dims, agree.hoisted, agree.created, agree.hoistArrays, agree.loops⟩, logs s, logs s'⟩

theorem hoist (lines : List Code) : Uniform (Lowering.hoist lines) := by
  intro s s' agree
  refine ⟨.ok (), _, _, lines, fun _ => [], rfl, rfl,
    ⟨agree.dims, ?_, agree.created, agree.hoistArrays, agree.loops⟩,
    ⟨rfl, rfl, (List.append_nil _).symm⟩, ⟨rfl, rfl, (List.append_nil _).symm⟩⟩
  simp only [agree.hoisted]

/-- A step that does not touch the records. -/
theorem ofSilent {x : Lowering α} {r : State → Except Refusal α} {f : State → State}
    (run : ∀ s : State, x.run.run s = (r s, f s))
    (same : ∀ {s s' : State}, s.Agree s' → r s = r s' ∧ (f s).Agree (f s'))
    (logs : ∀ s : State, s.Logs (f s) [] []) : Uniform x := by
  intro s s' agree
  obtain ⟨result, agree'⟩ := same agree
  exact ⟨r s, f s, f s', [], fun _ => [], run s, by rw [run s', result], agree', logs s, logs s'⟩

theorem newDim : Uniform Lowering.newDim := by
  have run : ∀ u : State, Lowering.newDim.run.run u = (.ok (dimTemp (u.dims + 1)),
      { u with dims := u.dims + 1, created := u.created ++ [dimTemp (u.dims + 1)] }) := fun _ => rfl
  refine .ofSilent run (fun {s s'} agree => ⟨by rw [agree.dims], ?_⟩)
    fun _ => .silent rfl rfl rfl
  refine ⟨?_, agree.hoisted, ?_, agree.hoistArrays, agree.loops⟩
  · simp only [agree.dims]
  · simp only [agree.dims, agree.created]

theorem bind {x : Lowering α} {f : α → Lowering β} (hx : Uniform x) (hf : ∀ a, Uniform (f a)) :
    Uniform (x >>= f) := by
  intro s s' agree
  obtain ⟨r, t, t', lines, notes, run, run', agree, logs, logs'⟩ := hx s s' agree
  cases r with
  | error e =>
    exact ⟨.error e, t, t', lines, notes, run_bind_error run, run_bind_error run', agree, logs,
      logs'⟩
  | ok a =>
    obtain ⟨r, u, u', more, others, next, next', agree, logs₁, logs₁'⟩ := hf a t t' agree
    rw [logs.method] at logs₁
    rw [logs'.method] at logs₁'
    exact ⟨r, u, u', lines ++ more, fun method => notes method ++ others method,
      by rw [run_bind_ok run, next], by rw [run_bind_ok run', next'], agree, logs.trans logs₁,
      logs'.trans logs₁'⟩

theorem around {before : State → State} {after : State → State → State} {x : Lowering α}
    (hx : Uniform x) (hbefore : ∀ {s s' : State}, s.Agree s' → (before s).Agree (before s'))
    (hafter : ∀ {s s' t t' : State}, s.Agree s' → t.Agree t' → (after s t).Agree (after s' t'))
    (start : ∀ s : State, s.Logs (before s) [] []) (keeps : ∀ s t : State, t.Logs (after s t) [] []) :
    Uniform (Lowering.around before after x) := by
  intro s s' agree
  obtain ⟨r, t, t', lines, notes, run, run', agree', logs, logs'⟩ := hx _ _ (hbefore agree)
  rw [(start s).method] at logs
  rw [(start s').method] at logs'
  refine ⟨r, _, _, lines, notes, run_around_ok run, run_around_ok run', hafter agree agree', ?_, ?_⟩
  · simpa using ((start s).trans logs).trans (keeps s t)
  · simpa using ((start s').trans logs').trans (keeps s' t')

theorem withinLoop {x : Lowering α} (hx : Uniform x) (pending : List Code) :
    Uniform (Lowering.withinLoop pending x) := by
  refine hx.around (fun h => ?_) (fun _ h => ?_) (fun _ => .silent rfl rfl rfl)
    fun _ _ => .silent rfl rfl rfl
  · exact ⟨h.dims, h.hoisted, h.created, h.hoistArrays, by simp only [h.loops]⟩
  · exact ⟨h.dims, h.hoisted, h.created, h.hoistArrays, by simp only [h.loops]⟩

theorem withArrayHoisting {x : Lowering α} (hx : Uniform x) :
    Uniform (Lowering.withArrayHoisting x) := by
  refine hx.around (fun h => ?_) (fun h h' => ?_) (fun _ => .silent rfl rfl rfl)
    fun _ _ => .silent rfl rfl rfl
  · exact ⟨h.dims, h.hoisted, h.created, rfl, h.loops⟩
  · exact ⟨h'.dims, h'.hoisted, h'.created, h.hoistArrays, h'.loops⟩

theorem isolate {x : Lowering α} (hx : Uniform x) : Uniform (Lowering.isolate x) := by
  intro s s' agree
  obtain ⟨r, t, t', lines, notes, run, run', agree', logs, logs'⟩ :=
    hx { s with hoisted := [] } { s' with hoisted := [] }
      ⟨agree.dims, rfl, agree.created, agree.hoistArrays, agree.loops⟩
  have both : State.Agree { t with hoisted := s.hoisted } { t' with hoisted := s'.hoisted } :=
    ⟨agree'.dims, agree.hoisted, agree'.created, agree'.hoistArrays, agree'.loops⟩
  refine ⟨r.map (·, t.hoisted), _, _, lines, notes, run_isolate run, ?_, both,
    ⟨logs.method, logs.queued, logs.diagnostics⟩, ⟨logs'.method, logs'.queued, logs'.diagnostics⟩⟩
  rw [run_isolate run', agree'.hoisted]

theorem takeHoisted : Uniform Lowering.takeHoisted := by
  have run : ∀ u : State,
      Lowering.takeHoisted.run.run u = (.ok u.hoisted, { u with hoisted := [] }) := fun _ => rfl
  refine .ofSilent run (fun agree => ⟨by rw [agree.hoisted], ?_⟩) fun _ => .silent rfl rfl rfl
  exact ⟨agree.dims, rfl, agree.created, agree.hoistArrays, agree.loops⟩

theorem setHoisted (lines : List Code) :
    Uniform (modify fun s => { s with hoisted := lines } : Lowering Unit) := by
  refine .ofSilent (run_modify _) (fun agree => ⟨rfl, ?_⟩) fun _ => .silent rfl rfl rfl
  exact ⟨agree.dims, rfl, agree.created, agree.hoistArrays, agree.loops⟩

theorem inBlock {x : Lowering α} (hx : Uniform x) : Uniform (Lowering.inBlock x) :=
  takeHoisted.bind fun outer => hx.bind fun a => (setHoisted outer).bind fun _ => pure a

/-- Reading the state is uniform as long as only what states agree in matters. -/
theorem get {f : State → Lowering α} (hf : ∀ s, Uniform (f s))
    (same : ∀ {s s' : State}, s.Agree s' → f s = f s') : Uniform (MonadState.get >>= f) := by
  intro s s' agree
  obtain ⟨r, t, t', lines, notes, run, run', rest⟩ := hf s s s' agree
  refine ⟨r, t, t', lines, notes, run, ?_, rest⟩
  rw [same agree] at run'
  exact run'

end Uniform

end Zephirize
