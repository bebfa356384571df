import Zephirize.Proofs.Lowering.Statements

/-!
# What a conversion leaves as it was

Blocks and loops put parts of the state aside and bring them back. `Framed` says what is left of
this after a whole step: if the step succeeds, the state has only grown (`State.Continues`), and if
it fails, at least the method, the loops and the mode are those from before the step
(`State.Alike`).

`lowering_framed` states this for blocks and for nodes of every kind. A block brings back even the
lines that wait around it, unless it fails.
-/

namespace Zephirize

open Lowering

/-- From `s` to `t` lines were put after those that wait, notes after those that are recorded, and
the count of temporaries went on by the names that were created. Nothing else has changed. -/
structure State.Continues (s t : State) : Prop extends s.Alike t where
  hoisted : s.hoisted <+: t.hoisted
  diagnostics : s.diagnostics <+: t.diagnostics
  created : ∃ names, t.created = s.created ++ names ∧ t.dims = s.dims + names.length

theorem State.Continues.refl (s : State) : s.Continues s :=
  ⟨.refl s, List.prefix_rfl, List.prefix_rfl, [], (List.append_nil _).symm, rfl⟩

theorem State.Continues.trans {s t u : State} (h : s.Continues t) (h' : t.Continues u) :
    s.Continues u := by
  obtain ⟨names, created, dims⟩ := h.created
  obtain ⟨more, created', dims'⟩ := h'.created
  refine ⟨h.toAlike.trans h'.toAlike, h.hoisted.trans h'.hoisted,
    h.diagnostics.trans h'.diagnostics, names ++ more, ?_, ?_⟩
  · rw [created', created, List.append_assoc]
  · rw [dims', dims, List.length_append, Nat.add_assoc]

/-- A step that succeeds only adds to the state, and one that fails keeps the method, the loops and
the mode. -/
structure Framed {α : Type} (step : Lowering α) : Prop where
  ok : ∀ {s t : State} {a : α}, step.run.run s = (.ok a, t) → s.Continues t
  error : ∀ {s t : State} {r : Refusal}, step.run.run s = (.error r, t) → s.Alike t

namespace Framed

variable {α β : Type}

theorem pure (a : α) : Framed (Pure.pure a : Lowering α) where
  ok := by
    rintro s _ _ ⟨⟩
    exact .refl s
  error := by rintro s _ _ ⟨⟩

theorem bind {x : Lowering α} {f : α → Lowering β} (hx : Framed x) (hf : ∀ a, Framed (f a)) :
    Framed (x >>= f) where
  ok := by
    intro s u b run
    obtain ⟨a, t, first, second⟩ := exists_of_run_bind run
    exact (hx.ok first).trans ((hf a).ok second)
  error := by
    intro s u r run
    rcases first : x.run.run s with ⟨result, t⟩
    cases result with
    | ok a =>
      rw [run_bind_ok first] at run
      exact (hx.ok first).toAlike.trans ((hf a).error run)
    | error r =>
      rw [run_bind_error first] at run
      cases run
      exact hx.error first

end Framed

/-- The notes that a step adds come last, whether it succeeds or not. -/
theorem Uniform.diagnostics_grow {α : Type} {step : Lowering α} (h : Uniform step) (s : State) :
    s.diagnostics <+: (step.run.run s).2.diagnostics := by
  obtain ⟨r, t, _, lines, notes, run, -, -, logs, -⟩ := h s s (.refl s)
  rw [run, logs.diagnostics]
  exact List.prefix_append _ _

theorem Advance.continues {s t : State} {held lines : List Code} {tally : Tally}
    (advance : Advance s t held tally lines) (alike : s.Alike t)
    (diagnostics : s.diagnostics <+: t.diagnostics) : s.Continues t := by
  obtain ⟨new, log, hoisted, -⟩ := advance.hoisted
  have length : (dimRange s.dims tally.dims).length = tally.dims := by simp [dimRange]
  refine ⟨alike, ⟨new, hoisted.symm⟩, diagnostics, _, advance.created, ?_⟩
  rw [length, advance.dims]

theorem Converts.framed {α : Type} {cls : String} {step : Lowering α} {held : List Code}
    {tally : Tally} {lines : α → List Code} (h : Converts cls step held tally lines) :
    Framed step := by
  constructor
  · intro s t a run
    have notes := h.uniform.diagnostics_grow s
    rcases h.outcome s with ⟨_, _, run', alike, -, advance⟩ | ⟨_, _, run', -⟩
    · cases run.symm.trans run'
      rw [run] at notes
      exact advance.continues alike notes
    · cases run.symm.trans run'
  · intro s t r run
    rcases h.outcome s with ⟨_, _, run', -⟩ | ⟨_, _, run', alike, -⟩
    · cases run.symm.trans run'
    · cases run.symm.trans run'
      exact alike

section

variable {cls : String}

theorem framed_lowerBlock (body : List Stmt) : Framed (lowerBlock cls body) :=
  (Converts.inBlock (settles_stmts body)).framed

/-- The lines that wait around a block are brought back. -/
theorem lowerBlock_hoisted {body : List Stmt} {s t : State} {code : List Code}
    (run : (lowerBlock cls body).run.run s = (.ok code, t)) : t.hoisted = s.hoisted := by
  obtain ⟨u, -, rfl⟩ := exists_of_run_inBlock run
  rfl

theorem framed_nodeText (unit : String) (node : Node) : Framed (nodeText cls unit node) := by
  have text (e : Expr) : Framed (exprText cls e) := (converts_exprText e).framed
  cases node with
  | stmt s => exact (converts_stmt s).framed.bind fun _ => .pure _
  | expr e => exact text e
  | argument a => exact (converts_lowerArg a).framed
  | item i => exact (converts_lowerItem i).framed
  | elseIf c => exact (text c.test).bind fun _ => (framed_lowerBlock c.body).bind fun _ => .pure _
  | case c =>
    exact (converts_caseHead c.test).framed.bind fun _ =>
      (framed_lowerBlock c.body).bind fun _ => .pure _
  | handler c => exact (framed_lowerBlock c.body).bind fun _ => .pure _
  | staticLocal v => exact (converts_staticLocal v).framed.bind fun _ => .pure _

/-- Converting keeps what is around it. A block that is converted only adds notes and temporaries,
and the lines that wait are those from before it; a node of any kind only adds lines, notes and
temporaries; and after an error the method, the loops and the mode are those from before. -/
theorem lowering_framed (cls unit : String) :
    (∀ body : List Stmt, Framed (lowerBlock cls body) ∧
      ∀ (s t : State) (code : List Code), (lowerBlock cls body).run.run s = (.ok code, t) →
        t.hoisted = s.hoisted) ∧
      ∀ node : Node, Framed (nodeText cls unit node) :=
  ⟨fun body => ⟨framed_lowerBlock body, fun _ _ _ => lowerBlock_hoisted⟩, framed_nodeText unit⟩

end

end Zephirize
