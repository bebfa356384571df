import Zephirize.Proofs.Code.Parts
import Zephirize.Proofs.Lowering.Tally
import Zephirize.Proofs.Lowering.Uniform

/-!
# Steps of a conversion and what they do

`Converts cls step held tally lines` says all that later proofs need of a step. The step is uniform,
and whatever the state is,

* the step keeps the method, the loops and the mode of the state, also when it fails (`State.Alike`);
* it fails exactly when the tally has a refused kind, and then with one of these kinds;
* when it succeeds, the state advances as the tally says, and no line is lost (`Advance`).

Lines are treated as goods that change hands. A step may start with lines in hand (`held`), it may
put lines with those that wait in the state, and it hands on `lines a` with its result `a`. What it
had and what it hoisted is afterwards among the waiting lines or in hand.

The rules below follow the ways in which steps are put together, so that a proof about a step has
the shape of the step.
-/

namespace Zephirize

/-- The temporaries for `k` indexed fetches after the first `n`. -/
def dimRange (n k : ℕ) : List String := (List.range' (n + 1) k).map dimTemp

@[simp]
theorem dimRange_zero (n : ℕ) : dimRange n 0 = [] := rfl

theorem dimRange_one (n : ℕ) : dimRange n 1 = [dimTemp (n + 1)] := rfl

theorem dimRange_add (n j k : ℕ) : dimRange n (j + k) = dimRange n j ++ dimRange (n + j) k := by
  rw [dimRange, dimRange, dimRange, ← List.map_append, Nat.add_right_comm n j 1]
  congr 1
  rw [← List.range'_append, Nat.one_mul]

theorem mem_dimRange {x : String} {n k : ℕ} :
    x ∈ dimRange n k ↔ ∃ i, n < i ∧ i ≤ n + k ∧ dimTemp i = x := by
  simp only [dimRange, List.mem_map, List.mem_range'_1]
  constructor
  · rintro ⟨i, ⟨low, high⟩, rfl⟩
    exact ⟨i, by omega, by omega, rfl⟩
  · rintro ⟨i, low, high, rfl⟩
    exact ⟨i, ⟨by omega, by omega⟩, rfl⟩

/-- The temporaries that a tally announces for a conversion from this state. -/
def Tally.names (tally : Tally) (s : State) : Set String :=
  {x | x ∈ tally.temps s.hoistArrays ∨ x ∈ dimRange s.dims tally.dims}

/-- The lines to run before the innermost loop continues. -/
def State.pending (s : State) : List Code := s.loops.headD []

/-- The state `t` has the method, the loops and the mode of `s`. -/
structure State.Alike (s t : State) : Prop where
  method : t.method = s.method
  hoistArrays : t.hoistArrays = s.hoistArrays
  loops : t.loops = s.loops

theorem State.Alike.refl (s : State) : s.Alike s := ⟨rfl, rfl, rfl⟩

theorem State.Alike.trans {s t u : State} (h : s.Alike t) (h' : t.Alike u) : s.Alike u :=
  ⟨h'.method.trans h.method, h'.hoistArrays.trans h.hoistArrays, h'.loops.trans h.loops⟩

/-- The code `out` has the hoisted lines `log` and all that was in hand, and the temporaries that it
assigns are those of the lines in hand, those of the tally, and maybe some of the pending lines. -/
structure Accounts (s : State) (held : List Code) (tally : Tally) (log out : List Code) : Prop where
  logged : ∀ q ∈ log, q ∈ Code.partsOf out
  parts : ∀ q ∈ Code.partsOf held, q ∈ Code.partsOf out
  assigned : ∀ x ∈ tally.names s, x ∈ Code.tempsOf out
  known : ∀ x ∈ Code.tempsOf out,
    x ∈ Code.tempsOf held ∨ x ∈ tally.names s ∨ x ∈ Code.tempsOf s.pending

/-- The state advances from `s` to `t` as the tally says, and `lines` are handed on. -/
structure Advance (s t : State) (held : List Code) (tally : Tally) (lines : List Code) : Prop where
  dims : t.dims = s.dims + tally.dims
  created : t.created = s.created ++ dimRange s.dims tally.dims
  hoisted : ∃ new log, t.hoisted = s.hoisted ++ new ∧ t.queued = s.queued ++ log ∧
    Accounts s held tally log (new ++ lines)

/-- What a step does, whatever state it starts from. -/
structure Converts {α : Type} (cls : String) (step : Lowering α) (held : List Code) (tally : Tally)
    (lines : α → List Code) : Prop where
  uniform : Uniform step
  outcome : ∀ s : State,
    (∃ a t, step.run.run s = (.ok a, t) ∧ s.Alike t ∧ tally.refused = ∅ ∧
      Advance s t held tally (lines a)) ∨
    (∃ k t, step.run.run s = (.error (.unsupported k cls), t) ∧ s.Alike t ∧ k ∈ tally.refused)

/-! ### Accounts add up -/

section Accounts

variable {s t : State} {held mid out : List Code} {a b : Tally} {log log' : List Code}

theorem Tally.mem_names_add {x : String} (alike : s.Alike t) (dims : t.dims = s.dims + a.dims) :
    x ∈ (a + b).names s ↔ x ∈ a.names s ∨ x ∈ b.names t := by
  simp only [Tally.names, Set.mem_ofPred_eq, Tally.add_temps, Tally.add_dims, dimRange_add,
    Set.mem_union, List.mem_append, alike.hoistArrays, dims]
  tauto

/-- Outside of loops, the code assigns the temporaries of the tally and no others. -/
theorem Accounts.mem_temps {x : String} (h : Accounts s [] a log out) (loops : s.loops = []) :
    x ∈ Code.tempsOf out ↔ x ∈ a.names s := by
  refine ⟨fun hx => ?_, h.assigned x⟩
  have known := h.known x hx
  simpa [State.pending, loops] using known

/-- Two accounts in a row: what the first one hands on is in hand for the second one. -/
theorem Accounts.trans {new : List Code} (alike : s.Alike t) (dims : t.dims = s.dims + a.dims)
    (h : Accounts s held a log (new ++ mid)) (h' : Accounts t mid b log' out) :
    Accounts s held (a + b) (log ++ log') (new ++ out) := by
  -- A statement of the first account is hoisted already, or in hand for the second account.
  have forward : ∀ q ∈ Code.partsOf (new ++ mid), q ∈ Code.partsOf (new ++ out) := by
    intro q hq
    rw [Code.partsOf_append, List.mem_append] at hq ⊢
    exact hq.imp_right (h'.parts q)
  have forwardTemps : ∀ x ∈ Code.tempsOf (new ++ mid), x ∈ Code.tempsOf (new ++ out) := by
    intro x hx
    obtain ⟨q, hq, hx⟩ := Code.mem_tempsOf.1 hx
    exact Code.mem_tempsOf.2 ⟨q, forward q hq, hx⟩
  constructor
  · intro q hq
    rcases List.mem_append.1 hq with hq | hq
    · exact forward q (h.logged q hq)
    · rw [Code.partsOf_append, List.mem_append]
      exact .inr (h'.logged q hq)
  · exact fun q hq => forward q (h.parts q hq)
  · intro x hx
    rcases (Tally.mem_names_add alike dims).1 hx with hx | hx
    · exact forwardTemps x (h.assigned x hx)
    · rw [Code.tempsOf_append, List.mem_append]
      exact .inr (h'.assigned x hx)
  · intro x hx
    have first : x ∈ Code.tempsOf (new ++ mid) → _ := h.known x
    rw [Code.tempsOf_append, List.mem_append] at hx first
    rw [Tally.mem_names_add alike dims]
    rcases hx with hx | hx
    · have := first (.inl hx)
      tauto
    · have pending : t.pending = s.pending := by rw [State.pending, State.pending, alike.loops]
      rcases h'.known x hx with hx | hx | hx
      · have := first (.inr hx)
        tauto
      · tauto
      · rw [pending] at hx
        tauto

/-- Lines in hand are handed on by who does not need them. -/
theorem Accounts.holding {new lines : List Code} (h : Accounts s [] a log (new ++ lines))
    (extra : List Code) : Accounts s extra a log (new ++ (extra ++ lines)) := by
  have more : ∀ q, q ∈ Code.partsOf (new ++ lines) → q ∈ Code.partsOf (new ++ (extra ++ lines)) := by
    intro q hq
    simp only [Code.partsOf_append, List.mem_append] at hq ⊢
    tauto
  constructor
  · exact fun q hq => more q (h.logged q hq)
  · intro q hq
    simp only [Code.partsOf_append, List.mem_append]
    tauto
  · intro x hx
    obtain ⟨q, hq, hx⟩ := Code.mem_tempsOf.1 (h.assigned x hx)
    exact Code.mem_tempsOf.2 ⟨q, more q hq, hx⟩
  · intro x hx
    have := h.known x
    simp only [Code.tempsOf_append, Code.tempsOf_nil, List.mem_append, List.not_mem_nil,
      false_or] at hx this
    tauto

end Accounts

/-! ### Rules -/

namespace Converts

open Lowering

variable {α β : Type} {cls : String} {held mid : List Code} {tally : Tally}

/-- A step that only adds notes. -/
theorem ofNotes {step : Lowering α} {a : α} {lines : α → List Code}
    (h : ∃ notes, ∀ s : State, step.run.run s = (.ok a, s.noting notes))
    (carries : Code.Carries held (lines a)) : Converts cls step held 0 lines := by
  refine ⟨.ofNotes h, fun s => ?_⟩
  obtain ⟨notes, run⟩ := h
  refine .inl ⟨a, _, run s, ⟨rfl, rfl, rfl⟩, rfl, by simp [State.noting], by simp [State.noting], [],
    [], by simp [State.noting], by simp [State.noting], ?_⟩
  constructor
  · simp
  · exact carries.parts
  · simp [Tally.names]
  · exact fun x hx => .inl (carries.temps hx)

theorem pure {a : α} {lines : α → List Code} (h : Code.Carries held (lines a)) :
    Converts cls (Pure.pure a) held 0 lines :=
  ofNotes ⟨fun _ => [], fun s => by rw [s.noting_nil]; rfl⟩ h

/-- A result with an assignment to a temporary in front of the lines in hand. -/
theorem pureKeep {a : α} {lines : α → List Code} {temp value : String}
    (h : lines a = .keep temp value :: held) :
    Converts cls (Pure.pure a) held (.named {temp}) lines := by
  refine ⟨.pure a, fun s => ?_⟩
  refine .inl ⟨a, s, rfl, .refl s, rfl, by simp [Tally.named], by simp [Tally.named], [], [],
    by simp, by simp, ?_⟩
  constructor
  · simp
  · intro q hq
    simp [h, hq]
  · simp [Tally.names, Tally.named, h]
  · intro x hx
    simp only [h, List.nil_append, Code.tempsOf_keep, List.mem_cons] at hx
    simp only [Tally.names, Tally.named, Set.mem_ofPred_eq, Set.mem_singleton_iff]
    tauto

theorem refuse {kind : Kind} {lines : α → List Code} (h : kind ∈ tally.refused) :
    Converts cls (Lowering.refuse cls kind) held tally lines :=
  ⟨.refuse cls kind, fun s => .inr ⟨kind, s, rfl, .refl s, h⟩⟩

/-- Lines in hand are hoisted. -/
theorem hoist (lines : List Code) : Converts cls (Lowering.hoist lines) lines 0 fun _ => [] := by
  refine ⟨.hoist lines, fun s => ?_⟩
  refine .inl ⟨(), _, rfl, ⟨rfl, rfl, rfl⟩, rfl, by simp, by simp, lines, lines, rfl, rfl, ?_⟩
  rw [List.append_nil]
  exact ⟨fun _ => Code.mem_partsOf, fun _ h => h, by simp [Tally.names], fun _ h => .inl h⟩

theorem bind {x : Lowering α} {f : α → Lowering β} {a b : Tally} {mid : α → List Code}
    {lines : β → List Code} (hx : Converts cls x held a mid)
    (hf : ∀ r, Converts cls (f r) (mid r) b lines) : Converts cls (x >>= f) held (a + b) lines := by
  refine ⟨hx.uniform.bind fun r => (hf r).uniform, fun s => ?_⟩
  rcases hx.outcome s with ⟨r, t, run, alike, clean, adv⟩ | ⟨k, t, run, alike, hk⟩
  · rcases (hf r).outcome t with ⟨r', u, run', alike', clean', adv'⟩ | ⟨k, u, run', alike', hk⟩
    · refine .inl ⟨r', u, by rw [run_bind_ok run, run'], alike.trans alike', by simp [clean, clean'],
        ?_⟩
      obtain ⟨dims, created, new, log, hoisted, queued, accounts⟩ := adv
      obtain ⟨dims', created', new', log', hoisted', queued', accounts'⟩ := adv'
      refine ⟨?_, ?_, new ++ new', log ++ log', ?_, ?_, ?_⟩
      · rw [dims', dims, Tally.add_dims, Nat.add_assoc]
      · rw [created', created, dims, Tally.add_dims, dimRange_add, List.append_assoc]
      · rw [hoisted', hoisted, List.append_assoc]
      · rw [queued', queued, List.append_assoc]
      · rw [List.append_assoc]
        exact accounts.trans alike dims accounts'
    · exact .inr ⟨k, u, by rw [run_bind_ok run, run'], alike.trans alike', .inr hk⟩
  · exact .inr ⟨k, t, run_bind_error run, alike, .inl hk⟩

/-- A diagnostic changes nothing for the step after it. -/
theorem reportedIf {holds : Bool} {category message node : String} {f : Unit → Lowering α}
    {lines : α → List Code} (hf : Converts cls (f ()) held tally lines) :
    Converts cls (Lowering.reportIf holds cls category message node >>= f) held tally lines := by
  have report : Converts cls (Lowering.reportIf holds cls category message node) held 0
      fun _ => held := ofNotes (run_reportIf holds cls category message node) (.refl held)
  simpa using report.bind fun _ => hf

theorem reported {category message node : String} {f : Unit → Lowering α}
    {lines : α → List Code} (hf : Converts cls (f ()) held tally lines) :
    Converts cls (Lowering.report cls category message node >>= f) held tally lines :=
  @reportedIf _ _ _ _ true _ _ _ _ _ hf

theorem informed {message node : String} {f : Unit → Lowering α} {lines : α → List Code}
    (hf : Converts cls (f ()) held tally lines) :
    Converts cls (Lowering.inform cls message node >>= f) held tally lines := by
  have inform : Converts cls (Lowering.inform cls message node) held 0 fun _ => held :=
    ofNotes (run_inform cls message node) (.refl held)
  simpa using inform.bind fun _ => hf

/-- Lines in hand are handed on by a step that does not need them. -/
theorem holding {x : Lowering α} {lines : α → List Code} (hx : Converts cls x [] tally lines)
    (extra : List Code) : Converts cls x extra tally fun a => extra ++ lines a := by
  refine ⟨hx.uniform, fun s => ?_⟩
  rcases hx.outcome s with
    ⟨r, t, run, alike, clean, dims, created, new, log, hoisted, queued, accounts⟩ | h
  · exact .inl ⟨r, t, run, alike, clean, dims, created, new, log, hoisted, queued,
      accounts.holding extra⟩
  · exact .inr h

/-- The lines that a step hoists are handed on beside its own. -/
theorem isolate {x : Lowering α} {lines : α → List Code} (hx : Converts cls x held tally lines) :
    Converts cls (Lowering.isolate x) held tally fun r => r.2 ++ lines r.1 := by
  refine ⟨hx.uniform.isolate, fun s => ?_⟩
  rcases hx.outcome { s with hoisted := [] } with
    ⟨r, t, run, alike, clean, adv⟩ | ⟨k, t, run, alike, hk⟩
  · obtain ⟨dims, created, new, log, hoisted, queued, accounts⟩ := adv
    refine .inl ⟨_, _, run_isolate_ok run, ⟨alike.method, alike.hoistArrays, alike.loops⟩, clean,
      dims, created, [], log, by simp, queued, ?_⟩
    rw [show t.hoisted = new by simpa using hoisted]
    exact ⟨accounts.logged, accounts.parts, accounts.assigned, accounts.known⟩
  · exact .inr ⟨k, _, run_isolate_error run, ⟨alike.method, alike.hoistArrays, alike.loops⟩, hk⟩

/-- The body of a loop: the lines to run before it continues are in hand. -/
theorem withinLoop {x : Lowering α} {lines : α → List Code} {pending : List Code}
    (hx : Converts cls x held tally lines)
    (hp : ∀ x ∈ Code.tempsOf pending, x ∈ Code.tempsOf held) :
    Converts cls (Lowering.withinLoop pending x) held tally lines := by
  refine ⟨hx.uniform.withinLoop pending, fun s => ?_⟩
  rcases hx.outcome { s with loops := pending :: s.loops } with
    ⟨r, t, run, alike, clean, adv⟩ | ⟨k, t, run, alike, hk⟩
  · obtain ⟨dims, created, new, log, hoisted, queued, accounts⟩ := adv
    refine .inl ⟨r, _, run_around_ok run, ⟨alike.method, alike.hoistArrays, ?_⟩, clean, dims,
      created, new, log, hoisted, queued, accounts.logged, accounts.parts, accounts.assigned, ?_⟩
    · simp [alike.loops]
    · intro x hx
      rcases accounts.known x hx with hx | hx | hx
      · exact .inl hx
      · exact .inr (.inl hx)
      · exact .inl (hp x hx)
  · refine .inr ⟨k, _, run_around_ok run, ⟨alike.method, alike.hoistArrays, ?_⟩, hk⟩
    simp [alike.loops]

theorem withArrayHoisting {x : Lowering α} {lines : α → List Code}
    (hx : Converts cls x held tally lines) :
    Converts cls (Lowering.withArrayHoisting x) held tally.keepingArrays lines := by
  refine ⟨hx.uniform.withArrayHoisting, fun s => ?_⟩
  rcases hx.outcome { s with hoistArrays := true } with
    ⟨r, t, run, alike, clean, adv⟩ | ⟨k, t, run, alike, hk⟩
  · obtain ⟨dims, created, new, log, hoisted, queued, accounts⟩ := adv
    exact .inl ⟨r, _, run_around_ok run, ⟨alike.method, rfl, alike.loops⟩, clean, dims, created, new,
      log, hoisted, queued, accounts.logged, accounts.parts, accounts.assigned, accounts.known⟩
  · exact .inr ⟨k, _, run_around_ok run, ⟨alike.method, rfl, alike.loops⟩, hk⟩

/-- A step that reads whether array literals are kept. -/
theorem ofMode {f : Bool → Lowering α} {lines : α → List Code} {mode : Bool → Tally}
    (hf : ∀ arrays, Converts cls (f arrays) held (mode arrays) lines)
    (dims : ∀ arrays, (mode arrays).dims = tally.dims)
    (temps : ∀ arrays, (mode arrays).temps arrays = tally.temps arrays)
    (refused : ∀ arrays, (mode arrays).refused = tally.refused) :
    Converts cls (do f (← get).hoistArrays) held tally lines := by
  refine ⟨.get (fun s => (hf s.hoistArrays).uniform) fun agree => by rw [agree.hoistArrays],
    fun s => ?_⟩
  have start : ((do f (← get).hoistArrays) : Lowering α).run.run s =
      (f s.hoistArrays).run.run s := rfl
  have names : (mode s.hoistArrays).names s = tally.names s := by
    rw [Tally.names, Tally.names, temps, dims]
  rw [start]
  rcases (hf s.hoistArrays).outcome s with ⟨r, t, run, alike, clean, adv⟩ | ⟨k, t, run, alike, hk⟩
  · obtain ⟨hdims, created, new, log, hoisted, queued, accounts⟩ := adv
    refine .inl ⟨r, t, run, alike, by rw [← refused, clean], by rw [hdims, dims],
      by rw [created, dims], new, log, hoisted, queued, accounts.logged, accounts.parts, ?_, ?_⟩
    · rw [← names]
      exact accounts.assigned
    · rw [← names]
      exact accounts.known
  · exact .inr ⟨k, t, run, alike, by rw [← refused s.hoistArrays]; exact hk⟩

theorem congr {x : Lowering α} {lines : α → List Code} {a b : Tally}
    (hx : Converts cls x held a lines) (h : a = b) : Converts cls x held b lines := h ▸ hx

/-- A step that accounts for a node and for what the node holds. -/
theorem node {x : Lowering α} {lines : α → List Code} {n : Node}
    (hx : Converts cls x held tally lines) (h : n.tally + .of n.children = tally) :
    Converts cls x held n.fullTally lines :=
  hx.congr (by rw [n.fullTally_eq, h])

end Converts

end Zephirize
