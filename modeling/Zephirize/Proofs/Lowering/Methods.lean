import Zephirize.Proofs.Lowering.Collection
import Zephirize.Proofs.Typing.Resolution

/-!
# Converting methods

What the conversion of a heading and of a method does, given the tallies of the default values and
of the body. A method starts from a state of its own, so what it queues does not depend on the
members before it.
-/

namespace Zephirize

open Lowering

variable {cls : String}

/-! ### Headings -/

theorem converts_paramTypeText (name : String) (type : Option UnionType) :
    Converts cls (paramTypeText cls name type) [] 0 fun _ => [] := by
  cases type with
  | none => exact .pure (.refl [])
  | some union =>
    unfold paramTypeText
    dsimp only
    split
    · rename_i member sole
      obtain ⟨text, run⟩ := (UnionType.written_of_soleType sole).render_eq_ok
      rw [run]
      cases text with
      | none => exact .pure (.refl [])
      | some text => exact .pure (.refl [])
    · exact .informed (.pure (.refl []))
    · exact .pure (.refl [])

theorem converts_defaultText (value : Option Expr) :
    Converts cls (defaultText cls value) [] (.of (value.toList.map .expr)) fun _ => [] := by
  cases value with
  | none => exact .congr (.pure (.refl [])) (by simp)
  | some value => exact .congr (.bind (converts_exprText value) fun _ => .pure (.refl [])) (by simp)

theorem converts_paramTexts : ∀ params : List (Param × ParamSpec),
    Converts cls (paramTexts cls params) []
      (.of ((params.filterMap fun p => p.2.value).map .expr)) fun _ => []
  | [] => .congr (.pure (.refl [])) (by simp)
  | (p, spec) :: rest => by
    refine .congr (.bind (.bind (converts_paramTypeText p.name spec.type) fun _ =>
      .bind (converts_defaultText spec.value) fun _ => .pure (.refl [])) fun _ =>
      .bind (converts_paramTexts rest) fun _ => .pure (.refl [])) ?_
    rw [List.filterMap_cons]
    cases spec.value <;> simp

theorem run_reportParams (params : List Param) :
    ∃ notes, ∀ s : State, (reportParams cls params).run.run s = (.ok (), s.noting notes) := by
  induction params with
  | nil => exact ⟨fun _ => [], fun s => by rw [s.noting_nil]; rfl⟩
  | cons p rest ih =>
    obtain ⟨byRef, run⟩ := run_reportIf p.byRef cls "reference"
      ("Reference not supported in parameter (var \"" ++ p.name ++ "\")") ("param $" ++ p.name)
    obtain ⟨variadic, run'⟩ := run_reportIf p.variadic cls "variadic"
      ("Variadic parameter \"" ++ p.name ++ "\" converted to a plain one") ("param $" ++ p.name)
    obtain ⟨more, run''⟩ := ih
    refine ⟨fun method => byRef method ++ (variadic method ++ more method), fun s => ?_⟩
    have first : (reportParam cls p).run.run s =
        (.ok (), (s.noting byRef).noting variadic) := by
      rw [reportParam, run_bind_ok (run s), run']
    rw [reportParams, run_bind_ok first, run'', State.noting_noting, State.noting_noting]

/-- The signature is resolved without touching more than the diagnostics. -/
theorem run_resolveSignature (ctx : Context) (m : Method) :
    ∃ notes, ∀ s : State, (resolveSignature ctx m).run.run s =
      ((ctx.resolver.signature ctx.scope m).1.mapError .malformedType, s.noting notes) := by
  unfold resolveSignature
  rcases ctx.resolver.signature ctx.scope m with ⟨sig, notes⟩
  cases sig with
  | ok sig => exact ⟨fun _ => notes, fun _ => rfl⟩
  | error e => exact ⟨fun _ => notes, fun _ => rfl⟩

theorem run_withResultType (m : Method) (sig : Signature) (head : String) (s : State) :
    (∃ text, (withResultType m sig head).run.run s = (.ok text, s)) ∨
    (∃ e, (withResultType m sig head).run.run s = (.error (.malformedType e), s) ∧
      resultType m sig = .error e) := by
  unfold withResultType
  split
  · exact .inl ⟨_, rfl⟩
  · exact .inl ⟨_, rfl⟩
  · rename_i e fault
    exact .inr ⟨e, rfl, fault⟩

/-- The specifications of parameters have the default values of the parameters. -/
theorem filterMap_zip_value {params : List Param} {specs : List ParamSpec}
    (h : specs.map ParamSpec.value = params.map Param.value) :
    (params.zip specs).filterMap (fun p => p.2.value) = params.filterMap Param.value := by
  induction params generalizing specs with
  | nil => simp
  | cons p rest ih =>
    cases specs with
    | nil => simp at h
    | cons spec more =>
      simp only [List.map_cons, List.cons.injEq] at h
      rw [List.zip_cons_cons, List.filterMap_cons, List.filterMap_cons, h.1, ih h.2]

/-- What the conversion of a heading does. It converts the default values in order, and forgets the
lines that they hoist. -/
theorem lowerHead_run (ctx : Context) (m : Method) (s : State) :
    (∃ head t, (lowerHead ctx m).run.run s = (.ok (head, m.paramNames), t) ∧ s.Alike t ∧
      (Tally.of (m.defaults.map .expr)).refused = ∅ ∧ t.hoisted = [] ∧
      t.dims = s.dims + (Tally.of (m.defaults.map .expr)).dims) ∨
    (∃ k t, (lowerHead ctx m).run.run s = (.error (.unsupported k ctx.cls), t) ∧
      k ∈ (Tally.of (m.defaults.map .expr)).refused) ∨
    (∃ e t, (lowerHead ctx m).run.run s = (.error (.malformedType e), t) ∧ ¬ m.IsNamed) := by
  obtain ⟨notes, resolved⟩ := run_resolveSignature ctx m
  rcases signature_run ctx.resolver ctx.scope m with
    ⟨sig, hsig, names, values, written⟩ | ⟨e, hsig, unnamed⟩
  · rw [hsig] at resolved
    obtain ⟨notes', reported⟩ := @run_reportParams ctx.cls m.params
    obtain ⟨notes'', marked⟩ := run_reportIf m.byRef ctx.cls "reference" "Reference not supported"
      ("method " ++ m.name)
    rw [lowerHead, run_bind_ok (resolved s), run_bind_ok (reported _), run_bind_ok (marked _)]
    have params : Converts ctx.cls (paramTexts ctx.cls (m.params.zip sig.params)) []
        (.of (m.defaults.map .expr)) fun _ => [] := by
      rw [Method.defaults, ← filterMap_zip_value values]
      exact converts_paramTexts _
    rcases params.outcome (((s.noting notes).noting notes').noting notes'') with
      ⟨texts, t, run, alike, clean, dims, -⟩ | ⟨k, t, run, -, hk⟩
    · rw [run_bind_ok run, run_bind_ok (run_modify _ t)]
      rcases run_withResultType m sig (m.flags.withVisibility.keywords ++ "function " ++ m.name ++
          "(" ++ ", ".intercalate texts ++ ")") { t with hoisted := [] } with
        ⟨head, typed⟩ | ⟨e, typed, fault⟩
      · refine .inl ⟨head, { t with hoisted := [] }, ?_,
          ⟨alike.method, alike.hoistArrays, alike.loops⟩, clean, rfl, dims⟩
        rw [run_bind_ok typed, names]
        rfl
      · -- The documented result can be written, so it was the declared one.
        refine .inr (.inr ⟨e, _, run_bind_error typed, fun named => ?_⟩)
        obtain ⟨type, ok⟩ := resultType_eq_ok written named
        rw [fault] at ok
        cases ok
    · exact .inr (.inl ⟨k, t, run_bind_error run, hk⟩)
  · rw [hsig] at resolved
    exact .inr (.inr ⟨e, _, run_bind_error (resolved s), unnamed⟩)

theorem uniform_lowerHead (ctx : Context) (m : Method) : Uniform (lowerHead ctx m) := by
  have resolved : Uniform (resolveSignature ctx m) := .ofNotes (run_resolveSignature ctx m)
  have typed : ∀ sig head, Uniform (withResultType m sig head) := by
    intro sig head
    unfold withResultType
    split
    · exact .pure _
    · exact .pure _
    · exact .ofNotes ⟨fun _ => [], fun s => by rw [s.noting_nil]; rfl⟩
  exact resolved.bind fun sig => .bind (.ofNotes (run_reportParams m.params)) fun _ =>
    .bind (.ofNotes (run_reportIf _ _ _ _ _)) fun _ =>
    .bind (@converts_paramTexts ctx.cls _).uniform fun _ =>
    .bind (.setHoisted []) fun _ => .bind (typed sig _) fun _ => .pure _

/-! ### Methods -/

/-- The statements of a method's body. -/
def Method.statements (m : Method) : List Node := (m.body.getD []).map .stmt

/-- The roots of a method's trees: its default values and its statements. -/
def Method.roots (m : Method) : List Node := m.defaults.map .expr ++ m.statements

theorem run_locals (body : List Stmt) (params : List String) (s : State) :
    ((locals cls body params : StateM State (List String)) : Lowering (List String)).run.run s =
      (.ok ((locals cls body params).run s).1, ((locals cls body params).run s).2) := rfl

/-- What the conversion of a body does: the declared variables come from a count that goes on, the
code from a count that starts again. -/
theorem lowerBody_run (cls : String) (body : List Stmt) (params : List String) (s : State) :
    (∃ vars code t log, (lowerBody cls body params).run.run s = (.ok (vars, code), t) ∧
      (Tally.of (body.map .stmt)).refused = ∅ ∧ t.queued = s.queued ++ log ∧
      Accounts { s with dims := 0, created := [] } [] (.of (body.map .stmt)) log code ∧
      ∀ name, name ∈ vars ↔ name ∉ params ∧
        ((∃ x ∈ sourceNames (body.map .stmt), DeclaredAs x name) ∨
          name ∈ (Tally.of (body.map .stmt)).temps false ∨
          name ∈ dimRange s.dims (Tally.of (body.map .stmt)).dims)) ∨
    (∃ k t, (lowerBody cls body params).run.run s = (.error (.unsupported k cls), t) ∧
      k ∈ (Tally.of (body.map .stmt)).refused) := by
  rw [lowerBody, run_bind_ok (run_locals body params s)]
  rcases lowerBlock_run cls body ((locals cls body params).run s).2 with
    ⟨code, t, log, run, -, clean, queued, accounts⟩ | ⟨k, t, run, -, hk⟩
  · obtain ⟨vars, found, -, mem⟩ := locals_run cls clean params s
    rw [found] at run queued accounts ⊢
    refine .inl ⟨vars, code, t, log, ?_, clean, queued, accounts, mem⟩
    rw [run_bind_ok run]
    rfl
  · exact .inr ⟨k, t, run_bind_error run, hk⟩

/-- The lines that converting the heading of a method hoists. -/
def headLines (ctx : Context) (m : Method) : List Code := ((lowerHead ctx m).run.run {}).2.queued

theorem State.agree_reset (s : State) (method : Option String) :
    ({} : State).Agree (s.reset method) :=
  ⟨rfl, rfl, rfl, rfl, rfl⟩

/-- What a step queues at the start of a member depends on nothing that happened before. -/
theorem Uniform.queued_reset {α : Type} {x : Lowering α} (hx : Uniform x) (s : State)
    (method : Option String) {r : Except Refusal α} {t : State}
    (run : x.run.run (s.reset method) = (r, t)) :
    t.queued = s.queued ++ (x.run.run {}).2.queued := by
  obtain ⟨r', u, t', lines, notes, start, run', -, logs, logs'⟩ := hx {} _ (s.agree_reset method)
  rw [run] at run'
  cases run'
  rw [start, logs.queued, logs'.queued]
  rfl

/-- What the conversion of a method does. -/
theorem lowerMethod_run (ctx : Context) (m : Method) (s : State) :
    (∃ code t log, (lowerMethod ctx m).run.run s = (.ok code, t) ∧
      (Tally.of (m.defaults.map .expr)).refused = ∅ ∧ (Tally.of m.statements).refused = ∅ ∧
      t.queued = s.queued ++ headLines ctx m ++ log ∧
      ∀ q ∈ log, ∃ body ∈ code.body, q ∈ Code.partsOf body.2) ∨
    (∃ k t, (lowerMethod ctx m).run.run s = (.error (.unsupported k ctx.cls), t) ∧
      (k ∈ (Tally.of (m.defaults.map .expr)).refused ∨ k ∈ (Tally.of m.statements).refused)) ∨
    (∃ e t, (lowerMethod ctx m).run.run s = (.error (.malformedType e), t) ∧ ¬ m.IsNamed) := by
  rw [lowerMethod, run_bind_ok (run_modify _ s)]
  rcases lowerHead_run ctx m (s.reset (some m.name)) with
    ⟨head, t, run, alike, clean, -⟩ | ⟨k, t, run, hk⟩ | ⟨e, t, run, unnamed⟩
  · have queued := (uniform_lowerHead ctx m).queued_reset s _ run
    rw [run_bind_ok run, Method.statements]
    dsimp only
    cases m.body with
    | none =>
      exact .inl ⟨_, t, [], rfl, clean, by simp, by rw [queued, List.append_nil]; rfl, by simp⟩
    | some body =>
      rcases lowerBody_run ctx.cls body m.paramNames t with
        ⟨vars, code, u, log, converted, cleanBody, more, accounts, -⟩ | ⟨k, u, converted, hk⟩
      · refine .inl ⟨_, u, log, by rw [run_bind_ok converted]; rfl, clean, cleanBody,
          by rw [more, queued]; rfl, fun q hq => ⟨(vars, code), rfl, accounts.logged q hq⟩⟩
      · exact .inr (.inl ⟨k, u, run_bind_error converted, .inr hk⟩)
  · exact .inr (.inl ⟨k, t, run_bind_error run, .inl hk⟩)
  · exact .inr (.inr ⟨e, t, run_bind_error run, unnamed⟩)

/-- The body of a converted method is converted after the heading, with the count at the number of
temporaries of the default values. -/
theorem lowerMethod_body {ctx : Context} {m : Method} {s t : State} {code : MethodCode}
    {body : List Stmt} (h : (lowerMethod ctx m).run.run s = (.ok code, t))
    (hbody : m.body = some body) :
    ∃ vars lines u, code.body = some (vars, lines) ∧
      u.dims = (Tally.of (m.defaults.map .expr)).dims ∧ u.hoistArrays = false ∧ u.loops = [] ∧
      (lowerBody ctx.cls body m.paramNames).run.run u = (.ok (vars, lines), t) := by
  rw [lowerMethod, run_bind_ok (run_modify _ s)] at h
  rcases lowerHead_run ctx m (s.reset (some m.name)) with
    ⟨head, u, run, alike, -, -, dims⟩ | ⟨k, u, run, -⟩ | ⟨e, u, run, -⟩
  · rw [run_bind_ok run] at h
    dsimp only at h
    rw [hbody] at h
    rcases lowerBody_run ctx.cls body m.paramNames u with
      ⟨vars, lines, v, log, converted, -⟩ | ⟨k, v, converted, -⟩
    · rw [run_bind_ok converted] at h
      cases h
      exact ⟨vars, lines, u, rfl, dims.trans (Nat.zero_add _), alike.hoistArrays, alike.loops,
        converted⟩
    · rw [run_bind_error converted] at h
      cases h
  · rw [run_bind_error run] at h
    cases h
  · rw [run_bind_error run] at h
    cases h

end Zephirize
