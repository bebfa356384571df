import Zephirize.Proofs.Lowering.Expressions

/-!
# Converting statements does what their tally says

`converts_stmt` and `converts_block` state for statements and blocks what `converts_lower` states
for expressions. A block takes the lines that wait before each of its statements, so its own notion
`Settles` starts and ends with no line waiting.
-/

namespace Zephirize

open Lowering

variable {cls : String}

/-! ### Where statements stand -/

namespace Code

theorem Carries.loose {a b c : List Code} (h : Carries a b) : Carries (a ++ c) (b ++ c) := by
  have swap : ∀ x : List Code, Carries (x ++ c) (c ++ x) := fun x =>
    .ofMem fun q => by simp only [partsOf_append, List.mem_append]; tauto
  have back : Carries (c ++ b) (b ++ c) :=
    .ofMem fun q => by simp only [partsOf_append, List.mem_append]; tauto
  exact ((swap a).trans (h.append_left c)).trans back

theorem Carries.leaveUnless (test : String) : Carries [] [.leaveUnless test] := by
  have inner : Carries [] [.breakLoop] := .single (by simp [Code.parts]) rfl
  exact inner.trans (.wrap (by simp [Code.leaveUnless, Code.parts, Chain.parts]) rfl)

theorem Carries.testedLoop (checks body : List Code) (test : String) :
    Carries (checks ++ body) [.testedLoop checks test body] := by
  unfold Code.testedLoop
  split_ifs with empty
  · rw [List.isEmpty_iff.1 empty, List.nil_append]
    exact .wrap (by rw [Code.parts]) rfl
  · have test : Carries body (.leaveUnless test :: body) := (Carries.leaveUnless test).loose
    exact (test.append_left checks).trans (.wrap (by rw [Code.parts]) rfl)

theorem Carries.branch (test : String) (body : List Code) (arms : List Arm) (last : Chain) :
    Carries (body ++ (arms.flatMap Arm.lines ++ last.lines))
      [.branch test body (.ofArms arms last)] :=
  ((Chain.carries_ofArms arms last).append_left body).trans
    (.wrap (by rw [Code.parts, partsOf_append, Chain.partsOf_lines]) rfl)

theorem Carries.forLoop (init checks steps body : List Code) (test : String) :
    Carries (init ++ checks ++ steps ++ body)
      (init ++ [.testedLoop checks test (body ++ steps)]) := by
  have shuffle : Carries (init ++ checks ++ steps ++ body) (init ++ (checks ++ (body ++ steps))) :=
    .ofMem fun q => by simp only [partsOf_append, List.mem_append]; tauto
  exact shuffle.trans ((Carries.testedLoop checks (body ++ steps) test).append_left init)

theorem Carries.tryCatch (body : List Code) (handlers : List Clause) :
    Carries (body ++ handlers.flatMap Clause.lines) [.tryCatch body handlers] :=
  .wrap (by rw [Code.parts, partsOf_append, Clause.partsOf_lines]) rfl

theorem Carries.unset (vars : List String) : Carries [] (vars.map .unset) := by
  induction vars with
  | nil => exact .refl []
  | cons var rest ih =>
    have first : Carries [] [.unset var] := .single (by simp [Code.parts]) rfl
    exact ih.trans (first.loose (c := rest.map .unset))

end Code

theorem Lowered.carries_asStatement (l : Lowered) : Code.Carries l.lines l.asStatement := by
  cases l with
  | value text => exact .single (by simp [Code.parts]) rfl
  | assigned lines target => exact .refl lines

/-! ### Blocks -/

/-- What a step does that starts with no line waiting: no line waits afterwards, and what it hoists
is in its code. -/
structure Settles (cls : String) (step : Lowering (List Code)) (tally : Tally) : Prop where
  uniform : Uniform step
  outcome : ∀ s : State, s.hoisted = [] →
    (∃ code t, step.run.run s = (.ok code, t) ∧ s.Alike t ∧ tally.refused = ∅ ∧ t.hoisted = [] ∧
      Advance s t [] tally code) ∨
    (∃ k t, step.run.run s = (.error (.unsupported k cls), t) ∧ s.Alike t ∧ k ∈ tally.refused)

theorem Settles.nil : Settles cls (pure []) 0 := by
  refine ⟨.pure [], fun s empty => ?_⟩
  have same : Converts cls (pure ([] : List Code)) [] 0 id := .pure (.refl [])
  rcases same.outcome s with ⟨code, t, run, alike, clean, adv⟩ | h
  · rw [run_pure] at run
    cases run
    exact .inl ⟨[], s, run_pure [] s, alike, clean, empty, adv⟩
  · exact .inr h

/-- A statement stands after the lines that it hoists, and before the statements that follow. -/
theorem Settles.cons {x rest : Lowering (List Code)} {a b : Tally} (hx : Converts cls x [] a id)
    (hr : Settles cls rest b) :
    Settles cls (do
      let lines ← x
      let hoisted ← takeHoisted
      return hoisted ++ lines ++ (← rest)) (a + b) := by
  refine ⟨hx.uniform.bind fun _ => .bind .takeHoisted fun _ => hr.uniform.bind fun _ => .pure _,
    fun s empty => ?_⟩
  rcases hx.outcome s with
    ⟨lines, t, run, alike, clean, dims, created, new, log, hoisted, queued, accounts⟩ |
    ⟨k, t, run, alike, hk⟩
  · -- Nothing waited before, so all that waits now was hoisted by the statement.
    have taken : takeHoisted.run.run t = (.ok new, { t with hoisted := [] }) := by
      rw [empty, List.nil_append] at hoisted
      rw [← hoisted]
      rfl
    have alike : s.Alike { t with hoisted := [] } := ⟨alike.method, alike.hoistArrays, alike.loops⟩
    rw [run_bind_ok run, run_bind_ok taken]
    rcases hr.outcome { t with hoisted := [] } rfl with
      ⟨more, u, run', alike', clean', done, dims', created', new', log', hoisted', queued',
        accounts'⟩ |
      ⟨k, u, run', alike', hk⟩
    · obtain rfl : new' = [] := by simpa [done] using hoisted'.symm
      refine .inl ⟨new ++ lines ++ more, u, by rw [run_bind_ok run']; rfl, alike.trans alike',
        by simp [clean, clean'], done, ?_, ?_, [], log ++ log', by simp [done, empty], ?_, ?_⟩
      · rw [dims', Tally.add_dims, ← Nat.add_assoc, ← dims]
      · rw [created', Tally.add_dims, dimRange_add, ← List.append_assoc, ← created, ← dims]
      · rw [queued', ← List.append_assoc, ← queued]
      · -- The lines so far are in hand while the rest is converted.
        have first : Accounts s [] a log ([] ++ (new ++ lines)) := accounts
        exact first.trans alike dims (accounts'.holding (new ++ lines))
    · exact .inr ⟨k, u, by rw [run_bind_error run'], alike.trans alike', .inr hk⟩
  · exact .inr ⟨k, t, run_bind_error run, alike, .inl hk⟩

/-- A block leaves the lines alone that wait around it. -/
theorem Settles.run_inBlock {x : Lowering (List Code)} {tally : Tally} (hx : Settles cls x tally)
    (s : State) :
    (∃ code t, (inBlock x).run.run s = (.ok code, t) ∧ s.Alike t ∧ tally.refused = ∅ ∧
      t.hoisted = s.hoisted ∧ Advance s t [] tally code) ∨
    (∃ k t, (inBlock x).run.run s = (.error (.unsupported k cls), t) ∧ s.Alike t ∧
      k ∈ tally.refused) := by
  rcases hx.outcome { s with hoisted := [] } rfl with
    ⟨code, t, run, alike, clean, done, dims, created, new, log, hoisted, queued, accounts⟩ |
    ⟨k, t, run, alike, hk⟩
  · obtain rfl : new = [] := by simpa [done] using hoisted.symm
    exact .inl ⟨code, _, run_inBlock_ok run, ⟨alike.method, alike.hoistArrays, alike.loops⟩, clean,
      rfl, dims, created, [], log, by simp, queued, accounts.logged, accounts.parts,
      accounts.assigned, accounts.known⟩
  · exact .inr ⟨k, t, run_inBlock_error run, ⟨alike.method, alike.hoistArrays, alike.loops⟩, hk⟩

theorem Converts.inBlock {x : Lowering (List Code)} {tally : Tally} (hx : Settles cls x tally) :
    Converts cls (Lowering.inBlock x) [] tally id := by
  refine ⟨hx.uniform.inBlock, fun s => ?_⟩
  rcases hx.run_inBlock s with ⟨code, t, run, alike, clean, -, adv⟩ | h
  · exact .inl ⟨code, t, run, alike, clean, adv⟩
  · exact .inr h

/-! ### Expressions in statements -/

theorem converts_exprText (e : Expr) :
    Converts cls (exprText cls e) [] (Node.expr e).fullTally fun _ => [] :=
  (converts_lower e).exprText

/-- The lines that a text needs, apart from those that wait. -/
theorem converts_isolate (e : Expr) :
    Converts cls (isolate (exprText cls e)) [] (Node.expr e).fullTally Prod.snd := by
  simpa only [List.append_nil] using (converts_exprText e).isolate

theorem converts_asLines (e : Expr) :
    Converts cls (asLines cls e) [] (Node.expr e).fullTally id :=
  .congr (.bind (.isolate (converts_lower e)) fun r =>
    .pure (r.1.carries_asStatement.append_left r.2)) (add_zero _)

theorem converts_allAsLines (es : List Expr) :
    Converts cls (allAsLines cls es) [] (.of (es.map .expr)) id := by
  induction es with
  | nil => exact .congr (.pure (.refl [])) (by simp)
  | cons e rest ih =>
    exact .congr (.bind (converts_asLines e) fun lines =>
      .bind (.holding ih lines) fun _ => .pure (.refl _)) (by simp)

theorem converts_forTests : ∀ tests : List Expr,
    Converts cls (forTests cls tests) [] (.of (tests.map .expr)) Prod.fst
  | [] => .congr (.pure (.refl [])) (by simp)
  | [last] => .congr (.bind (converts_isolate last) fun _ => .pure (.refl _)) (by simp)
  | e :: next :: rest => .congr (.bind (converts_asLines e) fun lines =>
      .bind (.holding (converts_forTests (next :: rest)) lines) fun _ => .pure (.refl _)) (by simp)

theorem converts_staticLocal (v : StaticLocal) :
    Converts cls (lowerStaticLocal cls v) [] (Node.staticLocal v).fullTally fun line => [line] := by
  obtain ⟨name, value⟩ := v
  unfold lowerStaticLocal
  cases value with
  | none =>
    exact .node (.pure (.assign _ _)) (by simp [Node.tally, Node.children])
  | some value =>
    exact .node (.bind (converts_exprText value) fun _ => .pure (.assign _ _))
      (by simp [Node.tally, Node.children])

theorem converts_staticLocals (vars : List StaticLocal) :
    Converts cls (lowerStaticLocals cls vars) [] (.of (vars.map .staticLocal)) id := by
  induction vars with
  | nil => exact .congr (.pure (.refl [])) (by simp)
  | cons v rest ih =>
    exact .congr (.bind (converts_staticLocal v) fun line =>
      .bind (.holding ih [line]) fun _ => .pure (.refl _)) (by simp)

theorem converts_caseHead (test : Option Expr) :
    Converts cls (caseHead cls test) [] (.of (test.toList.map .expr)) fun _ => [] := by
  cases test with
  | none => exact .congr (.pure (.refl [])) (by simp)
  | some test => exact .congr (.bind (converts_exprText test) fun _ => .pure (.refl [])) (by simp)

theorem converts_bindingText (key : Option Expr) (value : String) :
    Converts cls (bindingText cls key value) [] (.of (key.toList.map .expr)) fun _ => [] := by
  cases key with
  | none => exact .congr (.pure (.refl [])) (by simp)
  | some key => exact .congr (.bind (converts_exprText key) fun _ => .pure (.refl [])) (by simp)

/-- What is returned: an array literal is kept. -/
theorem converts_ret (value : Option Expr) :
    Converts cls (lowerStmt cls (.ret value)) [] (Node.stmt (.ret value)).fullTally id := by
  have plain : ∀ text, Code.Carries [] [.ret text] := fun _ => .single (by simp [Code.parts]) rfl
  cases value with
  | none =>
    rw [lowerStmt]
    exact .node (.pure (plain none)) (by simp [Node.tally, Node.children, Node.ofStmt])
  | some value =>
    rw [lowerStmt_ret]
    exact .node (.bind (.passedText (converts_lower value) (converts_literal value)) fun _ =>
      .pure (plain _)) (by simp [Node.tally_ret, Node.children, Node.ofStmt])

/-- The lines to run before a loop continues are known from outside. -/
theorem converts_continueLoop :
    Converts cls (lowerStmt cls .continueLoop) [] (Node.stmt .continueLoop).fullTally id := by
  have uniform : Uniform (lowerStmt cls .continueLoop) := by
    rw [lowerStmt]
    exact .get (fun _ => .pure _) fun agree => by rw [agree.loops]
  refine ⟨uniform, fun s => ?_⟩
  have tally : (Node.stmt .continueLoop).fullTally = 0 := by
    simp [Node.fullTally_eq, Node.tally, Node.children, Node.ofStmt]
  have plain : Code.Carries [] [.continueLoop] := .single (by simp [Code.parts]) rfl
  have run : (lowerStmt cls .continueLoop).run.run s = (.ok (s.pending ++ [.continueLoop]), s) := by
    rw [lowerStmt]
    rfl
  rw [tally]
  refine .inl ⟨_, s, run, .refl s, rfl, by simp, by simp, [], [], by simp, by simp, ?_⟩
  constructor
  · simp
  · simp
  · simp [Tally.names]
  · -- The pending lines are written once more, so their temporaries occur though none is new.
    intro x hx
    rw [List.nil_append, id, Code.tempsOf_append, List.mem_append] at hx
    rcases hx with hx | hx
    · exact .inr (.inr hx)
    · exact .inl (plain.temps hx)

/-- A loop with its test at the end. Where the test needs lines, they run before the loop goes on,
and so before it continues. -/
theorem Converts.doWhile {block : Lowering (List Code)} {tally : Tally}
    (hb : Converts cls block [] tally id) (test : String) (checks : List Code) :
    Converts cls (if checks.isEmpty then do
        let body ← Lowering.withinLoop [] block
        return [.doWhile body test]
      else do
        let body ← Lowering.withinLoop (checks ++ [.leaveUnless test]) block
        return [.loop (body ++ (checks ++ [.leaveUnless test]))]) checks tally id := by
  have leave : Code.Carries checks (checks ++ [.leaveUnless test]) := by
    simpa using (Code.Carries.leaveUnless test).append_left checks
  split_ifs with empty
  · rw [List.isEmpty_iff.1 empty]
    exact .congr (.bind (.withinLoop hb (by simp)) fun _ =>
      .pure (.wrap (by rw [Code.parts]; rfl) rfl)) (add_zero tally)
  · refine .congr (.bind (.withinLoop (.holding hb checks) fun _ => leave.temps) fun body =>
      .pure ?_) (add_zero tally)
    -- The lines of the test are in hand before the body, but stand behind it.
    have shuffle : Code.Carries (checks ++ body) (body ++ checks) :=
      .ofMem fun q => by simp only [Code.partsOf_append, List.mem_append]; tauto
    exact (shuffle.trans (leave.append_left body)).trans (.wrap (by rw [Code.parts]) rfl)

/-! ### Statements and blocks -/

mutual

theorem converts_stmt : ∀ stmt : Stmt,
    Converts cls (lowerStmt cls stmt) [] (Node.stmt stmt).fullTally id
  | .expression value => by
    rw [lowerStmt]
    exact .node (.bind (converts_lower value) fun l => .pure l.carries_asStatement)
      (by simp [Node.tally, Node.children, Node.ofStmt])
  | .ret value => converts_ret value
  | .ifElse test body elseIfs otherwise => by
    rw [lowerStmt]
    refine .node (.bind (.withArrayHoisting (converts_exprText test)) fun _ =>
      .bind (.inBlock (settles_stmts body)) fun body =>
      .bind (.holding (converts_arms elseIfs) body) fun arms =>
      .bind (.holding (converts_otherwise otherwise) (body ++ arms.flatMap Arm.lines)) fun last =>
      .pure ?_) ?_
    · rw [List.append_assoc]
      exact .branch _ body arms last
    · -- The array literals of the test are kept: they are the share of the statement itself.
      simp only [Node.tally, Node.children, Node.ofStmt, Tally.of_cons, Tally.of_append,
        Tally.keepingArrays_expr]
      abel
  | .whileLoop test body => by
    rw [lowerStmt]
    exact .node (.bind (converts_isolate test) fun _ => .bind (.withinLoop
      (.holding (.inBlock (settles_stmts body)) _) (by simp)) fun _ => .pure (.testedLoop ..))
      (by simp [Node.tally, Node.children, Node.ofStmt])
  | .doWhile body test => by
    rw [lowerStmt]
    refine .node (.bind (converts_isolate test) fun r =>
      .doWhile (.inBlock (settles_stmts body)) r.1 r.2) ?_
    simp only [Node.tally, Node.children, Node.ofStmt, Tally.of_append, Tally.of_cons, Tally.of_nil]
    abel
  | .forLoop init tests steps body => by
    rw [lowerStmt]
    refine .node (.bind (converts_allAsLines init) fun init =>
      .bind (.holding (converts_forTests tests) init) fun r =>
      .bind (.holding (converts_allAsLines steps) (init ++ r.1)) fun steps =>
      .bind (.withinLoop (.holding (.inBlock (settles_stmts body)) (init ++ r.1 ++ steps)) ?_)
        fun body => .pure (.forLoop init r.1 steps body r.2)) ?_
    · -- The steps run before the loop continues, and they are in hand.
      intro x hx
      rw [Code.tempsOf_append, List.mem_append]
      exact .inr hx
    · simp only [Node.tally, Node.children, Node.ofStmt, Tally.of_append]
      abel
  | .foreach subject key value byRef body => by
    rw [lowerStmt]
    refine .node (.reportedIf (.bind (converts_exprText subject) fun _ =>
      .bind (converts_exprText value) fun _ => .bind (converts_bindingText key _) fun _ =>
      .bind (.withinLoop (.inBlock (settles_stmts body)) (by simp)) fun _ =>
      .pure (.wrap (by rw [Code.parts]; rfl) rfl))) ?_
    simp only [Node.tally, Node.children, Node.ofStmt, Tally.of_cons, Tally.of_append]
    abel
  | .switch subject cases => by
    rw [lowerStmt]
    refine .node (.bind (converts_exprText subject) fun _ => .bind (converts_cases cases) fun _ =>
      .pure (.wrap (by rw [Code.parts, Clause.partsOf_lines]) rfl)) ?_
    simp [Node.tally, Node.children, Node.ofStmt]
  | .static vars => by
    rw [lowerStmt]
    exact .node (.reported (converts_staticLocals vars))
      (by simp [Node.tally, Node.children, Node.ofStmt])
  | .tryCatch body handlers none => by
    rw [lowerStmt]
    refine .node (.bind (.inBlock (settles_stmts body)) fun body =>
      .bind (.holding (converts_handlers handlers) body) fun handlers =>
      .pure (.tryCatch body handlers)) ?_
    simp [Node.tally, Node.children, Node.ofStmt]
  | .tryCatch body handlers (some cleanup) => by
    rw [lowerStmt]
    refine .node (.bind (.inBlock (settles_stmts body)) fun body =>
      .bind (.holding (converts_handlers handlers) body) fun handlers =>
      .reported (.bind (.holding (.inBlock (settles_stmts cleanup)) _) fun _ =>
      .pure (Code.Carries.tryCatch body handlers).loose)) ?_
    simp only [Node.tally, Node.children, Node.ofStmt, Tally.of_append, Option.getD_some]
    abel
  | .raise value => by
    rw [lowerStmt]
    exact .node (.bind (converts_exprText value) fun _ => .pure (.single (by simp [Code.parts]) rfl))
      (by simp [Node.tally, Node.children, Node.ofStmt])
  | .breakLoop => by
    rw [lowerStmt]
    exact .node (.pure (.single (by simp [Code.parts]) rfl))
      (by simp [Node.tally, Node.children, Node.ofStmt])
  | .continueLoop => converts_continueLoop
  | .echo values => by
    rw [lowerStmt]
    exact .node (.bind (converts_lowerAll values) fun _ =>
      .pure (.single (by simp [Code.parts]) rfl)) (by simp [Node.tally, Node.children, Node.ofStmt])
  | .unset vars => by
    rw [lowerStmt]
    exact .node (.bind (converts_lowerAll vars) fun _ => .pure (.unset _))
      (by simp [Node.tally, Node.children, Node.ofStmt])
  | .goto _ => by
    rw [lowerStmt]
    exact .refuse (by simp [Node.fullTally_eq, Node.tally, Tally.refusal])
  | .label _ => by
    rw [lowerStmt]
    exact .refuse (by simp [Node.fullTally_eq, Node.tally, Tally.refusal])
  | .html _ => by
    rw [lowerStmt]
    exact .refuse (by simp [Node.fullTally_eq, Node.tally, Tally.refusal])
  | .nop => by
    rw [lowerStmt]
    exact .node (.pure (.refl [])) (by simp [Node.tally, Node.children, Node.ofStmt])

theorem settles_stmts : ∀ stmts : List Stmt,
    Settles cls (lowerStmts cls stmts) (.of (stmts.map .stmt))
  | [] => by
    rw [lowerStmts, List.map_nil, Tally.of_nil]
    exact .nil
  | stmt :: rest => by
    rw [lowerStmts, List.map_cons, Tally.of_cons]
    exact .cons (converts_stmt stmt) (settles_stmts rest)

theorem converts_arms : ∀ elseIfs : List ElseIf,
    Converts cls (lowerArms cls elseIfs) [] (.of (elseIfs.map .elseIf)) (List.flatMap Arm.lines)
  | [] => by
    rw [lowerArms]
    exact .congr (.pure (.refl [])) (by simp)
  | ⟨test, body⟩ :: rest => by
    rw [lowerArms]
    refine .congr (.bind (converts_isolate test) fun r =>
      .bind (.holding (.inBlock (settles_stmts body)) r.2) fun body =>
      .bind (.holding (converts_arms rest) (r.2 ++ body)) fun _ => .pure (.refl _)) ?_
    simp [Node.fullTally_eq (.elseIf _), Node.tally, Node.children, add_assoc]

theorem converts_otherwise : ∀ otherwise : Option (List Stmt),
    Converts cls (lowerOtherwise cls otherwise) [] (.of ((otherwise.getD []).map .stmt)) Chain.lines
  | none => by
    rw [lowerOtherwise]
    exact .congr (.pure (.refl [])) (by simp)
  | some body => by
    rw [lowerOtherwise]
    exact .congr (.bind (.inBlock (settles_stmts body)) fun _ => .pure (.refl _)) (by simp)

theorem converts_cases : ∀ cases : List Case,
    Converts cls (lowerCases cls cases) [] (.of (cases.map .case)) (List.flatMap Clause.lines)
  | [] => by
    rw [lowerCases]
    exact .congr (.pure (.refl [])) (by simp)
  | ⟨test, body⟩ :: rest => by
    rw [lowerCases]
    refine .congr (.bind (converts_caseHead test) fun _ =>
      .bind (.inBlock (settles_stmts body)) fun body =>
      .bind (.holding (converts_cases rest) body) fun _ => .pure (.refl _)) ?_
    simp [Node.fullTally_eq (.case _), Node.tally, Node.children, add_assoc]

theorem converts_handlers : ∀ handlers : List Handler,
    Converts cls (lowerHandlers cls handlers) [] (.of (handlers.map .handler))
      (List.flatMap Clause.lines)
  | [] => by
    rw [lowerHandlers]
    exact .congr (.pure (.refl [])) (by simp)
  | ⟨types, var, body⟩ :: rest => by
    rw [lowerHandlers]
    refine .congr (.bind (.inBlock (settles_stmts body)) fun body =>
      .bind (.holding (converts_handlers rest) body) fun _ => .pure (.refl _)) ?_
    simp [Node.fullTally_eq (.handler _), Node.tally, Node.children]

end

/-- What the conversion of a block does: its code has all that its statements hoist and assigns the
temporaries of their tally. -/
theorem lowerBlock_run (cls : String) (body : List Stmt) (s : State) :
    (∃ code t log, (lowerBlock cls body).run.run s = (.ok code, t) ∧ s.Alike t ∧
      (Tally.of (body.map .stmt)).refused = ∅ ∧ t.queued = s.queued ++ log ∧
      Accounts s [] (.of (body.map .stmt)) log code) ∨
    (∃ k t, (lowerBlock cls body).run.run s = (.error (.unsupported k cls), t) ∧ s.Alike t ∧
      k ∈ (Tally.of (body.map .stmt)).refused) := by
  rcases (settles_stmts body).run_inBlock s with
    ⟨code, t, run, alike, clean, same, -, -, new, log, hoisted, queued, accounts⟩ | h
  · obtain rfl : new = [] := by simpa [same] using hoisted.symm
    exact .inl ⟨code, t, log, run, alike, clean, queued, accounts⟩
  · exact .inr h

/-- A block whose conversion succeeds holds nothing that is refused. -/
theorem lowerBlock_ok {body : List Stmt} {s t : State} {code : List Code}
    (h : (lowerBlock cls body).run.run s = (.ok code, t)) :
    (Tally.of (body.map .stmt)).refused = ∅ ∧
      ∃ log, t.queued = s.queued ++ log ∧ Accounts s [] (.of (body.map .stmt)) log code := by
  have outcome := lowerBlock_run cls body s
  rw [h] at outcome
  rcases outcome with ⟨code', t', log, run, -, clean, queued, accounts⟩ | ⟨k, t', run, -⟩
  · cases run
    exact ⟨clean, log, queued, accounts⟩
  · cases run

end Zephirize
