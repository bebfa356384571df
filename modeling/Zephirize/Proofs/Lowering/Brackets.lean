import Zephirize.Proofs.Code.Brackets
import Zephirize.Proofs.Code.Equality
import Zephirize.Proofs.Lowering.Writing

/-!
# The brackets of converted statements

Being well bracketed is a spelling (`bracketing`), since each form of code puts well bracketed texts
together. So the code of statements is well bracketed if the names in them are, and the lines are
that the loops around run before they continue (`wellBracketed_lowerBlock`).
-/

namespace Zephirize

open Lowering
open Text (Neutral WellBracketed)

/-- Well bracketed texts and code, with blocks indented by `width` blanks. -/
def bracketing (width : ℕ) : Spelling where
  text := WellBracketed
  line := Code.Bracketed width
  chain := Chain.Bracketed width
  composed := WellBracketed.compositional
  set := .set
  combine op := .combine op
  step op := .step op
  keep := .keep
  breakLoop := .breakLoop
  continueLoop := .continueLoop
  branch := .branch
  whileLoop := .whileLoop
  loop := .loop
  doWhile := .doWhile
  done := .done
  otherwise := .otherwise

/-- The names at and below the nodes are well bracketed. -/
abbrev BracketedNames (width : ℕ) : List Node → Prop := EveryNode (Node.Spelled (bracketing width))

/-! ### Statements -/

section Statements

variable {cls : String} {width : ℕ}

/-- A well bracketed text is also well bracketed as a statement. -/
theorem writes_stands (e : Expr) (names : BracketedNames width [.expr e]) :
    Writes (bracketing width) (lower cls e) (Lowered.Stands (bracketing width)) := by
  refine (writes_lower e names).mono fun lowered h => ⟨h, ?_⟩
  cases lowered with
  | value text => exact List.forall_mem_singleton.2 (.eval h)
  | assigned lines target => exact h.1

theorem writes_standEach (es : List Expr) (names : BracketedNames width (es.map .expr)) :
    ∀ e ∈ es, Writes (bracketing width) (lower cls e) (Lowered.Stands (bracketing width)) := by
  induction es with
  | nil => exact List.forall_mem_nil _
  | cons e rest ih => exact List.forall_mem_cons.2 ⟨writes_stands e names.head, ih names.tail⟩

theorem writes_lowerStaticLocal (v : StaticLocal) (names : BracketedNames width [.staticLocal v]) :
    Writes (bracketing width) (lowerStaticLocal cls v) (Code.Bracketed width) := by
  obtain ⟨name, value⟩ := v
  have target : WellBracketed (safeName name) :=
    spelled_safeName WellBracketed.compositional (names.own.symbol List.mem_cons_self)
  cases value with
  | none => exact .pure (.set target (by decide))
  | some value =>
    exact (writes_lower value names.below).text.bind fun _ h => .pure (.set target h)

theorem writes_lowerStaticLocals (vars : List StaticLocal)
    (names : BracketedNames width (vars.map .staticLocal)) :
    Writes (bracketing width) (lowerStaticLocals cls vars) (bracketing width).lines := by
  induction vars with
  | nil => exact .pure (List.forall_mem_nil _)
  | cons v rest ih =>
    refine (writes_lowerStaticLocal v names.head).bind fun line h => ?_
    exact (ih names.tail).bind fun lines hl => .pure (List.forall_mem_cons.2 ⟨h, hl⟩)

theorem writes_bindingText (key : Option Expr) (names : BracketedNames width (key.toList.map .expr))
    {value : String} (hv : WellBracketed value) :
    Writes (bracketing width) (bindingText cls key value) WellBracketed := by
  cases key with
  | none => exact .pure hv
  | some key =>
    exact (writes_lower key names).text.bind fun _ h =>
      .pure (WellBracketed.joined h (by decide) hv)

theorem writes_caseHead (test : Option Expr)
    (names : BracketedNames width (test.toList.map .expr)) :
    Writes (bracketing width) (caseHead cls test) WellBracketed := by
  cases test with
  | none => exact .pure (by decide)
  | some test =>
    exact (writes_lower test names).text.bind fun _ h =>
      .pure ((WellBracketed.after h (by decide)).before (by decide))

theorem wellBracketed_handlerHead {types : List Name} {var : Option String}
    (ht : ∀ name ∈ types, ∀ x ∈ name.parts, WellBracketed x) (hv : ∀ x ∈ var, WellBracketed x) :
    WellBracketed (handlerHead types var) := by
  have head : WellBracketed ("catch " ++ "|".intercalate (types.map Name.text)) :=
    (WellBracketed.intercalate (by decide) (List.forall_mem_map.2 fun name mem =>
      Name.spelled_text WellBracketed.compositional (ht name mem))).after (by decide)
  cases var with
  | none => exact head
  | some var =>
    exact head.joined (by decide) (spelled_safeName WellBracketed.compositional (hv var rfl))

/-- A `return`, given what is known of its value. -/
theorem writes_ret (value : Option Expr) (names : BracketedNames width (value.toList.map .expr)) :
    Writes (bracketing width) (lowerStmt cls (.ret value)) (bracketing width).lines := by
  rcases value with - | value
  · rw [lowerStmt]
    exact .pure (List.forall_mem_singleton.2 .retNone)
  · rw [lowerStmt_ret]
    exact (Writes.passedText (writes_lower value names) (writes_literal value names)).bind
      fun _ h => .pure (List.forall_mem_singleton.2 (.ret h))

mutual

/-- The conversion of a statement, one case for each form. -/
theorem writes_stmt : ∀ stmt : Stmt, BracketedNames width [.stmt stmt] →
    Writes (bracketing width) (lowerStmt cls stmt) (bracketing width).lines
  | .expression value, names => .expression (writes_stands value names.below)
  | .ret value, names => writes_ret value names.below
  | .ifElse test body elseIfs otherwise, names =>
    .ifElse (writes_lower test names.below.head) (writes_stmts body names.below.tail.left.left)
      (writes_arms elseIfs names.below.tail.left.right)
      (writes_otherwise otherwise names.below.tail.right) fun _ _ => .ofArms
  | .whileLoop test body, names =>
    .whileLoop (writes_lower test names.below.head) (writes_stmts body names.below.tail)
  | .doWhile body test, names =>
    .doWhile (writes_stmts body names.below.left) (writes_lower test names.below.right)
  | .forLoop init tests steps body, names =>
    .forLoop (writes_standEach init names.below.left.left.left)
      (writes_standEach tests names.below.left.left.right)
      (writes_standEach steps names.below.left.right) (writes_stmts body names.below.right)
  | .foreach subject key value byRef body, names =>
    .foreach (writes_lower subject names.below.head)
      (writes_lower value names.below.tail.right.head).text
      (fun _ hv => writes_bindingText key names.below.tail.left hv)
      (writes_stmts body names.below.tail.right.tail) fun _ _ _ => .forIn
  | .switch subject cases, names => by
    rw [lowerStmt]
    refine (writes_lower subject names.below.head).text.bind fun _ hs => ?_
    refine (writes_cases cases names.below.tail).bind fun _ hc => ?_
    exact .pure (List.forall_mem_singleton.2 (.switch hs hc))
  | .static vars, names => by
    rw [lowerStmt]
    exact (Writes.reportIf true _ _ _ _).bind fun _ _ =>
      writes_lowerStaticLocals vars names.below
  | .tryCatch body handlers none, names => by
    rw [lowerStmt]
    refine (writes_stmts body names.below.left.left).inBlock.bind fun _ hb => ?_
    refine (writes_handlers handlers names.below.left.right).bind fun _ hh => ?_
    exact .pure (List.forall_mem_singleton.2 (.tryCatch hb hh))
  | .tryCatch body handlers (some cleanup), names => by
    rw [lowerStmt]
    refine (writes_stmts body names.below.left.left).inBlock.bind fun _ hb => ?_
    refine (writes_handlers handlers names.below.left.right).bind fun _ hh => ?_
    refine (Writes.reportIf true _ _ _ _).bind fun _ _ => ?_
    refine (writes_stmts cleanup names.below.right).inBlock.bind fun _ hc => ?_
    exact .pure (List.forall_mem_cons.2 ⟨.tryCatch hb hh, hc⟩)
  | .raise value, names => by
    rw [lowerStmt]
    exact (writes_lower value names.below).text.bind fun _ h =>
      .pure (List.forall_mem_singleton.2 (.raise h))
  | .breakLoop, _ => .breakLoop
  | .continueLoop, _ => .continueLoop
  | .echo values, names => by
    rw [lowerStmt]
    exact (writes_lowerAll values names.below).bind fun _ h =>
      .pure (List.forall_mem_singleton.2 (.echo h))
  | .unset vars, names => by
    rw [lowerStmt]
    exact (writes_lowerAll vars names.below).bind fun _ h =>
      .pure (List.forall_mem_map.2 fun x hx => .unset (h x hx))
  | .goto _, _ | .label _, _ | .html _, _ => by
    rw [lowerStmt]
    exact .refuse cls _
  | .nop, _ => by
    rw [lowerStmt]
    exact .pure (List.forall_mem_nil _)

theorem writes_stmts : ∀ stmts : List Stmt, BracketedNames width (stmts.map .stmt) →
    Writes (bracketing width) (lowerStmts cls stmts) (bracketing width).lines
  | [], _ => .stmtsNil
  | stmt :: rest, names => .stmtsCons (writes_stmt stmt names.head) (writes_stmts rest names.tail)

theorem writes_arms : ∀ clauses : List ElseIf, BracketedNames width (clauses.map .elseIf) →
    Writes (bracketing width) (lowerArms cls clauses) fun arms => ∀ arm ∈ arms, arm.Bracketed width
  | [], _ => by
    rw [lowerArms]
    exact .pure (List.forall_mem_nil _)
  | ⟨test, body⟩ :: rest, names => by
    rw [lowerArms]
    refine (writes_lower test names.below.head).text.isolate.bind ?_
    rintro ⟨text, hoisted⟩ ⟨ht, hh⟩
    refine (writes_stmts body names.below.tail).inBlock.bind fun _ hb => ?_
    refine (writes_arms rest names.tail).bind fun _ hr => ?_
    exact .pure (List.forall_mem_cons.2 ⟨⟨hh, ht, hb⟩, hr⟩)

theorem writes_otherwise : ∀ otherwise : Option (List Stmt),
    BracketedNames width ((otherwise.getD []).map .stmt) →
      Writes (bracketing width) (lowerOtherwise cls otherwise) (Chain.Bracketed width)
  | none, _ => .otherwiseNone
  | some body, names => .otherwiseSome (writes_stmts body names)

theorem writes_cases : ∀ cases : List Case, BracketedNames width (cases.map .case) →
    Writes (bracketing width) (lowerCases cls cases) fun clauses => ∀ c ∈ clauses, c.Bracketed width
  | [], _ => by
    rw [lowerCases]
    exact .pure (List.forall_mem_nil _)
  | ⟨test, body⟩ :: rest, names => by
    rw [lowerCases]
    refine (writes_caseHead test names.below.left).bind fun _ ht => ?_
    refine (writes_stmts body names.below.right).inBlock.bind fun _ hb => ?_
    refine (writes_cases rest names.tail).bind fun _ hr => ?_
    exact .pure (List.forall_mem_cons.2 ⟨⟨ht, hb⟩, hr⟩)

theorem writes_handlers : ∀ handlers : List Handler, BracketedNames width (handlers.map .handler) →
    Writes (bracketing width) (lowerHandlers cls handlers)
      fun clauses => ∀ c ∈ clauses, c.Bracketed width
  | [], _ => by
    rw [lowerHandlers]
    exact .pure (List.forall_mem_nil _)
  | ⟨types, var, body⟩ :: rest, names => by
    rw [lowerHandlers]
    have head : WellBracketed (handlerHead types var) := wellBracketed_handlerHead
      (fun name mem x hx =>
        names.own.symbol (List.mem_append_left _ (List.mem_flatMap.2 ⟨name, mem, hx⟩)))
      (fun x hx => names.own.symbol (List.mem_append_right _ (Option.mem_toList.2 hx)))
    refine (writes_stmts body names.below).inBlock.bind fun _ hb => ?_
    refine (writes_handlers rest names.tail).bind fun _ hr => ?_
    exact .pure (List.forall_mem_cons.2 ⟨⟨head, hb⟩, hr⟩)

end

end Statements

/-! ### Blocks -/

/-- The code of statements whose names have no bracket and no quote is well bracketed, whatever
their string literals hold, if the lines are that the loops around run before they continue. The
lines that wait stay aside while the statements are converted. -/
theorem wellBracketed_lowerBlock {cls : String} {width : ℕ} {body : List Stmt} {s t : State}
    {code : List Code}
    (names : ∀ n ∈ nodesOf (body.map .stmt), ∀ x ∈ n.symbolNames ++ n.functionNames, Neutral x)
    (pending : ∀ lines ∈ s.loops, ∀ c ∈ lines, WellBracketed (c.render (blanks width)))
    (run : (lowerBlock cls body).run.run s = (.ok code, t)) :
    WellBracketed (Code.renderAll (blanks width) code) := by
  have spelled : BracketedNames width (body.map .stmt) :=
    fun n hn x hx => .neutral (names n hn x hx)
  obtain ⟨u, inside, _⟩ := exists_of_run_inBlock run
  exact Code.bracketed_renderAll (writes_stmts body spelled _ u code inside
    ⟨List.forall_mem_nil _, pending⟩).2

/-- A `do` with a test that needs a line, so that it stands before the `continue` in it, and a
`continue` of the loop around. -/
def guardedBody : List Stmt :=
  [.doWhile [.ifElse (.var (.literal "a")) [.continueLoop] [] none]
      (.assign (.var (.literal "b")) (.string "([\"\\") false),
    .continueLoop]

theorem wellBracketed_guardedBody :
    (∀ n ∈ nodesOf (guardedBody.map .stmt), ∀ x ∈ n.symbolNames ++ n.functionNames, Neutral x) ∧
    (∀ lines ∈ [[Code.set "i" "f[i]"]], ∀ c ∈ lines, WellBracketed (c.render (blanks 3))) ∧
    ∃ code t,
      (lowerBlock "A" guardedBody).run.run { loops := [[.set "i" "f[i]"]] } = (.ok code, t) ∧
      WellBracketed (Code.renderAll (blanks 3) code) := by
  have names : ∀ n ∈ nodesOf (guardedBody.map .stmt),
      ∀ x ∈ n.symbolNames ++ n.functionNames, Neutral x := by
    simp [guardedBody, nodesOf_cons, Node.children, Node.ofStmt, Node.ofExpr, Node.symbolNames,
      Node.functionNames]
    decide
  have pending : ∀ lines ∈ [[Code.set "i" "f[i]"]], ∀ c ∈ lines,
      WellBracketed (c.render (blanks 3)) :=
    List.forall_mem_singleton.2 (List.forall_mem_singleton.2
      (Code.Bracketed.set (by decide) (by decide)))
  refine ⟨names, pending, ?_⟩
  have code : ((lowerBlock "A" guardedBody).run.run { loops := [[.set "i" "f[i]"]] }).1 =
      .ok [.loop [.branch "a" [.set "b" "\"([\\\"\\\\\"", .leaveUnless "b", .continueLoop] .done,
          .set "b" "\"([\\\"\\\\\"", .leaveUnless "b"],
        .set "i" "f[i]", .continueLoop] := by
    decide +kernel
  obtain ⟨t, run⟩ := exists_of_run_fst code
  exact ⟨_, t, run, wellBracketed_lowerBlock names pending run⟩

/-- The name of a function is written as it is as well. -/
theorem not_wellBracketed_functionName :
    (∀ n ∈ nodesOf [.stmt (.expression (.call ⟨["f("], false⟩ []))],
      ∀ x ∈ n.symbolNames, Neutral x) ∧
    ∃ code t,
      (lowerBlock "A" [.expression (.call ⟨["f("], false⟩ [])]).run.run {} = (.ok code, t) ∧
      ¬ WellBracketed (Code.renderAll (blanks 4) code) := by
  have code : ((lowerBlock "A" [.expression (.call ⟨["f("], false⟩ [])]).run.run {}).1 =
      .ok [.eval "f(()"] := by
    decide +kernel
  obtain ⟨t, run⟩ := exists_of_run_fst code
  refine ⟨?_, _, t, run, ?_⟩
  · simp [nodesOf_cons, Node.children, Node.ofStmt, Node.ofExpr, Node.symbolNames]
  · simp only [Code.renderAll, Code.renderEach, Code.render]
    decide

end Zephirize
