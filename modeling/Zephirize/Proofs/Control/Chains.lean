import Zephirize.Proofs.Code.Shown
import Zephirize.Proofs.Control.Assembly

/-!
# Chains of tests keep their decisions

An `if` with further tests becomes one statement, which is split into an `else` with an `if` inside at
each further test that needs lines. `Arm.executeAll` executes the clauses as the source has them: one
after the other, the lines of a test right before it, and the block of the first test that holds.

`chain_decides`: the code of an `if` executes as its clauses do, and it holds the statements of every
clause once. They all stand in the text of the code (`shows_clauses`).
-/

namespace Zephirize

open Lowering Execution

/-! ### Clauses -/

/-- Executes the clauses of an `if` in order; the last block is executed if no test holds. -/
def Arm.executeAll (o : Oracle) (n : ℕ) (last : Option (List Code)) : List Arm → Execution Exit
  | [] => Code.executeAll o n (last.getD [])
  | arm :: rest => do
    emit arm.hoisted
    if ← ask o arm.test then Code.executeAll o n arm.body else Arm.executeAll o n last rest

/-- Converts one further test with its block. -/
def lowerClause (cls : String) (clause : ElseIf) : Lowering Arm := do
  let (test, hoisted) ← isolate (exprText cls clause.test)
  return ⟨hoisted, test, ← lowerBlock cls clause.body⟩

/-- Converts the last block. -/
def lowerElse (cls : String) : Option (List Stmt) → Lowering (Option (List Code))
  | none => return none
  | some body => return some (← lowerBlock cls body)

/-- Converts the blocks of an `if` in order: the first one, the clauses, and the last one. -/
def lowerBlocks (cls : String) (body : List Stmt) (elseIfs : List ElseIf)
    (otherwise : Option (List Stmt)) :
    Lowering (List Code × List Arm × Option (List Code)) := do
  let body ← lowerBlock cls body
  let arms ← elseIfs.mapM (lowerClause cls)
  return (body, arms, ← lowerElse cls otherwise)

/-- Converts the clauses of an `if` in order, each with the lines of its own test, of which there is
one more than there are further tests. Only the first test keeps its array literals. -/
def lowerClauses (cls : String) (test : Expr) (body : List Stmt) (elseIfs : List ElseIf)
    (otherwise : Option (List Stmt)) : Lowering (List Arm × Option (List Code)) := do
  let (test, hoisted) ← isolate (withArrayHoisting (exprText cls test))
  let (body, arms, last) ← lowerBlocks cls body elseIfs otherwise
  return (⟨hoisted, test, body⟩ :: arms, last)

/-- The last block as what follows the tests. -/
def Chain.ofElse : Option (List Code) → Chain
  | none => .done
  | some body => .otherwise body

theorem lowerArms_eq (cls : String) (elseIfs : List ElseIf) :
    lowerArms cls elseIfs = elseIfs.mapM (lowerClause cls) := by
  induction elseIfs with
  | nil => rw [lowerArms, List.mapM_nil]
  | cons clause rest ih =>
    obtain ⟨test, body⟩ := clause
    rw [lowerArms, ih, List.mapM_cons, lowerClause]
    simp only [bind_assoc, pure_bind]
    rfl

theorem lowerOtherwise_eq (cls : String) (otherwise : Option (List Stmt)) :
    lowerOtherwise cls otherwise = (do return Chain.ofElse (← lowerElse cls otherwise)) := by
  cases otherwise with
  | none =>
    rw [lowerOtherwise, lowerElse, pure_bind]
    rfl
  | some body =>
    rw [lowerOtherwise, lowerElse]
    simp only [bind_assoc, pure_bind]
    rfl

theorem lowerStmt_ifElse (cls : String) (test : Expr) (body : List Stmt) (elseIfs : List ElseIf)
    (otherwise : Option (List Stmt)) :
    lowerStmt cls (.ifElse test body elseIfs otherwise) = (do
      let test ← withArrayHoisting (exprText cls test)
      let blocks ← lowerBlocks cls body elseIfs otherwise
      return [.branch test blocks.1 (.ofArms blocks.2.1 (.ofElse blocks.2.2))]) := by
  rw [lowerStmt, lowerArms_eq, lowerOtherwise_eq, lowerBlocks]
  simp only [bind_assoc, pure_bind]
  rfl

/-! ### Steps that leave waiting lines alone -/

/-- All lines of the clause's test are assignments. -/
def Arm.IsPlain (arm : Arm) : Prop := ∀ c ∈ arm.hoisted, c.IsLet

section Sheltered

variable {α β : Type} {P : α → Prop} {Q : β → Prop}

/-- The step neither reads nor changes the lines that wait, and its results satisfy `P`. -/
def Sheltered (x : Lowering α) (P : α → Prop) : Prop :=
  ∀ s : State, (∃ (a : α) (t : State), P a ∧ ∀ waiting,
      x.run.run { s with hoisted := waiting } = (.ok a, { t with hoisted := waiting })) ∨
    ∃ r, ∀ waiting, ∃ t, x.run.run { s with hoisted := waiting } = (.error r, t)

theorem Sheltered.pure {a : α} (h : P a) : Sheltered (Pure.pure a) P :=
  fun s => .inl ⟨a, s, h, fun _ => rfl⟩

theorem Sheltered.bind {x : Lowering α} {f : α → Lowering β} (hx : Sheltered x P)
    (hf : ∀ a, P a → Sheltered (f a) Q) : Sheltered (x >>= f) Q := by
  intro s
  rcases hx s with ⟨a, t, ha, run⟩ | ⟨r, run⟩
  · rcases hf a ha t with ⟨b, u, hb, run'⟩ | ⟨r, run'⟩
    · exact .inl ⟨b, u, hb, fun waiting => by rw [run_bind_ok (run waiting), run']⟩
    · refine .inr ⟨r, fun waiting => ?_⟩
      obtain ⟨u, second⟩ := run' waiting
      exact ⟨u, by rw [run_bind_ok (run waiting), second]⟩
  · refine .inr ⟨r, fun waiting => ?_⟩
    obtain ⟨t, first⟩ := run waiting
    exact ⟨t, run_bind_error first⟩

theorem sheltered_inBlock (x : Lowering α) : Sheltered (inBlock x) fun _ => True := by
  intro s
  rcases run : x.run.run { s with hoisted := [] } with ⟨r, t⟩
  cases r with
  | ok a => exact .inl ⟨a, t, trivial, fun _ => run_inBlock_ok run⟩
  | error r => exact .inr ⟨r, fun _ => ⟨_, run_inBlock_error run⟩⟩

/-- The lines of an expression that are taken apart are assignments. -/
theorem sheltered_isolate {x : Lowering α} {out : α → List Code} (h : Inline x out) :
    Sheltered (isolate x) fun r => ∀ c ∈ r.2, c.IsLet := by
  intro s
  obtain ⟨r, lines, m, lets, -, run⟩ := h s.dims s.hoistArrays
  obtain ⟨t, first, resumes⟩ := run { s with hoisted := [] } rfl rfl
  have hoisted : t.hoisted = lines := resumes.hoisted
  cases r with
  | ok a => exact .inl ⟨(a, t.hoisted), t, hoisted ▸ lets, fun _ => run_isolate_ok first⟩
  | error r => exact .inr ⟨r, fun _ => ⟨_, run_isolate_error first⟩⟩

theorem sheltered_clauses (cls : String) (elseIfs : List ElseIf) :
    Sheltered (elseIfs.mapM (lowerClause cls)) fun arms =>
      arms.length = elseIfs.length ∧ ∀ arm ∈ arms, arm.IsPlain := by
  induction elseIfs with
  | nil =>
    rw [List.mapM_nil]
    exact .pure (by simp)
  | cons clause rest ih =>
    have first : Sheltered (lowerClause cls clause) Arm.IsPlain :=
      .bind (sheltered_isolate (inline_lower clause.test).exprText) fun _ lets =>
        .bind (sheltered_inBlock _) fun _ _ => .pure lets
    rw [List.mapM_cons]
    refine first.bind fun arm plain => ih.bind ?_
    rintro arms ⟨length, plains⟩
    exact .pure ⟨by rw [List.length_cons, length, List.length_cons], by simpa using ⟨plain, plains⟩⟩

theorem sheltered_blocks (cls : String) (body : List Stmt) (elseIfs : List ElseIf)
    (otherwise : Option (List Stmt)) :
    Sheltered (lowerBlocks cls body elseIfs otherwise) fun blocks =>
      blocks.2.1.length = elseIfs.length ∧ ∀ arm ∈ blocks.2.1, arm.IsPlain := by
  have last : Sheltered (lowerElse cls otherwise) fun _ => True := by
    cases otherwise with
    | none => exact .pure trivial
    | some body => exact .bind (sheltered_inBlock _) fun _ _ => .pure trivial
  exact .bind (sheltered_inBlock _) fun _ _ => .bind (sheltered_clauses cls elseIfs) fun _ arms =>
    .bind last fun _ _ => .pure arms

end Sheltered

/-! ### Executing a chain -/

/-- The lines of the clause's test and an `if` with that test. -/
def Arm.code (arm : Arm) (rest : Chain) : List Code :=
  arm.hoisted ++ [.branch arm.test arm.body rest]

section Execute

variable {o : Oracle} {n : ℕ} {arm : Arm}

theorem Arm.executeAll_code (plain : arm.IsPlain) (rest : Chain) :
    Code.executeAll o n (arm.code rest) = (do
      emit arm.hoisted
      if ← ask o arm.test then Code.executeAll o n arm.body else rest.execute o n) := by
  rw [Arm.code, Code.executeAll_simple_append fun c hc => (plain c hc).isSimple,
    Code.executeAll_singleton, Code.execute]

theorem Arm.execute_attach (plain : arm.IsPlain) (rest : Chain) :
    (arm.attach rest).execute o n = Code.executeAll o n (arm.code rest) := by
  rw [Arm.attach]
  split_ifs with bare
  · rw [Arm.executeAll_code plain, List.isEmpty_iff.1 bare, emit_nil, pure_bind, Chain.execute]
  · rw [Chain.execute, Arm.code]

/-- What follows the first block executes as the clauses do. -/
theorem Chain.execute_ofArms (last : Option (List Code)) {arms : List Arm}
    (plain : ∀ arm ∈ arms, arm.IsPlain) :
    (Chain.ofArms arms (.ofElse last)).execute o n = Arm.executeAll o n last arms := by
  induction arms with
  | nil =>
    rw [Arm.executeAll, Chain.ofArms, List.foldr_nil]
    cases last with
    | none => rw [Chain.ofElse, Chain.execute, Option.getD_none, Code.executeAll_nil]
    | some body => rw [Chain.ofElse, Chain.execute, Option.getD_some]
  | cons arm rest ih =>
    have split : Chain.ofArms (arm :: rest) (.ofElse last) =
        arm.attach (.ofArms rest (.ofElse last)) := rfl
    have first : arm.IsPlain := plain arm List.mem_cons_self
    rw [split, Arm.execute_attach first, Arm.executeAll_code first,
      ih fun a ha => plain a (List.mem_cons_of_mem _ ha), Arm.executeAll]

end Execute

/-! ### The statements of a chain -/

/-- An `if`. -/
def Code.IsBranch : Code → Prop
  | .branch .. => True
  | _ => False

/-- The statements of a clause, those of its test and those of its block. -/
def Arm.parts (arm : Arm) : List Code := Code.partsOf arm.hoisted ++ Code.partsOf arm.body

theorem Arm.partsOf_code (arm : Arm) (rest : Chain) :
    (Code.partsOf (arm.code rest)).Perm
      (.branch arm.test arm.body rest :: (arm.parts ++ rest.parts)) := by
  rw [Arm.code, Arm.parts]
  simp only [Code.partsOf_append, Code.partsOf_cons, Code.partsOf_nil, Code.parts,
    List.append_nil, List.append_assoc]
  exact List.perm_middle

/-- One more `if` for a test that needs lines, and nothing twice. -/
theorem Arm.parts_attach (arm : Arm) (rest : Chain) :
    ∃ ifs, (∀ c ∈ ifs, c.IsBranch) ∧ ifs.length = (if arm.hoisted.isEmpty then 0 else 1) ∧
      (arm.attach rest).parts.Perm (ifs ++ (arm.parts ++ rest.parts)) := by
  rw [Arm.attach]
  split_ifs with bare
  · refine ⟨[], by simp, rfl, ?_⟩
    rw [Chain.parts, Arm.parts, List.isEmpty_iff.1 bare]
    simp
  · refine ⟨[.branch arm.test arm.body rest], by simp [Code.IsBranch], rfl, ?_⟩
    rw [Chain.parts]
    exact arm.partsOf_code rest

theorem Chain.parts_ofArms (last : Option (List Code)) (arms : List Arm) :
    ∃ ifs, (∀ c ∈ ifs, c.IsBranch) ∧ ifs.length = (arms.filter (!·.hoisted.isEmpty)).length ∧
      (Chain.ofArms arms (.ofElse last)).parts.Perm
        (ifs ++ (arms.flatMap Arm.parts ++ Code.partsOf (last.getD []))) := by
  induction arms with
  | nil =>
    refine ⟨[], by simp, rfl, ?_⟩
    cases last <;> simp [Chain.ofArms, Chain.ofElse, Chain.parts]
  | cons arm rest ih =>
    obtain ⟨ifs, branches, length, parts⟩ := ih
    obtain ⟨more, branches', length', parts'⟩ := arm.parts_attach (.ofArms rest (.ofElse last))
    refine ⟨more ++ ifs, ?_, ?_, parts'.trans ?_⟩
    · intro c hc
      exact (List.mem_append.1 hc).elim (branches' c) (branches c)
    · rw [List.length_append, length, length', List.filter_cons]
      cases arm.hoisted.isEmpty <;> simp [Nat.add_comm]
    · rw [List.flatMap_cons, List.append_assoc, List.append_assoc]
      exact ((parts.append_left _).trans (List.perm_append_comm_assoc _ _ _)).append_left more

/-! ### Decisions -/

/-- A block of one statement: its code after the lines it hoists. -/
theorem run_lowerBlock_singleton {cls : String} {stmt : Stmt} {s t : State} {lines : List Code}
    (h : (lowerStmt cls stmt).run.run { s with hoisted := [] } = (.ok lines, t)) :
    (lowerBlock cls [stmt]).run.run s =
      (.ok (t.hoisted ++ lines), { t with hoisted := s.hoisted }) := by
  have taken : (lowerStmts cls [stmt]).run.run { s with hoisted := [] } =
      (.ok (t.hoisted ++ lines), { t with hoisted := [] }) := by
    rw [lowerStmts, run_bind_ok h, lowerStmts, ← List.append_nil (t.hoisted ++ lines)]
    rfl
  rw [lowerBlock, run_inBlock_ok taken]

theorem run_lowerBlock_singleton_error {cls : String} {stmt : Stmt} {s t : State} {r : Refusal}
    (h : (lowerStmt cls stmt).run.run { s with hoisted := [] } = (.error r, t)) :
    (lowerBlock cls [stmt]).run.run s = (.error r, t) := by
  have refused : (lowerStmts cls [stmt]).run.run { s with hoisted := [] } = (.error r, t) := by
    rw [lowerStmts, run_bind_error h]
  exact run_inBlock_error refused

/-- An `if` and its clauses are converted alike: to the code of the first clause, with the others
attached, or to the same refusal. -/
theorem run_ifElse (cls : String) (test : Expr) (body : List Stmt) (elseIfs : List ElseIf)
    (otherwise : Option (List Stmt)) (s : State) :
    (∃ arm arms last t,
      (lowerBlock cls [.ifElse test body elseIfs otherwise]).run.run s =
        (.ok (Arm.code arm (.ofArms arms (.ofElse last))), t) ∧
      (lowerClauses cls test body elseIfs otherwise).run.run s = (.ok (arm :: arms, last), t) ∧
      arms.length = elseIfs.length ∧ arm.IsPlain ∧ ∀ a ∈ arms, a.IsPlain) ∨
    ∃ r t u, (lowerBlock cls [.ifElse test body elseIfs otherwise]).run.run s = (.error r, t) ∧
      (lowerClauses cls test body elseIfs otherwise).run.run s = (.error r, u) := by
  have inline : Inline (withArrayHoisting (exprText cls test)) fun _ => [] :=
    .withArrayHoisting (inline_lower test).exprText
  obtain ⟨r, lines, m, lets, -, run⟩ := inline s.dims s.hoistArrays
  obtain ⟨t, first, resumes⟩ := run { s with hoisted := [] } rfl rfl
  have hoisted : t.hoisted = lines := resumes.hoisted
  have stmt := lowerStmt_ifElse cls test body elseIfs otherwise
  cases r with
  | error r =>
    refine .inr ⟨r, t, _, run_lowerBlock_singleton_error ?_, run_bind_error (run_isolate_error first)⟩
    rw [stmt, run_bind_error first]
  | ok text =>
    -- The blocks do not see whether the lines of the first test wait or are taken apart.
    rcases sheltered_blocks cls body elseIfs otherwise t with
      ⟨⟨first', arms, last⟩, u, ⟨length, plain⟩, blocks⟩ | ⟨r, blocks⟩
    · refine .inl ⟨⟨t.hoisted, text, first'⟩, arms, last, { u with hoisted := s.hoisted }, ?_, ?_,
        length, hoisted ▸ lets, plain⟩
      · refine run_lowerBlock_singleton (t := { u with hoisted := t.hoisted }) ?_
        rw [stmt, run_bind_ok first, run_bind_ok (blocks t.hoisted)]
        rfl
      · rw [lowerClauses, run_bind_ok (run_isolate_ok first), run_bind_ok (blocks s.hoisted)]
        rfl
    · obtain ⟨u, waiting⟩ := blocks t.hoisted
      obtain ⟨v, apart⟩ := blocks s.hoisted
      refine .inr ⟨r, u, v, run_lowerBlock_singleton_error ?_, ?_⟩
      · rw [stmt, run_bind_ok first, run_bind_error waiting]
      · rw [lowerClauses, run_bind_ok (run_isolate_ok first), run_bind_error apart]

/-- Converting an `if` gives code that decides as its clauses do, whatever the tests turn out to be:
the tests are read in order, each after its own lines, until one holds. The code has the statements
of every clause once, and beside them one `if` for the first test and one for each further test that
needs lines. -/
theorem chain_decides (cls : String) (test : Expr) (body : List Stmt) (elseIfs : List ElseIf)
    (otherwise : Option (List Stmt)) (s : State) :
    (∃ code arms last t ifs,
      (lowerBlock cls [.ifElse test body elseIfs otherwise]).run.run s = (.ok code, t) ∧
      (lowerClauses cls test body elseIfs otherwise).run.run s = (.ok (arms, last), t) ∧
      arms.length = elseIfs.length + 1 ∧
      (∀ o n, Code.executeAll o n code = Arm.executeAll o n last arms) ∧
      (∀ c ∈ ifs, c.IsBranch) ∧
      ifs.length = 1 + (arms.tail.filter (!·.hoisted.isEmpty)).length ∧
      (Code.partsOf code).Perm
        (ifs ++ (arms.flatMap Arm.parts ++ Code.partsOf (last.getD [])))) ∨
    ∃ r t u, (lowerBlock cls [.ifElse test body elseIfs otherwise]).run.run s = (.error r, t) ∧
      (lowerClauses cls test body elseIfs otherwise).run.run s = (.error r, u) := by
  refine (run_ifElse cls test body elseIfs otherwise s).imp_left ?_
  rintro ⟨arm, arms, last, t, block, clauses, length, plain, plains⟩
  obtain ⟨ifs, branches, count, parts⟩ := Chain.parts_ofArms last arms
  refine ⟨_, arm :: arms, last, t, .branch arm.test arm.body (.ofArms arms (.ofElse last)) :: ifs,
    block, clauses, by rw [List.length_cons, length], fun o n => ?_, ?_, ?_, ?_⟩
  · rw [Arm.executeAll_code plain, Chain.execute_ofArms last plains, Arm.executeAll]
  · simpa [Code.IsBranch] using branches
  · rw [List.length_cons, count, List.tail_cons, Nat.add_comm]
  · rw [List.flatMap_cons, List.append_assoc, List.cons_append]
    refine (arm.partsOf_code _).trans (.cons _ ?_)
    exact (parts.append_left _).trans (List.perm_append_comm_assoc _ _ _)

/-- The statements of every clause, those of its test and those of its block, and the statements of
the last block stand in the text of the `if`. -/
theorem shows_clauses {cls : String} {test : Expr} {body : List Stmt} {elseIfs : List ElseIf}
    {otherwise : Option (List Stmt)} {s t u : State} {code : List Code} {arms : List Arm}
    {last : Option (List Code)} (width : ℕ)
    (block : (lowerBlock cls [.ifElse test body elseIfs otherwise]).run.run s = (.ok code, t))
    (clauses : (lowerClauses cls test body elseIfs otherwise).run.run s = (.ok (arms, last), u)) :
    ∀ c ∈ arms.flatMap Arm.parts ++ Code.partsOf (last.getD []),
      Text.Shows (Code.renderAll (blanks width) code) (c.render (blanks width)) := by
  rcases run_ifElse cls test body elseIfs otherwise s with
    ⟨arm, others, last', t', block', clauses', -⟩ | ⟨r, t', u', block', -⟩
  · cases block.symm.trans block'
    cases clauses.symm.trans clauses'
    intro c hc
    obtain ⟨ifs, -, -, parts⟩ := Chain.parts_ofArms last others
    refine Code.shows_renderAll ((arm.partsOf_code _).mem_iff.2 (List.mem_cons_of_mem _ ?_))
    rw [List.flatMap_cons, List.append_assoc, List.mem_append] at hc
    rcases hc with own | other
    · exact List.mem_append_left _ own
    · exact List.mem_append_right _ (parts.mem_iff.2 (List.mem_append_right ifs other))
  · cases block.symm.trans block'

end Zephirize
