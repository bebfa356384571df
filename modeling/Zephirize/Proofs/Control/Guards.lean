import Zephirize.Proofs.Code.Equality
import Zephirize.Proofs.Control.Chains

/-!
# Guards and the loops they leave

Where the test of a `do` needs lines, its loop has none, and these lines with a guard, `if !(test) {
break; }`, stand in front of each `continue` of the loop. A `break` leaves the innermost loop or
`switch` around it, so it matters what stands between the guard and its loop.

* `Stmt.continuesOf` — what stands around each `continue` of the source.
* `Code.sitesOf` — what stands around each `continue` of code, and what stands before it in its block.

`places_stmts`: statements and their code have the same `continue`s with the same constructs around,
and those of the loop around stand after the lines that it runs before it continues. So
`doWhile_guards_leave_iff`: the guards leave their loop exactly if none of its `continue`s stands in a
`switch`.
-/

namespace Zephirize

open Lowering

/-- What a `break` can leave. -/
inductive Breakable where
  | loop
  | switch
deriving DecidableEq, Repr

/-! ### Places of `continue` -/

mutual

/-- For each `continue` in a statement, in order, the constructs around it, the innermost first. -/
def Stmt.continues : Stmt → List (List Breakable)
  | .continueLoop => [[]]
  | .ifElse _ body elseIfs otherwise =>
    Stmt.continuesOf body ++ ElseIf.continuesOf elseIfs ++ Stmt.continuesElse otherwise
  | .whileLoop _ body => (Stmt.continuesOf body).map (· ++ [.loop])
  | .doWhile body _ => (Stmt.continuesOf body).map (· ++ [.loop])
  | .forLoop _ _ _ body => (Stmt.continuesOf body).map (· ++ [.loop])
  | .foreach _ _ _ _ body => (Stmt.continuesOf body).map (· ++ [.loop])
  | .switch _ cases => (Case.continuesOf cases).map (· ++ [.switch])
  | .tryCatch body handlers cleanup =>
    Stmt.continuesOf body ++ Handler.continuesOf handlers ++ Stmt.continuesElse cleanup
  | _ => []

/-- The same for statements. -/
def Stmt.continuesOf : List Stmt → List (List Breakable)
  | [] => []
  | s :: rest => s.continues ++ Stmt.continuesOf rest

/-- The same for a block that may be absent. -/
def Stmt.continuesElse : Option (List Stmt) → List (List Breakable)
  | none => []
  | some body => Stmt.continuesOf body

/-- The same for the further tests of an `if`. -/
def ElseIf.continuesOf : List ElseIf → List (List Breakable)
  | [] => []
  | ⟨_, body⟩ :: rest => Stmt.continuesOf body ++ ElseIf.continuesOf rest

/-- The same for cases. -/
def Case.continuesOf : List Case → List (List Breakable)
  | [] => []
  | ⟨_, body⟩ :: rest => Stmt.continuesOf body ++ Case.continuesOf rest

/-- The same for handlers. -/
def Handler.continuesOf : List Handler → List (List Breakable)
  | [] => []
  | ⟨_, _, body⟩ :: rest => Stmt.continuesOf body ++ Handler.continuesOf rest

end

/-- The place of a `continue` in code: the constructs around it, the innermost first, and the
statements before it in its block. -/
structure Site where
  around : List Breakable
  before : List Code

/-- The place, seen from outside of one more construct. -/
def Site.within (b : Breakable) (site : Site) : Site := { site with around := site.around ++ [b] }

mutual

/-- The places of the `continue`s in a statement that stands after `before` in its block. -/
def Code.sites (before : List Code) : Code → List Site
  | .continueLoop => [⟨[], before⟩]
  | .branch _ body rest => Code.sitesOf [] body ++ rest.sites
  | .whileLoop _ body => (Code.sitesOf [] body).map (.within .loop)
  | .loop body => (Code.sitesOf [] body).map (.within .loop)
  | .doWhile body _ => (Code.sitesOf [] body).map (.within .loop)
  | .forIn _ _ body => (Code.sitesOf [] body).map (.within .loop)
  | .switch _ cases => (Clause.sitesOf cases).map (.within .switch)
  | .tryCatch body handlers => Code.sitesOf [] body ++ Clause.sitesOf handlers
  | _ => []

/-- The places of the `continue`s in statements that stand after `before` in their block. -/
def Code.sitesOf (before : List Code) : List Code → List Site
  | [] => []
  | c :: rest => c.sites before ++ Code.sitesOf (before ++ [c]) rest

/-- The places of the `continue`s in what follows the first block of an `if`. -/
def Chain.sites : Chain → List Site
  | .done => []
  | .elseIf _ body rest => Code.sitesOf [] body ++ rest.sites
  | .otherwise body => Code.sitesOf [] body

/-- The places of the `continue`s in clauses. -/
def Clause.sitesOf : List Clause → List Site
  | [] => []
  | .mk _ body :: rest => Code.sitesOf [] body ++ Clause.sitesOf rest

end

namespace Code

@[simp]
theorem sitesOf_nil (before : List Code) : sitesOf before [] = [] := by rw [sitesOf]

@[simp]
theorem sitesOf_singleton (before : List Code) (c : Code) : sitesOf before [c] = c.sites before := by
  rw [sitesOf, sitesOf_nil, List.append_nil]

theorem sitesOf_append (before xs ys : List Code) :
    sitesOf before (xs ++ ys) = sitesOf before xs ++ sitesOf (before ++ xs) ys := by
  induction xs generalizing before with
  | nil => simp
  | cons c rest ih =>
    rw [List.cons_append, sitesOf, ih, sitesOf, List.append_assoc, List.append_assoc,
      List.singleton_append]

/-- There is no `continue` in the code. -/
def IsBare (code : List Code) : Prop := ∀ before, sitesOf before code = []

theorem IsBare.of_forall {code : List Code} (h : ∀ c ∈ code, ∀ before, c.sites before = []) :
    IsBare code := by
  intro before
  induction code generalizing before with
  | nil => simp
  | cons c rest ih =>
    rw [sitesOf, h c List.mem_cons_self, ih fun d hd => h d (List.mem_cons_of_mem _ hd),
      List.nil_append]

theorem IsBare.simple {lines : List Code} (simple : ∀ c ∈ lines, c.IsSimple) : IsBare lines := by
  refine .of_forall fun c hc before => ?_
  have h := simple c hc
  cases c <;> first | exact h.elim | simp only [sites]

theorem IsBare.lets {lines : List Code} (lets : ∀ c ∈ lines, c.IsLet) : IsBare lines :=
  .simple fun c hc => (lets c hc).isSimple

theorem IsBare.append {xs ys : List Code} (hx : IsBare xs) (hy : IsBare ys) : IsBare (xs ++ ys) := by
  intro before
  rw [sitesOf_append, hx, hy, List.append_nil]

/-- A guard holds no `continue`. -/
theorem IsBare.leaveUnless (test : String) : IsBare [.leaveUnless test] := by
  intro before
  simp [Code.leaveUnless, sites, Chain.sites]

/-- The `continue`s of a loop with its test in front are those of its body. -/
theorem sites_testedLoop {checks : List Code} (bare : IsBare checks) (test : String)
    (body before : List Code) :
    ∃ inner, (testedLoop checks test body).sites before =
      (sitesOf inner body).map (.within .loop) := by
  rw [testedLoop]
  split_ifs
  · exact ⟨[], by rw [sites]⟩
  · refine ⟨checks ++ [leaveUnless test], ?_⟩
    have front : checks ++ leaveUnless test :: body = checks ++ [leaveUnless test] ++ body := by simp
    rw [sites, front, sitesOf_append, bare.append (.leaveUnless test)]
    rfl

end Code

theorem Arm.sites_attach {arm : Arm} (plain : arm.IsPlain) (rest : Chain) :
    (arm.attach rest).sites = Code.sitesOf [] arm.body ++ rest.sites := by
  rw [Arm.attach]
  split_ifs
  · rw [Chain.sites]
  · rw [Chain.sites, Code.sitesOf_append, Code.IsBare.lets plain, Code.sitesOf_singleton, Code.sites,
      List.nil_append]

theorem Chain.sites_ofArms {arms : List Arm} (plain : ∀ arm ∈ arms, arm.IsPlain) (last : Chain) :
    (Chain.ofArms arms last).sites =
      arms.flatMap (fun arm => Code.sitesOf [] arm.body) ++ last.sites := by
  induction arms with
  | nil => rfl
  | cons arm rest ih =>
    have split : Chain.ofArms (arm :: rest) last = arm.attach (.ofArms rest last) := rfl
    rw [split, Arm.sites_attach (plain arm List.mem_cons_self),
      ih fun a ha => plain a (List.mem_cons_of_mem _ ha), List.flatMap_cons, List.append_assoc]

/-- The place of a `continue` of the source in the code. If it belongs to the loop around, it stands
after the lines that this loop runs before it continues. -/
def Site.Fits (pending : List Code) (around : List Breakable) (site : Site) : Prop :=
  site.around = around ∧ (.loop ∉ around → pending <:+ site.before)

/-- The places of all `continue`s, in order. -/
abbrev Placed (pending : List Code) : List (List Breakable) → List Site → Prop :=
  List.Forall₂ (Site.Fits pending)

section Placed

variable {pending inner : List Code} {continues : List (List Breakable)} {sites : List Site}

theorem Placed.append {continues' : List (List Breakable)} {sites' : List Site}
    (h : Placed pending continues sites) (h' : Placed pending continues' sites') :
    Placed pending (continues ++ continues') (sites ++ sites') :=
  List.rel_append h h'

/-- The `continue`s in a loop do not belong to a loop outside of it. -/
theorem Placed.loop (h : Placed inner continues sites) :
    Placed pending (continues.map (· ++ [.loop])) (sites.map (.within .loop)) := by
  rw [Placed, List.forall₂_map_left_iff, List.forall₂_map_right_iff]
  refine h.imp fun around site fits => ⟨?_, fun free => ?_⟩
  · rw [Site.within, fits.1]
  · exact absurd (List.mem_append_right around (List.mem_singleton_self _)) free

/-- The `continue`s in a `switch` belong to the loop around it. -/
theorem Placed.switch (h : Placed pending continues sites) :
    Placed pending (continues.map (· ++ [.switch])) (sites.map (.within .switch)) := by
  rw [Placed, List.forall₂_map_left_iff, List.forall₂_map_right_iff]
  refine h.imp fun around site fits => ⟨?_, fun free => ?_⟩
  · rw [Site.within, fits.1]
  · exact fits.2 fun mem => free (List.mem_append_left _ mem)

end Placed

/-! ### Steps between statements -/

/-- The loops around are these, and only assignments wait. -/
structure State.Stands (s : State) (loops : List (List Code)) : Prop where
  loops : s.loops = loops
  lets : ∀ c ∈ s.hoisted, c.IsLet

/-- The step keeps the loops, hoists assignments only, and its results satisfy `P`. -/
def Keeps {α : Type} (loops : List (List Code)) (x : Lowering α) (P : α → Prop) : Prop :=
  ∀ s t a, x.run.run s = (.ok a, t) → s.Stands loops → t.Stands loops ∧ P a

namespace Keeps

variable {α β : Type} {loops : List (List Code)} {x : Lowering α} {P : α → Prop} {Q : β → Prop}

theorem pure {a : α} (h : P a) : Keeps loops (Pure.pure a) P := by
  rintro s _ _ ⟨⟩ stands
  exact ⟨stands, h⟩

theorem mono {P' : α → Prop} (hx : Keeps loops x P) (h : ∀ a, P a → P' a) : Keeps loops x P' := by
  intro s t a run stands
  obtain ⟨stands', ha⟩ := hx s t a run stands
  exact ⟨stands', h a ha⟩

theorem bind {f : α → Lowering β} (hx : Keeps loops x P) (hf : ∀ a, P a → Keeps loops (f a) Q) :
    Keeps loops (x >>= f) Q := by
  intro s u b run stands
  obtain ⟨a, t, first, second⟩ := exists_of_run_bind run
  obtain ⟨stands', ha⟩ := hx s t a first stands
  exact hf a ha t u b second stands'

/-- Nothing is given by a refusal. -/
theorem refuse (cls : String) (kind : Kind) : Keeps loops (Lowering.refuse cls kind) P := by
  rintro s _ _ ⟨⟩

theorem takeHoisted :
    Keeps loops Lowering.takeHoisted fun lines : List Code => ∀ c ∈ lines, c.IsLet := by
  rintro s _ _ ⟨⟩ stands
  exact ⟨⟨stands.loops, List.forall_mem_nil _⟩, stands.lets⟩

theorem inBlock (hx : Keeps loops x P) : Keeps loops (Lowering.inBlock x) P := by
  intro s u a run stands
  obtain ⟨t, inside, rfl⟩ := exists_of_run_inBlock run
  obtain ⟨stands', ha⟩ := hx _ t a inside ⟨stands.loops, List.forall_mem_nil _⟩
  exact ⟨⟨stands'.loops, stands.lets⟩, ha⟩

theorem withinLoop {inner : List Code} (hx : Keeps (inner :: loops) x P) :
    Keeps loops (Lowering.withinLoop inner x) P := by
  intro s u a run stands
  obtain ⟨t, inside, rfl⟩ := exists_of_run_withinLoop run
  obtain ⟨stands', ha⟩ := hx _ t a inside ⟨congrArg (inner :: ·) stands.loops, stands.lets⟩
  exact ⟨⟨by rw [stands'.loops, List.tail_cons], stands'.lets⟩, ha⟩

end Keeps

/-- Expressions keep the loops and hoist assignments. -/
theorem Inline.keeps {α : Type} {loops : List (List Code)} {x : Lowering α} {out : α → List Code}
    (h : Inline x out) : Keeps loops x fun a => ∀ c ∈ out a, c.IsLet := by
  intro s t a run stands
  obtain ⟨r, lines, m, lets, handed, runs⟩ := h s.dims s.hoistArrays
  obtain ⟨u, same, resumes⟩ := runs s rfl rfl
  cases run.symm.trans same
  refine ⟨⟨resumes.loops.trans stands.loops, fun c hc => ?_⟩, handed a rfl⟩
  rw [resumes.hoisted] at hc
  exact (List.mem_append.1 hc).elim (stands.lets c) (lets c)

/-- The lines of an expression, taken apart from those that wait. -/
theorem Inline.keepsIsolate {α : Type} {loops : List (List Code)} {x : Lowering α}
    {out : α → List Code} (h : Inline x out) :
    Keeps loops (isolate x) fun r => (∀ c ∈ r.2, c.IsLet) ∧ ∀ c ∈ out r.1, c.IsLet := by
  intro s u r run stands
  obtain ⟨t, inside, hoisted, rfl⟩ := exists_of_run_isolate run
  obtain ⟨stands', handed⟩ := h.keeps _ t r.1 inside ⟨stands.loops, List.forall_mem_nil _⟩
  exact ⟨⟨stands'.loops, stands.lets⟩, hoisted ▸ stands'.lets, handed⟩

section Parts

variable {cls : String} {loops : List (List Code)}

theorem keeps_reportIf (holds : Bool) (category message node : String) :
    Keeps loops (reportIf holds cls category message node) fun _ => True := by
  exact (Inline.reportIf holds cls category message node).keeps.mono fun _ _ => trivial

theorem keeps_asLines (e : Expr) :
    Keeps loops (asLines cls e) fun lines => ∀ c ∈ lines, c.IsSimple := by
  refine (inline_lower e).keepsIsolate.bind ?_
  rintro ⟨lowered, hoisted⟩ ⟨lets, handed⟩
  refine .pure fun c hc => ?_
  rcases List.mem_append.1 hc with hc | hc
  · exact (lets c hc).isSimple
  · exact Lowered.asStatement_simple handed c hc

theorem keeps_allAsLines (es : List Expr) :
    Keeps loops (allAsLines cls es) fun lines => ∀ c ∈ lines, c.IsSimple := by
  induction es with
  | nil => exact .pure (by simp)
  | cons e rest ih =>
    refine (keeps_asLines e).bind fun lines simple => ih.bind fun more simple' => .pure ?_
    exact fun c hc => (List.mem_append.1 hc).elim (simple c) (simple' c)

theorem keeps_forTests (es : List Expr) :
    Keeps loops (forTests cls es) fun r => ∀ c ∈ r.1, c.IsSimple := by
  fun_induction forTests cls es with
  | case1 => exact .pure (by simp)
  | case2 last =>
    refine (inline_lower last).exprText.keepsIsolate.bind ?_
    rintro ⟨test, hoisted⟩ ⟨lets, -⟩
    exact .pure fun c hc => (lets c hc).isSimple
  | case3 e rest _ ih =>
    refine (keeps_asLines e).bind fun lines simple => ih.bind ?_
    rintro ⟨more, test⟩ simple'
    exact .pure fun c hc => (List.mem_append.1 hc).elim (simple c) (simple' c)

theorem keeps_lowerStaticLocal (v : StaticLocal) :
    Keeps loops (lowerStaticLocal cls v) Code.IsSimple := by
  unfold lowerStaticLocal
  split
  · exact (inline_lower _).exprText.keeps.bind fun _ _ => .pure trivial
  · exact .pure trivial

theorem keeps_lowerStaticLocals (vars : List StaticLocal) :
    Keeps loops (lowerStaticLocals cls vars) fun lines => ∀ c ∈ lines, c.IsSimple := by
  induction vars with
  | nil => exact .pure (by simp)
  | cons v rest ih =>
    refine (keeps_lowerStaticLocal v).bind fun line simple => ih.bind fun lines simple' => .pure ?_
    exact List.forall_mem_cons.2 ⟨simple, simple'⟩

theorem keeps_bindingText (key : Option Expr) (value : String) :
    Keeps loops (bindingText cls key value) fun _ => True := by
  cases key with
  | none => exact .pure trivial
  | some key => exact (inline_lower key).exprText.keeps.bind fun _ _ => .pure trivial

theorem keeps_caseHead (test : Option Expr) : Keeps loops (caseHead cls test) fun _ => True := by
  cases test with
  | none => exact .pure trivial
  | some test => exact (inline_lower test).exprText.keeps.bind fun _ _ => .pure trivial

end Parts

/-! ### Statements and their code -/

section Statements

variable {cls : String}

/-- The code has the `continue`s of the source at their places, whatever stands before it. -/
def HasContinues (loops : List (List Code)) (continues : List (List Breakable)) (code : List Code) :
    Prop :=
  ∀ before, Placed (loops.headD []) continues (Code.sitesOf before code)

theorem HasContinues.none {loops : List (List Code)} {code : List Code} (bare : Code.IsBare code) :
    HasContinues loops [] code := by
  intro before
  rw [bare]
  exact .nil

theorem HasContinues.append {loops : List (List Code)} {xs ys : List (List Breakable)}
    {code more : List Code} (h : HasContinues loops xs code) (h' : HasContinues loops ys more) :
    HasContinues loops (xs ++ ys) (code ++ more) := by
  intro before
  rw [Code.sitesOf_append]
  exact (h before).append (h' _)

theorem keeps_ret (loops : List (List Code)) (value : Option Expr) :
    Keeps loops (lowerStmt cls (.ret value)) (HasContinues loops []) := by
  have none (value : Option String) : HasContinues loops [] [.ret value] :=
    .none (.of_forall (by simp [Code.sites]))
  rcases value with - | value
  · rw [lowerStmt]
    exact .pure (none _)
  · rw [lowerStmt_ret]
    exact (Inline.passedText (inline_lower value) (inline_literal value)).keeps.bind fun _ _ =>
      .pure (none _)

mutual

theorem places_stmt : ∀ (stmt : Stmt) (loops : List (List Code)), Code.IsBare (loops.headD []) →
    Keeps loops (lowerStmt cls stmt) (HasContinues loops stmt.continues)
  | .expression value, loops, bare => by
    simp only [lowerStmt, Stmt.continues]
    exact (inline_lower value).keeps.bind fun l lets =>
      .pure (.none (.simple (Lowered.asStatement_simple lets)))
  | .ret value, loops, bare => by
    simp only [Stmt.continues]
    exact keeps_ret loops value
  | .ifElse test body elseIfs otherwise, loops, bare => by
    rw [lowerStmt, Stmt.continues]
    refine (inline_lower test).exprText.withArrayHoisting.keeps.bind fun text _ => ?_
    refine (places_stmts body loops bare).inBlock.bind fun body placed => ?_
    refine (places_arms elseIfs loops bare).bind ?_
    rintro arms ⟨plain, placedArms⟩
    -- An `else` that is split off for the lines of a test is nothing that a `break` can leave.
    refine (places_otherwise otherwise loops bare).bind fun last placedLast => .pure fun before => ?_
    rw [Code.sitesOf_singleton, Code.sites, Chain.sites_ofArms plain, List.append_assoc]
    exact (placed []).append (placedArms.append placedLast)
  | .whileLoop test body, loops, bare => by
    rw [lowerStmt, Stmt.continues]
    refine (inline_lower test).exprText.keepsIsolate.bind ?_
    rintro ⟨text, checks⟩ ⟨lets, -⟩
    refine (places_stmts body ([] :: loops) (.lets (by simp))).inBlock.withinLoop.bind
      fun body placed => .pure fun before => ?_
    obtain ⟨inner, sites⟩ := Code.sites_testedLoop (.lets lets) text body before
    rw [Code.sitesOf_singleton, sites]
    exact (placed inner).loop
  | .doWhile body test, loops, bare => by
    rw [lowerStmt, Stmt.continues]
    refine (inline_lower test).exprText.keepsIsolate.bind ?_
    rintro ⟨text, checks⟩ ⟨lets, -⟩
    dsimp only
    split_ifs
    · refine (places_stmts body ([] :: loops) (.lets (by simp))).inBlock.withinLoop.bind
        fun body placed => .pure fun before => ?_
      rw [Code.sitesOf_singleton, Code.sites]
      exact (placed []).loop
    · -- The guards after the body are the lines that its `continue`s run, and hold none themselves.
      have guards : Code.IsBare (checks ++ [.leaveUnless text]) :=
        .append (.lets lets) (.leaveUnless text)
      refine (places_stmts body (_ :: loops) guards).inBlock.withinLoop.bind
        fun body placed => .pure fun before => ?_
      rw [Code.sitesOf_singleton, Code.sites, Code.sitesOf_append, guards, List.append_nil]
      exact (placed []).loop
  | .forLoop init tests steps body, loops, bare => by
    rw [lowerStmt, Stmt.continues]
    refine (keeps_allAsLines init).bind fun init simpleInit => ?_
    refine (keeps_forTests tests).bind ?_
    rintro ⟨checks, text⟩ simpleChecks
    refine (keeps_allAsLines steps).bind fun steps simpleSteps => ?_
    have stepsBare : Code.IsBare steps := .simple simpleSteps
    refine (places_stmts body (steps :: loops) stepsBare).inBlock.withinLoop.bind
      fun body placed => .pure ?_
    refine (HasContinues.none (.simple simpleInit)).append fun before => ?_
    obtain ⟨inner, sites⟩ := Code.sites_testedLoop (.simple simpleChecks) text (body ++ steps) before
    rw [Code.sitesOf_singleton, sites, Code.sitesOf_append, stepsBare, List.append_nil]
    exact (placed inner).loop
  | .foreach subject key value byRef body, loops, bare => by
    rw [lowerStmt, Stmt.continues]
    refine (keeps_reportIf _ _ _ _).bind fun _ _ => ?_
    refine (inline_lower subject).exprText.keeps.bind fun subject _ => ?_
    refine (inline_lower value).exprText.keeps.bind fun value _ => ?_
    refine (keeps_bindingText key value).bind fun binding _ => ?_
    refine (places_stmts body ([] :: loops) (.lets (by simp))).inBlock.withinLoop.bind
      fun body placed => .pure fun before => ?_
    rw [Code.sitesOf_singleton, Code.sites]
    exact (placed []).loop
  | .switch subject cases, loops, bare => by
    rw [lowerStmt, Stmt.continues]
    refine (inline_lower subject).exprText.keeps.bind fun subject _ => ?_
    refine (places_cases cases loops bare).bind fun clauses placed => .pure fun before => ?_
    rw [Code.sitesOf_singleton, Code.sites]
    exact placed.switch
  | .static vars, loops, bare => by
    simp only [lowerStmt, Stmt.continues]
    refine (keeps_reportIf true _ _ _).bind fun _ _ => ?_
    exact (keeps_lowerStaticLocals vars).mono fun _ simple => .none (.simple simple)
  | .tryCatch body handlers none, loops, bare => by
    rw [lowerStmt, Stmt.continues, Stmt.continuesElse, List.append_nil]
    refine (places_stmts body loops bare).inBlock.bind fun body placed => ?_
    refine (places_handlers handlers loops bare).bind fun clauses placedHandlers =>
      .pure fun before => ?_
    rw [Code.sitesOf_singleton, Code.sites]
    exact (placed []).append placedHandlers
  | .tryCatch body handlers (some cleanup), loops, bare => by
    rw [lowerStmt, Stmt.continues, Stmt.continuesElse]
    refine (places_stmts body loops bare).inBlock.bind fun body placed => ?_
    refine (places_handlers handlers loops bare).bind fun clauses placedHandlers => ?_
    refine (keeps_reportIf true _ _ _).bind fun _ _ => ?_
    -- The cleanup follows the `try`, and has the same constructs around it.
    refine (places_stmts cleanup loops bare).inBlock.bind fun cleanup placedCleanup =>
      .pure fun before => ?_
    rw [Code.sitesOf, Code.sites]
    exact ((placed []).append placedHandlers).append (placedCleanup _)
  | .raise value, loops, bare => by
    simp only [lowerStmt, Stmt.continues]
    exact (inline_lower value).exprText.keeps.bind fun _ _ =>
      .pure (.none (.of_forall (by simp [Code.sites])))
  | .breakLoop, loops, bare => by
    simp only [lowerStmt, Stmt.continues]
    exact .pure (.none (.of_forall (by simp [Code.sites])))
  | .continueLoop, loops, bare => by
    rw [lowerStmt, Stmt.continues]
    rintro s _ _ ⟨⟩ stands
    refine ⟨stands, fun before => ?_⟩
    -- The only place where the lines of the loop around are written out.
    rw [stands.loops, Code.sitesOf_append, bare, Code.sitesOf_singleton, Code.sites]
    exact .cons ⟨rfl, fun _ => List.suffix_append before _⟩ .nil
  | .echo values, loops, bare => by
    simp only [lowerStmt, Stmt.continues]
    exact (inline_lowerAll values).keeps.bind fun _ _ =>
      .pure (.none (.of_forall (by simp [Code.sites])))
  | .unset vars, loops, bare => by
    simp only [lowerStmt, Stmt.continues]
    exact (inline_lowerAll vars).keeps.bind fun _ _ =>
      .pure (.none (.of_forall (by simp [Code.sites])))
  | .goto _, loops, bare | .label _, loops, bare | .html _, loops, bare => by
    rw [lowerStmt]
    exact .refuse _ _
  | .nop, loops, bare => by
    simp only [lowerStmt, Stmt.continues]
    exact .pure (.none (.simple (by simp)))

theorem places_stmts : ∀ (stmts : List Stmt) (loops : List (List Code)),
    Code.IsBare (loops.headD []) →
    Keeps loops (lowerStmts cls stmts) (HasContinues loops (Stmt.continuesOf stmts))
  | [], loops, bare => by
    rw [lowerStmts, Stmt.continuesOf]
    exact .pure (.none (.simple (by simp)))
  | stmt :: rest, loops, bare => by
    rw [lowerStmts, Stmt.continuesOf]
    refine (places_stmt stmt loops bare).bind fun code placed => ?_
    refine Keeps.takeHoisted.bind fun hoisted lets => ?_
    refine (places_stmts rest loops bare).bind fun more placedRest => .pure ?_
    have lines : HasContinues loops [] hoisted := .none (.lets lets)
    exact (lines.append placed).append placedRest

theorem places_arms : ∀ (elseIfs : List ElseIf) (loops : List (List Code)),
    Code.IsBare (loops.headD []) →
    Keeps loops (lowerArms cls elseIfs) fun arms => (∀ arm ∈ arms, arm.IsPlain) ∧
      Placed (loops.headD []) (ElseIf.continuesOf elseIfs)
        (arms.flatMap fun arm => Code.sitesOf [] arm.body)
  | [], loops, bare => by
    rw [lowerArms, ElseIf.continuesOf]
    exact .pure ⟨by simp, .nil⟩
  | ⟨test, body⟩ :: rest, loops, bare => by
    rw [lowerArms, ElseIf.continuesOf]
    refine (inline_lower test).exprText.keepsIsolate.bind ?_
    rintro ⟨text, hoisted⟩ ⟨lets, -⟩
    refine (places_stmts body loops bare).inBlock.bind fun body placed => ?_
    refine (places_arms rest loops bare).bind ?_
    rintro arms ⟨plain, placedArms⟩
    exact .pure ⟨List.forall_mem_cons.2 ⟨lets, plain⟩, (placed []).append placedArms⟩

theorem places_otherwise : ∀ (otherwise : Option (List Stmt)) (loops : List (List Code)),
    Code.IsBare (loops.headD []) →
    Keeps loops (lowerOtherwise cls otherwise) fun chain =>
      Placed (loops.headD []) (Stmt.continuesElse otherwise) chain.sites
  | none, loops, bare => by
    rw [lowerOtherwise, Stmt.continuesElse]
    exact .pure (by rw [Chain.sites]; exact .nil)
  | some body, loops, bare => by
    rw [lowerOtherwise, Stmt.continuesElse]
    refine (places_stmts body loops bare).inBlock.bind fun body placed => .pure ?_
    rw [Chain.sites]
    exact placed []

theorem places_cases : ∀ (cases : List Case) (loops : List (List Code)),
    Code.IsBare (loops.headD []) →
    Keeps loops (lowerCases cls cases) fun clauses =>
      Placed (loops.headD []) (Case.continuesOf cases) (Clause.sitesOf clauses)
  | [], loops, bare => by
    rw [lowerCases, Case.continuesOf]
    exact .pure (by rw [Clause.sitesOf]; exact .nil)
  | ⟨test, body⟩ :: rest, loops, bare => by
    rw [lowerCases, Case.continuesOf]
    refine (keeps_caseHead test).bind fun head _ => ?_
    refine (places_stmts body loops bare).inBlock.bind fun body placed => ?_
    refine (places_cases rest loops bare).bind fun clauses placedRest => .pure ?_
    rw [Clause.sitesOf]
    exact (placed []).append placedRest

theorem places_handlers : ∀ (handlers : List Handler) (loops : List (List Code)),
    Code.IsBare (loops.headD []) →
    Keeps loops (lowerHandlers cls handlers) fun clauses =>
      Placed (loops.headD []) (Handler.continuesOf handlers) (Clause.sitesOf clauses)
  | [], loops, bare => by
    rw [lowerHandlers, Handler.continuesOf]
    exact .pure (by rw [Clause.sitesOf]; exact .nil)
  | ⟨types, var, body⟩ :: rest, loops, bare => by
    rw [lowerHandlers, Handler.continuesOf]
    refine (places_stmts body loops bare).inBlock.bind fun body placed => ?_
    refine (places_handlers rest loops bare).bind fun clauses placedRest => .pure ?_
    rw [Clause.sitesOf]
    exact (placed []).append placedRest

end

end Statements

/-! ### The loop of a `do` -/

/-- A `continue` of the source inside of a `do`, and its place in the loop with this guard. -/
def Site.FitsLoop (guard : List Code) (around : List Breakable) (site : Site) : Prop :=
  site.around = around ++ [.loop] ∧ (.loop ∉ around → guard <:+ site.before)

/-- The loop of a `do` whose test needs lines: its body is followed by the lines and a guard, and its
own `continue`s stand after the same lines and guard. -/
theorem doWhile_places {cls : String} {body : List Stmt} {test : Expr} {s t u : State} {text : String}
    {checks code : List Code}
    (tested : (isolate (exprText cls test)).run.run s = (.ok (text, checks), t))
    (needed : checks ≠ [])
    (converted : (lowerStmt cls (.doWhile body test)).run.run s = (.ok code, u)) :
    (∃ inner, code = [.loop (inner ++ (checks ++ [.leaveUnless text]))]) ∧
    List.Forall₂ (Site.FitsLoop (checks ++ [.leaveUnless text])) (Stmt.continuesOf body)
      (Code.sitesOf [] code) := by
  have guards : Code.IsBare (checks ++ [.leaveUnless text]) := by
    obtain ⟨t, inside, hoisted, -⟩ := exists_of_run_isolate tested
    have lets : ∀ c ∈ t.hoisted, c.IsLet :=
      ((inline_lower test).exprText.keeps _ t text inside ⟨rfl, List.forall_mem_nil _⟩).1.lets
    rw [← hoisted] at lets
    exact .append (.lets lets) (.leaveUnless text)
  rw [lowerStmt, run_bind_ok tested] at converted
  dsimp only at converted
  rw [if_neg (by simpa using needed)] at converted
  obtain ⟨inner, v, loop, done⟩ := exists_of_run_bind converted
  cases done
  obtain ⟨w, block, -⟩ := exists_of_run_withinLoop loop
  obtain ⟨w, stmts, -⟩ := exists_of_run_inBlock block
  have placed : HasContinues _ (Stmt.continuesOf body) inner :=
    (places_stmts body (_ :: t.loops) guards _ w inner stmts ⟨rfl, List.forall_mem_nil _⟩).2
  refine ⟨⟨inner, rfl⟩, ?_⟩
  rw [Code.sitesOf_singleton, Code.sites, Code.sitesOf_append, guards, List.append_nil,
    List.forall₂_map_right_iff]
  exact (placed []).imp fun around site fits => ⟨by rw [Site.within, fits.1], fits.2⟩

/-- Breakable constructs that are no loops are switches. -/
theorem eq_nil_iff_of_not_mem_loop {around : List Breakable} (free : .loop ∉ around) :
    around = [] ↔ .switch ∉ around := by
  constructor
  · rintro rfl
    simp
  · intro none
    refine List.eq_nil_iff_forall_not_mem.2 fun b hb => ?_
    cases b with
    | loop => exact free hb
    | switch => exact none hb

/-- The loop of a `do` whose test needs lines ends with these lines and a guard, and each of its own
`continue`s stands right after the same lines and guard. All of these guards leave this loop, which is
then the only breakable construct around them, exactly if no `continue` of the loop stands in a
`switch` inside it. -/
theorem doWhile_guards_leave_iff (cls : String) (body : List Stmt) (test : Expr) (s t u : State)
    (text : String) (checks code : List Code)
    (tested : (isolate (exprText cls test)).run.run s = (.ok (text, checks), t))
    (needed : checks ≠ [])
    (converted : (lowerStmt cls (.doWhile body test)).run.run s = (.ok code, u)) :
    (∃ inner, code = [.loop (inner ++ (checks ++ [.leaveUnless text]))]) ∧
    List.Forall₂ (Site.FitsLoop (checks ++ [.leaveUnless text])) (Stmt.continuesOf body)
      (Code.sitesOf [] code) ∧
    ((∀ site ∈ Code.sitesOf [] code, .loop ∉ site.around.dropLast → site.around = [.loop]) ↔
      ∀ around ∈ Stmt.continuesOf body, .loop ∉ around → .switch ∉ around) := by
  obtain ⟨ends, places⟩ := doWhile_places tested needed converted
  have around : (Code.sitesOf [] code).map Site.around =
      (Stmt.continuesOf body).map (· ++ [.loop]) := by
    rw [← List.forall₂_eq_eq_eq, List.forall₂_map_left_iff, List.forall₂_map_right_iff]
    exact (places.imp fun _ _ fits => fits.1).flip
  refine ⟨ends, places, ?_⟩
  calc
    _ ↔ ∀ a ∈ (Stmt.continuesOf body).map (· ++ [.loop]), .loop ∉ a.dropLast → a = [.loop] := by
      rw [← around, List.forall_mem_map]
    _ ↔ ∀ a ∈ Stmt.continuesOf body, .loop ∉ a → a = [] := by
      simp
    _ ↔ _ := by
      refine forall₂_congr fun a _ => imp_congr_right fun free => ?_
      exact eq_nil_iff_of_not_mem_loop free

/-- `do { if (skip) { try { continue; } catch (E $e) {} } } while (y = more());`: between the guard and
its loop are an `if` and a `try`. -/
theorem doWhile_guards_leave_try :
    let test : Expr := .assign (.named "y") (.callOf "more" []) false
    let body : List Stmt :=
      [.ifThen (.named "skip") [.tryCatch [.continueLoop] [⟨[⟨["E"], false⟩], some "e", []⟩] none]]
    let guard : List Code := [.set "y" "more()", .leaveUnless "y"]
    let code : List Code :=
      [.loop (.branch "skip" [.tryCatch (guard ++ [.continueLoop]) [.mk "catch E, e" []]] .done :: guard)]
    ((isolate (exprText "A" test)).run.run {}).1 = .ok ("y", [.set "y" "more()"]) ∧
      [Code.set "y" "more()"] ≠ [] ∧
      ((lowerStmt "A" (.doWhile body test)).run.run {}).1 = .ok code ∧
      ∀ site ∈ Code.sitesOf [] code, .loop ∉ site.around.dropLast → site.around = [.loop] := by
  intro test body guard code
  have tested : ((isolate (exprText "A" test)).run.run {}).1 = .ok ("y", [.set "y" "more()"]) := by
    decide +kernel
  have converted : ((lowerStmt "A" (.doWhile body test)).run.run {}).1 = .ok code := by
    decide +kernel
  have needed : [Code.set "y" "more()"] ≠ [] := List.cons_ne_nil _ _
  refine ⟨tested, needed, converted, ?_⟩
  rcases run : (isolate (exprText "A" test)).run.run {} with ⟨r, t⟩
  rcases run' : (lowerStmt "A" (.doWhile body test)).run.run {} with ⟨r', u⟩
  rw [run] at tested
  rw [run'] at converted
  cases tested
  cases converted
  refine (doWhile_guards_leave_iff "A" body test {} t u "y" _ code run needed run').2.2.2 ?_
  simp [body, Stmt.ifThen, Stmt.continuesOf, Stmt.continues, Stmt.continuesElse,
    ElseIf.continuesOf, Handler.continuesOf]

/-- `do { switch (x) { case 1: continue; } } while (y = more());`: the guard in front of the
`continue` leaves the `switch`. The lines of the test then run a second time, at the end of the
loop. -/
theorem doWhile_guard_leaves_switch :
    let test : Expr := .assign (.named "y") (.callOf "more" []) false
    let body : List Stmt := [.switch (.named "x") [⟨some (.int 1), [.continueLoop]⟩]]
    let guard : List Code := [.set "y" "more()", .leaveUnless "y"]
    let code : List Code := [.loop (.switch "x" [.mk "case 1:" (guard ++ [.continueLoop])] :: guard)]
    ((lowerStmt "A" (.doWhile body test)).run.run {}).1 = .ok code ∧
      Stmt.continuesOf body = [[.switch]] ∧
      Code.sitesOf [] code = [⟨[.switch, .loop], guard⟩] := by
  intro test body guard code
  refine ⟨by decide +kernel, by decide +kernel, ?_⟩
  simp [code, guard, Code.sitesOf, Code.sites, Clause.sitesOf, Code.set, Code.leaveUnless,
    Chain.sites, Site.within]

end Zephirize
