import Zephirize.Proofs.Lowering.Statements

/-!
# Reference marks

The target language knows no references. The mark on an assignment, a `foreach` or an item is
dropped, and a note is to tell of it. Items stand in array literals and in destructuring targets. As
a value an item is converted on its own and its mark is reported, but as a slot that an assignment
writes to only its key and its target are looked at, and the mark goes unnoticed.

* `marksOf` — the number of marks at and below some nodes, from the walk over the tree.
* `slotMarksOf` — the number of those on slots that an assignment writes to.
* `Reports` — how many notes about marks a step adds; the rules follow the ways in which steps are
  put together.
* `reports_lower`, `reports_stmts` — expressions and statements are converted with as many notes
  about marks as they have marks, those of slots apart.
-/

namespace Zephirize

/-! ### Marks -/

/-- The note is about a reference mark. -/
def Diagnostic.isReference (d : Diagnostic) : Bool := d.severity == .incompatibility "reference"

/-- The node has a reference mark of its own. -/
def Node.isMarked : Node → Bool
  | .expr (.assign _ _ byRef) => byRef
  | .stmt (.foreach _ _ _ byRef _) => byRef
  | .item i => i.byRef
  | _ => false

/-- The number of marks at and below the roots. -/
def marksOf (roots : List Node) : ℕ := (nodesOf roots).countP Node.isMarked

mutual

/-- The number of marks on the slots of a destructuring target and of the targets inside it. -/
def slotMarks : List (Option Item) → ℕ
  | [] => 0
  | none :: rest => slotMarks rest
  | some item :: rest => itemMarks item + slotMarks rest

/-- The number of marks on a slot and on the slots of the target inside it. -/
def itemMarks : Item → ℕ
  | ⟨_, .list nested, byRef, _⟩ => byRef.toNat + slotMarks nested
  | ⟨_, _, byRef, _⟩ => byRef.toNat

end

/-- The number of marks on the slots of a target. -/
def Expr.targetMarks : Expr → ℕ
  | .list items => slotMarks items
  | _ => 0

theorem itemMarks_eq (key : Option Expr) (value : Expr) (byRef unpack : Bool) :
    itemMarks ⟨key, value, byRef, unpack⟩ = byRef.toNat + value.targetMarks := by
  unfold itemMarks Expr.targetMarks
  cases value <;> rfl

/-- The number of marks on the slots that a node writes to. -/
def Node.slotMarks : Node → ℕ
  | .expr (.assign (.list items) _ _) => Zephirize.slotMarks items
  | _ => 0

theorem Node.slotMarks_assign (target value : Expr) (byRef : Bool) :
    (Node.expr (.assign target value byRef)).slotMarks = target.targetMarks := by
  cases target <;> rfl

/-- The number of marks on slots that an assignment at or below the roots writes to. -/
def slotMarksOf (roots : List Node) : ℕ := ((nodesOf roots).map Node.slotMarks).sum

/-- What a node adds to the number of marks that are reported: its own mark, less the marks of the
slots that it writes to, which the items below it count. -/
def Node.share (n : Node) : ℤ := n.isMarked.toNat - n.slotMarks

/-- The number of marks at and below the roots that are reported. -/
def reportedIn (roots : List Node) : ℤ := ((nodesOf roots).map Node.share).sum

theorem reportedIn_eq (roots : List Node) :
    reportedIn roots = marksOf roots - slotMarksOf roots := by
  unfold reportedIn marksOf slotMarksOf
  induction nodesOf roots with
  | nil => rfl
  | cons n rest ih =>
    rw [List.map_cons, List.sum_cons, ih, List.countP_cons, List.map_cons, List.sum_cons,
      Node.share]
    cases n.isMarked <;> push_cast <;> simp <;> ring

/-- The number of marks at and below a node that are reported. -/
def Node.reported (n : Node) : ℤ := reportedIn [n]

theorem Node.reported_eq (n : Node) : n.reported = n.share + reportedIn n.children := by
  simp [reported, reportedIn, nodesOf_singleton]

/-- A node without a share has what its children have. -/
theorem Node.reported_of_share {n : Node} (unmarked : n.share = 0) :
    n.reported = reportedIn n.children := by
  rw [reported_eq, unmarked, zero_add]

@[simp]
theorem reportedIn_nil : reportedIn [] = 0 := by simp [reportedIn]

@[simp]
theorem reportedIn_append (xs ys : List Node) :
    reportedIn (xs ++ ys) = reportedIn xs + reportedIn ys := by simp [reportedIn]

@[simp]
theorem reportedIn_cons (n : Node) (rest : List Node) :
    reportedIn (n :: rest) = n.reported + reportedIn rest := by
  rw [← List.singleton_append, reportedIn_append, Node.reported]

/-! ### Steps and their notes -/

/-- Whenever the step succeeds, `n` of the notes that it adds are about marks. -/
def Reports {α : Type} (step : Lowering α) (n : ℤ) : Prop :=
  ∀ (s t : State) (a : α), step.run.run s = (.ok a, t) →
    ∃ notes, t.diagnostics = s.diagnostics ++ notes ∧ (notes.countP Diagnostic.isReference : ℤ) = n

namespace Reports

open Lowering

variable {α β : Type} {x : Lowering α} {n : ℤ}

/-- A step that leaves the notes alone. -/
theorem silent (h : ∀ s : State, (x.run.run s).2.diagnostics = s.diagnostics) : Reports x 0 := by
  intro s t a run
  have same := h s
  rw [run] at same
  exact ⟨[], by rw [List.append_nil]; exact same, rfl⟩

theorem pure (a : α) : Reports (Pure.pure a : Lowering α) 0 := silent fun _ => rfl

theorem refuse (cls : String) (kind : Kind) :
    Reports (Lowering.refuse cls kind : Lowering α) n := by
  intro s t a run
  cases run

/-- A step that is followed by another one, which needs to report only for results of the first. -/
theorem bindOf {f : α → Lowering β} {k : ℤ} (hx : Reports x n)
    (hf : ∀ (s t : State) (a : α), x.run.run s = (.ok a, t) → Reports (f a) k) :
    Reports (x >>= f) (n + k) := by
  intro s u b run
  obtain ⟨a, t, first, next⟩ := exists_of_run_bind run
  obtain ⟨notes, added, count⟩ := hx s t a first
  obtain ⟨more, added', count'⟩ := hf s t a first t u b next
  refine ⟨notes ++ more, by rw [added', added, List.append_assoc], ?_⟩
  rw [List.countP_append, Nat.cast_add, count, count']

theorem bind {f : α → Lowering β} {k : ℤ} (hx : Reports x n) (hf : ∀ a, Reports (f a) k) :
    Reports (x >>= f) (n + k) := hx.bindOf fun _ _ a _ => hf a

theorem congr {k : ℤ} (hx : Reports x n) (h : n = k) : Reports x k := h ▸ hx

/-- A note about a mark is added where there is one. -/
theorem marked (holds : Bool) (cls message node : String) :
    Reports (reportIf holds cls "reference" message node) holds.toNat := by
  cases holds with
  | false => exact silent fun _ => rfl
  | true =>
    intro s t a run
    cases run
    exact ⟨_, rfl, rfl⟩

theorem other (holds : Bool) (cls message node : String) {category : String}
    (h : category ≠ "reference") : Reports (reportIf holds cls category message node) 0 := by
  cases holds with
  | false => exact silent fun _ => rfl
  | true =>
    intro s t a run
    cases run
    refine ⟨_, rfl, ?_⟩
    simp [Diagnostic.isReference, h]

theorem inform (cls message node : String) : Reports (Lowering.inform cls message node) 0 := by
  intro s t a run
  cases run
  exact ⟨_, rfl, rfl⟩

theorem around {before : State → State} {after : State → State → State} (hx : Reports x n)
    (start : ∀ s, (before s).diagnostics = s.diagnostics)
    (keeps : ∀ s t, (after s t).diagnostics = t.diagnostics) :
    Reports (Lowering.around before after x) n := by
  intro s t a run
  rcases inside : x.run.run (before s) with ⟨r, u⟩
  rw [run_around_ok inside] at run
  cases run
  obtain ⟨notes, added, count⟩ := hx _ u a inside
  exact ⟨notes, by rw [keeps, added, start], count⟩

theorem withinLoop (hx : Reports x n) (pending : List Code) :
    Reports (Lowering.withinLoop pending x) n := hx.around (fun _ => rfl) fun _ _ => rfl

theorem withArrayHoisting (hx : Reports x n) : Reports (Lowering.withArrayHoisting x) n :=
  hx.around (fun _ => rfl) fun _ _ => rfl

theorem isolate (hx : Reports x n) : Reports (Lowering.isolate x) n := by
  intro s t r run
  obtain ⟨u, inside, -, rfl⟩ := exists_of_run_isolate run
  exact hx { s with hoisted := [] } u r.1 inside

theorem inBlock (hx : Reports x n) : Reports (Lowering.inBlock x) n := by
  intro s t a run
  obtain ⟨u, inside, rfl⟩ := exists_of_run_inBlock run
  exact hx { s with hoisted := [] } u a inside

/-- A step that reads the state. -/
theorem get {f : State → Lowering α} (hf : ∀ s, Reports (f s) n) :
    Reports (MonadState.get >>= f) n := fun s => hf s s

theorem hoist (lines : List Code) : Reports (Lowering.hoist lines) 0 := silent fun _ => rfl

/-- A step that reports for a node and for what the node holds. -/
theorem node {m : Node} (hx : Reports x n) (h : m.share + reportedIn m.children = n) :
    Reports x m.reported := hx.congr (by rw [m.reported_eq, h])

/-- A step that reports for what a node holds, which has no share of its own. -/
theorem below {m : Node} (unmarked : m.share = 0) (hx : Reports x n)
    (h : reportedIn m.children = n) : Reports x m.reported :=
  hx.congr (by rw [Node.reported_of_share unmarked, h])

end Reports

/-! ### Expressions -/

open Lowering

variable {cls : String}

namespace Reports

variable {α : Type} {n : ℤ}

theorem asValue (l : Lowered) : Reports l.asValue 0 := by
  cases l with
  | value text => exact pure text
  | assigned lines target => exact (hoist lines).bind fun _ => pure target

/-- The value of an expression is read and goes into a further step. -/
theorem value {e : Expr} {k : String → Lowering α} {m : ℤ} (he : Reports (lower cls e) n)
    (hk : ∀ text, Reports (k text) m) :
    Reports (lower cls e >>= fun l => l.asValue >>= k) (n + m) :=
  he.bind fun l => ((asValue l).bind hk).congr (zero_add m)

theorem exprText {e : Expr} (he : Reports (lower cls e) n) : Reports (exprText cls e) n :=
  (he.bind asValue).congr (add_zero n)

theorem arrayText (items : List Item) (texts : List String) (keep : Bool) :
    Reports (Lowering.arrayText items texts keep) 0 := by
  cases keep with
  | false => exact pure _
  | true => exact (hoist _).bind fun _ => pure _

theorem baseText (base : Expr) (text : String) : Reports (Lowering.baseText base text) 0 := by
  unfold Lowering.baseText
  split
  · exact pure text
  · exact (silent fun _ => rfl : Reports newDim 0).bind fun _ => (hoist _).bind fun _ => pure _

/-- An assignment to a target, given what is known of it as a list of slots and as a value. All
marks below it are reported, but not those of its slots. -/
theorem assignInto {target : Expr} {text : String}
    (ht : Reports (lower cls target) (Node.expr target).reported)
    (slots : ∀ items, target = .list items → ∀ source,
      Reports (destructure cls source 0 items) ((Node.expr target).reported - slotMarks items)) :
    Reports (assignInto cls text target) ((Node.expr target).reported - target.targetMarks) := by
  unfold Zephirize.assignInto
  split
  case h_1 items =>
    rw [Expr.targetMarks]
    exact .congr (.bind (slots items rfl _) fun _ => pure _) (add_zero _)
  case h_2 other =>
    rw [Expr.targetMarks]
    · exact .congr (.bind (exprText ht) fun _ => pure _) (by simp)
    · exact other

/-- The index that a slot is read from. -/
theorem indexText {key : Option Expr} (position : ℕ)
    (hk : Reports (lowerOption cls key) (reportedIn (key.toList.map .expr))) :
    Reports (indexText cls position key) (reportedIn (key.toList.map .expr)) := by
  cases key with
  | none => exact (pure _).congr (by simp)
  | some key => rwa [indexText_some]

/-- A value that is passed on, given what is known of it as an array literal and as a value. -/
theorem passedText {value : Expr} (hv : Reports (lower cls value) (Node.expr value).reported)
    (literal : ∀ items, value = .array items →
      Reports (lowerItems cls items) (reportedIn (items.map .item))) :
    Reports (passedText cls value) (Node.expr value).reported := by
  unfold Zephirize.passedText
  split
  case h_1 items =>
    refine .below rfl ((literal items rfl).bind fun texts => arrayText items texts true) ?_
    simp [Node.children, Node.ofExpr]
  case h_2 => exact exprText hv

/-- An array item, its marks reported before its parts. -/
theorem item {byRef unpack : Bool} {step : Lowering String} (h : Reports step n) :
    Reports (do
      reportIf byRef cls "reference" "Reference not supported in array item" "array item"
      reportIf unpack cls "unpack" "Array unpacking not supported" "array item"
      step) (byRef.toNat + n) :=
  (marked byRef cls _ _).bind fun _ =>
    ((other unpack cls _ _ (by decide)).bind fun _ => h).congr (zero_add n)

end Reports

mutual

theorem reports_lower : ∀ e : Expr, Reports (lower cls e) (Node.expr e).reported
  | .var (.literal name) => by
    rw [lower]
    exact .below rfl (.pure _) (by simp [Node.children, Node.ofExpr])
  | .var (.dynamic name) => by
    rw [lower]
    exact .below rfl (.value (reports_lower name) fun _ => .pure _)
      (by simp [Node.children, Node.ofExpr])
  | .assign target value byRef => by
    rw [lower_assign_eq]
    refine .node (.bind (.marked byRef cls _ _) fun _ => .value (reports_lower value) fun _ =>
      .assignInto (reports_lower target) (reports_slots target)) ?_
    simp only [Node.share, Node.isMarked, Node.slotMarks_assign, Node.children, Node.ofExpr,
      reportedIn_cons, reportedIn_nil]
    ring
  | .assignOp op target value => by
    rw [lower]
    exact .below rfl (.value (reports_lower value) fun _ => .value (reports_lower target) fun _ =>
      .pure _) (by simp [Node.children, Node.ofExpr, add_comm])
  | .incDec op target => by
    rw [lower]
    exact .below rfl (.value (reports_lower target) fun _ => .pure _)
      (by simp [Node.children, Node.ofExpr])
  | .property object name => by
    rw [lower]
    exact .below rfl (.value (reports_lower object) fun _ => .pure _)
      (by simp [Node.children, Node.ofExpr])
  | .dim base index => by
    rw [lower]
    exact .below rfl (.value (reports_lower base) fun text => .bind (.baseText base text) fun _ =>
      .bind (reports_lowerOption index) fun _ => .pure _) (by simp [Node.children, Node.ofExpr])
  | .list items => by
    rw [lower]
    exact .below rfl (.bind (reports_lowerSlots items) fun _ => .pure _)
      (by simp [Node.children, Node.ofExpr])
  | .array items => by
    rw [lower]
    refine .below rfl (.get fun s => .bind (reports_lowerItems items) fun texts =>
      .bind (.arrayText items texts s.hoistArrays) fun _ => .pure _) ?_
    simp [Node.children, Node.ofExpr]
  | .call name args => by
    rw [lower]
    exact .below rfl (.bind (reports_lowerArgs args) fun _ => .pure _)
      (by simp [Node.children, Node.ofExpr])
  | .methodCall object method args => by
    rw [lower]
    exact .below rfl (.value (reports_lower object) fun _ => .bind (reports_lowerArgs args) fun _ =>
      .pure _) (by simp [Node.children, Node.ofExpr])
  | .staticCall owner method args => by
    rw [lower]
    exact .below rfl (.bind (reports_lowerArgs args) fun _ => .pure _)
      (by simp [Node.children, Node.ofExpr])
  | .new owner args => by
    rw [lower]
    exact .below rfl (.bind (reports_lowerArgs args) fun _ => .pure _)
      (by simp [Node.children, Node.ofExpr])
  | .binary op left right => by
    rw [lower]
    exact .below rfl (.value (reports_lower left) fun _ => .value (reports_lower right) fun _ =>
      .pure _) (by simp [Node.children, Node.ofExpr])
  | .unary op operand => by
    rw [lower]
    exact .below rfl (.value (reports_lower operand) fun _ => .pure _)
      (by simp [Node.children, Node.ofExpr])
  | .ternary test (some yes) no => by
    rw [lower]
    exact .below rfl (.value (reports_lower test) fun _ => .value (reports_lower yes) fun _ =>
      .value (reports_lower no) fun _ => .pure _) (by simp [Node.children, Node.ofExpr])
  | .ternary test none no => by
    rw [lower]
    exact .below rfl (.value (reports_lower test) fun _ => .value (reports_lower no) fun _ =>
      .pure _) (by simp [Node.children, Node.ofExpr])
  | .isset vars => by
    rw [lower]
    exact .below rfl (.bind (reports_lowerAll vars) fun _ => .pure _)
      (by simp [Node.children, Node.ofExpr])
  | .empty value => by
    rw [lower]
    exact .below rfl (.value (reports_lower value) fun _ => .pure _)
      (by simp [Node.children, Node.ofExpr])
  | .instanceOf value owner => by
    rw [lower]
    exact .below rfl (.value (reports_lower value) fun _ => .pure _)
      (by simp [Node.children, Node.ofExpr])
  | .cast type value => by
    rw [lower]
    exact .below rfl (.value (reports_lower value) fun _ => .pure _)
      (by simp [Node.children, Node.ofExpr])
  | .eval code => by
    rw [lower]
    exact .refuse cls .eval
  | .shell parts => by
    rw [lower]
    exact .refuse cls .shell
  | .staticProperty .. | .classConst .. | .const _ | .string _ | .int _ | .float _ => by
    rw [lower]
    exact .below rfl (.pure _) (by simp [Node.children, Node.ofExpr])

theorem reports_slots : ∀ (target : Expr) (items : List (Option Item)), target = .list items →
    ∀ source, Reports (destructure cls source 0 items)
      ((Node.expr target).reported - slotMarks items)
  | .list items, _, rfl, source => (reports_destructure source 0 items).congr
      (by rw [Node.reported_of_share rfl]; rfl)

theorem reports_literal : ∀ (value : Expr) (items : List Item), value = .array items →
    Reports (lowerItems cls items) (reportedIn (items.map .item))
  | .array items, _, rfl => reports_lowerItems items

theorem reports_lowerOption : ∀ e : Option Expr,
    Reports (lowerOption cls e) (reportedIn (e.toList.map .expr))
  | none => by
    rw [lowerOption]
    exact .congr (.pure _) (by simp)
  | some e => by
    rw [lowerOption]
    exact .congr (.exprText (reports_lower e)) (by simp)

theorem reports_lowerAll : ∀ es : List Expr,
    Reports (lowerAll cls es) (reportedIn (es.map .expr))
  | [] => by
    rw [lowerAll]
    exact .congr (.pure _) (by simp)
  | e :: rest => by
    rw [lowerAll]
    exact .congr (.value (reports_lower e) fun _ => .bind (reports_lowerAll rest) fun _ =>
      .pure _) (by simp)

theorem reports_lowerItem : ∀ item : Item,
    Reports (lowerItem cls item) (Node.item item).reported
  | ⟨some key, value, byRef, unpack⟩ => by
    rw [lowerItem]
    exact .node (.item (.value (reports_lower key) fun _ => .value (reports_lower value) fun _ =>
      .pure _)) (by simp [Node.share, Node.isMarked, Node.slotMarks, Node.children])
  | ⟨none, value, byRef, unpack⟩ => by
    rw [lowerItem]
    exact .node (.item (.exprText (reports_lower value)))
      (by simp [Node.share, Node.isMarked, Node.slotMarks, Node.children])

theorem reports_lowerItems : ∀ items : List Item,
    Reports (lowerItems cls items) (reportedIn (items.map .item))
  | [] => by
    rw [lowerItems]
    exact .congr (.pure _) (by simp)
  | item :: rest => by
    rw [lowerItems]
    exact .congr (.bind (reports_lowerItem item) fun _ => .bind (reports_lowerItems rest) fun _ =>
      .pure _) (by simp)

theorem reports_lowerSlots : ∀ items : List (Option Item),
    Reports (lowerSlots cls items) (reportedIn ((items.filterMap id).map .item))
  | [] => by
    rw [lowerSlots]
    exact .congr (.pure _) (by simp)
  | none :: rest => by
    rw [lowerSlots]
    exact .congr (.bind (reports_lowerSlots rest) fun _ => .pure _) (by simp)
  | some item :: rest => by
    rw [lowerSlots]
    exact .congr (.bind (reports_lowerItem item) fun _ => .bind (reports_lowerSlots rest) fun _ =>
      .pure _) (by simp)

theorem reports_destructure (source : String) (position : ℕ) : ∀ items : List (Option Item),
    Reports (destructure cls source position items)
      (reportedIn ((items.filterMap id).map .item) - slotMarks items)
  | [] => by
    rw [destructure]
    exact .congr (.pure _) (by simp [slotMarks])
  | none :: rest => by
    rw [destructure, slotMarks]
    exact reports_destructure source (position + 1) rest
  | some ⟨key, value, byRef, unpack⟩ :: rest => by
    rw [destructure_cons, slotMarks, itemMarks_eq]
    refine .congr (.bind (.indexText position (reports_lowerOption key)) fun _ =>
      .bind (.assignInto (reports_lower value) (reports_slots value)) fun _ =>
      .bind (reports_destructure source (position + 1) rest) fun _ => .pure _) ?_
    simp only [List.filterMap_cons, id, List.map_cons, reportedIn_cons, Node.reported_eq (.item _),
      Node.share, Node.isMarked, Node.slotMarks, Node.children, reportedIn_append, reportedIn_nil]
    push_cast
    ring

theorem reports_lowerArg : ∀ arg : Argument,
    Reports (lowerArg cls arg) (Node.argument arg).reported
  | ⟨value, byRef, unpack⟩ => by
    rw [lowerArg_eq]
    exact .below rfl (.bind (.other unpack cls _ _ (by decide)) fun _ =>
      .passedText (reports_lower value) (reports_literal value)) (by simp [Node.children])

theorem reports_lowerArgs : ∀ args : List Argument,
    Reports (lowerArgs cls args) (reportedIn (args.map .argument))
  | [] => by
    rw [lowerArgs]
    exact .congr (.pure _) (by simp)
  | arg :: rest => by
    rw [lowerArgs]
    exact .congr (.bind (reports_lowerArg arg) fun _ => .bind (reports_lowerArgs rest) fun _ =>
      .pure _) (by simp)

end

/-! ### Statements -/

theorem reports_exprText (e : Expr) : Reports (exprText cls e) (Node.expr e).reported :=
  (reports_lower e).exprText

theorem reports_asLines (e : Expr) : Reports (asLines cls e) (Node.expr e).reported :=
  .congr (.bind (.isolate (reports_lower e)) fun _ => .pure _) (add_zero _)

theorem reports_allAsLines (es : List Expr) :
    Reports (allAsLines cls es) (reportedIn (es.map .expr)) := by
  induction es with
  | nil => exact .congr (.pure _) (by simp)
  | cons e rest ih =>
    exact .congr (.bind (reports_asLines e) fun _ => .bind ih fun _ => .pure _) (by simp)

theorem reports_forTests : ∀ tests : List Expr,
    Reports (forTests cls tests) (reportedIn (tests.map .expr))
  | [] => .congr (.pure _) (by simp)
  | [last] => .congr (.bind (.isolate (reports_exprText last)) fun _ => .pure _) (by simp)
  | e :: next :: rest => .congr (.bind (reports_asLines e) fun _ =>
      .bind (reports_forTests (next :: rest)) fun _ => .pure _) (by simp)

theorem reports_staticLocal (v : StaticLocal) :
    Reports (lowerStaticLocal cls v) (Node.staticLocal v).reported := by
  obtain ⟨name, value⟩ := v
  unfold lowerStaticLocal
  cases value with
  | none => exact .below rfl (.pure _) (by simp [Node.children])
  | some value =>
    exact .below rfl (.bind (reports_exprText value) fun _ => .pure _) (by simp [Node.children])

theorem reports_staticLocals (vars : List StaticLocal) :
    Reports (lowerStaticLocals cls vars) (reportedIn (vars.map .staticLocal)) := by
  induction vars with
  | nil => exact .congr (.pure _) (by simp)
  | cons v rest ih =>
    exact .congr (.bind (reports_staticLocal v) fun _ => .bind ih fun _ => .pure _) (by simp)

theorem reports_caseHead (test : Option Expr) :
    Reports (caseHead cls test) (reportedIn (test.toList.map .expr)) := by
  cases test with
  | none => exact .congr (.pure _) (by simp)
  | some test => exact .congr (.bind (reports_exprText test) fun _ => .pure _) (by simp)

theorem reports_bindingText (key : Option Expr) (value : String) :
    Reports (bindingText cls key value) (reportedIn (key.toList.map .expr)) := by
  cases key with
  | none => exact .congr (.pure _) (by simp)
  | some key => exact .congr (.bind (reports_exprText key) fun _ => .pure _) (by simp)

theorem reports_ret (value : Option Expr) :
    Reports (lowerStmt cls (.ret value)) (Node.stmt (.ret value)).reported := by
  cases value with
  | none =>
    rw [lowerStmt]
    exact .below rfl (.pure _) (by simp [Node.children, Node.ofStmt])
  | some value =>
    rw [lowerStmt_ret]
    exact .below rfl (.bind (.passedText (reports_lower value) (reports_literal value)) fun _ =>
      .pure _) (by simp [Node.children, Node.ofStmt])

/-- A loop with its test at the end reports for its body, whether the test needs lines or not. -/
theorem Reports.doWhile {block : Lowering (List Code)} {n : ℤ} (hb : Reports block n)
    (test : String) (checks : List Code) :
    Reports (if checks.isEmpty then do
        let body ← Lowering.withinLoop [] block
        return [Code.doWhile body test]
      else do
        let body ← Lowering.withinLoop (checks ++ [.leaveUnless test]) block
        return [.loop (body ++ (checks ++ [.leaveUnless test]))]) n := by
  split_ifs
  · exact .congr (.bind (hb.withinLoop _) fun _ => .pure _) (add_zero n)
  · exact .congr (.bind (hb.withinLoop _) fun _ => .pure _) (add_zero n)

mutual

theorem reports_stmt : ∀ stmt : Stmt, Reports (lowerStmt cls stmt) (Node.stmt stmt).reported
  | .expression value => by
    rw [lowerStmt]
    exact .below rfl (.bind (reports_lower value) fun _ => .pure _)
      (by simp [Node.children, Node.ofStmt])
  | .ret value => reports_ret value
  | .ifElse test body elseIfs otherwise => by
    rw [lowerStmt]
    refine .below rfl (.bind (.withArrayHoisting (reports_exprText test)) fun _ =>
      .bind (.inBlock (reports_stmts body)) fun _ => .bind (reports_arms elseIfs) fun _ =>
      .bind (reports_otherwise otherwise) fun _ => .pure _) ?_
    simp [Node.children, Node.ofStmt]
  | .whileLoop test body => by
    rw [lowerStmt]
    exact .below rfl (.bind (.isolate (reports_exprText test)) fun _ =>
      .bind (.withinLoop (.inBlock (reports_stmts body)) _) fun _ => .pure _)
      (by simp [Node.children, Node.ofStmt])
  | .doWhile body test => by
    rw [lowerStmt]
    exact .below rfl (.bind (.isolate (reports_exprText test)) fun r =>
      .doWhile (.inBlock (reports_stmts body)) r.1 r.2)
      (by simp [Node.children, Node.ofStmt, add_comm])
  | .forLoop init tests steps body => by
    rw [lowerStmt]
    refine .below rfl (.bind (reports_allAsLines init) fun _ =>
      .bind (reports_forTests tests) fun _ => .bind (reports_allAsLines steps) fun _ =>
      .bind (.withinLoop (.inBlock (reports_stmts body)) _) fun _ => .pure _) ?_
    simp [Node.children, Node.ofStmt]
  | .foreach subject key value byRef body => by
    rw [lowerStmt]
    refine .node (.bind (.marked byRef cls _ _) fun _ => .bind (reports_exprText subject) fun _ =>
      .bind (reports_exprText value) fun _ => .bind (reports_bindingText key _) fun _ =>
      .bind (.withinLoop (.inBlock (reports_stmts body)) _) fun _ => .pure _) ?_
    simp only [Node.share, Node.isMarked, Node.slotMarks, Node.children, Node.ofStmt,
      reportedIn_cons, reportedIn_append, Nat.cast_zero]
    ring
  | .switch subject cases => by
    rw [lowerStmt]
    exact .below rfl (.bind (reports_exprText subject) fun _ => .bind (reports_cases cases) fun _ =>
      .pure _) (by simp [Node.children, Node.ofStmt])
  | .static vars => by
    rw [lowerStmt]
    exact .below rfl (.bind (.other true cls _ _ (by decide)) fun _ => reports_staticLocals vars)
      (by simp [Node.children, Node.ofStmt])
  | .tryCatch body handlers none => by
    rw [lowerStmt]
    exact .below rfl (.bind (.inBlock (reports_stmts body)) fun _ =>
      .bind (reports_handlers handlers) fun _ => .pure _) (by simp [Node.children, Node.ofStmt])
  | .tryCatch body handlers (some cleanup) => by
    rw [lowerStmt]
    refine .below rfl (.bind (.inBlock (reports_stmts body)) fun _ =>
      .bind (reports_handlers handlers) fun _ => .bind (.other true cls _ _ (by decide)) fun _ =>
      .bind (.inBlock (reports_stmts cleanup)) fun _ => .pure _) ?_
    simp [Node.children, Node.ofStmt]
  | .raise value => by
    rw [lowerStmt]
    exact .below rfl (.bind (reports_exprText value) fun _ => .pure _)
      (by simp [Node.children, Node.ofStmt])
  | .continueLoop => by
    rw [lowerStmt]
    exact .below rfl (.get fun _ => .pure _) (by simp [Node.children, Node.ofStmt])
  | .echo values => by
    rw [lowerStmt]
    exact .below rfl (.bind (reports_lowerAll values) fun _ => .pure _)
      (by simp [Node.children, Node.ofStmt])
  | .unset vars => by
    rw [lowerStmt]
    exact .below rfl (.bind (reports_lowerAll vars) fun _ => .pure _)
      (by simp [Node.children, Node.ofStmt])
  | .goto _ | .label _ | .html _ => by
    rw [lowerStmt]
    exact .refuse cls _
  | .breakLoop | .nop => by
    rw [lowerStmt]
    exact .below rfl (.pure _) (by simp [Node.children, Node.ofStmt])

theorem reports_stmts : ∀ stmts : List Stmt,
    Reports (lowerStmts cls stmts) (reportedIn (stmts.map .stmt))
  | [] => by
    rw [lowerStmts]
    exact .congr (.pure _) (by simp)
  | stmt :: rest => by
    rw [lowerStmts]
    exact .congr (.bind (reports_stmt stmt) fun _ => .bind (.silent fun _ => rfl) fun _ =>
      .bind (reports_stmts rest) fun _ => .pure _) (by simp)

theorem reports_arms : ∀ elseIfs : List ElseIf,
    Reports (lowerArms cls elseIfs) (reportedIn (elseIfs.map .elseIf))
  | [] => by
    rw [lowerArms]
    exact .congr (.pure _) (by simp)
  | ⟨test, body⟩ :: rest => by
    rw [lowerArms]
    have arm : (Node.elseIf ⟨test, body⟩).reported =
        (Node.expr test).reported + reportedIn (body.map .stmt) := by
      rw [Node.reported_of_share rfl, Node.children, reportedIn_cons]
    exact .congr (.bind (.isolate (reports_exprText test)) fun _ =>
      .bind (.inBlock (reports_stmts body)) fun _ => .bind (reports_arms rest) fun _ => .pure _)
      (by simp [arm, add_assoc])

theorem reports_otherwise : ∀ otherwise : Option (List Stmt),
    Reports (lowerOtherwise cls otherwise) (reportedIn ((otherwise.getD []).map .stmt))
  | none => by
    rw [lowerOtherwise]
    exact .congr (.pure _) (by simp)
  | some body => by
    rw [lowerOtherwise]
    exact .congr (.bind (.inBlock (reports_stmts body)) fun _ => .pure _) (by simp)

theorem reports_cases : ∀ cases : List Case,
    Reports (lowerCases cls cases) (reportedIn (cases.map .case))
  | [] => by
    rw [lowerCases]
    exact .congr (.pure _) (by simp)
  | ⟨test, body⟩ :: rest => by
    rw [lowerCases]
    have clause : (Node.case ⟨test, body⟩).reported =
        reportedIn (test.toList.map .expr) + reportedIn (body.map .stmt) := by
      rw [Node.reported_of_share rfl, Node.children, reportedIn_append]
    exact .congr (.bind (reports_caseHead test) fun _ =>
      .bind (.inBlock (reports_stmts body)) fun _ => .bind (reports_cases rest) fun _ => .pure _)
      (by simp [clause, add_assoc])

theorem reports_handlers : ∀ handlers : List Handler,
    Reports (lowerHandlers cls handlers) (reportedIn (handlers.map .handler))
  | [] => by
    rw [lowerHandlers]
    exact .congr (.pure _) (by simp)
  | ⟨types, var, body⟩ :: rest => by
    rw [lowerHandlers]
    have clause : (Node.handler ⟨types, var, body⟩).reported = reportedIn (body.map .stmt) :=
      Node.reported_of_share rfl
    exact .congr (.bind (.inBlock (reports_stmts body)) fun _ =>
      .bind (reports_handlers rest) fun _ => .pure _) (by simp [clause])

end

end Zephirize
