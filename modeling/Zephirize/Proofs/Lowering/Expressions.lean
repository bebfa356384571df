import Zephirize.Proofs.Lowering.Converts
import Zephirize.Proofs.Lowering.Targets

/-!
# Converting expressions does what their tally says

`converts_lower` states, for every expression, that its conversion refuses exactly the kinds of its
tally, creates exactly the temporaries of its tally, and loses no line that it hoists. The companions
of `lower` have companions here; each case follows the steps of the conversion.
-/

namespace Zephirize

namespace Converts

variable {α : Type} {cls : String}

theorem asValue (l : Lowered) : Converts cls l.asValue l.lines 0 fun _ => [] := by
  cases l with
  | value text => exact pure (.refl [])
  | assigned lines target => exact ((hoist lines).bind fun _ => pure (.refl [])).congr (add_zero 0)

/-- The value of an expression is read, its assignments being hoisted, and goes into a further
step. -/
theorem value {e : Expr} {k : String → Lowering α} {a b : Tally} {lines : α → List Code}
    (he : Converts cls (lower cls e) [] a Lowered.lines)
    (hk : ∀ text, Converts cls (k text) [] b lines) :
    Converts cls (lower cls e >>= fun l => l.asValue >>= k) [] (a + b) lines :=
  (he.bind fun l => (asValue l).bind hk).congr (by rw [zero_add])

theorem exprText {e : Expr} {a : Tally} (he : Converts cls (lower cls e) [] a Lowered.lines) :
    Converts cls (exprText cls e) [] a fun _ => [] :=
  (he.bind fun l => asValue l).congr (add_zero a)

/-- A value with nothing in hand. -/
theorem text (text : String) : Converts cls (Pure.pure (.value text)) [] 0 Lowered.lines :=
  pure (.refl [])

theorem arrayText (items : List Item) (texts : List String) (keep : Bool) :
    Converts cls (Lowering.arrayText items texts keep) []
      (if keep then .named {arrayTemp items} else 0) fun _ => [] := by
  cases keep with
  | false => exact pure (.refl [])
  | true =>
    refine ⟨.bind (.hoist _) fun _ => .pure _, fun s => ?_⟩
    refine .inl ⟨_, _, rfl, ⟨rfl, rfl, rfl⟩, rfl, by simp [Tally.named], by simp [Tally.named], _, _,
      rfl, rfl, ?_⟩
    constructor
    · exact fun q hq => Code.mem_partsOf (by simpa using hq)
    · simp
    · simp [Tally.names, Tally.named]
    · simp [Tally.names, Tally.named]

theorem baseText (base : Expr) (text : String) :
    Converts cls (Lowering.baseText base text) [] (if base.takesIndex then 0 else .dim)
      fun _ => [] := by
  unfold Lowering.baseText
  split
  · exact pure (.refl [])
  · refine ⟨.bind .newDim fun _ => .bind (.hoist _) fun _ => .pure _, fun s => ?_⟩
    refine .inl ⟨dimTemp (s.dims + 1), _, rfl, ⟨rfl, rfl, rfl⟩, rfl, rfl, rfl,
      [.keep (dimTemp (s.dims + 1)) text], [.keep (dimTemp (s.dims + 1)) text], rfl, rfl, ?_⟩
    constructor
    · exact fun q hq => Code.mem_partsOf (by simpa using hq)
    · simp
    · simp [Tally.names, Tally.dim, dimRange_one]
    · simp [Tally.names, Tally.dim, dimRange_one]

end Converts

variable {cls : String}

/-- An assignment to a target, given what is known of it as a list of slots and as a value. -/
theorem Converts.assignInto {target : Expr} {text : String}
    (ht : Converts cls (lower cls target) [] (Node.expr target).fullTally Lowered.lines)
    (slots : ∀ items, target = .list items → ∀ source,
      Converts cls (destructure cls source 0 items) []
        ((Node.expr target).fullTally + .named {x | x ∈ innerTemps items}) id) :
    Converts cls (assignInto cls text target) []
      ((Node.expr target).fullTally + .named {x | x ∈ target.targetTemps}) Lowered.lines := by
  unfold Zephirize.assignInto
  split
  case h_1 items =>
    -- The lines of the slots name the temporaries of the targets inside; the line in front of them
    -- names that of the whole target.
    refine .congr (.bind (slots items rfl _) fun _ => .pureKeep rfl) ?_
    rw [Expr.targetTemps, Tally.named_cons]
    abel
  case h_2 other =>
    rw [Expr.targetTemps]
    · exact .congr (.bind (.exprText ht) fun _ => .pure (.assign _ _)) (by simp)
    · exact other

/-- The index that a slot is read from. -/
theorem Converts.indexText {key : Option Expr} (position : ℕ)
    (hk : Converts cls (lowerOption cls key) [] (.of (key.toList.map .expr)) fun _ => []) :
    Converts cls (indexText cls position key) [] (.of (key.toList.map .expr)) fun _ => [] := by
  cases key with
  | none => exact .congr (.pure (.refl [])) (by simp)
  | some key => rwa [indexText_some]

/-- A value that is passed on, given what is known of it as an array literal and as a value. -/
theorem Converts.passedText {value : Expr}
    (hv : Converts cls (lower cls value) [] (Node.expr value).fullTally Lowered.lines)
    (literal : ∀ items, value = .array items →
      Converts cls (lowerItems cls items) [] (.of (items.map .item)) fun _ => []) :
    Converts cls (passedText cls value) []
      (.named {x | x ∈ value.passedTemps} + (Node.expr value).fullTally) fun _ => [] := by
  unfold Zephirize.passedText
  split
  case h_1 items =>
    -- The node counts the literal where literals are kept anyway, and here once more.
    refine .congr (.bind (literal items rfl) fun texts => .arrayText items texts true) ?_
    rw [Node.fullTally_eq, Node.tally, Expr.passedTemps, Tally.named_singleton, ← add_assoc,
      Tally.named_add_array, add_comm]
    rfl
  case h_2 other =>
    rw [Expr.passedTemps]
    · exact .congr (.exprText hv) (by simp)
    · exact other

mutual

theorem converts_lower :
    ∀ e : Expr, Converts cls (lower cls e) [] (Node.expr e).fullTally Lowered.lines
  | .var (.literal name) => by
    rw [lower]
    exact .node (.text _) (by simp [Node.tally, Node.children, Node.ofExpr])
  | .var (.dynamic name) => by
    rw [lower]
    exact .node (.value (converts_lower name) fun _ => .text _)
      (by simp [Node.tally, Node.children, Node.ofExpr])
  | .assign target value byRef => by
    rw [lower_assign_eq]
    refine .node (.reportedIf (.value (converts_lower value) fun _ =>
      .assignInto (converts_lower target) (converts_slots target))) ?_
    simp only [Node.tally_assign, Node.children, Node.ofExpr, Tally.of_cons, Tally.of_nil]
    abel
  | .assignOp op target value => by
    rw [lower]
    refine .node (.value (converts_lower value) fun _ => .value (converts_lower target) fun _ =>
      .pure (.assign _ _)) ?_
    simp only [Node.tally, Node.children, Node.ofExpr, Tally.of_cons, Tally.of_nil]
    abel
  | .incDec op target => by
    rw [lower]
    exact .node (.value (converts_lower target) fun _ => .pure (.assign _ _))
      (by simp [Node.tally, Node.children, Node.ofExpr])
  | .property object name => by
    rw [lower]
    exact .node (.value (converts_lower object) fun _ => .text _)
      (by simp [Node.tally, Node.children, Node.ofExpr])
  | .dim base index => by
    rw [lower]
    refine .node (.value (converts_lower base) fun text => .bind (.baseText base text) fun _ =>
      .bind (converts_lowerOption index) fun _ => .text _) ?_
    simp only [Node.tally, Node.children, Node.ofExpr, Tally.of_cons]
    abel
  | .list items => by
    rw [lower]
    exact .node (.bind (converts_lowerSlots items) fun _ => .text _)
      (by simp [Node.tally, Node.children, Node.ofExpr])
  | .array items => by
    rw [lower]
    -- The literal is kept or not as the state says.
    refine Converts.ofMode (f := fun keep => do
      let texts ← lowerItems cls items
      return Lowered.value (← Lowering.arrayText items texts keep)) (fun keep =>
        .bind (converts_lowerItems items) fun texts => .bind (.arrayText items texts keep) fun _ =>
        .text _) ?_ ?_ ?_
    all_goals
      intro keep
      rw [Node.fullTally_eq]
      cases keep <;> simp [Node.tally, Node.children, Node.ofExpr, Tally.array, Tally.named]
  | .call name args => by
    rw [lower]
    exact .node (.bind (converts_lowerArgs args) fun _ => .text _)
      (by simp [Node.tally, Node.children, Node.ofExpr])
  | .methodCall object method args => by
    rw [lower]
    exact .node (.value (converts_lower object) fun _ => .bind (converts_lowerArgs args) fun _ =>
      .text _) (by simp [Node.tally, Node.children, Node.ofExpr])
  | .staticCall owner method args => by
    rw [lower]
    exact .node (.bind (converts_lowerArgs args) fun _ => .text _)
      (by simp [Node.tally, Node.children, Node.ofExpr])
  | .new owner args => by
    rw [lower]
    exact .node (.bind (converts_lowerArgs args) fun _ => .text _)
      (by simp [Node.tally, Node.children, Node.ofExpr])
  | .binary op left right => by
    rw [lower]
    exact .node (.value (converts_lower left) fun _ => .value (converts_lower right) fun _ =>
      .text _) (by simp [Node.tally, Node.children, Node.ofExpr])
  | .unary op operand => by
    rw [lower]
    exact .node (.value (converts_lower operand) fun _ => .text _)
      (by simp [Node.tally, Node.children, Node.ofExpr])
  | .ternary test (some yes) no => by
    rw [lower]
    exact .node (.value (converts_lower test) fun _ => .value (converts_lower yes) fun _ =>
      .value (converts_lower no) fun _ => .text _)
      (by simp [Node.tally, Node.children, Node.ofExpr])
  | .ternary test none no => by
    rw [lower]
    exact .node (.value (converts_lower test) fun _ => .value (converts_lower no) fun _ => .text _)
      (by simp [Node.tally, Node.children, Node.ofExpr])
  | .isset vars => by
    rw [lower]
    exact .node (.bind (converts_lowerAll vars) fun _ => .text _)
      (by simp [Node.tally, Node.children, Node.ofExpr])
  | .empty value => by
    rw [lower]
    exact .node (.value (converts_lower value) fun _ => .text _)
      (by simp [Node.tally, Node.children, Node.ofExpr])
  | .instanceOf value owner => by
    rw [lower]
    exact .node (.value (converts_lower value) fun _ => .text _)
      (by simp [Node.tally, Node.children, Node.ofExpr])
  | .cast type value => by
    rw [lower]
    exact .node (.value (converts_lower value) fun _ => .text _)
      (by simp [Node.tally, Node.children, Node.ofExpr])
  | .eval code => by
    rw [lower]
    exact .refuse (by simp [Node.fullTally_eq, Node.tally, Tally.refusal])
  | .shell parts => by
    rw [lower]
    exact .refuse (by simp [Node.fullTally_eq, Node.tally, Tally.refusal])
  | .staticProperty .. | .classConst .. | .const _ | .string _ | .int _ | .float _ => by
    rw [lower]
    exact .node (.text _) (by simp [Node.tally, Node.children, Node.ofExpr])

/-- A list of slots as the target of an assignment. -/
theorem converts_slots : ∀ (target : Expr) (items : List (Option Item)), target = .list items →
    ∀ source, Converts cls (destructure cls source 0 items) []
      ((Node.expr target).fullTally + .named {x | x ∈ innerTemps items}) id
  | .list items, _, rfl, source => (converts_destructure source 0 items).congr
      (by simp [Node.fullTally_eq, Node.tally, Node.children, Node.ofExpr])

/-- An array literal that is kept whatever the state says. -/
theorem converts_literal : ∀ (value : Expr) (items : List Item), value = .array items →
    Converts cls (lowerItems cls items) [] (.of (items.map .item)) fun _ => []
  | .array items, _, rfl => converts_lowerItems items

theorem converts_lowerOption : ∀ e : Option Expr,
    Converts cls (lowerOption cls e) [] (.of (e.toList.map .expr)) fun _ => []
  | none => by
    rw [lowerOption]
    exact .congr (.pure (.refl [])) (by simp)
  | some e => by
    rw [lowerOption]
    exact .congr (.exprText (converts_lower e)) (by simp)

theorem converts_lowerAll : ∀ es : List Expr,
    Converts cls (lowerAll cls es) [] (.of (es.map .expr)) fun _ => []
  | [] => by
    rw [lowerAll]
    exact .congr (.pure (.refl [])) (by simp)
  | e :: rest => by
    rw [lowerAll]
    exact .congr (.value (converts_lower e) fun _ => .bind (converts_lowerAll rest) fun _ =>
      .pure (.refl [])) (by simp)

theorem converts_lowerItem : ∀ item : Item,
    Converts cls (lowerItem cls item) [] (Node.item item).fullTally fun _ => []
  | ⟨some key, value, byRef, unpack⟩ => by
    rw [lowerItem]
    exact .node (.reportedIf (.reportedIf (.value (converts_lower key) fun _ =>
      .value (converts_lower value) fun _ => .pure (.refl []))))
      (by simp [Node.tally, Node.children])
  | ⟨none, value, byRef, unpack⟩ => by
    rw [lowerItem]
    exact .node (.reportedIf (.reportedIf (.exprText (converts_lower value))))
      (by simp [Node.tally, Node.children])

theorem converts_lowerItems : ∀ items : List Item,
    Converts cls (lowerItems cls items) [] (.of (items.map .item)) fun _ => []
  | [] => by
    rw [lowerItems]
    exact .congr (.pure (.refl [])) (by simp)
  | item :: rest => by
    rw [lowerItems]
    exact .congr (.bind (converts_lowerItem item) fun _ => .bind (converts_lowerItems rest) fun _ =>
      .pure (.refl [])) (by simp)

theorem converts_lowerSlots : ∀ items : List (Option Item),
    Converts cls (lowerSlots cls items) [] (.of ((items.filterMap id).map .item)) fun _ => []
  | [] => by
    rw [lowerSlots]
    exact .congr (.pure (.refl [])) (by simp)
  | none :: rest => by
    rw [lowerSlots]
    exact .congr (.bind (converts_lowerSlots rest) fun _ => .pure (.refl [])) (by simp)
  | some item :: rest => by
    rw [lowerSlots]
    exact .congr (.bind (converts_lowerItem item) fun _ => .bind (converts_lowerSlots rest) fun _ =>
      .pure (.refl [])) (by simp)

theorem converts_destructure (source : String) (position : ℕ) :
    ∀ items : List (Option Item), Converts cls (destructure cls source position items) []
      (.of ((items.filterMap id).map .item) + .named {x | x ∈ innerTemps items}) id
  | [] => by
    rw [destructure]
    exact .congr (.pure (.refl [])) (by simp [innerTemps])
  | none :: rest => by
    rw [destructure, innerTemps]
    exact converts_destructure source (position + 1) rest
  | some ⟨key, value, byRef, unpack⟩ :: rest => by
    rw [destructure_cons, innerTemps, slotTemps_eq, Tally.named_append]
    refine .congr (.bind (.indexText position (converts_lowerOption key)) fun _ =>
      .bind (.assignInto (converts_lower value) (converts_slots value)) fun assigned =>
      .bind (.holding (converts_destructure source (position + 1) rest) assigned.lines) fun _ =>
      .pure (.refl _)) ?_
    simp only [List.filterMap_cons, id, List.map_cons, Tally.of_cons, Node.fullTally_eq (.item _),
      Node.tally, Node.children, Tally.of_append, Tally.of_nil]
    abel

theorem converts_lowerArg : ∀ arg : Argument,
    Converts cls (lowerArg cls arg) [] (Node.argument arg).fullTally fun _ => []
  | ⟨value, byRef, unpack⟩ => by
    rw [lowerArg_eq]
    exact .node (.reportedIf (.passedText (converts_lower value) (converts_literal value)))
      (by simp [Node.tally_argument, Node.children])

theorem converts_lowerArgs : ∀ args : List Argument,
    Converts cls (lowerArgs cls args) [] (.of (args.map .argument)) fun _ => []
  | [] => by
    rw [lowerArgs]
    exact .congr (.pure (.refl [])) (by simp)
  | arg :: rest => by
    rw [lowerArgs]
    exact .congr (.bind (converts_lowerArg arg) fun _ => .bind (converts_lowerArgs rest) fun _ =>
      .pure (.refl [])) (by simp)

end

end Zephirize
