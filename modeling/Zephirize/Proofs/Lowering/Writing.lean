import Mathlib.Tactic
import Zephirize.Proofs.Lowering.Spelling
import Zephirize.Proofs.Lowering.Targets
import Zephirize.Proofs.Lowering.Uniform
import Zephirize.Proofs.Tree.Walk

/-!
# What the conversion writes

The conversion writes names as the source spells them and everything else in a form of its own:
literals hold their strings between quotes, numbers and temporaries are plain texts, and each form
puts texts together. So a property of texts and lines that all these forms keep (`Spelling`) holds of
all that is written if it holds of the names.

The lines that wait and the lines that a loop runs before it continues enter the code as well, so a
step is judged together with them (`State.Spelled`, `Writes`).

* `writes_lower` — expressions, by one induction for all spellings.
* `Writes.whileLoop`, `Writes.doWhile`, `Writes.forLoop`, `Writes.foreach`, `Writes.ifElse` — one rule
  for each form of statement that a spelling has rules for.
-/

namespace Zephirize

open Lowering

/-- A property of texts, of lines and of what follows the first block of an `if` that is kept by the
forms in which assignments, loops and branches are written. -/
structure Spelling where
  text : String → Prop
  line : Code → Prop
  chain : Chain → Prop
  composed : Text.Compositional text
  set {target value : String} : text target → text value → line (.set target value)
  combine (op : BinaryOp) {target value : String} :
    text target → text value → line (.assign target (.combine op value))
  step (op : StepOp) {target : String} : text target → line (.assign target op.update)
  keep {temp value : String} : text temp → text value → line (.keep temp value)
  breakLoop : line .breakLoop
  continueLoop : line .continueLoop
  branch {test : String} {body : List Code} {rest : Chain} :
    text test → (∀ c ∈ body, line c) → chain rest → line (.branch test body rest)
  whileLoop {test : String} {body : List Code} :
    text test → (∀ c ∈ body, line c) → line (.whileLoop test body)
  loop {body : List Code} : (∀ c ∈ body, line c) → line (.loop body)
  doWhile {body : List Code} {test : String} :
    (∀ c ∈ body, line c) → text test → line (.doWhile body test)
  done : chain .done
  otherwise {body : List Code} : (∀ c ∈ body, line c) → chain (.otherwise body)

namespace Spelling

/-- All of the lines have the property. -/
abbrev lines (σ : Spelling) (code : List Code) : Prop := ∀ c ∈ code, σ.line c

variable (σ : Spelling) {test : String} {body checks : List Code}

theorem leaveUnless (ht : σ.text test) : σ.line (.leaveUnless test) := by
  refine σ.branch ?_ (List.forall_mem_singleton.2 σ.breakLoop) σ.done
  have whole := σ.composed.after (a := "!") (by decide) (σ.composed.parens ht)
  have opening : "!" ++ "(" = "!(" := rfl
  rwa [← String.append_assoc, ← String.append_assoc, opening] at whole

theorem testedLoop (hc : σ.lines checks) (ht : σ.text test) (hb : σ.lines body) :
    σ.line (.testedLoop checks test body) := by
  unfold Code.testedLoop
  split_ifs
  · exact σ.whileLoop ht hb
  · refine σ.loop ?_
    rw [List.forall_mem_append, List.forall_mem_cons]
    exact ⟨hc, σ.leaveUnless ht, hb⟩

end Spelling

/-! ### The names in a tree -/

/-- The names of variables, properties, methods, constants and classes that a node spells. -/
def Node.symbolNames : Node → List String
  | .expr (.var (.literal name)) => [name]
  | .expr (.property _ name) => [name]
  | .expr (.staticProperty owner name) => name :: owner.parts
  | .expr (.methodCall _ method _) => [method]
  | .expr (.staticCall owner method _) => method :: owner.parts
  | .expr (.new owner _) => owner.parts
  | .expr (.classConst owner constant) => constant :: owner.parts
  | .expr (.const name) => name.parts
  | .expr (.instanceOf _ owner) => owner.parts
  | .handler c => c.types.flatMap Name.parts ++ c.var.toList
  | .staticLocal v => [v.name]
  | _ => []

/-- The names of functions that a node spells. -/
def Node.functionNames : Node → List String
  | .expr (.call name _) => name.parts
  | _ => []

/-- The nodes at and below the roots satisfy `P`. -/
def EveryNode (P : Node → Prop) (roots : List Node) : Prop := ∀ n ∈ nodesOf roots, P n

namespace EveryNode

variable {P : Node → Prop} {n : Node} {rest xs ys : List Node}

theorem own (h : EveryNode P (n :: rest)) : P n := h n (by simp [nodesOf_cons])

theorem below (h : EveryNode P (n :: rest)) : EveryNode P n.children :=
  fun m hm => h m (by simp [nodesOf_cons, hm])

theorem tail (h : EveryNode P (n :: rest)) : EveryNode P rest :=
  fun m hm => h m (by simp [nodesOf_cons, hm])

theorem head (h : EveryNode P (n :: rest)) : EveryNode P [n] := by
  intro m hm
  rw [nodesOf_singleton] at hm
  refine h m ?_
  rw [nodesOf_cons, ← List.cons_append]
  exact List.mem_append_left _ hm

theorem left (h : EveryNode P (xs ++ ys)) : EveryNode P xs := fun m hm => h m (by simp [hm])

theorem right (h : EveryNode P (xs ++ ys)) : EveryNode P ys := fun m hm => h m (by simp [hm])

end EveryNode

/-- The names of the node have the property of texts. -/
def Node.Spelled (σ : Spelling) (n : Node) : Prop :=
  ∀ x ∈ n.symbolNames ++ n.functionNames, σ.text x

theorem Node.Spelled.symbol {σ : Spelling} {n : Node} (h : n.Spelled σ) {x : String}
    (mem : x ∈ n.symbolNames) : σ.text x :=
  h x (List.mem_append_left _ mem)

/-! ### Steps -/

/-- The lines that wait and those that loops run before they continue have the property. -/
structure State.Spelled (σ : Spelling) (s : State) : Prop where
  hoisted : σ.lines s.hoisted
  loops : ∀ lines ∈ s.loops, σ.lines lines

/-- The step keeps the property of the lines of the state, and its results satisfy `P`. -/
def Writes {α : Type} (σ : Spelling) (x : Lowering α) (P : α → Prop) : Prop :=
  ∀ s t a, x.run.run s = (.ok a, t) → s.Spelled σ → t.Spelled σ ∧ P a

/-- What an expression becomes has the property. -/
def Lowered.Spelled (σ : Spelling) : Lowered → Prop
  | .value text => σ.text text
  | .assigned lines target => σ.lines lines ∧ σ.text target

theorem Lowered.Spelled.lines {σ : Spelling} {lowered : Lowered} (h : lowered.Spelled σ) :
    σ.lines lowered.lines := by
  cases lowered with
  | value text => exact List.forall_mem_nil _
  | assigned lines target => exact h.1

namespace Writes

variable {α β : Type} {σ : Spelling} {x : Lowering α} {P P' : α → Prop} {Q : β → Prop}

theorem pure {a : α} (h : P a) : Writes σ (Pure.pure a) P := by
  rintro s _ _ ⟨⟩ hs
  exact ⟨hs, h⟩

theorem bind {f : α → Lowering β} (hx : Writes σ x P) (hf : ∀ a, P a → Writes σ (f a) Q) :
    Writes σ (x >>= f) Q := by
  intro s u b run hs
  obtain ⟨a, t, first, second⟩ := exists_of_run_bind run
  obtain ⟨ht, ha⟩ := hx s t a first hs
  exact hf a ha t u b second ht

theorem mono (hx : Writes σ x P) (weaker : ∀ a, P a → P' a) : Writes σ x P' := by
  intro s t a run hs
  obtain ⟨ht, ha⟩ := hx s t a run hs
  exact ⟨ht, weaker a ha⟩

theorem refuse (cls : String) (kind : Kind) : Writes σ (Lowering.refuse cls kind) P := by
  rintro s _ _ ⟨⟩

theorem get : Writes σ (MonadState.get : Lowering State) (State.Spelled σ) := by
  rintro s _ _ ⟨⟩ hs
  exact ⟨hs, hs⟩

theorem hoist {lines : List Code} (h : σ.lines lines) :
    Writes σ (Lowering.hoist lines) fun _ => True := by
  rintro s _ _ ⟨⟩ hs
  exact ⟨⟨List.forall_mem_append.2 ⟨hs.hoisted, h⟩, hs.loops⟩, trivial⟩

theorem newDim : Writes σ Lowering.newDim σ.text := by
  rintro s _ _ ⟨⟩ hs
  exact ⟨⟨hs.hoisted, hs.loops⟩, σ.composed.plain (plain_dimTemp _)⟩

theorem takeHoisted : Writes σ Lowering.takeHoisted σ.lines := by
  rintro s _ _ ⟨⟩ hs
  exact ⟨⟨List.forall_mem_nil _, hs.loops⟩, hs.hoisted⟩

theorem inBlock (hx : Writes σ x P) : Writes σ (Lowering.inBlock x) P := by
  intro s u a run hs
  obtain ⟨t, inside, rfl⟩ := exists_of_run_inBlock run
  obtain ⟨ht, ha⟩ := hx _ t a inside ⟨List.forall_mem_nil _, hs.loops⟩
  exact ⟨⟨hs.hoisted, ht.loops⟩, ha⟩

theorem isolate (hx : Writes σ x P) :
    Writes σ (Lowering.isolate x) fun r => P r.1 ∧ σ.lines r.2 := by
  intro s u r run hs
  obtain ⟨t, inside, hoisted, rfl⟩ := exists_of_run_isolate run
  obtain ⟨ht, ha⟩ := hx _ t r.1 inside ⟨List.forall_mem_nil _, hs.loops⟩
  exact ⟨⟨hs.hoisted, ht.loops⟩, ha, hoisted ▸ ht.hoisted⟩

theorem withinLoop {lines : List Code} (h : σ.lines lines) (hx : Writes σ x P) :
    Writes σ (Lowering.withinLoop lines x) P := by
  intro s u a run hs
  obtain ⟨t, inside, rfl⟩ := exists_of_run_withinLoop run
  obtain ⟨ht, ha⟩ := hx _ t a inside ⟨hs.hoisted, List.forall_mem_cons.2 ⟨h, hs.loops⟩⟩
  exact ⟨⟨ht.hoisted, fun l hl => ht.loops l (List.mem_of_mem_tail hl)⟩, ha⟩

theorem withArrayHoisting (hx : Writes σ x P) : Writes σ (Lowering.withArrayHoisting x) P := by
  intro s u a run hs
  rcases inside : x.run.run { s with hoistArrays := true } with ⟨r, t⟩
  rw [Lowering.withArrayHoisting, run_around_ok inside] at run
  cases run
  obtain ⟨ht, ha⟩ := hx _ t a inside ⟨hs.hoisted, hs.loops⟩
  exact ⟨⟨ht.hoisted, ht.loops⟩, ha⟩

theorem reportIf (holds : Bool) (cls category message node : String) :
    Writes σ (Lowering.reportIf holds cls category message node) fun _ => True := by
  intro s t _ run hs
  obtain ⟨notes, runs⟩ := run_reportIf holds cls category message node
  rw [runs] at run
  cases run
  exact ⟨⟨hs.hoisted, hs.loops⟩, trivial⟩

theorem reportedIf {holds : Bool} {cls category message node : String} (hx : Writes σ x P) :
    Writes σ (do Lowering.reportIf holds cls category message node; x) P :=
  .bind (.reportIf holds cls category message node) fun _ _ => hx

theorem asValue {lowered : Lowered} (h : lowered.Spelled σ) : Writes σ lowered.asValue σ.text := by
  cases lowered with
  | value text => exact .pure h
  | assigned lines target => exact .bind (.hoist h.1) fun _ _ => .pure h.2

/-- The text of an expression. -/
theorem text {x : Lowering Lowered} (hx : Writes σ x (Lowered.Spelled σ)) :
    Writes σ (do (← x).asValue) σ.text :=
  hx.bind fun _ h => asValue h

/-- A step that uses the text of an expression. -/
theorem value {x : Lowering Lowered} {f : String → Lowering β}
    (hx : Writes σ x (Lowered.Spelled σ)) (hf : ∀ text, σ.text text → Writes σ (f text) Q) :
    Writes σ (do let text ← (← x).asValue; f text) Q :=
  hx.bind fun _ h => (asValue h).bind hf

theorem arrayText (items : List Item) {texts : List String} (h : ∀ text ∈ texts, σ.text text)
    (keep : Bool) : Writes σ (Lowering.arrayText items texts keep) σ.text := by
  have literal : σ.text ("[" ++ ", ".intercalate texts ++ "]") :=
    σ.composed.square (σ.composed.intercalate (σ.composed.plain (by decide)) h)
  have temp := σ.composed.plain (plain_arrayTemp items)
  cases keep with
  | false => exact .pure literal
  | true =>
    exact .bind (.hoist (List.forall_mem_singleton.2 (σ.keep temp literal))) fun _ _ => .pure temp

theorem baseText (base : Expr) {text : String} (h : σ.text text) :
    Writes σ (Lowering.baseText base text) σ.text := by
  unfold Lowering.baseText
  split_ifs
  · exact .pure h
  · exact newDim.bind fun temp ht =>
      .bind (.hoist (List.forall_mem_singleton.2 (σ.keep ht h))) fun _ _ => .pure ht

section Parts

variable {cls : String}

/-- An assignment to a target, given what is known of it as a list of slots and as a value. -/
theorem assignInto {target : Expr} {text : String} (htext : σ.text text)
    (ht : Writes σ (lower cls target) (Lowered.Spelled σ))
    (slots : ∀ items, target = .list items → ∀ source, σ.text source →
      Writes σ (destructure cls source 0 items) σ.lines) :
    Writes σ (assignInto cls text target) (Lowered.Spelled σ) := by
  unfold Zephirize.assignInto
  split
  case h_1 items =>
    have temp := σ.composed.plain (plain_listTemp items)
    exact (slots items rfl _ temp).bind fun lines hl =>
      .pure ⟨List.forall_mem_cons.2 ⟨σ.keep temp htext, hl⟩, temp⟩
  case h_2 =>
    exact ht.text.bind fun target h => .pure ⟨List.forall_mem_singleton.2 (σ.set h htext), h⟩

/-- The index that a slot is read from. -/
theorem indexText {key : Option Expr} (position : ℕ) (hk : Writes σ (lowerOption cls key) σ.text) :
    Writes σ (indexText cls position key) σ.text := by
  cases key with
  | none => exact .pure (σ.composed.plain (numeral_toString_nat position).plain)
  | some key => rwa [indexText_some]

/-- A value that is passed on, given what is known of it as an array literal and as a value. -/
theorem passedText {value : Expr} (hv : Writes σ (lower cls value) (Lowered.Spelled σ))
    (literal : ∀ items, value = .array items →
      Writes σ (lowerItems cls items) fun texts => ∀ text ∈ texts, σ.text text) :
    Writes σ (passedText cls value) σ.text := by
  unfold Zephirize.passedText
  split
  case h_1 items => exact (literal items rfl).bind fun _ h => .arrayText items h true
  case h_2 => exact hv.text

end Parts

end Writes

/-! ### Expressions -/

section Expressions

variable {cls : String} {σ : Spelling}

/-- Texts with a comma between them. -/
theorem Spelling.listed (σ : Spelling) {texts : List String} (h : ∀ text ∈ texts, σ.text text) :
    σ.text (", ".intercalate texts) :=
  σ.composed.intercalate (σ.composed.plain (by decide)) h

theorem Spelling.name (σ : Spelling) {name : Name} (h : ∀ x ∈ name.parts, σ.text x) :
    σ.text name.text :=
  Name.spelled_text σ.composed h

theorem Spelling.operand (σ : Spelling) (e : Expr) {text : String} (h : σ.text text) :
    σ.text (e.operand text) :=
  e.spelled_operand σ.composed h

mutual

/-- The conversion of an expression, one case for each form. -/
theorem writes_lower : ∀ e : Expr, EveryNode (Node.Spelled σ) [.expr e] →
    Writes σ (lower cls e) (Lowered.Spelled σ)
  | .var (.literal name), names => by
    rw [lower]
    exact .pure (spelled_safeName σ.composed (names.own.symbol List.mem_cons_self))
  | .var (.dynamic name), names => by
    rw [lower]
    exact .value (writes_lower name names.below) fun _ h => .pure (σ.composed.braces h)
  | .assign target value byRef, names => by
    rw [lower_assign_eq]
    exact .reportedIf (.value (writes_lower value names.below.tail) fun _ h =>
      .assignInto h (writes_lower target names.below.head)
        (writes_slots target names.below.head))
  | .assignOp op target value, names => by
    rw [lower]
    exact .value (writes_lower value names.below.tail) fun _ hv =>
      .value (writes_lower target names.below.head) fun _ ht =>
        .pure ⟨List.forall_mem_singleton.2 (σ.combine op ht hv), ht⟩
  | .incDec op target, names => by
    rw [lower]
    exact .value (writes_lower target names.below) fun _ h =>
      .pure ⟨List.forall_mem_singleton.2 (σ.step op h), h⟩
  | .property object name, names => by
    rw [lower]
    have member := names.own.symbol (x := name) List.mem_cons_self
    exact .value (writes_lower object names.below) fun _ h =>
      .pure (σ.composed.joined h (by decide) member)
  | .staticProperty owner name, names => by
    rw [lower]
    have member := names.own.symbol (x := name) List.mem_cons_self
    have scope := σ.name fun x hx => names.own.symbol (List.mem_cons_of_mem name hx)
    exact .pure (σ.composed.joined scope (by decide) member)
  | .dim base index, names => by
    rw [lower]
    exact .value (writes_lower base names.below.head) fun _ hb =>
      .bind (.baseText base hb) fun _ ht =>
        .bind (writes_lowerOption index names.below.tail) fun _ hi =>
          .pure (σ.composed.indexed ht hi)
  | .list items, names => by
    rw [lower]
    exact .bind (writes_lowerSlots items names.below) fun _ h =>
      .pure (σ.composed.square (σ.listed h))
  | .array items, names => by
    rw [lower]
    exact Writes.get.bind fun s _ => .bind (writes_lowerItems items names.below) fun _ h =>
      .bind (.arrayText items h s.hoistArrays) fun _ ht => .pure ht
  | .call name args, names => by
    rw [lower]
    exact .bind (writes_lowerArgs args names.below) fun _ h =>
      .pure (σ.composed.applied (σ.name names.own) (σ.listed h))
  | .methodCall object method args, names => by
    rw [lower]
    have member := names.own.symbol (x := method) List.mem_cons_self
    exact .value (writes_lower object names.below.head) fun _ ho =>
      .bind (writes_lowerArgs args names.below.tail) fun _ h =>
        .pure (σ.composed.applied (σ.composed.joined ho (by decide) member) (σ.listed h))
  | .staticCall owner method args, names => by
    rw [lower]
    have member := names.own.symbol (x := method) List.mem_cons_self
    have scope := σ.name fun x hx => names.own.symbol (List.mem_cons_of_mem method hx)
    exact .bind (writes_lowerArgs args names.below) fun _ h =>
      .pure (σ.composed.applied (σ.composed.joined scope (by decide) member) (σ.listed h))
  | .new owner args, names => by
    rw [lower]
    have scope := σ.name fun x hx => names.own.symbol hx
    exact .bind (writes_lowerArgs args names.below) fun _ h =>
      .pure (σ.composed.applied (σ.composed.after (by decide) scope) (σ.listed h))
  | .classConst owner constant, names => by
    rw [lower]
    have member := names.own.symbol (x := constant) List.mem_cons_self
    have scope := σ.name fun x hx => names.own.symbol (List.mem_cons_of_mem constant hx)
    exact .pure (σ.composed.joined scope (by decide) member)
  | .const name, names => by
    rw [lower]
    exact .pure (σ.name fun x hx => names.own.symbol hx)
  | .string value, _ => by
    rw [lower]
    exact .pure (σ.composed.quote value)
  | .int value, _ => by
    rw [lower]
    exact .pure (σ.composed.plain (numeral_toString_int _).plain)
  | .float value, _ => by
    rw [lower]
    exact .pure (σ.composed.plain (numeral_write value).plain)
  | .binary op left right, names => by
    rw [lower]
    exact .value (writes_lower left names.below.head) fun _ hl =>
      .value (writes_lower right names.below.tail) fun _ hr =>
        .pure (σ.composed.joined (σ.composed.before (σ.composed.before (σ.operand left hl)
          (by decide)) op.plain_symbol) (by decide) (σ.operand right hr))
  | .unary op operand, names => by
    rw [lower]
    exact .value (writes_lower operand names.below) fun _ h =>
      .pure (σ.composed.after op.plain_symbol (σ.operand operand h))
  | .ternary test (some yes) no, names => by
    rw [lower]
    exact .value (writes_lower test names.below.head) fun _ ht =>
      .value (writes_lower yes names.below.tail.head) fun _ hy =>
        .value (writes_lower no names.below.tail.tail) fun _ hn =>
          .pure (σ.composed.joined (σ.composed.joined (σ.operand test ht) (by decide)
            (σ.operand yes hy)) (by decide) (σ.operand no hn))
  | .ternary test none no, names => by
    rw [lower]
    exact .value (writes_lower test names.below.head) fun _ ht =>
      .value (writes_lower no names.below.tail) fun _ hn =>
        .pure (σ.composed.joined (σ.composed.joined (σ.operand test ht) (by decide)
          (σ.operand test ht)) (by decide) (σ.operand no hn))
  | .isset vars, names => by
    rw [lower]
    exact .bind (writes_lowerAll vars names.below) fun _ h =>
      .pure (σ.composed.intercalate (σ.composed.plain (by decide))
        (List.forall_mem_map.2 fun x hx => σ.composed.after (by decide) (h x hx)))
  | .empty value, names => by
    rw [lower]
    exact .value (writes_lower value names.below) fun _ h =>
      .pure (σ.composed.after (by decide) (σ.operand value h))
  | .instanceOf value owner, names => by
    rw [lower]
    have scope := σ.name fun x hx => names.own.symbol hx
    exact .value (writes_lower value names.below) fun _ h =>
      .pure (σ.composed.joined (σ.operand value h) (by decide) scope)
  | .cast type value, names => by
    rw [lower]
    exact .value (writes_lower value names.below) fun _ h =>
      .pure (σ.composed.castTo (σ.composed.plain type.plain_keyword) (σ.operand value h))
  | .eval _, _ | .shell _, _ => by
    rw [lower]
    exact .refuse cls _

/-- A list of slots as the target of an assignment. -/
theorem writes_slots : ∀ target : Expr, EveryNode (Node.Spelled σ) [.expr target] →
    ∀ items, target = .list items → ∀ source, σ.text source →
      Writes σ (destructure cls source 0 items) σ.lines
  | .list items, names, _, rfl, source, h => writes_destructure source h 0 items names.below

/-- An array literal that is kept whatever the state says. -/
theorem writes_literal : ∀ value : Expr, EveryNode (Node.Spelled σ) [.expr value] →
    ∀ items, value = .array items →
      Writes σ (lowerItems cls items) fun texts => ∀ text ∈ texts, σ.text text
  | .array items, names, _, rfl => writes_lowerItems items names.below

theorem writes_lowerOption : ∀ e : Option Expr, EveryNode (Node.Spelled σ) (e.toList.map .expr) →
    Writes σ (lowerOption cls e) σ.text
  | none, _ => by
    rw [lowerOption]
    exact .pure σ.composed.empty
  | some e, names => by
    rw [lowerOption]
    exact (writes_lower e names).text

theorem writes_lowerAll : ∀ es : List Expr, EveryNode (Node.Spelled σ) (es.map .expr) →
    Writes σ (lowerAll cls es) fun texts => ∀ text ∈ texts, σ.text text
  | [], _ => by
    rw [lowerAll]
    exact .pure (List.forall_mem_nil _)
  | e :: rest, names => by
    rw [lowerAll]
    exact .value (writes_lower e names.head) fun _ h =>
      .bind (writes_lowerAll rest names.tail) fun _ hr => .pure (List.forall_mem_cons.2 ⟨h, hr⟩)

theorem writes_lowerItem : ∀ item : Item, EveryNode (Node.Spelled σ) [.item item] →
    Writes σ (lowerItem cls item) σ.text
  | ⟨some key, value, byRef, unpack⟩, names => by
    rw [lowerItem]
    exact .reportedIf (.reportedIf (.value (writes_lower key names.below.head) fun _ hk =>
      .value (writes_lower value names.below.tail) fun _ hv =>
        .pure (σ.composed.joined hk (by decide) hv)))
  | ⟨none, value, byRef, unpack⟩, names => by
    rw [lowerItem]
    exact .reportedIf (.reportedIf (writes_lower value names.below).text)

theorem writes_lowerItems : ∀ items : List Item, EveryNode (Node.Spelled σ) (items.map .item) →
    Writes σ (lowerItems cls items) fun texts => ∀ text ∈ texts, σ.text text
  | [], _ => by
    rw [lowerItems]
    exact .pure (List.forall_mem_nil _)
  | item :: rest, names => by
    rw [lowerItems]
    exact .bind (writes_lowerItem item names.head) fun _ h =>
      .bind (writes_lowerItems rest names.tail) fun _ hr =>
        .pure (List.forall_mem_cons.2 ⟨h, hr⟩)

theorem writes_lowerSlots : ∀ items : List (Option Item),
    EveryNode (Node.Spelled σ) ((items.filterMap id).map .item) →
    Writes σ (lowerSlots cls items) fun texts => ∀ text ∈ texts, σ.text text
  | [], _ => by
    rw [lowerSlots]
    exact .pure (List.forall_mem_nil _)
  | none :: rest, names => by
    rw [lowerSlots]
    exact .bind (writes_lowerSlots rest names) fun _ hr =>
      .pure (List.forall_mem_cons.2 ⟨σ.composed.empty, hr⟩)
  | some item :: rest, names => by
    rw [lowerSlots]
    exact .bind (writes_lowerItem item names.head) fun _ h =>
      .bind (writes_lowerSlots rest names.tail) fun _ hr =>
        .pure (List.forall_mem_cons.2 ⟨h, hr⟩)

theorem writes_destructure (source : String) (hs : σ.text source) (position : ℕ) :
    ∀ items : List (Option Item), EveryNode (Node.Spelled σ) ((items.filterMap id).map .item) →
      Writes σ (destructure cls source position items) σ.lines
  | [], _ => by
    rw [destructure]
    exact .pure (List.forall_mem_nil _)
  | none :: rest, names => by
    rw [destructure]
    exact writes_destructure source hs (position + 1) rest names
  | some ⟨key, value, _, _⟩ :: rest, names => by
    rw [destructure_cons]
    exact .bind (.indexText position (writes_lowerOption key names.head.below.left)) fun _ hi =>
      .bind (.assignInto (σ.composed.indexed hs hi) (writes_lower value names.head.below.right)
        (writes_slots value names.head.below.right)) fun _ ha =>
        .bind (writes_destructure source hs (position + 1) rest names.tail) fun _ hr =>
          .pure (List.forall_mem_append.2 ⟨ha.lines, hr⟩)

theorem writes_lowerArg : ∀ arg : Argument, EveryNode (Node.Spelled σ) [.argument arg] →
    Writes σ (lowerArg cls arg) σ.text
  | ⟨value, _, _⟩, names => by
    rw [lowerArg_eq]
    exact .reportedIf (.passedText (writes_lower value names.below)
      (writes_literal value names.below))

theorem writes_lowerArgs : ∀ args : List Argument,
    EveryNode (Node.Spelled σ) (args.map .argument) →
    Writes σ (lowerArgs cls args) fun texts => ∀ text ∈ texts, σ.text text
  | [], _ => by
    rw [lowerArgs]
    exact .pure (List.forall_mem_nil _)
  | arg :: rest, names => by
    rw [lowerArgs]
    exact .bind (writes_lowerArg arg names.head) fun _ h =>
      .bind (writes_lowerArgs rest names.tail) fun _ hr => .pure (List.forall_mem_cons.2 ⟨h, hr⟩)

end

end Expressions

/-! ### Statements -/

/-- What an expression becomes has the property, also where the expression is a statement. -/
structure Lowered.Stands (σ : Spelling) (lowered : Lowered) : Prop where
  spelled : lowered.Spelled σ
  statement : σ.lines lowered.asStatement

namespace Writes

variable {cls : String} {σ : Spelling} {e test subject : Expr} {es init tests steps : List Expr}
  {body : List Stmt}

theorem asLines (he : Writes σ (lower cls e) (Lowered.Stands σ)) :
    Writes σ (asLines cls e) σ.lines :=
  he.isolate.bind fun _ h => .pure (List.forall_mem_append.2 ⟨h.2, h.1.statement⟩)

theorem allAsLines (he : ∀ e ∈ es, Writes σ (lower cls e) (Lowered.Stands σ)) :
    Writes σ (allAsLines cls es) σ.lines := by
  induction es with
  | nil => exact .pure (List.forall_mem_nil _)
  | cons e rest ih =>
    rw [List.forall_mem_cons] at he
    exact he.1.asLines.bind fun _ h => (ih he.2).bind fun _ hr =>
      .pure (List.forall_mem_append.2 ⟨h, hr⟩)

theorem forTests (he : ∀ e ∈ es, Writes σ (lower cls e) (Lowered.Stands σ)) :
    Writes σ (forTests cls es) fun r => σ.lines r.1 ∧ σ.text r.2 := by
  induction es with
  | nil => exact .pure ⟨List.forall_mem_nil _, σ.composed.plain (by decide)⟩
  | cons e rest ih =>
    rw [List.forall_mem_cons] at he
    cases rest with
    | nil =>
      exact (he.1.mono fun _ h => h.spelled).text.isolate.bind fun _ h => .pure ⟨h.2, h.1⟩
    | cons next more =>
      exact he.1.asLines.bind fun _ h => (ih he.2).bind fun _ hr =>
        .pure ⟨List.forall_mem_append.2 ⟨h, hr.1⟩, hr.2⟩

theorem expression (he : Writes σ (lower cls e) (Lowered.Stands σ)) :
    Writes σ (lowerStmt cls (.expression e)) σ.lines := by
  rw [lowerStmt]
  exact he.bind fun _ h => .pure h.statement

/-- An `if`, given what is known of its further tests and that this makes a chain. -/
theorem ifElse {elseIfs : List ElseIf} {otherwise : Option (List Stmt)} {A : List Arm → Prop}
    (ht : Writes σ (lower cls test) (Lowered.Spelled σ))
    (hb : Writes σ (lowerStmts cls body) σ.lines) (ha : Writes σ (lowerArms cls elseIfs) A)
    (hl : Writes σ (lowerOtherwise cls otherwise) σ.chain)
    (chain : ∀ arms last, A arms → σ.chain last → σ.chain (.ofArms arms last)) :
    Writes σ (lowerStmt cls (.ifElse test body elseIfs otherwise)) σ.lines := by
  rw [lowerStmt]
  refine ht.text.withArrayHoisting.bind fun _ ht => hb.inBlock.bind fun _ hb => ?_
  refine ha.bind fun arms ha => hl.bind fun last hl => ?_
  exact .pure (List.forall_mem_singleton.2 (σ.branch ht hb (chain arms last ha hl)))

theorem otherwiseNone : Writes σ (lowerOtherwise cls none) σ.chain := by
  rw [lowerOtherwise]
  exact .pure σ.done

theorem otherwiseSome (hb : Writes σ (lowerStmts cls body) σ.lines) :
    Writes σ (lowerOtherwise cls (some body)) σ.chain := by
  rw [lowerOtherwise]
  exact hb.inBlock.bind fun _ h => .pure (σ.otherwise h)

theorem whileLoop (ht : Writes σ (lower cls test) (Lowered.Spelled σ))
    (hb : Writes σ (lowerStmts cls body) σ.lines) :
    Writes σ (lowerStmt cls (.whileLoop test body)) σ.lines := by
  rw [lowerStmt]
  refine ht.text.isolate.bind fun _ h => ?_
  exact (hb.inBlock.withinLoop (List.forall_mem_nil _)).bind fun _ hb =>
    .pure (List.forall_mem_singleton.2 (σ.testedLoop h.2 h.1 hb))

theorem doWhile (hb : Writes σ (lowerStmts cls body) σ.lines)
    (ht : Writes σ (lower cls test) (Lowered.Spelled σ)) :
    Writes σ (lowerStmt cls (.doWhile body test)) σ.lines := by
  rw [lowerStmt]
  refine ht.text.isolate.bind ?_
  rintro ⟨text, checks⟩ ⟨ht, hc⟩
  dsimp only
  split_ifs
  · refine (hb.inBlock.withinLoop (List.forall_mem_nil _)).bind fun _ hb => ?_
    exact .pure (List.forall_mem_singleton.2 (σ.doWhile hb ht))
  · have guards : σ.lines (checks ++ [Code.leaveUnless text]) :=
      List.forall_mem_append.2 ⟨hc, List.forall_mem_singleton.2 (σ.leaveUnless ht)⟩
    refine (hb.inBlock.withinLoop guards).bind fun _ hb => ?_
    exact .pure (List.forall_mem_singleton.2 (σ.loop (List.forall_mem_append.2 ⟨hb, guards⟩)))

theorem forLoop (hi : ∀ e ∈ init, Writes σ (lower cls e) (Lowered.Stands σ))
    (ht : ∀ e ∈ tests, Writes σ (lower cls e) (Lowered.Stands σ))
    (hs : ∀ e ∈ steps, Writes σ (lower cls e) (Lowered.Stands σ))
    (hb : Writes σ (lowerStmts cls body) σ.lines) :
    Writes σ (lowerStmt cls (.forLoop init tests steps body)) σ.lines := by
  rw [lowerStmt]
  refine (allAsLines hi).bind fun _ hi => (forTests ht).bind fun _ ht => ?_
  refine (allAsLines hs).bind fun _ hs => (hb.inBlock.withinLoop hs).bind fun _ hb => ?_
  exact .pure (List.forall_mem_append.2 ⟨hi, List.forall_mem_singleton.2
    (σ.testedLoop ht.1 ht.2 (List.forall_mem_append.2 ⟨hb, hs⟩))⟩)

/-- A `foreach`, given what is known of its binding and that this makes a loop. -/
theorem foreach {key : Option Expr} {value : Expr} {byRef : Bool} {V B : String → Prop}
    (hs : Writes σ (lower cls subject) (Lowered.Spelled σ)) (hv : Writes σ (exprText cls value) V)
    (hk : ∀ text, V text → Writes σ (bindingText cls key text) B)
    (hb : Writes σ (lowerStmts cls body) σ.lines)
    (line : ∀ binding subject code, B binding → σ.text subject → σ.lines code →
      σ.line (.forIn binding subject code)) :
    Writes σ (lowerStmt cls (.foreach subject key value byRef body)) σ.lines := by
  rw [lowerStmt]
  refine .reportedIf (hs.text.bind fun _ hs => hv.bind fun _ hv => (hk _ hv).bind fun _ hk => ?_)
  exact (hb.inBlock.withinLoop (List.forall_mem_nil _)).bind fun _ hb =>
    .pure (List.forall_mem_singleton.2 (line _ _ _ hk hs hb))

theorem breakLoop : Writes σ (lowerStmt cls .breakLoop) σ.lines := by
  rw [lowerStmt]
  exact .pure (List.forall_mem_singleton.2 σ.breakLoop)

/-- The only place where the lines of the loop around are written out. -/
theorem continueLoop : Writes σ (lowerStmt cls .continueLoop) σ.lines := by
  rw [lowerStmt]
  refine Writes.get.bind fun s hs => .pure (List.forall_mem_append.2
    ⟨?_, List.forall_mem_singleton.2 σ.continueLoop⟩)
  cases around : s.loops with
  | nil => exact List.forall_mem_nil _
  | cons lines _ => exact hs.loops lines (by simp [around])

theorem stmtsNil : Writes σ (lowerStmts cls []) σ.lines := by
  rw [lowerStmts]
  exact .pure (List.forall_mem_nil _)

theorem stmtsCons {stmt : Stmt} {rest : List Stmt} (hs : Writes σ (lowerStmt cls stmt) σ.lines)
    (hr : Writes σ (lowerStmts cls rest) σ.lines) :
    Writes σ (lowerStmts cls (stmt :: rest)) σ.lines := by
  rw [lowerStmts]
  exact hs.bind fun _ h => takeHoisted.bind fun _ hh => hr.bind fun _ hr =>
    .pure (List.forall_mem_append.2 ⟨List.forall_mem_append.2 ⟨hh, h⟩, hr⟩)

end Writes

end Zephirize
