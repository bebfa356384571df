import Zephirize.Proofs.Code.Reading
import Zephirize.Proofs.Control.Loops
import Zephirize.Proofs.Lowering.Writing

/-!
# The printed text of loops keeps their control flow

The text of a converted program is read as code again. Of a simple line the reader knows the text
only, so executions are compared with their lines as they are read (`Execution.AsRead`), and
executing the code that is read does what executing the code does (`Code.executeAll_asRead`).

The code of a program is readable if its names are words and no constant is spelled as a jump
(`Node.Readable`): an expression that stands as a statement would be printed as `break;`. Being
readable is a spelling (`reading`), and only such statements need a look at each form of expression
(`gives_noJump`).

`control_flow_preserved`: the text of a program is read as code that executes as the program does.
-/

namespace Zephirize

open Lowering Execution
open Text (Chars.dropBlanks Consists OneLine WellBracketed consists_append oneLine_append)

/-! ### Executing the code that is read -/

/-- What is seen of an execution, with simple lines as they are read. -/
def Event.asRead : Event → Event
  | .line code => .line code.asLine
  | .test text => .test text
  | .step binding subject => .step binding subject

/-- The oracle that decides by simple lines as they are read. -/
def Oracle.reading (o : Oracle) : Oracle := fun events => o (events.map Event.asRead)

namespace Execution

variable {α β : Type}

/-- How an execution ends, with simple lines as they are read. -/
def outcomeAsRead : Except (List Event) (α × List Event) → Except (List Event) (α × List Event)
  | .ok (a, events) => .ok (a, events.map Event.asRead)
  | .error events => .error (events.map Event.asRead)

/-- The second execution does what the first one does, with simple lines as they are read. -/
def AsRead (x y : Execution α) : Prop :=
  ∀ events, y (events.map Event.asRead) = outcomeAsRead (x events)

theorem AsRead.pure (a : α) : AsRead (Pure.pure a) (Pure.pure a) := fun _ => rfl

theorem AsRead.bind {x y : Execution α} {f g : α → Execution β} (hx : AsRead x y)
    (hf : ∀ a, AsRead (f a) (g a)) : AsRead (x >>= f) (y >>= g) := by
  intro events
  rw [bind_apply, bind_apply, hx events]
  cases x events with
  | ok r => exact hf r.1 r.2
  | error seen => rfl

theorem AsRead.sequential : Sequential @AsRead where
  pure := .pure
  bind := .bind

theorem AsRead.emit (lines : List Code) :
    AsRead (emit lines) (emit (lines.map Code.asLine)) := by
  intro events
  simp [Execution.emit, outcomeAsRead, Event.asRead, Function.comp_def]

theorem AsRead.consult (o : Oracle) {event : Event} (same : event.asRead = event) :
    AsRead (consult o.reading event) (consult o event) := by
  intro events
  simp [Execution.consult, outcomeAsRead, Oracle.reading, same]

theorem AsRead.ask (o : Oracle) (test : String) : AsRead (ask o.reading test) (ask o test) :=
  AsRead.sequential.ask (fun _ => .consult o rfl) test

theorem AsRead.rounds {round round' : Execution Round} (h : AsRead round round') (n : ℕ) :
    AsRead (rounds round n) (rounds round' n) := by
  induction n with
  | zero => exact fun _ => rfl
  | succ n ih =>
    refine h.bind fun next => ?_
    cases next with
    | again => exact ih
    | done | leaves => exact .pure _

end Execution

section Executing

variable {o : Oracle} {n : ℕ}

/-- A simple line is executed as the line that is read. -/
theorem Code.IsSimple.execute_asRead {c : Code} (h : c.IsSimple) :
    AsRead (c.execute o.reading n) (c.asRead.execute o n) := by
  have read : c.asRead = c.asLine := by
    cases c <;> first | exact h.elim | simp only [Code.asRead]
  have simple : c.asLine.IsSimple := trivial
  rw [read, h.execute_eq, simple.execute_eq]
  exact (AsRead.emit [c]).bind fun _ => .pure _

mutual

theorem Code.execute_asRead : ∀ c : Code, c.Readable →
    AsRead (c.execute o.reading n) (c.asRead.execute o n)
  | .assign .., _ | .keep .., _ | .eval _, _ => Code.IsSimple.execute_asRead trivial
  | .breakLoop, _ | .continueLoop, _ => by
    rw [Code.asRead, Code.execute, Code.execute]
    exact .pure _
  | .branch test body rest, h => by
    rw [Code.Readable] at h
    rw [Code.asRead, Code.execute, Code.execute]
    refine (AsRead.ask o test).bind fun holds => ?_
    cases holds with
    | false => exact Chain.execute_asRead rest h.2.2
    | true => exact Code.executeAll_asRead body h.2.1
  | .whileLoop test body, h => by
    rw [Code.Readable] at h
    rw [Code.asRead, Code.execute, Code.execute]
    exact (AsRead.sequential.testedRound (.ask o test) (Code.executeAll_asRead body h.2)).rounds n
  | .loop body, h => by
    rw [Code.Readable] at h
    rw [Code.asRead, Code.execute, Code.execute]
    exact ((Code.executeAll_asRead body h).bind fun _ => .pure _).rounds n
  | .doWhile body test, h => by
    rw [Code.Readable] at h
    rw [Code.asRead, Code.execute, Code.execute]
    exact (AsRead.sequential.roundTested (Code.executeAll_asRead body h.1) (.ask o test)).rounds n
  | .forIn binding subject body, h => by
    rw [Code.Readable] at h
    rw [Code.asRead, Code.execute, Code.execute]
    exact (AsRead.sequential.testedRound (.consult o rfl)
      (Code.executeAll_asRead body h.2.2)).rounds n

/-- Executing the code that is read does what executing the code does. -/
theorem Code.executeAll_asRead : ∀ code : List Code, Code.AllReadable code →
    AsRead (Code.executeAll o.reading n code) (Code.executeAll o n (Code.allAsRead code))
  | [], _ => by
    rw [Code.allAsRead, Code.executeAll, Code.executeAll]
    exact .pure _
  | c :: rest, h => by
    rw [Code.AllReadable] at h
    rw [Code.allAsRead, Code.executeAll, Code.executeAll]
    exact AsRead.sequential.andThen (Code.execute_asRead c h.1) (Code.executeAll_asRead rest h.2)

theorem Chain.execute_asRead : ∀ chain : Chain, chain.Readable →
    AsRead (chain.execute o.reading n) (chain.asRead.execute o n)
  | .done, _ => by
    rw [Chain.asRead, Chain.execute, Chain.execute]
    exact .pure _
  | .otherwise body, h => by
    rw [Chain.Readable] at h
    rw [Chain.asRead, Chain.execute, Chain.execute]
    exact Code.executeAll_asRead body h

end

end Executing

/-! ### Readable names -/

/-- Texts on one line, which have no brace of their own, and readable code. -/
def reading : Spelling where
  text a := WellBracketed a ∧ OneLine a
  line := Code.Readable
  chain := Chain.Readable
  composed := WellBracketed.compositional.and OneLine.compositional
  set ht hv := by
    simp only [Code.set, Code.Readable, Update.render, oneLine_append]
    exact ⟨⟨⟨⟨by decide, ht.2⟩, by decide⟩, hv.2⟩, by decide⟩
  combine op _ _ ht hv := by
    simp only [Code.Readable, Update.render, oneLine_append]
    exact ⟨⟨⟨⟨⟨⟨by decide, ht.2⟩, by decide⟩, op.plain_symbol.oneLine rfl⟩, by decide⟩, hv.2⟩,
      by decide⟩
  step op _ ht := by
    cases op <;> simp only [StepOp.update, Code.Readable, Update.render, oneLine_append] <;>
      exact ⟨⟨by decide, ht.2⟩, by decide⟩
  keep ht hv := by
    simp only [Code.Readable, Update.render, oneLine_append]
    exact ⟨⟨⟨⟨by decide, ht.2⟩, by decide⟩, hv.2⟩, by decide⟩
  breakLoop := trivial
  continueLoop := trivial
  branch ht hb hr := by
    rw [Code.Readable]
    exact ⟨ht.2, Code.allReadable_iff.2 hb, hr⟩
  whileLoop ht hb := by
    rw [Code.Readable]
    exact ⟨ht.2, Code.allReadable_iff.2 hb⟩
  loop hb := by
    rw [Code.Readable]
    exact Code.allReadable_iff.2 hb
  doWhile hb ht := by
    rw [Code.Readable]
    exact ⟨Code.allReadable_iff.2 hb, ht.2⟩
  done := trivial
  otherwise hb := by
    rw [Chain.Readable]
    exact Code.allReadable_iff.2 hb

/-- The text of the constant, if the node is one. -/
def Node.constantTexts : Node → List String
  | .expr (.const name) => [name.text]
  | _ => []

/-- The names of the node are words, and the node is no constant that is spelled as a jump. -/
structure Node.Readable (n : Node) : Prop where
  words : ∀ x ∈ n.symbolNames ++ n.functionNames, Consists isWordChar x
  constants : ∀ text ∈ n.constantTexts, text ≠ "break" ∧ text ≠ "continue"

instance (n : Node) : Decidable n.Readable :=
  decidable_of_iff (_ ∧ _) ⟨fun h => ⟨h.1, h.2⟩, fun h => ⟨h.words, h.constants⟩⟩

/-- The names at and below the nodes are readable. -/
abbrev ReadableNames : List Node → Prop := EveryNode Node.Readable

theorem EveryNode.spelled {roots : List Node} (h : ReadableNames roots) :
    EveryNode (Node.Spelled reading) roots :=
  fun n hn x hx => reading.composed.plain (((h n hn).words x hx).plain (by decide))

/-! ### Statements that are no jump -/

/-- The text, as a statement, is no jump. -/
def NoJump (text : String) : Prop :=
  Chars.dropBlanks text.toList ≠ "break".toList ∧
    Chars.dropBlanks text.toList ≠ "continue".toList

instance (text : String) : Decidable (NoJump text) := inferInstanceAs (Decidable (_ ∧ _))

/-- The character is a blank or a letter of a jump. -/
def isJumpLetter (c : Char) : Bool := " breakcontinue".toList.contains c

/-- The text has a character that is neither a blank nor a letter of a jump. -/
def Foreign (text : String) : Prop := text.toList.any (!isJumpLetter ·) = true

instance (text : String) : Decidable (Foreign text) := inferInstanceAs (Decidable (_ = true))

namespace Foreign

variable {a b : String}

theorem before (h : Foreign a) (b : String) : Foreign (a ++ b) := by
  rw [Foreign, String.toList_append, List.any_append, h, Bool.true_or]

theorem after (h : Foreign b) (a : String) : Foreign (a ++ b) := by
  rw [Foreign, String.toList_append, List.any_append, h, Bool.or_true]

theorem between (h : Foreign b) (a c : String) : Foreign (a ++ b ++ c) := (h.after a).before c

theorem noJump (h : Foreign a) : NoJump a := by
  obtain ⟨c, mem, other⟩ := List.any_eq_true.1 h
  have front : ∀ d ∈ a.toList.takeWhile (· == ' '), d = ' ' := fun d hd => by
    simpa using List.mem_takeWhile_imp hd
  -- Only blanks are dropped, and this character is none.
  have kept : c ∈ Chars.dropBlanks a.toList := by
    rw [← List.takeWhile_append_dropWhile (p := (· == ' ')) (l := a.toList)] at mem
    rcases List.mem_append.1 mem with blank | rest
    · rw [front c blank] at other
      cases other
    · exact rest
  have differs (word : String) (letters : Consists isJumpLetter word) :
      Chars.dropBlanks a.toList ≠ word.toList := by
    intro same
    rw [letters.mem (same ▸ kept)] at other
    cases other
  exact ⟨differs "break" (by decide), differs "continue" (by decide)⟩

end Foreign

section NoJump

variable {text : String}

/-- Blanks in front are all that is dropped. -/
theorem NoJump.of_notMem (b : 'b' ∉ text.toList) (c : 'c' ∉ text.toList) : NoJump text := by
  have sub : (Chars.dropBlanks text.toList).Sublist text.toList := List.dropWhile_sublist _
  constructor
  · intro same
    rw [same] at sub
    exact b (sub.subset (by decide))
  · intro same
    rw [same] at sub
    exact c (sub.subset (by decide))

theorem NoJump.of_ne (blank : ' ' ∉ text.toList)
    (other : text ≠ "break" ∧ text ≠ "continue") : NoJump text := by
  have same : Chars.dropBlanks text.toList = text.toList := by
    cases h : text.toList with
    | nil => rfl
    | cons c cs => exact Text.Chars.dropBlanks_cons (fun eq => blank (by simp [h, eq])) cs
  rw [NoJump, same]
  exact ⟨fun h => other.1 (String.toList_inj.1 h), fun h => other.2 (String.toList_inj.1 h)⟩

/-- A well bracketed text is not the end of a block either. -/
theorem NoJump.isCommand (h : NoJump text) (bracketed : WellBracketed text)
    (one : OneLine text) : IsCommand text where
  oneLine := one
  single := by
    -- A scan refuses the brace that would close a block, since nothing in the text opened one.
    have brace : (Chars.dropBlanks text.toList).dropPrefix? "\x7d while ".toList = none := by
      rw [Option.eq_none_iff_forall_ne_some]
      intro test found
      obtain ⟨_, same, head⟩ := List.dropPrefix?_eq_some_iff.1 found
      rw [WellBracketed, ← Text.Scan.run_dropBlanks (by decide), same, eq_of_beq head] at bracketed
      cases bracketed
    rw [Line.ofCommand, if_neg h.1, if_neg h.2, brace]

end NoJump

/-- All results of the step satisfy `P`. -/
def Gives {α : Type} (x : Lowering α) (P : α → Prop) : Prop :=
  ∀ s t a, x.run.run s = (.ok a, t) → P a

namespace Gives

variable {α β : Type} {P : α → Prop}

theorem pure {a : α} (h : P a) : Gives (Pure.pure a) P := by
  rintro s _ _ ⟨⟩
  exact h

/-- Nothing has to be known of what comes before. -/
theorem bind {x : Lowering β} {f : β → Lowering α} (hf : ∀ b, Gives (f b) P) :
    Gives (x >>= f) P := by
  intro s u a run
  obtain ⟨b, t, -, second⟩ := exists_of_run_bind run
  exact hf b t u a second

theorem refuse (cls : String) (kind : Kind) : Gives (Lowering.refuse cls kind) P := by
  rintro s _ _ ⟨⟩

end Gives

theorem Writes.and {α : Type} {σ : Spelling} {x : Lowering α} {P Q : α → Prop}
    (hx : Writes σ x P) (hq : Gives x Q) : Writes σ x fun a => P a ∧ Q a := by
  intro s t a run hs
  obtain ⟨ht, ha⟩ := hx s t a run hs
  exact ⟨ht, ha, hq s t a run⟩

/-- If the expression becomes a text, the text is no jump. -/
def Lowered.NoJump : Lowered → Prop
  | .value text => Zephirize.NoJump text
  | .assigned .. => True

section Expressions

variable {cls : String}

theorem BinaryOp.foreign_symbol (op : BinaryOp) : Foreign op.symbol := by
  cases op <;> decide

theorem UnaryOp.foreign_symbol (op : UnaryOp) : Foreign op.symbol := by
  cases op <;> decide

theorem Numeral.noJump {text : String} (h : Numeral text) : NoJump text :=
  .of_notMem (fun mem => by cases h.mem mem) (fun mem => by cases h.mem mem)

theorem isWord_safeName {name : String} (word : Consists isWordChar name) :
    Consists isWordChar (safeName name) := by
  unfold safeName
  split_ifs
  · exact consists_append.2 ⟨word, by decide⟩
  · exact word

theorem noJump_safeName {name : String} (word : Consists isWordChar name) :
    NoJump (safeName name) := by
  refine .of_ne (fun blank => by cases (isWord_safeName word).mem blank) ⟨?_, ?_⟩
  · exact safeName_ne (by decide +kernel) (by decide)
  · exact safeName_ne (by decide +kernel) (by decide)

theorem noJump_constant {name : Name} (words : ∀ x ∈ name.parts, Consists isWordChar x)
    (other : name.text ≠ "break" ∧ name.text ≠ "continue") : NoJump name.text := by
  refine .of_ne (fun blank => ?_) other
  rcases Name.mem_text blank with same | ⟨x, part, mem⟩
  · cases same
  · cases (words x part).mem mem

theorem noJump_isset (texts : List String) :
    NoJump (" && ".intercalate (texts.map ("isset " ++ ·))) := by
  cases texts with
  | nil => decide
  | cons text rest =>
    have word : Foreign ("isset " ++ text) := Foreign.before (by decide) text
    cases rest with
    | nil => simpa using word.noJump
    | cons next more =>
      rw [List.map_cons, List.map_cons, String.intercalate_cons_cons]
      exact ((word.before _).before _).noJump

theorem gives_arrayText (items : List Item) (texts : List String) (keep : Bool) :
    Gives (arrayText items texts keep) NoJump := by
  cases keep with
  | false => exact .pure (((by decide : Foreign "[").before _).before _).noJump
  | true => exact .bind fun _ => .pure ((by decide : Foreign "tmpArray").before _).noJump

/-- No expression with readable names becomes a jump, one case for each form. Most texts have a
character in them that no jump has. -/
theorem gives_noJump : ∀ e : Expr, Node.Readable (.expr e) →
    Gives (lower cls e) Lowered.NoJump
  | .var (.literal name), names => by
    rw [lower]
    exact .pure (noJump_safeName (names.words name List.mem_cons_self))
  | .var (.dynamic name), _ => by
    rw [lower]
    exact .bind fun _ => .bind fun _ =>
      .pure (((by decide : Foreign "\x7b").before _).before _).noJump
  | .assign target value byRef, _ => by
    rw [lower_assign_eq]
    refine .bind fun _ => .bind fun _ => .bind fun _ => ?_
    unfold assignInto
    split
    · exact .bind fun _ => .pure trivial
    · exact .bind fun _ => .pure trivial
  | .assignOp op target value, _ => by
    rw [lower]
    exact .bind fun _ => .bind fun _ => .bind fun _ => .bind fun _ => .pure trivial
  | .incDec op target, _ => by
    rw [lower]
    exact .bind fun _ => .bind fun _ => .pure trivial
  | .property object name, _ => by
    rw [lower]
    exact .bind fun _ => .bind fun _ => .pure ((by decide : Foreign "->").between _ _).noJump
  | .staticProperty owner name, _ => by
    rw [lower]
    exact .pure ((by decide : Foreign "::").between _ _).noJump
  | .dim base index, _ => by
    rw [lower]
    exact .bind fun _ => .bind fun _ => .bind fun _ => .bind fun _ =>
      .pure (((by decide : Foreign "[").between _ _).before _).noJump
  | .list items, _ => by
    rw [lower]
    exact .bind fun _ => .pure (((by decide : Foreign "[").before _).before _).noJump
  | .array items, _ => by
    rw [lower]
    -- The literal or the temporary that keeps it, as the last step decides.
    refine .bind fun _ => .bind fun texts => ?_
    intro s u lowered run
    obtain ⟨text, t, first, last⟩ := exists_of_run_bind run
    cases last
    exact gives_arrayText items texts _ s u text first
  | .call name args, _ => by
    rw [lower]
    exact .bind fun _ => .pure (((by decide : Foreign "(").between _ _).before _).noJump
  | .methodCall object method args, _ => by
    rw [lower]
    exact .bind fun _ => .bind fun _ => .bind fun _ =>
      .pure (((by decide : Foreign "(").between _ _).before _).noJump
  | .staticCall owner method args, _ => by
    rw [lower]
    exact .bind fun _ => .pure (((by decide : Foreign "(").between _ _).before _).noJump
  | .new owner args, _ => by
    rw [lower]
    exact .bind fun _ => .pure (((by decide : Foreign "(").between _ _).before _).noJump
  | .classConst owner constant, _ => by
    rw [lower]
    exact .pure ((by decide : Foreign "::").between _ _).noJump
  | .const name, names => by
    rw [lower]
    exact .pure (noJump_constant (fun x hx => names.words x (List.mem_append_left _ hx))
      (names.constants name.text List.mem_cons_self))
  | .string value, _ => by
    rw [lower]
    have quoted : Foreign (Text.Quoted.quote value) :=
      List.any_eq_true.2 ⟨'"', by simp [Text.Quoted.quote], rfl⟩
    exact .pure quoted.noJump
  | .int value, _ => by
    rw [lower]
    exact .pure (numeral_toString_int _).noJump
  | .float value, _ => by
    rw [lower]
    exact .pure (numeral_write value).noJump
  | .binary op left right, _ => by
    rw [lower]
    exact .bind fun _ => .bind fun _ => .bind fun _ => .bind fun _ =>
      .pure (((op.foreign_symbol.after _).before _).before _).noJump
  | .unary op operand, _ => by
    rw [lower]
    exact .bind fun _ => .bind fun _ => .pure (op.foreign_symbol.before _).noJump
  | .ternary test (some yes) no, _ => by
    rw [lower]
    exact .bind fun _ => .bind fun _ => .bind fun _ => .bind fun _ => .bind fun _ => .bind fun _ =>
      .pure ((by decide : Foreign " : ").between _ _).noJump
  | .ternary test none no, _ => by
    rw [lower]
    exact .bind fun _ => .bind fun _ => .bind fun _ => .bind fun _ =>
      .pure ((by decide : Foreign " : ").between _ _).noJump
  | .isset vars, _ => by
    rw [lower]
    exact .bind fun texts => .pure (noJump_isset texts)
  | .empty value, _ => by
    rw [lower]
    exact .bind fun _ => .bind fun _ => .pure ((by decide : Foreign "empty ").before _).noJump
  | .instanceOf value owner, _ => by
    rw [lower]
    exact .bind fun _ => .bind fun _ =>
      .pure ((by decide : Foreign " instanceof ").between _ _).noJump
  | .cast type value, _ => by
    rw [lower]
    exact .bind fun _ => .bind fun _ => .pure (((by decide : Foreign ") ").after _).before _).noJump
  | .eval _, _ | .shell _, _ => by
    rw [lower]
    exact .refuse cls _

/-- An expression with readable names is readable, also as a statement. -/
theorem writes_readable (e : Expr) (names : ReadableNames [.expr e]) :
    Writes reading (lower cls e) (Lowered.Stands reading) := by
  refine ((writes_lower e names.spelled).and (gives_noJump e names.own)).mono ?_
  rintro lowered ⟨spelled, free⟩
  refine ⟨spelled, ?_⟩
  cases lowered with
  | value text => exact List.forall_mem_singleton.2 (free.isCommand spelled.1 spelled.2)
  | assigned lines target => exact spelled.1

end Expressions

/-! ### Programs -/

section Programs

variable {cls : String}

theorem isBinding_bindingOf {key : Option String} {value : String}
    (hk : ∀ name ∈ key, Consists isWordChar name) (hv : Consists isWordChar value) :
    IsBinding (bindingOf key value) := by
  cases key with
  | none => exact .inl (isWord_safeName hv)
  | some key => exact .inr ⟨_, _, rfl, isWord_safeName (hk key rfl), isWord_safeName hv⟩

theorem writes_readableEach (es : List Expr) (names : ReadableNames (es.map .expr)) :
    ∀ e ∈ es, Writes reading (lower cls e) (Lowered.Stands reading) := by
  induction es with
  | nil => exact List.forall_mem_nil _
  | cons e rest ih => exact List.forall_mem_cons.2 ⟨writes_readable e names.head, ih names.tail⟩

mutual

/-- The conversion of a program, one case for each form. -/
theorem Control.writes_toStmt : ∀ c : Control Expr, ReadableNames [.stmt c.toStmt] →
    Writes reading (lowerStmt cls c.toStmt) reading.lines
  | .expression value, names => by
    rw [Control.toStmt] at names ⊢
    exact .expression (writes_readable value names.below)
  | .branch test body otherwise, names => by
    rw [Control.toStmt] at names ⊢
    refine .ifElse (writes_lower test names.below.spelled.head)
      (Control.writes_toStmts body names.below.tail.left.left) (A := (· = [])) ?_
      (Control.writes_toElse otherwise names.below.tail.right) ?_
    · rw [lowerArms]
      exact .pure rfl
    · rintro _ last rfl h
      exact h
  | .whileLoop test body, names => by
    rw [Control.toStmt] at names ⊢
    exact .whileLoop (writes_lower test names.below.spelled.head)
      (Control.writes_toStmts body names.below.tail)
  | .doWhile body test, names => by
    rw [Control.toStmt] at names ⊢
    exact .doWhile (Control.writes_toStmts body names.below.left)
      (writes_lower test names.below.spelled.right)
  | .forLoop init tests steps body, names => by
    rw [Control.toStmt] at names ⊢
    exact .forLoop (writes_readableEach init names.below.left.left.left)
      (writes_readableEach tests names.below.left.left.right)
      (writes_readableEach steps names.below.left.right)
      (Control.writes_toStmts body names.below.right)
  | .foreach subject key value byRef body, names => by
    rw [Control.toStmt] at names ⊢
    have bound : IsBinding (bindingOf key value) := by
      refine isBinding_bindingOf (fun name hn => ?_)
        (names.below.tail.right.own.words value List.mem_cons_self)
      cases hn
      exact names.below.tail.left.own.words name List.mem_cons_self
    refine .foreach (V := (· = safeName value)) (B := IsBinding)
      (writes_lower subject names.below.spelled.head) ?_ ?_
      (Control.writes_toStmts body names.below.tail.right.tail) ?_
    · rw [exprText_named]
      exact .pure rfl
    · rintro _ rfl
      rw [bindingText_named]
      exact .pure bound
    · intro binding subject code hb hs hc
      exact ⟨hb, hs.2, Code.allReadable_iff.2 hc⟩
  | .breakLoop, _ => by
    rw [Control.toStmt]
    exact .breakLoop
  | .continueLoop, _ => by
    rw [Control.toStmt]
    exact .continueLoop

theorem Control.writes_toStmts : ∀ cs : List (Control Expr),
    ReadableNames ((Control.toStmts cs).map .stmt) →
      Writes reading (lowerStmts cls (Control.toStmts cs)) reading.lines
  | [], _ => by
    rw [Control.toStmts]
    exact .stmtsNil
  | c :: rest, names => by
    rw [Control.toStmts] at names ⊢
    exact .stmtsCons (Control.writes_toStmt c names.head) (Control.writes_toStmts rest names.tail)

theorem Control.writes_toElse : ∀ otherwise : Option (List (Control Expr)),
    ReadableNames (((Control.toElse otherwise).getD []).map .stmt) →
      Writes reading (lowerOtherwise cls (Control.toElse otherwise)) Chain.Readable
  | none, _ => by
    rw [Control.toElse]
    exact .otherwiseNone
  | some body, names => by
    rw [Control.toElse] at names ⊢
    exact .otherwiseSome (Control.writes_toStmts body names)

end

/-- The code of a program with readable names is readable. -/
theorem readable_lowerBlock {program : List (Control Expr)} {s t : State} {code : List Code}
    (names : ReadableNames ((Control.toStmts program).map .stmt)) (outside : s.loops = [])
    (run : (lowerBlock cls (Control.toStmts program)).run.run s = (.ok code, t)) :
    ∀ c ∈ code, c.Readable := by
  obtain ⟨u, inside, -⟩ := exists_of_run_inBlock run
  refine (Control.writes_toStmts program names _ u code inside ⟨List.forall_mem_nil _, ?_⟩).2
  simp [outside]

end Programs

/-- Take a program of loops whose names are words and in which no constant is spelled as a jump. Its
conversion outside of any loop is refused exactly as the conversion of its expressions is. If it is
not, the printed text is read as code, and this code executes as the program does, for every oracle
and every bound, with simple lines as they are read; bounds do nothing but cut executions off. -/
theorem control_flow_preserved (cls : String) (width : ℕ) (program : List (Control Expr))
    (s : State) (outside : s.loops = [])
    (names : ∀ n ∈ nodesOf ((Control.toStmts program).map .stmt), n.Readable) :
    (∃ code t evaluated dims target,
      (lowerBlock cls (Control.toStmts program)).run.run s = (.ok code, t) ∧
      Control.evaluateAll cls s.hoistArrays program s.dims = .ok (evaluated, dims) ∧
      Code.read? (Code.renderAll (blanks width) code) = some target ∧
      ∀ o n,
        Code.executeAll o n target [] =
          outcomeAsRead (Control.executeAll (Oracle.reading o) n evaluated []) ∧
        ∀ m ≤ n, GoesOn (Code.executeAll o m target) (Code.executeAll o n target)) ∨
    ∃ r t, (lowerBlock cls (Control.toStmts program)).run.run s = (.error r, t) ∧
      Control.evaluateAll cls s.hoistArrays program s.dims = .error r := by
  rcases executeAll_lowerBlock cls program outside with
    ⟨code, t, evaluated, dims, run, eval, alike⟩ | refused
  · have readable := readable_lowerBlock names outside run
    refine .inl ⟨code, t, evaluated, dims, Code.allAsRead code, run, eval,
      Code.read?_renderAll readable, fun o n => ⟨?_, fun m le => Code.executeAll_goesOn le _⟩⟩
    rw [← alike]
    exact Code.executeAll_asRead code (Code.allReadable_iff.2 readable) []
  · exact .inr refused

/-- `for (i = 0; ; i++) { do { if (skip) continue; } while (x = more()); continue; }`: the first
`continue` belongs to the `do`, whose test needs a line, and the second one to the `for`. -/
theorem control_flow_preserved_nested :
    let program : List (Control Expr) :=
      [.forLoop [.assign (.named "i") (.int 0) false] [] [.incDec .postInc (.named "i")]
        [.doWhile [.branch (.named "skip") [.continueLoop] none]
          (.assign (.named "x") (.callOf "more" []) false), .continueLoop]]
    let code : List Code :=
      [.set "i" "0", .whileLoop "true"
        [.loop [.branch "skip" [.set "x" "more()", .leaveUnless "x", .continueLoop] .done,
            .set "x" "more()", .leaveUnless "x"],
          .assign "i" .increment, .continueLoop, .assign "i" .increment]]
    let target : List Code :=
      [.eval "let i = 0", .whileLoop "true"
        [.loop [.branch "skip" [.eval "let x = more()", .leaveUnless "x", .continueLoop] .done,
            .eval "let x = more()", .leaveUnless "x"],
          .eval "let i++", .continueLoop, .eval "let i++"]]
    ({} : State).loops = [] ∧
    (∀ n ∈ nodesOf ((Control.toStmts program).map .stmt), n.Readable) ∧
    ((lowerBlock "A" (Control.toStmts program)).run.run {}).1 = .ok code ∧
    Code.read? (Code.renderAll (blanks 4) code) = some target ∧
    ∃ evaluated dims, Control.evaluateAll "A" false program 0 = .ok (evaluated, dims) ∧
      ∀ o n, Code.executeAll o n target [] =
        outcomeAsRead (Control.executeAll (Oracle.reading o) n evaluated []) := by
  intro program code target
  have names : ∀ n ∈ nodesOf ((Control.toStmts program).map .stmt), n.Readable := by
    decide +kernel
  have converts : ((lowerBlock "A" (Control.toStmts program)).run.run {}).1 = .ok code := by
    decide +kernel
  have reads : Code.read? (Code.renderAll (blanks 4) code) = some target := by
    obtain ⟨t, run⟩ := exists_of_run_fst converts
    have same : Code.allAsRead code = target := by decide +kernel
    rw [Code.read?_renderAll (readable_lowerBlock names rfl run), same]
  refine ⟨rfl, names, converts, reads, ?_⟩
  rcases control_flow_preserved "A" 4 program {} rfl names with
    ⟨code', t, evaluated, dims, target', run, eval, read, alike⟩ | ⟨r, t, run, -⟩
  · rw [run] at converts
    cases converts
    cases read.symm.trans reads
    exact ⟨evaluated, dims, eval, fun o n => (alike o n).1⟩
  · rw [run] at converts
    cases converts

/-- `while (c) break;` with a constant instead of the jump has the text of the loop with the jump.
The text is read as that loop, which is left where the program goes on. -/
theorem jump_constant_misread :
    let program : List (Control Expr) :=
      [.whileLoop (.named "c") [.expression (.const ⟨["break"], false⟩)]]
    let o : Oracle := fun _ => true
    ∃ code t evaluated dims target,
      (lowerBlock "A" (Control.toStmts program)).run.run {} = (.ok code, t) ∧
      Control.evaluateAll "A" false program 0 = .ok (evaluated, dims) ∧
      Code.renderAll (blanks 4) code = "while c \x7b\n    break;\n\x7d" ∧
      Code.read? (Code.renderAll (blanks 4) code) = some target ∧
      Code.executeAll o 1 target [] = .ok (.normal, [.test "c"]) ∧
      outcomeAsRead (Control.executeAll (Oracle.reading o) 1 evaluated []) =
        .error [.test "c", .line (.eval "break")] := by
  intro program o
  have converts : ((lowerBlock "A" (Control.toStmts program)).run.run {}).1 =
      .ok [.whileLoop "c" [.eval "break"]] := by
    decide +kernel
  have reads : Code.read? (Code.renderAll (blanks 4) [.whileLoop "c" [.eval "break"]]) =
      some [.whileLoop "c" [.breakLoop]] := by
    decide +kernel
  have asked (o : Oracle) : ask o "c" = (do return (← consult o (.test "c")) != false) := by
    have test : readTest "c".toList = ("c".toList, false) := by
      rw [readTest]
      simp
    rw [ask, test, if_neg (by decide)]
    rfl
  rcases executeAll_lowerBlock "A" program (s := {}) rfl with
    ⟨code, t, evaluated, dims, run, eval, alike⟩ | ⟨r, t, run, -⟩
  · rw [run] at converts
    cases converts
    refine ⟨_, t, evaluated, dims, _, run, eval, by decide +kernel, reads, ?_, ?_⟩
    · simp only [Code.executeAll_singleton, Code.execute, asked]
      rfl
    · simp only [← alike, Code.executeAll_singleton, Code.execute, asked]
      rfl
  · rw [run] at converts
    cases converts

end Zephirize
