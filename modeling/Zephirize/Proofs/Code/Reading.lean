import Zephirize.Proofs.Code.Shown
import Zephirize.Proofs.Lowering.Readback
import Zephirize.Proofs.Text.Brackets

/-!
# Reading code from its text

The text of loops, branches and simple lines is read line by line, whatever the indentation. A line
opens a block, closes one, or is a statement: `break`, `continue` or a simple line. The reader keeps
the blocks that are open, and at the end none may be.

* `Text.codeLines` — the lines of a text without indentation, but for the empty ones.
* `Line.read?` — what a line says.
* `CodeReader.step`, `Code.read?` — the reader.
* `Code.asRead` — the code that is read: of a simple line no more is known than its text.
* `Code.Readable` — tests and subjects stand on one line, a `for` binds words, and no simple line
  looks like a jump or like the end of a block.

`Code.read?_renderAll`: the text of readable code is read as this code.
-/

namespace Zephirize

open Text (Chars.bare Chars.dropBlanks Chars.trimReturns bareLines Consists)

/-! ### Lines -/

namespace Text

/-- The text has no line feed. -/
def OneLine (s : String) : Prop := '\n' ∉ s.toList

instance (s : String) : Decidable (OneLine s) := inferInstanceAs (Decidable (_ ∉ _))

theorem oneLine_append {a b : String} : OneLine (a ++ b) ↔ OneLine a ∧ OneLine b := by
  simp [OneLine]

theorem Consists.oneLine {p : Char → Bool} {s : String} (h : Consists p s)
    (free : p '\n' = false) : OneLine s := by
  intro feed
  rw [h.mem feed] at free
  cases free

/-- The literal of a string stands on one line, since line feeds are escaped in it. -/
theorem oneLine_quote (s : String) : OneLine (Quoted.quote s) := by
  have escaped (c : Char) : '\n' ∉ Quoted.escape c := by
    unfold Quoted.escape
    split <;> simp_all [eq_comm]
  rw [OneLine, Quoted.quote, String.toList_ofList]
  simpa using fun c _ => escaped c

theorem OneLine.compositional : Compositional OneLine where
  plain h := h.oneLine rfl
  append ha hb := oneLine_append.2 ⟨ha, hb⟩
  enclosed {_ _ _ opening closing} ha opens closes pair := by
    have other : '\n' ≠ opening ∧ '\n' ≠ closing := by
      unfold closing? at pair
      split at pair <;> cases pair <;> decide
    simp only [oneLine_append]
    refine ⟨⟨?_, ha⟩, ?_⟩
    · rw [OneLine, opens, List.mem_singleton]
      exact other.1
    · rw [OneLine, closes, List.mem_singleton]
      exact other.2
  quote := oneLine_quote

/-- The lines of a text without indentation, but for the empty ones. -/
def codeLines (s : String) : List (List Char) := (bareLines s).filter (!·.isEmpty)

@[simp]
theorem codeLines_empty : codeLines "" = [] := by simp [codeLines]

theorem codeLines_append (a b : String) :
    codeLines (a ++ "\n" ++ b) = codeLines a ++ codeLines b := by
  rw [codeLines, bareLines_append, List.filter_append]
  rfl

theorem codeLines_joinLines (texts : List String) :
    codeLines (joinLines texts) = texts.flatMap codeLines := by
  cases texts with
  | nil => exact codeLines_empty
  | cons text rest =>
    rw [codeLines, bareLines_joinLines (List.cons_ne_nil _ _), List.filter_flatMap]
    rfl

variable {unit : String}

/-- Indenting drops at most an empty line. -/
theorem codeLines_indent (blank : ∀ c ∈ unit.toList, c = ' ') (s : String) :
    codeLines (indent unit s) = codeLines s := by
  rw [codeLines, codeLines]
  rcases bareLines_eq_indent blank s with same | more
  · rw [same]
  · rw [more, List.filter_append]
    exact (List.append_nil _).symm

/-- The lines of a block with something in front of it and behind it. -/
theorem codeLines_block (blank : ∀ c ∈ unit.toList, c = ' ') (head body tail : String) :
    codeLines (head ++ block unit body ++ tail) =
      codeLines (head ++ "\x7b") ++ (codeLines body ++ codeLines ("\x7d" ++ tail)) := by
  unfold block
  split_ifs with none
  · have split : head ++ "\x7b\n\x7d" ++ tail = (head ++ "\x7b") ++ "\n" ++ ("\x7d" ++ tail) := by
      rw [← String.toList_inj]
      simp
    rw [split, codeLines_append, String.isEmpty_iff.1 none, codeLines_empty, List.nil_append]
  · have split : head ++ ("\x7b\n" ++ indent unit body ++ "\n\x7d") ++ tail =
        (head ++ "\x7b") ++ "\n" ++ (indent unit body ++ "\n" ++ ("\x7d" ++ tail)) := by
      rw [← String.toList_inj]
      simp
    rw [split, codeLines_append, codeLines_append, codeLines_indent blank]

/-- A text on one line that ends with neither a blank nor a carriage return. -/
theorem codeLines_concat {s : String} (one : OneLine s) (cs : List Char) {c : Char}
    (text : s.toList = cs ++ [c]) (blank : c ≠ ' ') (ret : c ≠ '\r') :
    codeLines s = [Chars.dropBlanks cs ++ [c]] := by
  have bare : Chars.bare s.toList = Chars.dropBlanks cs ++ [c] := by
    rw [Chars.bare, Chars.trimReturns, text,
      List.rdropWhile_concat_neg _ _ _ (by simpa using ret)]
    exact Chars.dropBlanks_concat blank cs
  rw [codeLines, bareLines_of_notMem one, bare]
  simp

end Text

/-- What opens a block. -/
inductive Opening where
  | branch (test : String)
  /-- The `else` of an `if` with this test and this first block. -/
  | otherwise (test : String) (body : List Code)
  | whileLoop (test : String)
  | loop
  | doWhile
  | forIn (binding subject : String)

/-- What a line says. -/
inductive Line where
  | single (code : Code)
  | opens (opening : Opening)
  /-- The first block of an `if` ends, and its `else` starts. -/
  | otherwise
  | closes
  /-- The block of a `do` ends with its test. -/
  | closesDo (test : String)

namespace Line

/-- Reads what follows a `for`: a word or two, and the subject. -/
def readFor? (cs : List Char) : Option Line :=
  let first := cs.takeWhile isWordChar
  let rest := cs.dropWhile isWordChar
  match rest.dropPrefix? ", ".toList with
  | some more =>
    ((more.dropWhile isWordChar).dropPrefix? " in ".toList).map fun subject =>
      .opens (.forIn (String.ofList (first ++ ", ".toList ++ more.takeWhile isWordChar))
        (String.ofList subject))
  | none =>
    (rest.dropPrefix? " in ".toList).map fun subject =>
      .opens (.forIn (String.ofList first) (String.ofList subject))

/-- Reads what stands before a brace at the end of a line. -/
def readHead? (head : List Char) : Option Line :=
  if head = "loop".toList then some (.opens .loop)
  else if head = "do".toList then some (.opens .doWhile)
  else if head = "\x7d else".toList then some .otherwise
  else
    (head.dropPrefix? "if ".toList).map (fun test => .opens (.branch (String.ofList test))) <|>
      (head.dropPrefix? "while ".toList).map
        (fun test => .opens (.whileLoop (String.ofList test))) <|>
      (head.dropPrefix? "for ".toList).bind readFor?

/-- What stands before a semicolon at the end of a line. -/
def ofCommand (text : List Char) : Line :=
  if text = "break".toList then .single .breakLoop
  else if text = "continue".toList then .single .continueLoop
  else
    match text.dropPrefix? "\x7d while ".toList with
    | some test => .closesDo (String.ofList test)
    | none => .single (.eval (String.ofList text))

/-- Reads a line. -/
def read? (line : List Char) : Option Line :=
  if line = "\x7d".toList then some .closes
  else
    match line.dropSuffix? " \x7b".toList with
    | some head => readHead? head
    | none => (line.dropSuffix? ";".toList).map ofCommand

/-- A text that ends otherwise has no such ending. -/
theorem dropSuffix?_concat {c d : Char} (h : c ≠ d) (text ending : List Char) :
    (text ++ [c]).dropSuffix? (ending ++ [d]) = none := by
  rw [Option.eq_none_iff_forall_ne_some]
  intro front found
  obtain ⟨_, same, rest⟩ := List.dropSuffix?_eq_some_iff.1 found
  rw [eq_of_beq rest, ← List.append_assoc] at same
  exact h (List.singleton_inj.1 (List.append_inj_right' same rfl))

theorem read?_head (head : List Char) : read? (head ++ " \x7b".toList) = readHead? head := by
  have whole : (head ++ " \x7b".toList).dropSuffix? " \x7b".toList = some head :=
    List.dropSuffix?_eq_some_iff.2 ⟨_, rfl, beq_self_eq_true _⟩
  have longer : head ++ " \x7b".toList ≠ "\x7d".toList := by
    intro same
    have length := congrArg List.length same
    simp at length
  rw [read?, if_neg longer, whole]

theorem read?_command (text : List Char) : read? (text ++ [';']) = some (ofCommand text) := by
  have brace : (text ++ [';']).dropSuffix? " \x7b".toList = none :=
    dropSuffix?_concat (by decide) text [' ']
  have semicolon : (text ++ [';']).dropSuffix? ";".toList = some text :=
    List.dropSuffix?_eq_some_iff.2 ⟨_, rfl, beq_self_eq_true _⟩
  have other : text ++ [';'] ≠ "\x7d".toList := by
    intro same
    have last := congrArg List.getLast? same
    simp at last
  rw [read?, if_neg other, brace]
  simp only [semicolon, Option.map_some]

end Line

/-- The text is one line of code, and the line says this. -/
def Text.IsLine (s : String) (l : Line) : Prop :=
  ∃ line, codeLines s = [line] ∧ Line.read? line = some l

/-- What a `for` binds: a word or two. -/
def IsBinding (binding : String) : Prop :=
  Consists isWordChar binding ∨
    ∃ key value, binding = key ++ ", " ++ value ∧
      Consists isWordChar key ∧ Consists isWordChar value

theorem IsBinding.oneLine {binding : String} (h : IsBinding binding) : Text.OneLine binding := by
  rcases h with word | ⟨key, value, rfl, hk, hv⟩
  · exact word.oneLine rfl
  · exact Text.oneLine_append.2
      ⟨Text.oneLine_append.2 ⟨hk.oneLine rfl, by decide⟩, hv.oneLine rfl⟩

namespace Text

variable {s test subject binding : String}

theorem isLine_command (one : OneLine s) :
    IsLine (s ++ ";") (Line.ofCommand (Chars.dropBlanks s.toList)) :=
  ⟨_, codeLines_concat (oneLine_append.2 ⟨one, by decide⟩) _ String.toList_append (by decide)
    (by decide), Line.read?_command _⟩

/-- A line that opens a block, whose first character is no blank. -/
theorem isLine_head {l : Line} (one : OneLine s) {c : Char} {cs : List Char}
    (text : s.toList = c :: cs) (first : c ≠ ' ') (h : Line.readHead? s.toList = some l) :
    IsLine (s ++ " " ++ "\x7b") l := by
  have whole : OneLine (s ++ " " ++ "\x7b") :=
    oneLine_append.2 ⟨oneLine_append.2 ⟨one, by decide⟩, by decide⟩
  refine ⟨_, codeLines_concat whole (s.toList ++ [' ']) (by simp; rfl) (by decide) (by decide), ?_⟩
  · rw [text, List.cons_append, Chars.dropBlanks_cons first, ← List.cons_append, ← text,
      List.append_assoc]
    exact (Line.read?_head _).trans h

theorem isLine_closes : IsLine "\x7d" .closes :=
  ⟨_, codeLines_concat (by decide) [] rfl (by decide) (by decide), rfl⟩

theorem isLine_otherwise : IsLine ("\x7d else " ++ "\x7b") .otherwise :=
  isLine_head (s := "\x7d else") (by decide) rfl (by decide) rfl

theorem isLine_loop : IsLine ("loop " ++ "\x7b") (.opens .loop) :=
  isLine_head (s := "loop") (by decide) rfl (by decide) rfl

theorem isLine_doWhile : IsLine ("do " ++ "\x7b") (.opens .doWhile) :=
  isLine_head (s := "do") (by decide) rfl (by decide) rfl

theorem isLine_branch (one : OneLine test) :
    IsLine ("if " ++ test ++ " " ++ "\x7b") (.opens (.branch test)) := by
  have text : ("if " ++ test).toList = 'i' :: 'f' :: ' ' :: test.toList := String.toList_append
  refine isLine_head (oneLine_append.2 ⟨by decide, one⟩) text (by decide) ?_
  rw [text]
  simp [Line.readHead?, List.dropPrefix?]

theorem isLine_whileLoop (one : OneLine test) :
    IsLine ("while " ++ test ++ " " ++ "\x7b") (.opens (.whileLoop test)) := by
  have text : ("while " ++ test).toList = 'w' :: 'h' :: 'i' :: 'l' :: 'e' :: ' ' :: test.toList :=
    String.toList_append
  refine isLine_head (oneLine_append.2 ⟨by decide, one⟩) text (by decide) ?_
  rw [text]
  simp [Line.readHead?, List.dropPrefix?]

/-- A word is read up to the first character that belongs to none. -/
theorem splitWord {word : String} (h : Consists isWordChar word) {c : Char}
    (stop : isWordChar c = false) (cs : List Char) :
    (word.toList ++ c :: cs).takeWhile isWordChar = word.toList ∧
      (word.toList ++ c :: cs).dropWhile isWordChar = c :: cs :=
  Readback.takeWhile_append (fun _ mem => h.mem mem) (by simpa using stop)

theorem readFor?_binding (h : IsBinding binding) (subject : String) :
    Line.readFor? (binding ++ " in " ++ subject).toList =
      some (.opens (.forIn binding subject)) := by
  rcases h with word | ⟨key, value, rfl, hk, hv⟩
  · have text : (binding ++ " in " ++ subject).toList =
        binding.toList ++ ' ' :: 'i' :: 'n' :: ' ' :: subject.toList := by simp
    obtain ⟨taken, left⟩ := splitWord word (c := ' ') rfl ('i' :: 'n' :: ' ' :: subject.toList)
    rw [text, Line.readFor?, taken, left]
    simp [List.dropPrefix?]
  · have text : (key ++ ", " ++ value ++ " in " ++ subject).toList = key.toList ++
        ',' :: ' ' :: (value.toList ++ ' ' :: 'i' :: 'n' :: ' ' :: subject.toList) := by simp
    have whole : String.ofList (key.toList ++ ", ".toList ++ value.toList) =
        key ++ ", " ++ value := by
      rw [← String.toList_inj]
      simp
    obtain ⟨key, keyLeft⟩ := splitWord hk (c := ',') rfl
      (' ' :: (value.toList ++ ' ' :: 'i' :: 'n' :: ' ' :: subject.toList))
    obtain ⟨value, valueLeft⟩ :=
      splitWord hv (c := ' ') rfl ('i' :: 'n' :: ' ' :: subject.toList)
    rw [text, Line.readFor?, key, keyLeft, ← whole]
    simp [List.dropPrefix?, value, valueLeft]

theorem isLine_forIn (h : IsBinding binding) (one : OneLine subject) :
    IsLine ("for " ++ binding ++ " in " ++ subject ++ " " ++ "\x7b")
      (.opens (.forIn binding subject)) := by
  have text : ("for " ++ binding ++ " in " ++ subject).toList =
      'f' :: 'o' :: 'r' :: ' ' :: (binding ++ " in " ++ subject).toList := by simp
  refine isLine_head ?_ text (by decide) ?_
  · simp only [oneLine_append]
    exact ⟨⟨⟨by decide, h.oneLine⟩, by decide⟩, one⟩
  · rw [text, ← readFor?_binding h]
    simp [Line.readHead?, List.dropPrefix?]

/-- The end of a `do`. -/
theorem isLine_closesDo (one : OneLine test) :
    IsLine ("\x7d" ++ (" while " ++ test ++ ";")) (.closesDo test) := by
  have text : "\x7d" ++ (" while " ++ test ++ ";") = "\x7d while " ++ test ++ ";" := by
    rw [← String.toList_inj]
    simp
  have command : Line.ofCommand (Chars.dropBlanks ("\x7d while " ++ test).toList) =
      .closesDo test := by
    simp [Line.ofCommand, Chars.dropBlanks, List.dropPrefix?]
  rw [text, ← command]
  exact isLine_command (oneLine_append.2 ⟨by decide, one⟩)

end Text

/-! ### The reader -/

/-- The code of a block that a brace closes. -/
def Opening.close? (body : List Code) : Opening → Option Code
  | .branch test => some (.branch test body .done)
  | .otherwise test first => some (.branch test first (.otherwise body))
  | .whileLoop test => some (.whileLoop test body)
  | .loop => some (.loop body)
  | .doWhile => none
  | .forIn binding subject => some (.forIn binding subject body)

/-- A reader between two lines. -/
structure CodeReader where
  /-- The blocks that are open, the innermost first, each with the code before it. -/
  around : List (Opening × List Code) := []
  /-- The code of the innermost block. -/
  code : List Code := []

namespace CodeReader

/-- Takes what a line says. -/
def step (r : CodeReader) : Line → Option CodeReader
  | .single c => some { r with code := r.code ++ [c] }
  | .opens opening => some ⟨(opening, r.code) :: r.around, []⟩
  | .otherwise =>
    match r.around with
    | (.branch test, before) :: around => some ⟨(.otherwise test r.code, before) :: around, []⟩
    | _ => none
  | .closes =>
    match r.around with
    | (opening, before) :: around => (opening.close? r.code).map fun c => ⟨around, before ++ [c]⟩
    | [] => none
  | .closesDo test =>
    match r.around with
    | (.doWhile, before) :: around => some ⟨around, before ++ [.doWhile r.code test]⟩
    | _ => none

/-- Reads lines. -/
def run (r : CodeReader) (lines : List (List Char)) : Option CodeReader :=
  lines.foldlM (fun r line => (Line.read? line).bind r.step) r

theorem run_append (r : CodeReader) (xs ys : List (List Char)) :
    r.run (xs ++ ys) = (r.run xs).bind (·.run ys) :=
  List.foldlM_append ..

theorem run_of_isLine {s : String} {l : Line} (h : Text.IsLine s l) (r : CodeReader) :
    r.run (Text.codeLines s) = r.step l := by
  obtain ⟨line, lines, read⟩ := h
  simp [run, lines, read]

end CodeReader

/-- Reads code from its text. -/
def Code.read? (text : String) : Option (List Code) := do
  let r ← CodeReader.run {} (Text.codeLines text)
  if r.around.isEmpty then some r.code else none

/-! ### Readable code -/

/-- A simple line as it is read: its text without the blanks in front and the semicolon. -/
def Code.asLine (c : Code) : Code :=
  .eval (String.ofList (Chars.dropBlanks (c.render "").toList.dropLast))

mutual

/-- The code that is read. -/
def Code.asRead : Code → Code
  | .breakLoop => .breakLoop
  | .continueLoop => .continueLoop
  | .branch test body rest => .branch test (Code.allAsRead body) rest.asRead
  | .whileLoop test body => .whileLoop test (Code.allAsRead body)
  | .loop body => .loop (Code.allAsRead body)
  | .doWhile body test => .doWhile (Code.allAsRead body) test
  | .forIn binding subject body => .forIn binding subject (Code.allAsRead body)
  | line => line.asLine

/-- The code that is read from statements. -/
def Code.allAsRead : List Code → List Code
  | [] => []
  | c :: rest => c.asRead :: Code.allAsRead rest

/-- What is read of what follows the first block of an `if`. -/
def Chain.asRead : Chain → Chain
  | .done => .done
  | .elseIf test body rest => .elseIf test (Code.allAsRead body) rest.asRead
  | .otherwise body => .otherwise (Code.allAsRead body)

end

/-- The text is a simple line: neither a jump nor the end of a block. -/
structure IsCommand (text : String) : Prop where
  oneLine : Text.OneLine text
  single : Line.ofCommand (Chars.dropBlanks text.toList) =
    .single (.eval (String.ofList (Chars.dropBlanks text.toList)))

mutual

/-- The code can be read from its text. It is made of simple lines, loops and branches; the reader
knows no `elseif`. -/
def Code.Readable : Code → Prop
  | .assign target update => Text.OneLine (update.render target)
  | .keep temp value => Text.OneLine (Update.render temp (.set value))
  | .eval text => IsCommand text
  | .breakLoop => True
  | .continueLoop => True
  | .branch test body rest => Text.OneLine test ∧ Code.AllReadable body ∧ rest.Readable
  | .whileLoop test body => Text.OneLine test ∧ Code.AllReadable body
  | .loop body => Code.AllReadable body
  | .doWhile body test => Code.AllReadable body ∧ Text.OneLine test
  | .forIn binding subject body =>
    IsBinding binding ∧ Text.OneLine subject ∧ Code.AllReadable body
  | .ret _ => False
  | .raise _ => False
  | .echo _ => False
  | .unset _ => False
  | .switch .. => False
  | .tryCatch .. => False

/-- All of the statements can be read. -/
def Code.AllReadable : List Code → Prop
  | [] => True
  | c :: rest => c.Readable ∧ Code.AllReadable rest

/-- What follows the first block of an `if` can be read. -/
def Chain.Readable : Chain → Prop
  | .done => True
  | .elseIf .. => False
  | .otherwise body => Code.AllReadable body

end

theorem Code.allReadable_iff {code : List Code} : AllReadable code ↔ ∀ c ∈ code, c.Readable := by
  induction code with
  | nil => simp [AllReadable]
  | cons c rest ih => rw [AllReadable, ih, List.forall_mem_cons]

theorem IsCommand.isLine {text : String} (h : IsCommand text) {c : Code}
    (render : c.render "" = text ++ ";") : Text.IsLine (text ++ ";") (.single c.asLine) := by
  have line : Line.ofCommand (Chars.dropBlanks text.toList) = .single c.asLine := by
    rw [h.single, Code.asLine, render]
    simp
  exact line ▸ Text.isLine_command h.oneLine

/-- An assignment is no jump, whatever its target and its value are. -/
theorem isCommand_let {body : String} (one : Text.OneLine body) : IsCommand ("let " ++ body) where
  oneLine := Text.oneLine_append.2 ⟨by decide, one⟩
  single := by simp [Line.ofCommand, Chars.dropBlanks, List.dropPrefix?]

theorem Update.exists_render (target : String) (update : Update) :
    ∃ body, update.render target = "let " ++ body ++ ";" := by
  cases update with
  | set value => exact ⟨target ++ " = " ++ value, by simp [render, String.append_assoc]⟩
  | combine op value =>
    exact ⟨target ++ " " ++ op.symbol ++ "= " ++ value, by simp [render, String.append_assoc]⟩
  | increment => exact ⟨target ++ "++", by simp [render, String.append_assoc]⟩
  | decrement => exact ⟨target ++ "--", by simp [render, String.append_assoc]⟩

theorem Update.isLine_render {target : String} {update : Update} {c : Code}
    (render : c.render "" = update.render target) (one : Text.OneLine (update.render target)) :
    Text.IsLine (update.render target) (.single c.asLine) := by
  obtain ⟨body, text⟩ := update.exists_render target
  rw [text] at render one ⊢
  exact (isCommand_let (Text.oneLine_append.1 (Text.oneLine_append.1 one).1).2).isLine render

/-! ### Readable code is read -/

namespace CodeReader

/-- The reader after it has read some code. -/
def after (r : CodeReader) (code : List Code) : CodeReader := { r with code := r.code ++ code }

theorem after_append (r : CodeReader) (xs ys : List Code) :
    r.after (xs ++ ys) = (r.after xs).after ys := by
  rw [after, after, after, List.append_assoc]

/-- The lines are read as this code, whatever was read before them. -/
def Reads (lines : List (List Char)) (code : List Code) : Prop :=
  ∀ r : CodeReader, r.run lines = some (r.after code)

theorem Reads.append {xs ys : List (List Char)} {code more : List Code} (hx : Reads xs code)
    (hy : Reads ys more) : Reads (xs ++ ys) (code ++ more) := by
  intro r
  rw [run_append, hx r, Option.bind_some, hy, after_append]

theorem Reads.single {s : String} {c : Code} (h : Text.IsLine s (.single c)) :
    Reads (Text.codeLines s) [c] :=
  fun r => run_of_isLine h r

variable {width : ℕ} {code read : List Code} {head : String} {l : Line} {r : CodeReader}
  {opening : Opening} {before : List Code} {around : List (Opening × List Code)}

/-- A block is opened and its code is read. What follows starts with its last brace. -/
theorem run_block (line : Text.IsLine (head ++ "\x7b") l)
    (opens : r.step l = some ⟨(opening, before) :: around, []⟩)
    (body : Reads ((Code.renderEach (blanks width) code).flatMap Text.codeLines) read)
    (tail : String) :
    r.run (Text.codeLines (head ++
        block (blanks width) (Text.joinLines (Code.renderEach (blanks width) code)) ++ tail)) =
      run ⟨(opening, before) :: around, read⟩ (Text.codeLines ("\x7d" ++ tail)) := by
  rw [Text.codeLines_block (eq_blank_of_mem_blanks width), run_append, run_of_isLine line, opens,
    Option.bind_some, run_append, Text.codeLines_joinLines, body, Option.bind_some]
  rfl

/-- A block that only its last brace follows. -/
theorem run_lastBlock (line : Text.IsLine (head ++ "\x7b") l)
    (opens : r.step l = some ⟨(opening, before) :: around, []⟩)
    (body : Reads ((Code.renderEach (blanks width) code).flatMap Text.codeLines) read) {c : Code}
    (close : opening.close? read = some c) :
    r.run (Text.codeLines (head ++
        block (blanks width) (Text.joinLines (Code.renderEach (blanks width) code)))) =
      some ⟨around, before ++ [c]⟩ := by
  have whole := run_block line opens body ""
  rw [String.append_empty, String.append_empty, run_of_isLine Text.isLine_closes] at whole
  simp only [whole, step, close, Option.map_some]

end CodeReader

section Run

open CodeReader (Reads run_of_isLine run_block run_lastBlock)

variable {width : ℕ}

mutual

/-- Readable code is read, whatever was read before it. -/
theorem Code.reads_render : ∀ c : Code, c.Readable →
    Reads (Text.codeLines (c.render (blanks width))) [c.asRead]
  | .assign target update, h => by
    simp only [Code.render, Code.asRead]
    exact .single (Update.isLine_render (by rw [Code.render]) h)
  | .keep temp value, h => by
    simp only [Code.render, Code.asRead]
    exact .single (Update.isLine_render (by rw [Code.render]) h)
  | .eval text, h => by
    simp only [Code.render, Code.asRead]
    exact .single (IsCommand.isLine h (by rw [Code.render]))
  | .breakLoop, _ => by
    rw [Code.render, Code.asRead]
    exact .single (Text.isLine_command (s := "break") (by decide))
  | .continueLoop, _ => by
    rw [Code.render, Code.asRead]
    exact .single (Text.isLine_command (s := "continue") (by decide))
  | .branch test body rest, h => by
    rw [Code.Readable] at h
    intro r
    -- The line of the brace says whether an `else` follows, so the rest of the `if` starts there.
    rw [Code.render, Code.asRead,
      run_block (Text.isLine_branch h.1) rfl (Code.reads_renderEach body h.2.1)]
    exact Chain.run_render rest h.2.2 _ _ _ _
  | .whileLoop test body, h => by
    rw [Code.Readable] at h
    rw [Code.render, Code.asRead]
    exact fun r =>
      run_lastBlock (Text.isLine_whileLoop h.1) rfl (Code.reads_renderEach body h.2) rfl
  | .loop body, h => by
    rw [Code.Readable] at h
    rw [Code.render, Code.asRead]
    exact fun r => run_lastBlock Text.isLine_loop rfl (Code.reads_renderEach body h) rfl
  | .doWhile body test, h => by
    rw [Code.Readable] at h
    have tail (front : String) : front ++ " while " ++ test ++ ";" =
        front ++ (" while " ++ test ++ ";") := by simp only [String.append_assoc]
    intro r
    rw [Code.render, Code.asRead, tail,
      run_block Text.isLine_doWhile rfl (Code.reads_renderEach body h.1)]
    exact run_of_isLine (Text.isLine_closesDo h.2) _
  | .forIn binding subject body, h => by
    rw [Code.Readable] at h
    rw [Code.render, Code.asRead]
    exact fun r =>
      run_lastBlock (Text.isLine_forIn h.1 h.2.1) rfl (Code.reads_renderEach body h.2.2) rfl

theorem Code.reads_renderEach : ∀ code : List Code, Code.AllReadable code →
    Reads ((Code.renderEach (blanks width) code).flatMap Text.codeLines) (Code.allAsRead code)
  | [], _ => by
    rw [Code.renderEach, Code.allAsRead]
    intro r
    simp [CodeReader.run, CodeReader.after]
  | c :: rest, h => by
    rw [Code.AllReadable] at h
    rw [Code.renderEach, Code.allAsRead, List.flatMap_cons]
    exact (Code.reads_render c h.1).append (Code.reads_renderEach rest h.2)

/-- What follows the first block of an `if`, after that block is read. -/
theorem Chain.run_render : ∀ chain : Chain, chain.Readable →
    ∀ (test : String) (before body : List Code) (around : List (Opening × List Code)),
    CodeReader.run ⟨(.branch test, before) :: around, body⟩
        (Text.codeLines ("\x7d" ++ chain.render (blanks width))) =
      some ⟨around, before ++ [.branch test body chain.asRead]⟩
  | .done, _, test, before, body, around => by
    rw [Chain.render, Chain.asRead, String.append_empty]
    exact run_of_isLine Text.isLine_closes _
  | .otherwise last, h, test, before, body, around => by
    rw [Chain.Readable] at h
    rw [Chain.render, Chain.asRead, ← String.append_assoc]
    exact run_lastBlock Text.isLine_otherwise rfl (Code.reads_renderEach last h) rfl

end

/-- The text of readable code is read as this code. -/
theorem Code.read?_renderAll {code : List Code} (h : ∀ c ∈ code, c.Readable) :
    Code.read? (Code.renderAll (blanks width) code) = some (Code.allAsRead code) := by
  rw [Code.read?, Code.renderAll, Text.codeLines_joinLines,
    Code.reads_renderEach code (Code.allReadable_iff.2 h)]
  rfl

end Run

end Zephirize
