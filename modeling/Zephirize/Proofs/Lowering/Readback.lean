import Mathlib.Data.List.TakeWhile
import Zephirize.Proofs.Lowering.Operators

/-!
# Reading operators back

The text of an operation with all its parentheses can be read again. The reader goes from left to
right: an operand is a word, a number or an operand in parentheses, with properties fetched from it,
or a mark with an operand after it. An operator stands between blanks, and a row of operators is read
from the left.

* `Expr.apartWith` — the tree that is read: variables have the names they are written with, and an
  `isset` of several variables has become the conjunction of single ones.
* `Readback.readOperand`, `Readback.readExpr` — the reader.

`Readback.readExpr_spell` says that the reader finds this tree in the text.
-/

namespace Zephirize

/-! ### The tree of a text -/

namespace Expr

/-- The conjunction of an `isset` for each variable. -/
def issets : List Expr → Expr
  | [] => .isset []
  | v :: rest => rest.foldl (fun left v => .binary .booleanAnd left (.isset [v])) (.isset [v])

/-- The operation with an `isset` for each variable, and with its variables renamed. -/
def apartWith (rename : String → String) : Expr → Expr
  | .var (.literal name) => .var (.literal (rename name))
  | .property object name => .property (object.apartWith rename) name
  | .binary op left right => .binary op (left.apartWith rename) (right.apartWith rename)
  | .unary op operand => .unary op (operand.apartWith rename)
  | .ternary test (some yes) no =>
    .ternary (test.apartWith rename) (some (yes.apartWith rename)) (no.apartWith rename)
  | .isset vars => issets (vars.map fun v => v.apartWith rename)
  | .empty value => .empty (value.apartWith rename)
  | .instanceOf value owner => .instanceOf (value.apartWith rename) owner
  | .cast type value => .cast type (value.apartWith rename)
  | e => e

end Expr

/-! ### The reader -/

namespace Readback

/-- What reads an expression from the start of a text gives the expression and what is left. -/
abbrev Reader := List Char → Option (Expr × List Char)

/-- Reads the properties that are fetched from an expression. -/
def readFetches (e : Expr) : List Char → Expr × List Char
  | '-' :: '>' :: cs =>
    readFetches (.property e (String.ofList (cs.takeWhile isWordChar))) (cs.dropWhile isWordChar)
  | cs => (e, cs)
termination_by cs => cs.length
decreasing_by
  have := (List.dropWhile_suffix (p := isWordChar) (l := cs)).length_le
  simp only [List.length_cons]
  omega

/-- The operators that stand between blanks. -/
def binaryOps : List BinaryOp :=
  [.add, .sub, .mul, .div, .mod, .pow, .concat, .bitAnd, .bitOr, .bitXor, .shiftLeft, .shiftRight,
    .booleanAnd, .booleanOr, .equal, .notEqual, .identical, .notIdentical, .greater,
    .greaterOrEqual, .smaller, .smallerOrEqual, .coalesce]

/-- Reads what follows an operand and a symbol between blanks; after a further operand, `next` goes
on. -/
def readSymbol (operand : Reader) (next : Expr → Reader) (left : Expr) (symbol cs : List Char) :
    Option (Expr × List Char) :=
  if symbol = "instanceof".toList then
    some (.instanceOf left (Name.ofString (String.ofList (cs.takeWhile (· != ')')))),
      cs.dropWhile (· != ')'))
  else if symbol = "?".toList then do
    let yes ← operand cs
    let no ← operand (yes.2.drop 3)
    return (.ternary left (some yes.1) no.1, no.2)
  else do
    let op ← binaryOps.find? (·.symbol.toList = symbol)
    let right ← operand cs
    next (.binary op left right.1) right.2

/-- Reads what follows an operand, with at most `n` operators in a row. -/
def readRest (operand : Reader) : ℕ → Expr → Reader
  | 0, _, _ => none
  | n + 1, left, ' ' :: cs =>
    readSymbol operand (readRest operand n) left (cs.takeWhile (· != ' '))
      (cs.dropWhile (· != ' ')).tail
  | _ + 1, left, cs => some (left, cs)

/-- Reads an operand and what follows it. -/
def readExpr (operand : Reader) (n : ℕ) : Reader := fun cs => do
  let left ← operand cs
  readRest operand n left.1 left.2

/-- The operator that a mark in front of an operand stands for. -/
def mark? : Char → Option UnaryOp
  | '!' => some .not
  | '-' => some .minus
  | '+' => some .plus
  | '~' => some .bitNot
  | _ => none

/-- The type that stands in parentheses, if what was read there is the word of a type. -/
def castTarget? : Expr → Option CastTarget
  | .var (.literal word) =>
    [CastTarget.int, .float, .string, .bool, .array, .object].find? (·.keyword = word)
  | _ => none

/-- Reads an operand that starts with a word. -/
def readWord (operand : Reader) (word rest : List Char) : Option (Expr × List Char) :=
  if word = "isset".toList then
    (operand rest.tail).map fun r => (.isset [r.1], r.2)
  else if word = "empty".toList then
    (operand rest.tail).map fun r => (.empty r.1, r.2)
  else if word.head?.any Char.isDigit then
    some (readFetches (.int (Int64.ofNat (Nat.ofDigitChars 10 word 0))) rest)
  else some (readFetches (.var (.literal (String.ofList word))) rest)

/-- Reads an operand with at most `n` levels inside each other. -/
def readOperand : ℕ → Reader
  | 0, _ => none
  | _ + 1, [] => none
  | n + 1, c :: cs =>
    match mark? c with
    | some op => (readOperand n cs).map fun r => (.unary op r.1, r.2)
    | none =>
      if c = '(' then do
        let inner ← readExpr (readOperand n) n cs
        match castTarget? inner.1 with
        | some type => (readOperand n (inner.2.drop 2)).map fun r => (.cast type r.1, r.2)
        | none => some (readFetches inner.1 inner.2.tail)
      else
        readWord (readOperand n) ((c :: cs).takeWhile isWordChar) ((c :: cs).dropWhile isWordChar)

/-! ### Words -/

/-- A text of such characters is read up to where none follows. -/
theorem takeWhile_append {p : Char → Bool} {word rest : List Char} (chars : ∀ c ∈ word, p c = true)
    (free : ∀ c ∈ rest.head?, p c = false) :
    (word ++ rest).takeWhile p = word ∧ (word ++ rest).dropWhile p = rest := by
  rw [List.takeWhile_append_of_pos chars, List.dropWhile_append_of_pos chars]
  cases rest with
  | nil => simp
  | cons c rest => simp [free c rfl]

/-- What follows a word: nothing that would belong to it. -/
def Free (rest : List Char) : Prop := ∀ c ∈ rest.head?, isWordChar c = false

/-- What follows an operand: a blank or the end of a group. -/
def Stops (rest : List Char) : Prop := ∀ c ∈ rest.head?, c = ' ' ∨ c = ')'

/-- What follows an expression: the end of a group. -/
def Ends (rest : List Char) : Prop := ∀ c ∈ rest.head?, c = ')'

theorem Ends.stops {rest : List Char} (h : Ends rest) : Stops rest := fun c mem => .inr (h c mem)

theorem Stops.free {rest : List Char} (h : Stops rest) : Free rest := by
  intro c mem
  rcases h c mem with rfl | rfl <;> decide

theorem stops_blank (cs : List Char) : Stops (' ' :: cs) := by
  rintro c ⟨⟩
  exact .inl rfl

theorem ends_group (cs : List Char) : Ends (')' :: cs) := by
  rintro c ⟨⟩
  rfl

theorem readFetches_stop {rest : List Char} (h : Stops rest) (e : Expr) :
    readFetches e rest = (e, rest) := by
  rw [readFetches]
  rintro cs rfl
  rcases h '-' rfl with h | h <;> cases h

theorem readFetches_property {name : String} (word : ∀ c ∈ name.toList, isWordChar c = true)
    {rest : List Char} (free : Free rest) (e : Expr) :
    readFetches e ("->".toList ++ (name.toList ++ rest)) =
      readFetches (.property e name) rest := by
  obtain ⟨taken, left⟩ := takeWhile_append word free
  have arrow : "->".toList ++ (name.toList ++ rest) = '-' :: '>' :: (name.toList ++ rest) := rfl
  rw [arrow, readFetches, taken, left, String.ofList_toList]

theorem readRest_end {operand : Reader} {n : ℕ} {rest : List Char} (h : Ends rest) (left : Expr) :
    readRest operand (n + 1) left rest = some (left, rest) := by
  rw [readRest]
  rintro cs rfl
  cases h ' ' rfl

end Readback

/-! ### Identifiers -/

theorem isIdentifier_chars {name : String} (h : isIdentifier name = true) :
    ∀ c ∈ name.toList, isWordChar c = true := by
  rw [isIdentifier, Bool.and_eq_true] at h
  exact List.all_eq_true.1 h.1

/-- An identifier starts with a character of words that is no digit. -/
theorem isIdentifier_head {name : String} (h : isIdentifier name = true) :
    ∃ c cs, name.toList = c :: cs ∧ isWordChar c = true ∧ c.isDigit = false := by
  have chars := isIdentifier_chars h
  rw [isIdentifier, Bool.and_eq_true] at h
  cases text : name.toList with
  | nil => simp [text] at h
  | cons c cs =>
    rw [text] at chars h
    exact ⟨c, cs, rfl, chars c List.mem_cons_self, by simpa using h.2⟩

/-- A variable is written as an identifier. -/
theorem isIdentifier_safeName {name : String} (h : isIdentifier name = true) :
    isIdentifier (safeName name) = true := by
  rw [safeName]
  split
  · obtain ⟨c, cs, text, -, digit⟩ := isIdentifier_head h
    have chars := isIdentifier_chars h
    rw [isIdentifier, String.toList_append, List.all_append, List.all_eq_true.2 chars, text]
    simp [digit]
    decide
  · exact h

/-- A variable is not written as a reserved word. -/
theorem safeName_ne {name word : String} (reserved : isReserved word = true)
    (ending : ¬ "Fixed".toList <:+ word.toList) : safeName name ≠ word := by
  rintro rfl
  by_cases h : isReserved name = true
  · apply ending
    rw [safeName, if_pos h, String.toList_append]
    exact List.suffix_append _ _
  · rw [safeName, if_neg h] at reserved
    exact h reserved

/-- A name of identifiers can be told from its text. -/
theorem isPlain_of_identifiers {n : Name} (words : ∀ p ∈ n.parts, isIdentifier p = true) :
    n.IsPlain := by
  intro p mem
  constructor
  · rintro rfl
    cases words _ mem
  · intro inside
    cases isIdentifier_chars (words p mem) _ inside

/-- The text of such a name ends before the end of a group. -/
theorem ne_group_of_mem_text {n : Name} (words : ∀ p ∈ n.parts, isIdentifier p = true) :
    ∀ c ∈ n.text.toList, (c != ')') = true := by
  intro c mem
  rw [bne_iff_ne]
  rintro rfl
  rcases Name.mem_text mem with same | ⟨p, part, mem⟩
  · cases same
  · cases isIdentifier_chars (words p part) _ mem

/-- A character of words is neither a mark nor a parenthesis. -/
theorem mark?_of_isWordChar {c : Char} (h : isWordChar c = true) :
    Readback.mark? c = none ∧ c ≠ '(' := by
  constructor
  · unfold Readback.mark?
    split <;> first | rfl | simp [isWordChar] at h
  · rintro rfl
    simp [isWordChar] at h

/-! ### Reading a text -/

namespace Readback

/-- The text of the expression `e` with all parentheses is read as `r`, whatever follows it. How much
the reader may look at follows from the length of the text. -/
structure ReadsAs (e r : Expr) : Prop where
  operand : Position.operand.needs e = false → ∀ (n : ℕ) (rest : List Char), Stops rest →
    (e.spell Position.needs ++ rest).length < n →
    readOperand n (e.spell Position.needs ++ rest) = some (r, rest)
  object : e.isObject = true → ∀ (n : ℕ) (rest : List Char), Free rest →
    (e.spell Position.needs ++ rest).length < n →
    readOperand n (e.spell Position.needs ++ rest) = some (readFetches r rest)
  whole : ∀ (n : ℕ) (rest : List Char), Ends rest → (e.spell Position.needs ++ rest).length < n →
    readExpr (readOperand n) n (e.spell Position.needs ++ rest) = some (r, rest)
  /-- In parentheses the text is not taken for a type. -/
  group : e.isObject = false → castTarget? r = none

theorem readExpr_of_operand {operand : Reader} {cs rest : List Char} {left : Expr}
    (read : operand cs = some (left, rest)) (n : ℕ) :
    readExpr operand n cs = readRest operand n left rest := by
  rw [readExpr, read]
  rfl

/-- After an operand that ends the expression nothing is read. -/
theorem readExpr_operand {n : ℕ} {cs rest : List Char} {e : Expr} (ends : Ends rest)
    (read : readOperand (n + 1) cs = some (e, rest)) :
    readExpr (readOperand (n + 1)) (n + 1) cs = some (e, rest) := by
  rw [readExpr_of_operand read]
  exact readRest_end ends e

theorem ReadsAs.ofOperand {e r : Expr} (composed : e.isObject = false) (group : castTarget? r = none)
    (operand : ∀ (n : ℕ) (rest : List Char), Stops rest →
      (e.spell Position.needs ++ rest).length < n →
      readOperand n (e.spell Position.needs ++ rest) = some (r, rest)) : ReadsAs e r where
  operand _ := operand
  object simple := by rw [composed] at simple; cases simple
  whole n rest ends long := by
    obtain ⟨m, rfl⟩ := Nat.exists_eq_add_one_of_ne_zero (Nat.ne_zero_of_lt long)
    exact readExpr_operand ends (operand (m + 1) rest ends.stops long)
  group _ := group

theorem ReadsAs.ofObject {e r : Expr} (simple : e.isObject = true)
    (object : ∀ (n : ℕ) (rest : List Char), Free rest → (e.spell Position.needs ++ rest).length < n →
      readOperand n (e.spell Position.needs ++ rest) = some (readFetches r rest)) : ReadsAs e r := by
  have operand : ∀ (n : ℕ) (rest : List Char), Stops rest →
      (e.spell Position.needs ++ rest).length < n →
      readOperand n (e.spell Position.needs ++ rest) = some (r, rest) := by
    intro n rest stops long
    rw [object n rest stops.free long, readFetches_stop stops]
  refine ⟨fun _ => operand, fun _ => object, fun n rest ends long => ?_, fun composed => ?_⟩
  · obtain ⟨m, rfl⟩ := Nat.exists_eq_add_one_of_ne_zero (Nat.ne_zero_of_lt long)
    exact readExpr_operand ends (operand (m + 1) rest ends.stops long)
  · rw [simple] at composed
    cases composed

theorem isObject_of_needs {e : Expr} (h : Position.operand.needs e = true) : e.isObject = false := by
  cases e <;> first | rfl | simp [Position.needs, Expr.isLoose, Expr.isChain] at h

theorem ReadsAs.ofWhole {e r : Expr} (needs : Position.operand.needs e = true)
    (group : castTarget? r = none)
    (whole : ∀ (n : ℕ) (rest : List Char), Ends rest → (e.spell Position.needs ++ rest).length < n →
      readExpr (readOperand n) n (e.spell Position.needs ++ rest) = some (r, rest)) :
    ReadsAs e r where
  operand bare := by rw [needs] at bare; cases bare
  object simple := by rw [isObject_of_needs needs] at simple; cases simple
  whole := whole
  group _ := group

/-- A group in parentheses is read as its expression, with the properties that are fetched from
it. -/
theorem ReadsAs.readGroup {e r : Expr} (h : ReadsAs e r) (composed : e.isObject = false) {n : ℕ}
    {rest : List Char} (long : (enclose true (e.spell Position.needs) ++ rest).length < n) :
    readOperand n (enclose true (e.spell Position.needs) ++ rest) = some (readFetches r rest) := by
  have text : enclose true (e.spell Position.needs) ++ rest =
      '(' :: (e.spell Position.needs ++ ')' :: rest) := by
    simp [enclose]
  rw [text] at long ⊢
  obtain ⟨m, rfl⟩ := Nat.exists_eq_add_one_of_ne_zero (Nat.ne_zero_of_lt long)
  have inner := h.whole m (')' :: rest) (ends_group rest) (by simpa using long)
  simp [readOperand, mark?, inner, h.group composed]

/-- The expression is read as an operand, in parentheses or not. -/
theorem ReadsAs.atOperand {e r : Expr} (h : ReadsAs e r) {position : Position}
    (other : position ≠ .object) {n : ℕ} {rest : List Char} (stops : Stops rest)
    (long : (position.spell Position.needs e ++ rest).length < n) :
    readOperand n (position.spell Position.needs e ++ rest) = some (r, rest) := by
  have same : position.needs e = Position.operand.needs e := by
    cases position <;> first | rfl | exact absurd rfl other
  rw [Position.spell, same] at long ⊢
  cases needs : Position.operand.needs e with
  | true =>
    rw [needs] at long
    rw [h.readGroup (isObject_of_needs needs) long, readFetches_stop stops]
  | false =>
    rw [needs] at long
    exact h.operand needs n rest stops long

/-- The expression is read as an object, with the properties that are fetched from it. -/
theorem ReadsAs.atObject {e r : Expr} (h : ReadsAs e r) {n : ℕ} {rest : List Char}
    (free : Free rest) (long : (Position.object.spell Position.needs e ++ rest).length < n) :
    readOperand n (Position.object.spell Position.needs e ++ rest) = some (readFetches r rest) := by
  rw [Position.spell, Position.needs] at long ⊢
  cases simple : e.isObject with
  | true =>
    rw [simple] at long
    exact h.object simple n rest free long
  | false =>
    rw [simple] at long
    exact h.readGroup simple long

/-! ### Operands that start with a word -/

theorem readOperand_word {n : ℕ} {word rest : List Char} (nonempty : word ≠ [])
    (chars : ∀ c ∈ word, isWordChar c = true) (free : Free rest) :
    readOperand (n + 1) (word ++ rest) = readWord (readOperand n) word rest := by
  obtain ⟨c, cs, rfl⟩ := List.exists_cons_of_ne_nil nonempty
  obtain ⟨mark, bracket⟩ := mark?_of_isWordChar (chars c List.mem_cons_self)
  obtain ⟨taken, left⟩ := takeWhile_append chars free
  rw [List.cons_append] at taken left ⊢
  rw [readOperand, mark]
  simp only [if_neg bracket, taken, left]

/-- A word that is neither a number nor a reserved one is a variable. -/
theorem readOperand_variable {name : String} (word : isIdentifier name = true)
    (isset : name ≠ "isset") (empty : name ≠ "empty") {n : ℕ} {rest : List Char} (free : Free rest) :
    readOperand (n + 1) (name.toList ++ rest) = some (readFetches (.var (.literal name)) rest) := by
  obtain ⟨c, cs, text, -, digit⟩ := isIdentifier_head word
  have issets : name.toList ≠ "isset".toList := fun h => isset (String.toList_inj.1 h)
  have empties : name.toList ≠ "empty".toList := fun h => empty (String.toList_inj.1 h)
  rw [readOperand_word (by simp [text]) (isIdentifier_chars word) free, readWord, if_neg issets,
    if_neg empties, if_neg (by simp [text, digit]), String.ofList_toList]

/-- Digits are a number. -/
theorem readOperand_number (k : ℕ) {n : ℕ} {rest : List Char} (free : Free rest) :
    readOperand (n + 1) (Nat.toDigits 10 k ++ rest) =
      some (readFetches (.int (Int64.ofNat k)) rest) := by
  have digits : ∀ c ∈ Nat.toDigits 10 k, c.isDigit = true := fun c mem =>
    Nat.isDigit_of_mem_toDigits (by decide) (by decide) mem
  have chars : ∀ c ∈ Nat.toDigits 10 k, isWordChar c = true := by
    intro c mem
    simp [isWordChar, Char.isAlphanum, digits c mem]
  obtain ⟨c, cs, text⟩ := List.exists_cons_of_ne_nil (Nat.toDigits_ne_nil (b := 10) (n := k))
  have first : c.isDigit = true := digits c (by simp [text])
  have other {word : List Char} (h : word.head?.any Char.isDigit = false) :
      Nat.toDigits 10 k ≠ word := by
    rintro rfl
    simp [text, first] at h
  rw [readOperand_word Nat.toDigits_ne_nil chars free, readWord, if_neg (other (by decide)),
    if_neg (other (by decide)), if_pos (by simp [text, first]), Nat.ofDigitChars_ten_toDigits]

/-- After a word and a blank, the expression is read as an operand. -/
theorem ReadsAs.afterWord {e r : Expr} (h : ReadsAs e r) {position : Position}
    (other : position ≠ .object) {word : List Char} (nonempty : word ≠ [])
    (chars : word.all isWordChar = true) {n : ℕ} {rest : List Char} (stops : Stops rest)
    (long : (word ++ ' ' :: (position.spell Position.needs e ++ rest)).length < n) :
    ∃ m, readOperand n (word ++ ' ' :: (position.spell Position.needs e ++ rest)) =
        readWord (readOperand m) word (' ' :: (position.spell Position.needs e ++ rest)) ∧
      readOperand m (position.spell Position.needs e ++ rest) = some (r, rest) := by
  obtain ⟨m, rfl⟩ := Nat.exists_eq_add_one_of_ne_zero (Nat.ne_zero_of_lt long)
  refine ⟨m, readOperand_word nonempty (List.all_eq_true.1 chars) (stops_blank _).free, ?_⟩
  refine h.atOperand other stops ?_
  simp only [List.length_append, List.length_cons] at long ⊢
  omega

/-- The word `isset` and a blank have an operand after them. -/
theorem ReadsAs.readIsset {e r : Expr} (h : ReadsAs e r) {n : ℕ} {rest : List Char}
    (stops : Stops rest)
    (long : ("isset ".toList ++ (Position.tested.spell Position.needs e ++ rest)).length < n) :
    readOperand n ("isset ".toList ++ (Position.tested.spell Position.needs e ++ rest)) =
      some (.isset [r], rest) := by
  have text : "isset ".toList ++ (Position.tested.spell Position.needs e ++ rest) =
      "isset".toList ++ ' ' :: (Position.tested.spell Position.needs e ++ rest) := rfl
  rw [text] at long ⊢
  obtain ⟨m, read, operand⟩ := h.afterWord (by decide) (by decide) (by decide) stops long
  rw [read, readWord, if_pos rfl, List.tail_cons, operand]
  rfl

/-! ### Rows of operators -/

/-- The spelling of an operator stands for it, and for nothing else that may follow an operand. -/
theorem symbol_reads {op : BinaryOp} (spelled : op ≠ .logicalXor) :
    op.symbol.toList.all (· != ' ') = true ∧ op.symbol.toList ≠ "instanceof".toList ∧
      op.symbol.toList ≠ "?".toList ∧
      binaryOps.find? (fun other => other.symbol.toList = op.symbol.toList) = some op := by
  cases op <;> first | exact absurd rfl spelled | decide

/-- A symbol stands between blanks. -/
theorem readRest_symbol (operand : Reader) (k : ℕ) (left : Expr) {symbol : List Char}
    (chars : symbol.all (· != ' ') = true) (cs : List Char) :
    readRest operand (k + 1) left (' ' :: (symbol ++ ' ' :: cs)) =
      readSymbol operand (readRest operand k) left symbol cs := by
  have blank : ∀ c ∈ (' ' :: cs).head?, (c != ' ') = false := by
    rintro c ⟨⟩
    rfl
  obtain ⟨taken, after⟩ := takeWhile_append (List.all_eq_true.1 chars) blank
  rw [readRest, taken, after, List.tail_cons]

theorem readRest_binary {op : BinaryOp} (spelled : op ≠ .logicalXor) {operand : Reader}
    {right : Expr} {cs rest : List Char} (read : operand cs = some (right, rest)) (k : ℕ)
    (left : Expr) :
    readRest operand (k + 1) left (' ' :: (op.symbol.toList ++ ' ' :: cs)) =
      readRest operand k (.binary op left right) rest := by
  obtain ⟨chars, test, condition, found⟩ := symbol_reads spelled
  rw [readRest_symbol operand k left chars, readSymbol, if_neg test, if_neg condition]
  simp only [found, read, Option.bind_eq_bind, Option.bind_some]

/-- The text of the further variables of an `isset`, with what follows it. -/
def furtherText (vars : List Expr) (rest : List Char) : List Char :=
  (Expr.furtherIssets vars).flatMap (Piece.chars Position.needs) ++ rest

theorem furtherText_cons (v : Expr) (vars : List Expr) (rest : List Char) :
    furtherText (v :: vars) rest = ' ' :: (BinaryOp.booleanAnd.symbol.toList ++ ' ' ::
      ("isset ".toList ++ (Position.tested.spell Position.needs v ++ furtherText vars rest))) := by
  simp [furtherText, Expr.furtherIssets, Piece.chars, BinaryOp.symbol]

theorem stops_furtherText {rest : List Char} (ends : Ends rest) (vars : List Expr) :
    Stops (furtherText vars rest) := by
  cases vars with
  | nil => exact ends.stops
  | cons v vars =>
    rw [furtherText_cons]
    exact stops_blank _

/-- The further variables of an `isset` are read as operands of a row. -/
theorem readRest_further {n : ℕ} {rest : List Char} (ends : Ends rest) {vars : List Expr}
    {tree : Expr → Expr} (h : ∀ v ∈ vars, ReadsAs v (tree v)) (left : Expr) {k : ℕ}
    (long : (furtherText vars rest).length < n) (row : (furtherText vars rest).length < k) :
    readRest (readOperand n) k left (furtherText vars rest) =
      some ((vars.map tree).foldl (fun left v => .binary .booleanAnd left (.isset [v])) left,
        rest) := by
  induction vars generalizing left k with
  | nil =>
    obtain ⟨m, rfl⟩ := Nat.exists_eq_add_one_of_ne_zero (Nat.ne_zero_of_lt row)
    exact readRest_end ends left
  | cons v vars ih =>
    rw [furtherText_cons] at long row ⊢
    obtain ⟨m, rfl⟩ := Nat.exists_eq_add_one_of_ne_zero (Nat.ne_zero_of_lt row)
    simp only [List.length_append, List.length_cons] at long row
    have read := (h v List.mem_cons_self).readIsset (stops_furtherText ends vars) (n := n)
      (by simp only [List.length_append]; omega)
    rw [readRest_binary (by decide) read]
    exact ih (fun w mem => h w (List.mem_cons_of_mem v mem)) _ (by omega) (by omega)

/-! ### Expressions -/

section

variable {a b c r t u : Expr}

theorem reads_variable {name : String} (word : isIdentifier name = true) :
    ReadsAs (.var (.literal name)) (.var (.literal (safeName name))) := by
  refine .ofObject rfl fun n rest free long => ?_
  have text : (Expr.var (.literal name)).spell Position.needs = (safeName name).toList := by
    rw [Expr.spell_eq]
    simp [Expr.pieces, Piece.chars]
  obtain ⟨m, rfl⟩ := Nat.exists_eq_add_one_of_ne_zero (Nat.ne_zero_of_lt long)
  rw [text]
  exact readOperand_variable (isIdentifier_safeName word)
    (safeName_ne (by decide +kernel) (by decide)) (safeName_ne (by decide +kernel) (by decide)) free

theorem reads_int {value : Int64} (natural : 0 ≤ value.toInt) :
    ReadsAs (.int value) (.int value) := by
  refine .ofObject rfl fun n rest free long => ?_
  have text : (Expr.int value).spell Position.needs = Nat.toDigits 10 value.toInt.toNat := by
    rw [Expr.spell_eq]
    simp [Expr.pieces, Piece.chars, Int.repr_eq_if, natural, Nat.toList_repr]
  have same : Int64.ofNat value.toInt.toNat = value := by
    rw [← Int64.ofInt_eq_ofNat, Int.toNat_of_nonneg natural, Int64.ofInt_toInt]
  obtain ⟨m, rfl⟩ := Nat.exists_eq_add_one_of_ne_zero (Nat.ne_zero_of_lt long)
  rw [text, readOperand_number _ free, same]

theorem reads_property {name : String} (word : isIdentifier name = true) (h : ReadsAs a r) :
    ReadsAs (.property a name) (.property r name) := by
  refine .ofObject rfl fun n rest free long => ?_
  have text : (Expr.property a name).spell Position.needs ++ rest =
      Position.object.spell Position.needs a ++ ("->".toList ++ (name.toList ++ rest)) := by
    rw [Expr.spell_eq]
    simp [Expr.pieces, Piece.chars]
  have arrow : Free ("->".toList ++ (name.toList ++ rest)) := by
    rintro c ⟨⟩
    decide
  rw [text] at long ⊢
  rw [h.atObject arrow long, readFetches_property (isIdentifier_chars word) free]

theorem reads_unary (op : UnaryOp) (h : ReadsAs a r) : ReadsAs (.unary op a) (.unary op r) := by
  refine .ofOperand rfl rfl fun n rest stops long => ?_
  obtain ⟨c, symbol, mark⟩ : ∃ c, op.symbol.toList = [c] ∧ mark? c = some op := by
    cases op <;> exact ⟨_, rfl, rfl⟩
  have text : (Expr.unary op a).spell Position.needs ++ rest =
      c :: (Position.operand.spell Position.needs a ++ rest) := by
    rw [Expr.spell_eq]
    simp [Expr.pieces, Piece.chars, symbol]
  rw [text] at long ⊢
  obtain ⟨m, rfl⟩ := Nat.exists_eq_add_one_of_ne_zero (Nat.ne_zero_of_lt long)
  have read : readOperand m (Position.operand.spell Position.needs a ++ rest) = some (r, rest) :=
    h.atOperand (by decide) stops (by simpa using long)
  simp [readOperand, mark, read]

theorem reads_empty (h : ReadsAs a r) : ReadsAs (.empty a) (.empty r) := by
  refine .ofOperand rfl rfl fun n rest stops long => ?_
  have text : (Expr.empty a).spell Position.needs ++ rest =
      "empty".toList ++ ' ' :: (Position.operand.spell Position.needs a ++ rest) := by
    rw [Expr.spell_eq]
    simp [Expr.pieces, Piece.chars]
  rw [text] at long ⊢
  obtain ⟨m, read, operand⟩ := h.afterWord (by decide) (by decide) (by decide) stops long
  rw [read, readWord, if_neg (by decide), if_pos rfl, List.tail_cons, operand]
  rfl

/-- In parentheses, the word of a type is read like a variable. -/
theorem readExpr_keyword (type : CastTarget) {n : ℕ} (rest : List Char) :
    readExpr (readOperand (n + 1)) (n + 1) (type.keyword.toList ++ ')' :: rest) =
      some (.var (.literal type.keyword), ')' :: rest) := by
  obtain ⟨word, isset, empty⟩ : isIdentifier type.keyword = true ∧ type.keyword ≠ "isset" ∧
      type.keyword ≠ "empty" := by
    cases type <;> decide +kernel
  have stops := (ends_group rest).stops
  refine readExpr_operand (ends_group rest) ?_
  rw [readOperand_variable word isset empty stops.free, readFetches_stop stops]

theorem castTarget?_keyword (type : CastTarget) :
    castTarget? (.var (.literal type.keyword)) = some type := by
  cases type <;> decide +kernel

theorem reads_cast (type : CastTarget) (h : ReadsAs a r) :
    ReadsAs (.cast type a) (.cast type r) := by
  refine .ofOperand rfl rfl fun n rest stops long => ?_
  have text : (Expr.cast type a).spell Position.needs ++ rest =
      '(' :: (type.keyword.toList ++ ')' :: ' ' ::
        (Position.operand.spell Position.needs a ++ rest)) := by
    rw [Expr.spell_eq]
    simp [Expr.pieces, Piece.chars]
  rw [text] at long ⊢
  simp only [List.length_append, List.length_cons] at long
  obtain ⟨m, rfl⟩ : ∃ m, n = m + 2 := ⟨n - 2, by omega⟩
  have read : readOperand (m + 1) (Position.operand.spell Position.needs a ++ rest) =
      some (r, rest) := by
    refine h.atOperand (by decide) stops ?_
    rw [List.length_append]
    omega
  simp [readOperand, mark?, readExpr_keyword, castTarget?_keyword, read]

theorem castTarget?_issets (vars : List Expr) : castTarget? (.issets vars) = none := by
  have row : ∀ (rest : List Expr) (left : Expr), castTarget? left = none → castTarget?
      (rest.foldl (fun left v => .binary .booleanAnd left (.isset [v])) left) = none := by
    intro rest
    induction rest with
    | nil => exact fun _ h => h
    | cons v rest ih => exact fun left _ => ih _ rfl
  cases vars with
  | nil => rfl
  | cons v rest => exact row rest _ rfl

theorem reads_isset {vars : List Expr} (nonempty : vars ≠ []) {tree : Expr → Expr}
    (h : ∀ v ∈ vars, ReadsAs v (tree v)) : ReadsAs (.isset vars) (.issets (vars.map tree)) := by
  obtain ⟨v, further, rfl⟩ := List.exists_cons_of_ne_nil nonempty
  have text (rest : List Char) : (Expr.isset (v :: further)).spell Position.needs ++ rest =
      "isset ".toList ++ (Position.tested.spell Position.needs v ++ furtherText further rest) := by
    rw [Expr.spell_eq]
    simp [Expr.pieces, Expr.issetPieces, Piece.chars, furtherText]
  have first := h v List.mem_cons_self
  cases further with
  | nil =>
    refine .ofOperand rfl rfl fun n rest stops long => ?_
    rw [text] at long ⊢
    exact first.readIsset stops long
  | cons w further =>
    refine .ofWhole rfl (castTarget?_issets _) fun n rest ends long => ?_
    rw [text] at long ⊢
    have read := first.readIsset (stops_furtherText ends _) long
    simp only [List.length_append] at long
    rw [readExpr_of_operand read]
    exact readRest_further ends (fun x mem => h x (List.mem_cons_of_mem v mem)) _ (by omega)
      (by omega)

theorem reads_binary {op : BinaryOp} (spelled : op ≠ .logicalXor) (ha : ReadsAs a r)
    (hb : ReadsAs b t) : ReadsAs (.binary op a b) (.binary op r t) := by
  refine .ofWhole rfl rfl fun n rest ends long => ?_
  have text : (Expr.binary op a b).spell Position.needs ++ rest =
      Position.operand.spell Position.needs a ++ ' ' :: (op.symbol.toList ++ ' ' ::
        (Position.operand.spell Position.needs b ++ rest)) := by
    rw [Expr.spell_eq]
    simp [Expr.pieces, Piece.chars]
  rw [text] at long ⊢
  have left := ha.atOperand (by decide) (stops_blank _) long
  simp only [List.length_append, List.length_cons] at long
  obtain ⟨m, rfl⟩ : ∃ m, n = m + 2 := ⟨n - 2, by omega⟩
  have right : readOperand (m + 2) (Position.operand.spell Position.needs b ++ rest) =
      some (t, rest) := by
    refine hb.atOperand (by decide) ends.stops ?_
    rw [List.length_append]
    omega
  rw [readExpr_of_operand left, readRest_binary spelled right]
  exact readRest_end ends _

theorem reads_ternary (ha : ReadsAs a r) (hb : ReadsAs b t) (hc : ReadsAs c u) :
    ReadsAs (.ternary a (some b) c) (.ternary r (some t) u) := by
  refine .ofWhole rfl rfl fun n rest ends long => ?_
  have text : (Expr.ternary a (some b) c).spell Position.needs ++ rest =
      Position.operand.spell Position.needs a ++ ' ' :: ("?".toList ++ ' ' ::
        (Position.operand.spell Position.needs b ++ ' ' :: ':' :: ' ' ::
          (Position.operand.spell Position.needs c ++ rest))) := by
    rw [Expr.spell_eq]
    simp [Expr.pieces, Piece.chars]
  rw [text] at long ⊢
  have test := ha.atOperand (by decide) (stops_blank _) long
  simp only [List.length_append, List.length_cons] at long
  obtain ⟨m, rfl⟩ : ∃ m, n = m + 1 := ⟨n - 1, by omega⟩
  have yes : readOperand (m + 1) (Position.operand.spell Position.needs b ++ ' ' :: ':' :: ' ' ::
      (Position.operand.spell Position.needs c ++ rest)) =
        some (t, ' ' :: ':' :: ' ' :: (Position.operand.spell Position.needs c ++ rest)) := by
    refine hb.atOperand (by decide) (stops_blank _) ?_
    simp only [List.length_append, List.length_cons]
    omega
  have no : readOperand (m + 1) (Position.operand.spell Position.needs c ++ rest) =
      some (u, rest) := by
    refine hc.atOperand (by decide) ends.stops ?_
    rw [List.length_append]
    omega
  rw [readExpr_of_operand test, readRest_symbol _ _ _ (by decide), readSymbol, if_neg (by decide),
    if_pos rfl]
  simp [yes, no]

theorem reads_instanceOf {owner : Name} (words : ∀ p ∈ owner.parts, isIdentifier p = true)
    (h : ReadsAs a r) : ReadsAs (.instanceOf a owner) (.instanceOf r owner) := by
  refine .ofWhole rfl rfl fun n rest ends long => ?_
  have text : (Expr.instanceOf a owner).spell Position.needs ++ rest =
      Position.operand.spell Position.needs a ++ ' ' :: ("instanceof".toList ++ ' ' ::
        (owner.text.toList ++ rest)) := by
    rw [Expr.spell_eq]
    simp [Expr.pieces, Piece.chars]
  rw [text] at long ⊢
  have value := h.atOperand (by decide) (stops_blank _) long
  obtain ⟨m, rfl⟩ := Nat.exists_eq_add_one_of_ne_zero (Nat.ne_zero_of_lt long)
  have group : ∀ c ∈ rest.head?, (c != ')') = false := by
    intro c mem
    rw [ends c mem]
    rfl
  obtain ⟨taken, after⟩ := takeWhile_append (ne_group_of_mem_text words) group
  rw [readExpr_of_operand value, readRest_symbol _ _ _ (by decide), readSymbol, if_pos rfl, taken,
    after, String.ofList_toList, Name.ofString_text (isPlain_of_identifiers words)]

end

/-- The text of an operation is read as its tree. -/
theorem reads_operation {e : Expr} (h : e.IsOperation) : ReadsAs e (e.apartWith safeName) := by
  induction h with
  | var word =>
    rw [Expr.apartWith]
    exact reads_variable word
  | int natural =>
    rw [Expr.apartWith]
    · exact reads_int natural
    all_goals simp
  | property word _ ih =>
    rw [Expr.apartWith]
    exact reads_property word ih
  | binary spelled _ _ ihl ihr =>
    rw [Expr.apartWith]
    exact reads_binary spelled ihl ihr
  | unary _ ih =>
    rw [Expr.apartWith]
    exact reads_unary _ ih
  | ternary _ _ _ iht ihy ihn =>
    rw [Expr.apartWith]
    exact reads_ternary iht ihy ihn
  | isset nonempty _ ih =>
    rw [Expr.apartWith]
    exact reads_isset nonempty ih
  | empty _ ih =>
    rw [Expr.apartWith]
    exact reads_empty ih
  | instanceOf words _ ih =>
    rw [Expr.apartWith]
    exact reads_instanceOf words ih
  | cast _ ih =>
    rw [Expr.apartWith]
    exact reads_cast _ ih

/-- The reader finds the tree of an operation in its text. -/
theorem readExpr_spell {e : Expr} (h : e.IsOperation) {n : ℕ}
    (long : (e.spell Position.needs).length < n) :
    readExpr (readOperand n) n (e.spell Position.needs) = some (e.apartWith safeName, []) := by
  have read := (reads_operation h).whole n [] (by simp [Ends]) (by simpa using long)
  rwa [List.append_nil] at read

end Readback

end Zephirize
