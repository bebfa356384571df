import Mathlib.Data.List.TakeDrop
import Mathlib.Data.List.TakeWhile
import Mathlib.Tactic
import Zephirize.Json.Reader
import Zephirize.Json.Writer

/-!
# The tokens of written texts

The lexer works character by character and carries a state. For the texts that the writer makes
it is enough to know what it does with whole pieces, each started between two tokens.

* `Lexes cs ts` — the piece `cs` holds the tokens `ts`. A word or a number at the end of the piece
  may still be open; `Lexer.settle` closes it.
* `Lexes.mark` — pieces with a mark between them; a mark closes what is open.
* `lexes_quoted`, `lexes_literal`, `lexes_int` — the pieces that are a single token.
* `tokens?_of_lexes` — a piece as a text of its own.
-/

namespace Zephirize

namespace Json

namespace Lexer

/-- The lexer once the word or number that it is in the middle of has ended. -/
def settle (l : Lexer) : Option Lexer :=
  match l.state with
  | .between => some l
  | .word letters => (wordToken? letters).map fun t => ⟨.between, t :: l.found⟩
  | .number chars => (numberToken? chars).map fun t => ⟨.between, t :: l.found⟩
  | _ => none

/-- The end of the text ends what is open. -/
theorem finish_of_settle {l : Lexer} {found : List Token}
    (h : l.settle = some ⟨.between, found⟩) : l.finish = some found.reverse := by
  obtain ⟨state, before⟩ := l
  cases state with
  | between =>
    obtain rfl : before = found := by simpa [settle] using h
    rfl
  | word letters =>
    obtain ⟨t, word, eq⟩ := Option.map_eq_some_iff.1 h
    obtain rfl : t :: before = found := by simpa using eq
    simp [finish, word]
  | number chars =>
    obtain ⟨t, number, eq⟩ := Option.map_eq_some_iff.1 h
    obtain rfl : t :: before = found := by simpa using eq
    simp [finish, number]
  | string | escape | hex => simp [settle] at h

/-- A mark is no part of a word or a number. -/
theorem mark_ends {c : Char} {t : Token} (h : mark? c = some t) :
    c.isLower = false ∧ isNumberChar c = false := by
  unfold mark? at h
  split at h
  all_goals first | decide | simp at h

/-- A mark ends what is open and is a token itself. -/
theorem step_mark {l : Lexer} {found : List Token} {c : Char} {t : Token}
    (h : l.settle = some ⟨.between, found⟩) (mark : mark? c = some t) :
    l.step c = some ⟨.between, t :: found⟩ := by
  have fresh : ∀ found, start found c = some ⟨.between, t :: found⟩ := by
    intro found
    unfold mark? at mark
    split at mark
    all_goals first | (cases mark; rfl) | simp at mark
  obtain ⟨lower, number⟩ := mark_ends mark
  obtain ⟨state, before⟩ := l
  cases state with
  | between =>
    obtain rfl : before = found := by simpa [settle] using h
    exact fresh before
  | word letters =>
    obtain ⟨w, word, eq⟩ := Option.map_eq_some_iff.1 h
    obtain rfl : w :: before = found := by simpa using eq
    simp [step, lower, word, fresh]
  | number chars =>
    obtain ⟨n, num, eq⟩ := Option.map_eq_some_iff.1 h
    obtain rfl : n :: before = found := by simpa using eq
    simp [step, number, num, fresh]
  | string | escape | hex => simp [settle] at h

end Lexer

open Lexer

/-- Started between two tokens, the lexer finds the tokens `ts` in `cs`. -/
def Lexes (cs : List Char) (ts : List Token) : Prop :=
  ∀ found, ∃ l, cs.foldlM step ⟨.between, found⟩ = some l ∧
    l.settle = some ⟨.between, ts.reverse ++ found⟩

theorem tokens?_of_lexes {cs : List Char} {ts : List Token} (h : Lexes cs ts) :
    tokens? cs = some ts := by
  obtain ⟨l, run, settled⟩ := h []
  have finish := finish_of_settle settled
  rw [List.append_nil, List.reverse_reverse] at finish
  rw [tokens?, run]
  exact finish

theorem Lexes.nil : Lexes [] [] := fun _ => ⟨_, rfl, rfl⟩

/-- A mark between two pieces keeps their tokens apart. -/
theorem Lexes.mark {cs cs' : List Char} {ts ts' : List Token} {c : Char} {t : Token}
    (h : Lexes cs ts) (mark : mark? c = some t) (h' : Lexes cs' ts') :
    Lexes (cs ++ c :: cs') (ts ++ t :: ts') := by
  intro found
  obtain ⟨l, run, settled⟩ := h found
  obtain ⟨l', run', settled'⟩ := h' (t :: (ts.reverse ++ found))
  refine ⟨l', ?_, ?_⟩
  · rw [List.foldlM_append, run, Option.bind_eq_bind, Option.bind_some, List.foldlM_cons,
      step_mark settled mark]
    exact run'
  · rw [settled']
    simp

/-- A piece between two marks, such as brackets. -/
theorem Lexes.between {cs : List Char} {ts : List Token} {c d : Char} {t u : Token}
    (opening : mark? c = some t) (h : Lexes cs ts) (closing : mark? d = some u) :
    Lexes (c :: (cs ++ [d])) (t :: (ts ++ [u])) :=
  Lexes.nil.mark opening (h.mark closing .nil)

/-! ### Strings -/

/-- The sixteen digits are read as what they are. -/
theorem hexValue?_digitChar {d : Nat} (h : d < 16) : Text.hexValue? (Nat.digitChar d) = some d := by
  have all : ∀ d < 16, Text.hexValue? (Nat.digitChar d) = some d := by decide
  exact all d h

theorem hexNumber?_escape {u : Nat} (h : u < 0x20) :
    Text.hexNumber? ['0', '0', Nat.digitChar (u / 16), Nat.digitChar (u % 16)] = some u := by
  have high := hexValue?_digitChar (d := u / 16) (by omega)
  have low := hexValue?_digitChar (d := u % 16) (by omega)
  have zero : Text.hexValue? '0' = some 0 := rfl
  simp [Text.hexNumber?, high, low, zero]
  omega

/-- A character below the blank that has no short escape is read from its four digits. -/
theorem foldlM_unit {u : Nat} (h : u < 0x20) (units : List Nat) (found : List Token) :
    ['\\', 'u', '0', '0', Nat.digitChar (u / 16), Nat.digitChar (u % 16)].foldlM step
      ⟨.string units, found⟩ = some ⟨.string (u :: units), found⟩ := by
  have high := hexValue?_digitChar (d := u / 16) (by omega)
  have low := hexValue?_digitChar (d := u % 16) (by omega)
  -- The first four characters lead to the state after two zeros.
  change [Nat.digitChar (u / 16), Nat.digitChar (u % 16)].foldlM step
    ⟨.hex units ['0', '0'], found⟩ = some ⟨.string (u :: units), found⟩
  simp [step, high, low, hexNumber?_escape h]

/-- Inside a string the lexer takes the text of a character back to the character. -/
theorem foldlM_escape (c : Char) (units : List Nat) (found : List Token) :
    (escape c).foldlM step ⟨.string units, found⟩ = some ⟨.string (c.toNat :: units), found⟩ := by
  unfold escape
  split
  case h_8 quote backslash _ _ _ _ _ =>
    split
    case isTrue small => exact foldlM_unit small units found
    case isFalse large =>
      have quote : c ≠ '"' := quote
      have backslash : c ≠ '\\' := backslash
      simp [step, quote, backslash, large]
  all_goals rfl

theorem foldlM_escapes (cs : List Char) (units : List Nat) (found : List Token) :
    (cs.flatMap escape).foldlM step ⟨.string units, found⟩ =
      some ⟨.string ((cs.map Char.toNat).reverse ++ units), found⟩ := by
  induction cs generalizing units with
  | nil => rfl
  | cons c rest ih =>
    rw [List.flatMap_cons, List.foldlM_append, foldlM_escape, Option.bind_eq_bind,
      Option.bind_some, ih]
    simp

/-- No character is half of a surrogate pair. -/
theorem charsOf_map_toNat (cs : List Char) : charsOf (cs.map Char.toNat) = some cs := by
  induction cs with
  | nil => rfl
  | cons c rest ih =>
    have valid : c.toNat < 0xD800 ∨ 0xDFFF < c.toNat ∧ c.toNat < 0x110000 := c.valid
    have high : isHighSurrogate c.toNat = false := by simp [isHighSurrogate]; omega
    have low : isLowSurrogate c.toNat = false := by simp [isLowSurrogate]; omega
    rw [List.map_cons, charsOf.eq_def]
    simp [high, low, ih]

/-- A string between quotes is one token. -/
theorem lexes_quoted (s : String) : Lexes (quoted s).toList [.text (some s)] := by
  intro found
  have quote : (⟨.between, found⟩ : Lexer).step '"' = some ⟨.string [], found⟩ := rfl
  refine ⟨⟨.between, .text (some s) :: found⟩, ?_, rfl⟩
  rw [quoted, String.toList_ofList, List.cons_append, List.foldlM_cons, quote, Option.bind_eq_bind,
    Option.bind_some, List.foldlM_append, foldlM_escapes]
  simp [step, textToken, charsOf_map_toNat]

/-! ### Numbers and words -/

/-- A literal may start with this character. -/
def startsNumber (c : Char) : Bool := c.isDigit || c == '-'

theorem start_number {c : Char} (h : startsNumber c = true) (found : List Token) :
    start found c = some ⟨.number [c], found⟩ := by
  have blank : isBlank c = false := by
    rw [Bool.eq_false_iff, isBlank]
    intro blank
    simp only [Bool.or_eq_true, beq_iff_eq] at blank
    rcases blank with ((rfl | rfl) | rfl) | rfl <;> simp [startsNumber] at h
  have quote : c ≠ '"' := by
    rintro rfl
    simp [startsNumber] at h
  have mark : mark? c = none := by
    unfold mark?
    split <;> first | rfl | simp [startsNumber] at h
  rw [startsNumber] at h
  rw [start, blank, if_neg (by simp), if_neg quote, mark]
  simp only [h, if_true]

theorem foldlM_number {cs : List Char} (h : cs.all isNumberChar = true) (chars : List Char)
    (found : List Token) :
    cs.foldlM step ⟨.number chars, found⟩ = some ⟨.number (cs.reverse ++ chars), found⟩ := by
  induction cs generalizing chars with
  | nil => rfl
  | cons c rest ih =>
    obtain ⟨first, others⟩ : isNumberChar c = true ∧ rest.all isNumberChar = true := by
      simpa using h
    have next : (⟨.number chars, found⟩ : Lexer).step c = some ⟨.number (c :: chars), found⟩ := by
      simp [step, first]
    rw [List.foldlM_cons, next, Option.bind_eq_bind, Option.bind_some, ih others]
    simp

theorem all_isNumberChar {cs : List Char} (h : cs.all Char.isDigit = true) :
    cs.all isNumberChar = true := by
  rw [List.all_eq_true] at h ⊢
  intro c mem
  simp [isNumberChar, h c mem]

/-- Digits and then number characters are number characters. -/
theorem all_of_span {cs : List Char}
    (h : (cs.span Char.isDigit).2.all isNumberChar = true) : cs.all isNumberChar = true := by
  rw [List.span_eq_takeWhile_dropWhile] at h
  have digits : (cs.takeWhile Char.isDigit).all isNumberChar = true :=
    all_isNumberChar (List.all_eq_true.2 fun _ mem => List.mem_takeWhile_imp mem)
  rw [← List.takeWhile_append_dropWhile (p := Char.isDigit) (l := cs), List.all_append, digits, h]
  rfl

end Json

namespace Literal

open Json (isNumberChar startsNumber all_isNumberChar all_of_span)

theorem all_of_exponent? {cs : List Char} {e : Option Int} (h : exponent? cs = some e) :
    cs.all isNumberChar = true := by
  cases cs with
  | nil => rfl
  | cons c rest =>
    by_cases mark : c ≠ 'e' ∧ c ≠ 'E'
    · simp [exponent?, mark] at h
    · have first : isNumberChar c = true := by
        simp only [isNumberChar]
        grind
      have others : rest.all isNumberChar = true := by
        simp only [exponent?, if_neg mark] at h
        split at h
        all_goals
          simp only [Option.ite_none_left_eq_some, Bool.or_eq_true, not_or, Bool.not_eq_true,
            Bool.not_eq_false'] at h
          -- A sign in front of the digits is a number character, too.
          have digits := all_isNumberChar h.1.2
          exact digits
      simp [first, others]

theorem all_of_fraction? {cs digits rest : List Char} (h : fraction? cs = some (digits, rest))
    (others : rest.all isNumberChar = true) : cs.all isNumberChar = true := by
  unfold fraction? at h
  split at h
  case h_1 after =>
    have eq : (after.span Char.isDigit).2 = rest := by
      simp only [Option.ite_none_left_eq_some, Option.some.injEq, Prod.mk.injEq] at h
      exact h.2.2
    have := all_of_span (eq ▸ others)
    simpa [isNumberChar] using this
  case h_2 =>
    obtain rfl : cs = rest := by
      simp only [Option.some.injEq, Prod.mk.injEq] at h
      exact h.2
    exact others

/-- A literal is made of number characters, and a digit or a minus comes first. -/
theorem chars_of_ofChars? {cs : List Char} {l : Literal} (h : ofChars? cs = some l) :
    ∃ c rest, cs = c :: rest ∧ startsNumber c = true ∧ rest.all isNumberChar = true := by
  unfold ofChars? at h
  simp only [Option.bind_eq_bind, Option.bind_eq_some_iff] at h
  obtain ⟨w, whole, ⟨f, rest⟩, fraction, e, exponent, -⟩ := h
  have others := all_of_span (all_of_fraction? fraction (all_of_exponent? exponent))
  clear fraction exponent
  revert whole others
  split
  case h_1 unsigned =>
    intro _ others
    exact ⟨'-', unsigned, rfl, rfl, others⟩
  case h_2 =>
    intro whole others
    -- The integer part is not empty, so the first character is a digit.
    cases cs with
    | nil => simp [whole?] at whole
    | cons c rest =>
      have digit : c.isDigit = true := by
        by_contra other
        simp [List.span_eq_takeWhile_dropWhile, other, whole?] at whole
      refine ⟨c, rest, rfl, ?_, ?_⟩
      · simp [startsNumber, digit]
      · exact (Bool.and_eq_true_iff.1 others).2

/-! ### Integers -/

/-- Only zero is written with a zero in front. -/
theorem head?_toDigits {n : Nat} (h : 0 < n) : (Nat.toDigits 10 n).head? ≠ some '0' := by
  induction n using Nat.base_induction 10 (by decide) with
  | single m small =>
    rw [Nat.toDigits_of_lt_base small]
    simp
    omega
  | digit m k hk hm ih =>
    rw [← Nat.toDigits_append_toDigits (by decide) hm hk,
      List.head?_append_of_ne_nil _ Nat.toDigits_ne_nil]
    exact ih hm

theorem whole?_toDigits (n : Nat) : whole? (Nat.toDigits 10 n) = some (Nat.toDigits 10 n) := by
  rcases Nat.eq_zero_or_pos n with rfl | pos
  · rw [Nat.toDigits_zero]
    rfl
  · have head := head?_toDigits pos
    have nonempty : Nat.toDigits 10 n ≠ [] := Nat.toDigits_ne_nil
    unfold whole?
    split
    case h_1 empty => exact absurd empty nonempty
    case h_2 zero => simp [zero] at head
    case h_3 => rfl

/-- The digits of a number are a literal without fraction and exponent. -/
theorem span_toDigits (n : Nat) :
    (Nat.toDigits 10 n).span Char.isDigit = (Nat.toDigits 10 n, []) := by
  have digits : ∀ c ∈ Nat.toDigits 10 n, c.isDigit = true := fun _ mem =>
    Nat.isDigit_of_mem_toDigits (by decide) (by decide) mem
  rw [List.span_eq_takeWhile_dropWhile, List.takeWhile_eq_self_iff.2 digits,
    List.dropWhile_eq_nil_iff.2 digits]

theorem ofChars?_toDigits (n : Nat) :
    ofChars? (Nat.toDigits 10 n) = some ⟨false, Nat.toDigits 10 n, [], none⟩ := by
  simp only [ofChars?]
  split
  case h_1 rest minus =>
    have digit : '-'.isDigit = true :=
      Nat.isDigit_of_mem_toDigits (b := 10) (n := n) (by decide) (by decide) (by simp [minus])
    simp at digit
  case h_2 =>
    simp only [span_toDigits, whole?_toDigits]
    rfl

theorem ofChars?_minus_toDigits (n : Nat) :
    ofChars? ('-' :: Nat.toDigits 10 n) = some ⟨true, Nat.toDigits 10 n, [], none⟩ := by
  simp only [ofChars?, span_toDigits, whole?_toDigits]
  rfl

theorem natOf_toDigits (n : Nat) : natOf (Nat.toDigits 10 n) = n := Nat.ofDigitChars_ten_toDigits

theorem value_toDigits {n : Nat} (h : n < Nat.pow 2 64) :
    (⟨false, Nat.toDigits 10 n, [], none⟩ : Literal).value = .num (.int n) := by
  simp [value, int?, isInteger, natOf_toDigits, h]

theorem value_minus_toDigits {n : Nat} (pos : 0 < n) (h : n ≤ Nat.pow 2 63) :
    (⟨true, Nat.toDigits 10 n, [], none⟩ : Literal).value = .num (.int (-n)) := by
  simp [value, int?, isInteger, natOf_toDigits, pos, h]

end Literal

namespace Json

open Lexer

/-- A number literal is one token. -/
theorem lexes_literal {cs : List Char} {l : Literal} (h : Literal.ofChars? cs = some l) :
    Lexes cs [.leaf l.value] := by
  obtain ⟨c, rest, rfl, first, others⟩ := Literal.chars_of_ofChars? h
  intro found
  refine ⟨⟨.number (rest.reverse ++ [c]), found⟩, ?_, ?_⟩
  · rw [List.foldlM_cons, step, start_number first]
    exact foldlM_number others [c] found
  · simp [settle, numberToken?, h]

/-- An integer of 64 bits, with or without a sign, is one token. -/
theorem lexes_int {i : Int} (least : -Nat.pow 2 63 ≤ i) (greatest : i < Nat.pow 2 64) :
    Lexes (toString i).toList [.leaf (.num (.int i))] := by
  rw [Int.toString_eq_repr, Int.repr_eq_if]
  split
  case isTrue sign =>
    have literal := lexes_literal (Literal.ofChars?_toDigits i.toNat)
    rw [Literal.value_toDigits (by omega), Int.toNat_of_nonneg sign] at literal
    rw [Nat.toList_repr]
    exact literal
  case isFalse sign =>
    have literal := lexes_literal (Literal.ofChars?_minus_toDigits (-i).toNat)
    rw [Literal.value_minus_toDigits (by omega) (by omega), Int.toNat_of_nonneg (by omega),
      Int.neg_neg] at literal
    rw [String.toList_append, Nat.toList_repr]
    exact literal

end Json

end Zephirize
