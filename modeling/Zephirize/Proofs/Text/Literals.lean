import Mathlib.Tactic
import Zephirize.Proofs.Text.Layout
import Zephirize.Text.Quoted

/-!
# The literals of strings

The literal of a string is one literal from its first to its last character, and the string can be
read back from it. It has no character that ends a line. So it stays in one piece when the text
around it is indented, however often, and what becomes of that text does not depend on it
(`nest_unbroken`).

* `Quoted.IsLiteral` — the texts that are one complete literal.
* `Unbroken` — the texts that stay on a line.
* `nest` — a text inside layers of code.
-/

namespace Zephirize.Text

/-! ### Literals -/

namespace Quoted

/-- What can stand between the quotes of a literal: a backslash has a character after it that it
escapes, and a quote is escaped. -/
inductive Inside : List Char → Prop
  | nil : Inside []
  | plain {c : Char} {rest : List Char} (quote : c ≠ '"') (slash : c ≠ '\\') (more : Inside rest) :
      Inside (c :: rest)
  | escaped (c : Char) {rest : List Char} (more : Inside rest) : Inside ('\\' :: c :: rest)

/-- The text is one complete literal. -/
def IsLiteral (text : String) : Prop := ∃ body, text.toList = '"' :: body ++ ['"'] ∧ Inside body

/-- The character ends a line or moves what stands on it. -/
def isBreak (c : Char) : Bool := c == '\n' || c == '\r' || c == '\t'

/-- A character is written as an escape that stands for it, or it is written as it is. -/
theorem escape_cases (c : Char) :
    (∃ d, escape c = ['\\', d] ∧ unescape d = some c ∧ isBreak d = false) ∨
      (escape c = [c] ∧ c ≠ '"' ∧ c ≠ '\\' ∧ isBreak c = false) := by
  unfold escape
  split
  case h_1 => exact .inl ⟨'"', rfl, rfl, rfl⟩
  case h_2 => exact .inl ⟨'\\', rfl, rfl, rfl⟩
  case h_3 => exact .inl ⟨'n', rfl, rfl, rfl⟩
  case h_4 => exact .inl ⟨'r', rfl, rfl, rfl⟩
  case h_5 => exact .inl ⟨'t', rfl, rfl, rfl⟩
  case h_6 quote slash feed ret tab =>
    have safe : isBreak c = false := by simpa [isBreak] using And.intro (And.intro feed ret) tab
    exact .inr ⟨rfl, quote, slash, safe⟩

theorem inside_flatMap_escape (cs : List Char) : Inside (cs.flatMap escape) := by
  induction cs with
  | nil => exact .nil
  | cons c rest ih =>
    rw [List.flatMap_cons]
    rcases escape_cases c with ⟨d, written, -, -⟩ | ⟨written, quote, slash, -⟩
    · rw [written]
      exact .escaped d ih
    · rw [written]
      exact .plain quote slash ih

theorem toList_quote (s : String) : (quote s).toList = '"' :: s.toList.flatMap escape ++ ['"'] :=
  String.toList_ofList

theorem isLiteral_quote (s : String) : IsLiteral (quote s) :=
  ⟨s.toList.flatMap escape, toList_quote s, inside_flatMap_escape s.toList⟩

/-- No character of a literal ends a line. -/
theorem isBreak_of_mem_quote {s : String} {c : Char} (mem : c ∈ (quote s).toList) :
    isBreak c = false := by
  rw [toList_quote, List.mem_append, List.mem_cons, List.mem_flatMap, List.mem_singleton] at mem
  rcases mem with (rfl | ⟨d, -, mem⟩) | rfl
  · rfl
  · rcases escape_cases d with ⟨e, written, -, safe⟩ | ⟨written, -, -, safe⟩
    · rw [written, List.mem_cons, List.mem_singleton] at mem
      rcases mem with rfl | rfl
      · rfl
      · exact safe
    · rw [written, List.mem_singleton] at mem
      rwa [mem]
  · rfl

theorem notMem_quote {c : Char} (h : isBreak c = true) (s : String) : c ∉ (quote s).toList := by
  intro mem
  rw [isBreak_of_mem_quote mem] at h
  cases h

/-! ### Reading literals -/

theorem decodeBody_escape {c d : Char} (h : unescape d = some c) (rest : List Char) :
    decodeBody ('\\' :: d :: rest) = (decodeBody rest).map (c :: ·) := by
  rw [decodeBody, h]
  cases decodeBody rest <;> rfl

theorem decodeBody_plain {c : Char} (quote : c ≠ '"') (slash : c ≠ '\\') (rest : List Char) :
    decodeBody (c :: rest) = (decodeBody rest).map (c :: ·) := by
  rw [decodeBody]
  · rintro rfl
    exact absurd rfl quote
  · exact quote
  · rintro d more rfl
    exact absurd rfl slash

theorem decodeBody_flatMap_escape (cs : List Char) :
    decodeBody (cs.flatMap escape ++ ['"']) = some cs := by
  induction cs with
  | nil => rfl
  | cons c rest ih =>
    rw [List.flatMap_cons, List.append_assoc]
    rcases escape_cases c with ⟨d, written, back, -⟩ | ⟨written, quote, slash, -⟩
    · rw [written, List.cons_append, List.singleton_append, decodeBody_escape back, ih,
        Option.map_some]
    · rw [written, List.singleton_append, decodeBody_plain quote slash, ih, Option.map_some]

/-- A string is read back from its literal. -/
theorem unquote_quote (s : String) : unquote (quote s) = some s := by
  rw [unquote, toList_quote]
  show (decodeBody (s.toList.flatMap escape ++ ['"'])).map String.ofList = some s
  rw [decodeBody_flatMap_escape, Option.map_some, String.ofList_toList]

end Quoted

/-! ### Lines around a text -/

namespace Chars

theorem lines_cons {c : Char} {rest : List Char} (feed : c ≠ '\n')
    (ret : c = '\r' → rest.head? ≠ some '\n') :
    lines (c :: rest) = (c :: (lines rest).headD []) :: (lines rest).tail := by
  rw [lines]
  · cases lines rest <;> rfl
  · rintro more rfl rfl
    exact ret rfl rfl
  · exact feed

/-- The lines of a text in whose first line there is a word without ends of lines. -/
theorem lines_append_right {word : List Char} (nonempty : word ≠ []) (feed : '\n' ∉ word)
    (ret : '\r' ∉ word) (after : List Char) :
    lines (word ++ after) = (word ++ (lines after).headD []) :: (lines after).tail := by
  induction word with
  | nil => exact absurd rfl nonempty
  | cons c rest ih =>
    rw [List.mem_cons, not_or] at feed ret
    rw [List.cons_append, lines_cons (Ne.symm feed.1) fun h => absurd h.symm ret.1]
    cases rest with
    | nil => rfl
    | cons d more =>
      rw [ih (List.cons_ne_nil d more) feed.2 ret.2]
      rfl

/-- A text that goes on in the middle of a line: which lines end before that, and how the line
starts, depends only on what stands before. -/
theorem exists_lines_append_left (before : List Char) :
    ∃ above start, ∀ text : List Char, text ≠ [] → text.head? ≠ some '\n' →
      lines (before ++ text) = above ++ (start ++ (lines text).headD []) :: (lines text).tail := by
  induction before with
  | nil =>
    refine ⟨[], [], fun text nonempty _ => ?_⟩
    cases split : lines text with
    | nil => exact absurd (lines_eq_nil.1 split) nonempty
    | cons line more => simp [split]
  | cons c rest ih =>
    obtain ⟨above, start, split⟩ := ih
    by_cases feed : c = '\n'
    · refine ⟨[] :: above, start, fun text nonempty head => ?_⟩
      rw [feed, List.cons_append, lines, split text nonempty head, List.cons_append]
    · by_cases ret : c = '\r' ∧ rest.head? = some '\n'
      · -- The carriage return belongs to the line feed after it.
        obtain ⟨rfl, head⟩ := ret
        obtain ⟨more, rfl⟩ := List.head?_eq_some_iff.1 head
        refine ⟨above, start, fun text nonempty head => ?_⟩
        rw [← split text nonempty head]
        rfl
      · -- The character starts the first line.
        have first (text : List Char) (nonempty : text ≠ []) (head : text.head? ≠ some '\n') :
            lines (c :: rest ++ text) =
              (c :: (lines (rest ++ text)).headD []) :: (lines (rest ++ text)).tail := by
          refine lines_cons feed fun h => ?_
          cases rest with
          | nil => exact head
          | cons d more => exact fun h' => ret ⟨h, h'⟩
        cases above with
        | nil =>
          refine ⟨[], c :: start, fun text nonempty head => ?_⟩
          rw [first text nonempty head, split text nonempty head]
          rfl
        | cons line more =>
          refine ⟨(c :: line) :: more, start, fun text nonempty head => ?_⟩
          rw [first text nonempty head, split text nonempty head]
          rfl

/-- Lines put together, cut in the middle of a line. -/
theorem intercalate_cut (sep start stop : List Char) (above below : List (List Char)) :
    sep.intercalate (above ++ (start ++ stop) :: below) =
      sep.intercalate (above ++ [start]) ++ sep.intercalate (stop :: below) := by
  induction above with
  | nil => cases below <;> simp [List.intercalate_cons_cons]
  | cons line rest ih =>
    have next (tail : List (List Char)) (nonempty : tail ≠ []) :
        sep.intercalate (line :: tail) = line ++ sep ++ sep.intercalate tail := by
      obtain ⟨first, more, rfl⟩ := List.exists_cons_of_ne_nil nonempty
      exact List.intercalate_cons_cons
    rw [List.cons_append, next _ (by simp), ih, List.cons_append, next _ (by simp),
      List.append_assoc (line ++ sep)]

end Chars

/-! ### Texts that stay in one piece -/

/-- The text is not empty and has no end of a line inside. -/
structure Unbroken (text : String) : Prop where
  nonempty : text.toList ≠ []
  feed : '\n' ∉ text.toList
  ret : '\r' ∉ text.toList

theorem Unbroken.head? {text : String} (h : Unbroken text) (after : List Char) :
    (text.toList ++ after).head? ≠ some '\n' := by
  obtain ⟨c, rest, chars⟩ := List.exists_cons_of_ne_nil h.nonempty
  have feed := h.feed
  rw [chars, List.mem_cons, not_or] at feed
  rw [chars, List.cons_append, List.head?_cons, ne_eq, Option.some.injEq]
  exact Ne.symm feed.1

/-- Indenting keeps such a text, and does the same around it whichever it is. -/
theorem indent_unbroken (unit before after : String) :
    ∃ before' after', ∀ text, Unbroken text →
      indent unit (before ++ text ++ after) = before' ++ text ++ after' := by
  obtain ⟨above, start, split⟩ := Chars.exists_lines_append_left before.toList
  let move := Chars.indentLine unit.toList
  let stop := (Chars.lines after.toList).headD []
  let below := (Chars.lines after.toList).tail
  refine ⟨.ofList (['\n'].intercalate (above.map move ++ [unit.toList ++ start])),
    .ofList (['\n'].intercalate (stop :: below.map move)), fun text h => ?_⟩
  have lines : Chars.lines (before ++ text ++ after).toList =
      above ++ (start ++ (text.toList ++ stop)) :: below := by
    have nonempty : text.toList ++ after.toList ≠ [] :=
      List.append_ne_nil_of_left_ne_nil h.nonempty _
    rw [String.toList_append, String.toList_append, List.append_assoc,
      split _ nonempty (h.head? _), Chars.lines_append_right h.nonempty h.feed h.ret]
    rfl
  have moved : move (start ++ (text.toList ++ stop)) =
      unit.toList ++ start ++ (text.toList ++ stop) := by
    have full : (start ++ (text.toList ++ stop)).isEmpty = false := by simp [h.nonempty]
    simp only [move, Chars.indentLine, full, Bool.false_eq_true, if_false, List.append_assoc]
  have cut : ['\n'].intercalate ((text.toList ++ stop) :: below.map move) =
      text.toList ++ ['\n'].intercalate (stop :: below.map move) := by
    simpa using Chars.intercalate_cut ['\n'] text.toList stop [] (below.map move)
  calc
    indent unit (before ++ text ++ after)
    _ = .ofList (['\n'].intercalate
          (above.map move ++ move (start ++ (text.toList ++ stop)) :: below.map move)) := by
      rw [← String.toList_inj, toList_indent, lines, List.map_append, List.map_cons,
        String.toList_ofList]
    _ = _ := by
      rw [moved, Chars.intercalate_cut, cut, String.ofList_append, String.ofList_append,
        String.ofList_toList, String.append_assoc]

/-- A text inside layers of other texts, the innermost first. Each layer is indented as a whole. -/
def nest (unit : String) (layers : List (String × String)) (text : String) : String :=
  layers.foldl (fun inner layer => indent unit (layer.1 ++ inner ++ layer.2)) text

theorem nest_unbroken (unit : String) (layers : List (String × String)) (before after : String) :
    ∃ before' after', ∀ text, Unbroken text →
      nest unit layers (before ++ text ++ after) = before' ++ text ++ after' := by
  induction layers generalizing before after with
  | nil => exact ⟨before, after, fun _ _ => rfl⟩
  | cons layer rest ih =>
    obtain ⟨before₁, after₁, inner⟩ := indent_unbroken unit (layer.1 ++ before) (after ++ layer.2)
    obtain ⟨before₂, after₂, outer⟩ := ih before₁ after₁
    refine ⟨before₂, after₂, fun text h => ?_⟩
    have step : indent unit (layer.1 ++ (before ++ text ++ after) ++ layer.2) =
        before₁ ++ text ++ after₁ := by
      rw [← inner text h]
      simp only [String.append_assoc]
    rw [← outer text h, ← step]
    rfl

namespace Quoted

theorem unbroken_quote (s : String) : Unbroken (quote s) where
  nonempty := by simp [toList_quote]
  feed := notMem_quote rfl s
  ret := notMem_quote rfl s

/-- The literal of a string is one complete literal without line feeds, carriage returns and tabs,
and the string is read back from it. Inside layers of code that are indented one after the other it
stays in one piece; what stands around it in the end is the same for all strings. -/
theorem literals_faithful :
    (∀ s : String, IsLiteral (quote s) ∧
      ('\n' ∉ (quote s).toList ∧ '\r' ∉ (quote s).toList ∧ '\t' ∉ (quote s).toList) ∧
      unquote (quote s) = some s) ∧
    ∀ (unit : String) (layers : List (String × String)), ∃ before after, ∀ s : String,
      nest unit layers (quote s) = before ++ quote s ++ after := by
  refine ⟨fun s => ⟨isLiteral_quote s, ?_, unquote_quote s⟩, fun unit layers => ?_⟩
  · exact ⟨notMem_quote rfl s, notMem_quote rfl s, notMem_quote rfl s⟩
  · obtain ⟨before, after, kept⟩ := nest_unbroken unit layers "" ""
    refine ⟨before, after, fun s => ?_⟩
    rw [← kept (quote s) (unbroken_quote s), String.empty_append, String.append_empty]

end Quoted

end Zephirize.Text
