import Mathlib.Tactic
import Zephirize.Proofs.Text.BareLines

/-!
# Texts that differ in indentation

`Chars.flush` drops the blanks after every line feed. Two texts are `Alike` when they are the same
then: they have the same first line, and the same lines below up to the blanks in front. Putting
texts together keeps them alike, and so does indenting them by blanks: `flush` sees of an indented
text only that a carriage return at the end of a line is gone (`Chars.unreturn`).

Indenting drops an empty line at the end of a text. So texts that are indented must also have an
empty last line both or neither (`SameEnd`).
-/

namespace Zephirize.Text

namespace Chars

/-- A line without the blanks in front of it. -/
def dropBlanks (line : List Char) : List Char := line.dropWhile (· == ' ')

/-- A text without the blanks after its line feeds. -/
def flush : List Char → List Char
  | [] => []
  | c :: rest => if c = '\n' then '\n' :: dropBlanks (flush rest) else c :: flush rest

/-- A text without the carriage returns before its line feeds, one for each. -/
def unreturn : List Char → List Char
  | [] => []
  | '\r' :: '\n' :: rest => '\n' :: unreturn rest
  | c :: rest => c :: unreturn rest

@[simp]
theorem flush_nil : flush [] = [] := rfl

@[simp]
theorem flush_feed (rest : List Char) : flush ('\n' :: rest) = '\n' :: dropBlanks (flush rest) :=
  if_pos rfl

theorem flush_cons {c : Char} (h : c ≠ '\n') (rest : List Char) :
    flush (c :: rest) = c :: flush rest :=
  if_neg h

@[simp]
theorem flush_blank (rest : List Char) : flush (' ' :: rest) = ' ' :: flush rest := rfl

@[simp]
theorem dropBlanks_blank (rest : List Char) : dropBlanks (' ' :: rest) = dropBlanks rest := rfl

theorem dropBlanks_cons {c : Char} (h : c ≠ ' ') (rest : List Char) :
    dropBlanks (c :: rest) = c :: rest :=
  List.dropWhile_cons_of_neg (by simpa using h)

/-- Blanks in front make no difference after a line feed, whatever follows. -/
theorem flush_dropBlanks_append (a b : List Char) :
    dropBlanks (flush (dropBlanks a ++ b)) = dropBlanks (flush (a ++ b)) := by
  induction a with
  | nil => rfl
  | cons c rest ih =>
    by_cases blank : c = ' '
    · subst blank
      simpa using ih
    · rw [dropBlanks_cons blank]

theorem flush_append_left (a b : List Char) : flush (flush a ++ b) = flush (a ++ b) := by
  induction a with
  | nil => rfl
  | cons c rest ih =>
    by_cases feed : c = '\n'
    · subst feed
      rw [flush_feed, List.cons_append, List.cons_append, flush_feed, flush_feed,
        flush_dropBlanks_append, ih]
    · rw [flush_cons feed, List.cons_append, List.cons_append, flush_cons feed, flush_cons feed, ih]

theorem flush_flush (a : List Char) : flush (flush a) = flush a := by
  simpa using flush_append_left a []

theorem flush_append_right (a b : List Char) : flush (a ++ flush b) = flush (a ++ b) := by
  induction a with
  | nil => exact flush_flush b
  | cons c rest ih =>
    by_cases feed : c = '\n'
    · subst feed
      rw [List.cons_append, List.cons_append, flush_feed, flush_feed, ih]
    · rw [List.cons_append, List.cons_append, flush_cons feed, flush_cons feed, ih]

theorem flush_append_congr {a a' b b' : List Char} (left : flush a = flush a')
    (right : flush b = flush b') : flush (a ++ b) = flush (a' ++ b') := by
  rw [← flush_append_left, ← flush_append_right, left, right, flush_append_right, flush_append_left]

theorem flush_eq_nil {a : List Char} : flush a = [] ↔ a = [] := by
  cases a with
  | nil => simp
  | cons c rest => by_cases feed : c = '\n' <;> simp [flush, feed]

theorem head?_flush (a : List Char) : (flush a).head? = a.head? := by
  cases a with
  | nil => rfl
  | cons c rest => by_cases feed : c = '\n' <;> simp [flush, feed]

theorem dropBlanks_concat {d : Char} (h : d ≠ ' ') (a : List Char) :
    dropBlanks (a ++ [d]) = dropBlanks a ++ [d] := by
  induction a with
  | nil => exact dropBlanks_cons h []
  | cons c rest ih =>
    by_cases blank : c = ' '
    · subst blank
      simpa using ih
    · rw [List.cons_append, dropBlanks_cons blank, dropBlanks_cons blank, List.cons_append]

theorem flush_concat_feed (a : List Char) : flush (a ++ ['\n']) = flush a ++ ['\n'] := by
  induction a with
  | nil => rfl
  | cons c rest ih =>
    by_cases feed : c = '\n'
    · subst feed
      rw [List.cons_append, flush_feed, flush_feed, ih, dropBlanks_concat (by decide),
        List.cons_append]
    · rw [List.cons_append, flush_cons feed, flush_cons feed, ih, List.cons_append]

/-! ### Carriage returns -/

/-- A character that does not start the end of a line. -/
theorem head?_ne_feed {c : Char} {rest : List Char}
    (h : ∀ more, c = '\r' → rest = '\n' :: more → False) : c = '\r' → rest.head? ≠ some '\n' := by
  intro ret start
  obtain ⟨more, rfl⟩ := List.head?_eq_some_iff.1 start
  exact h more ret rfl

theorem unreturn_cons {c : Char} {rest : List Char} (h : c = '\r' → rest.head? ≠ some '\n') :
    unreturn (c :: rest) = c :: unreturn rest := by
  rw [unreturn]
  rintro more rfl rfl
  exact h rfl rfl

theorem flush_unreturn_dropBlanks (a : List Char) :
    dropBlanks (flush (unreturn (dropBlanks a))) = dropBlanks (flush (unreturn a)) := by
  induction a with
  | nil => rfl
  | cons c rest ih =>
    by_cases blank : c = ' '
    · subst blank
      rw [unreturn_cons (by simp)]
      simpa using ih
    · rw [dropBlanks_cons blank]

theorem flush_unreturn (a : List Char) : flush (unreturn (flush a)) = flush (unreturn a) := by
  fun_induction unreturn a with
  | case1 => rfl
  | case2 rest ih =>
    rw [flush_cons (by decide), flush_feed, unreturn, flush_feed, flush_feed,
      flush_unreturn_dropBlanks, ih]
  | case3 c rest h ih =>
    by_cases feed : c = '\n'
    · subst feed
      rw [flush_feed, unreturn_cons (by simp), flush_feed, flush_feed, flush_unreturn_dropBlanks,
        ih]
    · have plain := head?_ne_feed h
      rw [← head?_flush] at plain
      rw [flush_cons feed, unreturn_cons plain, flush_cons feed, flush_cons feed, ih]

theorem lines_eq_nil {a : List Char} : lines a = [] ↔ a = [] := by
  fun_cases lines a <;> simp [*]

/-- The final line feed of a text, which its lines do not show. -/
def finalFeed (a : List Char) : List Char := if a.getLast? = some '\n' then ['\n'] else []

theorem finalFeed_cons (c : Char) {rest : List Char} (h : rest ≠ []) :
    finalFeed (c :: rest) = finalFeed rest := by
  obtain ⟨d, more, rfl⟩ := List.exists_cons_of_ne_nil h
  rw [finalFeed, finalFeed, List.getLast?_cons_cons]

theorem intercalate_nil_cons {ls : List (List Char)} (h : ls ≠ []) :
    ['\n'].intercalate ([] :: ls) = '\n' :: ['\n'].intercalate ls := by
  obtain ⟨line, more, rfl⟩ := List.exists_cons_of_ne_nil h
  rw [List.intercalate_cons_cons, List.nil_append, List.singleton_append]

theorem finalFeed_append (a b : List Char) :
    finalFeed (a ++ b) = if b = [] then finalFeed a else finalFeed b := by
  by_cases none : b = []
  · rw [none, List.append_nil, if_pos rfl]
  · rw [if_neg none, finalFeed, finalFeed, List.getLast?_append_of_ne_nil a none]

/-- The lines of a text put together again. -/
theorem intercalate_lines (a : List Char) :
    ['\n'].intercalate (lines a) ++ finalFeed a = unreturn a := by
  fun_induction lines a with
  | case1 => rfl
  | case2 rest ih =>
    by_cases none : rest = []
    · rw [none]
      rfl
    · rw [intercalate_nil_cons (mt lines_eq_nil.1 none), finalFeed_cons _ (by simp),
        finalFeed_cons _ none, List.cons_append, ih, unreturn]
  | case3 rest ih =>
    by_cases none : rest = []
    · rw [none]
      rfl
    · rw [intercalate_nil_cons (mt lines_eq_nil.1 none), finalFeed_cons _ none, List.cons_append,
        ih, unreturn_cons (by simp)]
  | case4 c rest h feed none ih =>
    rw [lines_eq_nil.1 none, unreturn_cons (by simp)]
    simpa [finalFeed, unreturn] using feed
  | case5 c rest h feed line more found ih =>
    have some : rest ≠ [] := by
      rintro rfl
      cases found
    have first : ['\n'].intercalate ((c :: line) :: more) =
        c :: ['\n'].intercalate (line :: more) := by
      cases more <;> simp [List.intercalate_cons_cons]
    rw [first, finalFeed_cons _ some, List.cons_append, ← found, ih,
      unreturn_cons (head?_ne_feed h)]

/-- A line moved to the right, unless it is empty. -/
def indentLine (unit line : List Char) : List Char := if line.isEmpty then line else unit ++ line

theorem flush_feed_append {unit : List Char} (blank : ∀ c ∈ unit, c = ' ') (rest : List Char) :
    flush ('\n' :: (unit ++ rest)) = flush ('\n' :: rest) := by
  induction unit with
  | nil => rfl
  | cons c unit ih =>
    rw [List.forall_mem_cons] at blank
    rw [blank.1, List.cons_append, flush_feed, flush_blank, dropBlanks_blank, ← flush_feed,
      ih blank.2]

/-- Moving the lines of a text to the right makes no difference after a line feed. -/
theorem flush_indentLine {unit : List Char} (blank : ∀ c ∈ unit, c = ' ') (ls : List (List Char)) :
    flush ('\n' :: ['\n'].intercalate (ls.map (indentLine unit))) =
      flush ('\n' :: ['\n'].intercalate ls) := by
  have moved (line rest : List Char) :
      flush ('\n' :: (indentLine unit line ++ rest)) = flush ('\n' :: (line ++ rest)) := by
    unfold indentLine
    split_ifs
    · rfl
    · rw [List.append_assoc, flush_feed_append blank]
  induction ls with
  | nil => rfl
  | cons line rest ih =>
    cases rest with
    | nil => simpa using moved line []
    | cons next more =>
      rw [List.map_cons, List.map_cons, List.intercalate_cons_cons, List.intercalate_cons_cons,
        ← List.map_cons]
      simp only [List.append_assoc, List.singleton_append]
      rw [moved, ← List.cons_append, ← List.cons_append]
      exact flush_append_congr rfl ih

/-- Indenting texts that are the same up to blanks. -/
theorem flush_indent {unit unit' a b : List Char} (blank : ∀ c ∈ unit, c = ' ')
    (blank' : ∀ c ∈ unit', c = ' ') (same : flush a = flush b) (ends : finalFeed a = finalFeed b) :
    flush ('\n' :: ['\n'].intercalate ((lines a).map (indentLine unit))) =
      flush ('\n' :: ['\n'].intercalate ((lines b).map (indentLine unit'))) := by
  have whole : flush ('\n' :: ['\n'].intercalate (lines a) ++ finalFeed a) =
      flush ('\n' :: ['\n'].intercalate (lines b) ++ finalFeed a) := by
    rw [List.cons_append, List.cons_append, intercalate_lines, ends, intercalate_lines, flush_feed,
      flush_feed, ← flush_unreturn a, same, flush_unreturn]
  rw [flush_indentLine blank, flush_indentLine blank']
  unfold finalFeed at whole
  split_ifs at whole
  · rw [flush_concat_feed, flush_concat_feed] at whole
    exact List.append_cancel_right whole
  · simpa only [List.append_nil] using whole

theorem getLast?_unreturn (a : List Char) : (unreturn a).getLast? = a.getLast? := by
  fun_induction unreturn a with
  | case1 => rfl
  | case2 rest ih => rw [List.getLast?_cons, ih, List.getLast?_cons_cons, List.getLast?_cons]
  | case3 c rest h ih => rw [List.getLast?_cons, ih, List.getLast?_cons]

theorem getLast?_indentLine (unit : List Char) (ls : List (List Char)) :
    (['\n'].intercalate (ls.map (indentLine unit))).getLast? =
      (['\n'].intercalate ls).getLast? := by
  induction ls with
  | nil => rfl
  | cons line rest ih =>
    cases rest with
    | nil =>
      rw [List.map_singleton, List.intercalate_singleton, List.intercalate_singleton, indentLine]
      split_ifs with none
      · rfl
      · exact List.getLast?_append_of_ne_nil unit (by simpa using none)
    | cons next more =>
      rw [List.map_cons, List.map_cons, List.intercalate_cons_cons, List.intercalate_cons_cons,
        List.getLast?_append, List.getLast?_concat, ← List.map_cons, ih, List.getLast?_append,
        List.getLast?_concat]

theorem splitOn_dropBlanks (a : List Char) :
    (dropBlanks a).splitOn '\n' = (a.splitOn '\n').modifyHead dropBlanks := by
  induction a with
  | nil => rfl
  | cons c rest ih =>
    by_cases blank : c = ' '
    · subst blank
      rw [dropBlanks_blank, ih, List.splitOn_cons_eq_if_modifyHead, if_neg (by decide),
        List.modifyHead_modifyHead]
      rfl
    · rw [dropBlanks_cons blank]
      obtain ⟨first, more, split⟩ := List.exists_cons_of_ne_nil (List.splitOn_ne_nil '\n' rest)
      rw [List.splitOn_cons_eq_if_modifyHead, split]
      split_ifs
      · rfl
      · rw [List.modifyHead_cons, List.modifyHead_cons, dropBlanks_cons blank]

/-- The lines below the first have no blanks in front of them. -/
theorem splitOn_flush (a : List Char) :
    ∃ first more, a.splitOn '\n' = first :: more ∧
      (flush a).splitOn '\n' = first :: more.map dropBlanks := by
  induction a with
  | nil => exact ⟨[], [], rfl, rfl⟩
  | cons c rest ih =>
    obtain ⟨first, more, split, flushed⟩ := ih
    by_cases feed : c = '\n'
    · subst feed
      refine ⟨[], first :: more, ?_, ?_⟩
      · rw [List.splitOn_cons_eq_if_modifyHead, if_pos (by decide), split]
      · rw [flush_feed, List.splitOn_cons_eq_if_modifyHead, if_pos (by decide), splitOn_dropBlanks,
          flushed]
        rfl
    · have other : ¬ (c == '\n') = true := by simpa using feed
      refine ⟨c :: first, more, ?_, ?_⟩
      · rw [List.splitOn_cons_eq_if_modifyHead, if_neg other, split, List.modifyHead_cons]
      · rw [flush_cons feed, List.splitOn_cons_eq_if_modifyHead, if_neg other, flushed,
          List.modifyHead_cons]

end Chars

/-- The texts are the same up to blanks at the start of a line, the first line excepted. -/
def Alike (a b : String) : Prop := Chars.flush a.toList = Chars.flush b.toList

/-- Both texts end with a line feed, or neither does. -/
def SameEnd (a b : String) : Prop := Chars.finalFeed a.toList = Chars.finalFeed b.toList

section Rules

variable {a a' b b' : String}

theorem Alike.refl (a : String) : Alike a a := rfl

theorem Alike.append (left : Alike a a') (right : Alike b b') : Alike (a ++ b) (a' ++ b') := by
  unfold Alike
  rw [String.toList_append, String.toList_append]
  exact Chars.flush_append_congr left right

theorem Alike.before (left : Alike a a') (b : String) : Alike (a ++ b) (a' ++ b) := left.append rfl

theorem Alike.after (right : Alike b b') (a : String) : Alike (a ++ b) (a ++ b') :=
  .append rfl right

theorem Alike.toList_eq_nil (h : Alike a b) : a.toList = [] ↔ b.toList = [] := by
  rw [← Chars.flush_eq_nil, h, Chars.flush_eq_nil]

theorem Alike.isEmpty_eq (h : Alike a b) : a.isEmpty = b.isEmpty := by
  rw [Bool.eq_iff_iff]
  simpa using h.toList_eq_nil

theorem Alike.intercalate (sep : String) {texts texts' : List String}
    (h : List.Forall₂ Alike texts texts') :
    Alike (sep.intercalate texts) (sep.intercalate texts') := by
  induction h with
  | nil => rfl
  | cons head rest ih =>
    cases rest with
    | nil => simpa using head
    | cons next more =>
      rw [String.intercalate_cons_cons, String.intercalate_cons_cons]
      exact (head.before sep).append ih

theorem SameEnd.append (alike : Alike b b') (left : SameEnd a a') (right : SameEnd b b') :
    SameEnd (a ++ b) (a' ++ b') := by
  unfold SameEnd at left right ⊢
  rw [String.toList_append, String.toList_append, Chars.finalFeed_append, Chars.finalFeed_append,
    left, right]
  simp only [alike.toList_eq_nil]

theorem Closed.finalFeed_eq_nil (h : Closed a) : Chars.finalFeed a.toList = [] := by
  unfold Chars.finalFeed
  rcases h with h | h <;> simp [h]

theorem SameEnd.ofClosed (h : Closed a) (h' : Closed b) : SameEnd a b :=
  h.finalFeed_eq_nil.trans h'.finalFeed_eq_nil.symm

theorem SameEnd.intercalate (sep : String) {texts texts' : List String}
    (alike : List.Forall₂ Alike texts texts') (ends : List.Forall₂ SameEnd texts texts') :
    SameEnd (sep.intercalate texts) (sep.intercalate texts') := by
  induction ends with
  | nil => rfl
  | cons head rest ih =>
    rw [List.forall₂_cons] at alike
    cases rest with
    | nil => simpa using head
    | cons next more =>
      rw [String.intercalate_cons_cons, String.intercalate_cons_cons]
      exact .append (.intercalate sep alike.2) (.append (.refl sep) head rfl) (ih alike.2)

variable {unit unit' : String}

theorem toList_indent (unit s : String) : (indent unit s).toList =
    ['\n'].intercalate ((Chars.lines s.toList).map (Chars.indentLine unit.toList)) := by
  rw [indent, joinLines, String.toList_intercalate, lines, List.map_map, List.map_map]
  congr 1
  refine List.map_congr_left fun line _ => ?_
  cases line <;> simp [Chars.indentLine]

theorem Alike.indent (blank : ∀ c ∈ unit.toList, c = ' ') (blank' : ∀ c ∈ unit'.toList, c = ' ')
    (alike : Alike a b) (ends : SameEnd a b) :
    Alike ("\n" ++ indent unit a) ("\n" ++ indent unit' b) := by
  unfold Alike
  rw [String.toList_append, String.toList_append, toList_indent, toList_indent]
  exact Chars.flush_indent blank blank' alike ends

theorem Alike.block (blank : ∀ c ∈ unit.toList, c = ' ') (blank' : ∀ c ∈ unit'.toList, c = ' ')
    (alike : Alike a b) (ends : SameEnd a b) :
    Alike (block unit a) (block unit' b) := by
  unfold Zephirize.block
  rw [alike.isEmpty_eq]
  split_ifs
  · rfl
  · have inside := ((alike.indent blank blank' ends).after "\x7b").before "\n\x7d"
    have opening : "\x7b" ++ "\n" = "\x7b\n" := rfl
    simpa only [← String.append_assoc, opening] using inside

theorem Alike.caseText (blank : ∀ c ∈ unit.toList, c = ' ') (blank' : ∀ c ∈ unit'.toList, c = ' ')
    (head : String) (alike : Alike a b) (ends : SameEnd a b) :
    Alike (caseText unit head a) (caseText unit' head b) := by
  unfold Zephirize.caseText
  rw [alike.isEmpty_eq, String.append_assoc, String.append_assoc]
  split_ifs
  · rfl
  · exact (alike.indent blank blank' ends).after head

/-- Texts set apart by blank lines, below a line. -/
theorem Alike.paragraphs {texts texts' : List String}
    (h : List.Forall₂ (fun a b => Alike ("\n" ++ a) ("\n" ++ b)) texts texts') :
    Alike ("\n" ++ "\n\n".intercalate texts) ("\n" ++ "\n\n".intercalate texts') := by
  induction h with
  | nil => rfl
  | cons head rest ih =>
    cases rest with
    | nil => simpa using head
    | cons next more =>
      have split (a b : String) :
          "\n" ++ (a ++ "\n\n" ++ b) = "\n" ++ a ++ "\n" ++ ("\n" ++ b) := by
        rw [← String.toList_inj]
        simp
      rw [String.intercalate_cons_cons, String.intercalate_cons_cons, split, split]
      exact (head.before "\n").append ih

theorem Closed.indent (h : Closed a) (unit : String) : Closed (Text.indent unit a) := by
  have last : (Text.indent unit a).toList.getLast? = a.toList.getLast? := by
    have whole := Chars.intercalate_lines a.toList
    rw [h.finalFeed_eq_nil, List.append_nil] at whole
    rw [toList_indent, Chars.getLast?_indentLine, whole, Chars.getLast?_unreturn]
  rwa [Closed, last]

end Rules

/-- The lines of a text without the blanks in front of them. -/
def unindented (s : String) : List (List Char) := (s.toList.splitOn '\n').map Chars.dropBlanks

theorem Alike.unindented_eq {a b : String} (h : Alike a b) : unindented a = unindented b := by
  obtain ⟨first, more, split, flushed⟩ := Chars.splitOn_flush a.toList
  obtain ⟨first', more', split', flushed'⟩ := Chars.splitOn_flush b.toList
  rw [h, flushed'] at flushed
  obtain ⟨rfl, lines⟩ := List.cons.inj flushed
  rw [unindented, unindented, split, split', List.map_cons, List.map_cons, lines]

end Zephirize.Text
