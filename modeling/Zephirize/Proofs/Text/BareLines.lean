import Mathlib.Data.List.DropRight
import Mathlib.Tactic
import Zephirize.Code.Render

/-!
# Lines without indentation

`bareLines` lists the lines of a text without what indenting changes: the blanks in front of a line
and the carriage returns at its end. `Shows text part` says that the lines of `part` stand in `text`
one after the other, up to indentation. `Encloses text part` says this whatever else stands on the
first and on the last line of `text`.

The rules follow the ways in which texts are put together. Indenting drops an empty last line, so
they are about parts that are `Closed`: that end with a semicolon or with a brace.
-/

namespace Zephirize.Text

/-- A line without the carriage returns at its end. -/
def Chars.trimReturns (line : List Char) : List Char := line.rdropWhile (· == '\r')

/-- A line without the blanks in front of it and the carriage returns at its end. -/
def Chars.bare (line : List Char) : List Char := (trimReturns line).dropWhile (· == ' ')

/-- The lines of a text without indentation. A final line feed ends a line, and an empty line
follows. -/
def bareLines (s : String) : List (List Char) := (s.toList.splitOn '\n').map Chars.bare

/-- The lines of `part` stand in `text`, up to indentation. -/
def Shows (text part : String) : Prop := bareLines part <:+: bareLines text

/-- The lines of `part` stand in `text`, whatever else stands on its first and its last line. -/
def Encloses (text part : String) : Prop := ∀ before after, Shows (before ++ text ++ after) part

/-- The text ends with a semicolon or with a brace. -/
def Closed (s : String) : Prop := s.toList.getLast? = some ';' ∨ s.toList.getLast? = some '\x7d'

@[simp]
theorem bareLines_empty : bareLines "" = [[]] := by
  simp [bareLines, Chars.bare, Chars.trimReturns]

theorem bareLines_append (a b : String) :
    bareLines (a ++ "\n" ++ b) = bareLines a ++ bareLines b := by
  rw [bareLines, bareLines, bareLines, ← List.map_append, ← List.splitOn_append_cons_self]
  simp

theorem bareLines_joinLines {texts : List String} (h : texts ≠ []) :
    bareLines (joinLines texts) = texts.flatMap bareLines := by
  induction texts with
  | nil => exact absurd rfl h
  | cons a rest ih =>
    cases rest with
    | nil => simp [joinLines]
    | cons b rest =>
      rw [List.flatMap_cons, ← ih (by simp), ← bareLines_append]
      simp only [joinLines, String.intercalate_cons_cons]

/-! ### Indenting -/

namespace Chars

theorem rdropWhile_append {α : Type} (p : α → Bool) (a b : List α) :
    (a ++ b).rdropWhile p = if b.rdropWhile p = [] then a.rdropWhile p else a ++ b.rdropWhile p := by
  simp only [List.rdropWhile, List.reverse_append, List.dropWhile_append, List.reverse_eq_nil_iff,
    List.isEmpty_iff]
  split_ifs <;> simp

theorem notMem_lines {cs line : List Char} (h : line ∈ lines cs) : '\n' ∉ line := by
  fun_induction lines cs generalizing line with
  | case1 => cases h
  | case2 rest ih =>
    rcases List.mem_cons.1 h with rfl | h
    · exact List.not_mem_nil
    · exact ih h
  | case3 rest ih =>
    rcases List.mem_cons.1 h with rfl | h
    · exact List.not_mem_nil
    · exact ih h
  | case4 c rest _ hc none ih =>
    rw [List.mem_singleton] at h
    simpa [h] using Ne.symm hc
  | case5 c rest _ hc first more found ih =>
    rcases List.mem_cons.1 h with rfl | h
    · rw [List.mem_cons, not_or]
      exact ⟨Ne.symm hc, ih (by simp [found])⟩
    · exact ih (by simp [found, h])

theorem trimReturns_cons (c : Char) {a b : List Char} (h : trimReturns a = trimReturns b) :
    trimReturns (c :: a) = trimReturns (c :: b) := by
  unfold trimReturns at h ⊢
  rw [← List.singleton_append, rdropWhile_append _ [c] a, h, ← rdropWhile_append,
    List.singleton_append]

/-- The lines of a text are its parts between line feeds, up to carriage returns and an empty last
part. -/
theorem splitOn_lines (cs : List Char) :
    (cs.splitOn '\n').map trimReturns = (lines cs).map trimReturns ∨
      (cs.splitOn '\n').map trimReturns = (lines cs).map trimReturns ++ [[]] := by
  fun_induction lines cs with
  | case1 => exact .inr rfl
  | case2 rest ih => simpa [List.splitOn_cons_eq_if_modifyHead, trimReturns] using ih
  | case3 rest ih => simpa [List.splitOn_cons_eq_if_modifyHead] using ih
  | case4 c rest _ hc none ih =>
    -- Nothing but carriage returns follows.
    obtain ⟨part, parts, split⟩ := List.exists_cons_of_ne_nil (List.splitOn_ne_nil '\n' rest)
    rw [List.splitOn_cons_eq_if_modifyHead, if_neg (by simpa using hc), split]
    simp only [none, split, List.map_cons, List.map_nil, List.nil_append, reduceCtorEq, false_or,
      List.cons.injEq, List.map_eq_nil_iff] at ih
    simpa [ih.2] using trimReturns_cons c ih.1
  | case5 c rest _ hc first more found ih =>
    obtain ⟨part, parts, split⟩ := List.exists_cons_of_ne_nil (List.splitOn_ne_nil '\n' rest)
    rw [List.splitOn_cons_eq_if_modifyHead, if_neg (by simpa using hc), split]
    simp only [found, split, List.map_cons, List.cons_append, List.cons.injEq] at ih
    rcases ih with ⟨head, tail⟩ | ⟨head, tail⟩
    · left
      simpa [tail] using trimReturns_cons c head
    · right
      simpa [tail] using trimReturns_cons c head

/-- A longer indentation changes nothing. -/
theorem bare_append {unit : List Char} (blank : ∀ c ∈ unit, c = ' ') (line : List Char) :
    bare (unit ++ line) = bare line := by
  unfold bare trimReturns
  rw [rdropWhile_append]
  split_ifs with empty
  · rw [empty, List.dropWhile_nil, List.dropWhile_eq_nil_iff]
    intro c hc
    simp [blank c ((List.rdropWhile_prefix _ unit).mem hc)]
  · exact List.dropWhile_append_of_pos (by simpa using blank)

end Chars

theorem bareLines_of_notMem {s : String} (h : '\n' ∉ s.toList) :
    bareLines s = [Chars.bare s.toList] := by
  rw [bareLines, List.splitOn_eq_singleton h, List.map_singleton]

/-- The lines of an indented text. -/
theorem bareLines_indent {unit : String} (blank : ∀ c ∈ unit.toList, c = ' ') {s : String}
    (h : Chars.lines s.toList ≠ []) :
    bareLines (indent unit s) = (Chars.lines s.toList).map Chars.bare := by
  have moved : ∀ line ∈ Chars.lines s.toList,
      bareLines (if (String.ofList line).isEmpty then String.ofList line
        else unit ++ String.ofList line) = [Chars.bare line] := by
    intro line hline
    have single := Chars.notMem_lines hline
    split_ifs
    · rw [bareLines_of_notMem (by simpa using single), String.toList_ofList]
    · have noFeed : '\n' ∉ unit.toList := fun feed => absurd (blank _ feed) (by decide)
      rw [bareLines_of_notMem (by simp [noFeed, single]), String.toList_append,
        String.toList_ofList, Chars.bare_append blank]
  rw [indent, lines, List.map_map, bareLines_joinLines (by simpa using h), List.flatMap_map,
    List.map_eq_flatMap]
  exact List.flatMap_congr moved

/-- Indenting a text keeps its lines, but for an empty one at the end. -/
theorem bareLines_eq_indent {unit : String} (blank : ∀ c ∈ unit.toList, c = ' ') (s : String) :
    bareLines s = bareLines (indent unit s) ∨ bareLines s = bareLines (indent unit s) ++ [[]] := by
  have bare : bareLines s =
      ((s.toList.splitOn '\n').map Chars.trimReturns).map (List.dropWhile (· == ' ')) := by
    rw [List.map_map]
    rfl
  rw [bare]
  by_cases none : Chars.lines s.toList = []
  · left
    rcases Chars.splitOn_lines s.toList with split | split
    · simp [none] at split
    · rw [split, indent, lines, none]
      simp [joinLines]
  · rw [bareLines_indent blank none]
    rcases Chars.splitOn_lines s.toList with split | split
    · left
      rw [split, List.map_map]
      rfl
    · right
      rw [split, List.map_append, List.map_map]
      rfl

/-! ### Closed texts -/

theorem Closed.append {b : String} (h : Closed b) (a : String) : Closed (a ++ b) := by
  rcases h with h | h
  · exact .inl (by rw [String.toList_append, List.getLast?_append, h]; rfl)
  · exact .inr (by rw [String.toList_append, List.getLast?_append, h]; rfl)

theorem Closed.semicolon (s : String) : Closed (s ++ ";") := .append (.inl (by simp)) s

theorem Closed.intercalate {texts : List String} (sep : String) (some : texts ≠ [])
    (h : ∀ text ∈ texts, Closed text) : Closed (sep.intercalate texts) := by
  induction texts with
  | nil => exact absurd rfl some
  | cons a rest ih =>
    cases rest with
    | nil => simpa using h a (by simp)
    | cons b rest =>
      rw [String.intercalate_cons_cons]
      exact (ih (by simp) fun text ht => h text (List.mem_cons_of_mem a ht)).append _

theorem closed_block (unit body : String) : Closed (block unit body) := by
  unfold block
  split_ifs
  · exact .inr (by simp)
  · exact .append (.inr (by simp)) _

/-- The last part between separators has what stands at the end of a text. -/
theorem splitOn_concat {sep c : Char} (h : c ≠ sep) (cs : List Char) :
    ∃ parts last, (cs ++ [c]).splitOn sep = parts ++ [last ++ [c]] := by
  induction cs with
  | nil => exact ⟨[], [], by simp [List.splitOn_cons_eq_if_modifyHead, h]⟩
  | cons d rest ih =>
    obtain ⟨parts, last, split⟩ := ih
    rw [List.cons_append, List.splitOn_cons_eq_if_modifyHead, split]
    split_ifs
    · exact ⟨[] :: parts, last, rfl⟩
    · cases parts with
      | nil => exact ⟨[], d :: last, rfl⟩
      | cons first more => exact ⟨(d :: first) :: more, last, rfl⟩

/-- The last line of a closed text is not empty. -/
theorem Closed.last_ne_nil {s : String} (h : Closed s) :
    ∃ before last, bareLines s = before ++ [last] ∧ last ≠ [] := by
  obtain ⟨cs, c, text, mark⟩ : ∃ cs c, s.toList = cs ++ [c] ∧ (c = ';' ∨ c = '\x7d') := by
    rcases h with h | h
    · exact ⟨_, _, (List.getLast?_eq_some_iff.1 h).choose_spec, .inl rfl⟩
    · exact ⟨_, _, (List.getLast?_eq_some_iff.1 h).choose_spec, .inr rfl⟩
  obtain ⟨parts, last, split⟩ := @splitOn_concat '\n' c (by rcases mark with rfl | rfl <;> decide) cs
  refine ⟨parts.map Chars.bare, Chars.bare (last ++ [c]), ?_, ?_⟩
  · rw [bareLines, text, split, List.map_append, List.map_singleton]
  · rw [Chars.bare, Chars.trimReturns,
      List.rdropWhile_concat_neg _ _ _ (by rcases mark with rfl | rfl <;> decide), ne_eq,
      List.dropWhile_eq_nil_iff]
    intro blank
    have := blank c (by simp)
    rcases mark with rfl | rfl <;> exact absurd this (by decide)

/-- The lines of a closed text do not reach to an empty line at the end. -/
theorem Closed.infix_of_concat {s : String} (closed : Closed s) {lines : List (List Char)}
    (h : bareLines s <:+: lines ++ [[]]) : bareLines s <:+: lines := by
  -- Else the last line of the text would be the empty one.
  rcases List.infix_concat_iff.1 h with ⟨init, ends⟩ | h
  · obtain ⟨before, last, text, full⟩ := closed.last_ne_nil
    rw [text, ← List.append_assoc] at ends
    have empty := (List.append_inj' ends rfl).2
    exact absurd (List.singleton_inj.1 empty) full
  · exact h

/-! ### Rules -/

section Rules

variable {a b s text part unit : String}

theorem Shows.refl (s : String) : Shows s s := List.infix_rfl

theorem Shows.before (h : Shows a part) (b : String) : Shows (a ++ "\n" ++ b) part := by
  rw [Shows, bareLines_append]
  exact h.trans (List.prefix_append _ _).isInfix

theorem Shows.after (h : Shows b part) (a : String) : Shows (a ++ "\n" ++ b) part := by
  rw [Shows, bareLines_append]
  exact h.trans (List.suffix_append _ _).isInfix

theorem Shows.joinLines {texts : List String} (mem : text ∈ texts) (h : Shows text part) :
    Shows (joinLines texts) part := by
  rw [Shows, bareLines_joinLines (List.ne_nil_of_mem mem)]
  obtain ⟨xs, ys, rfl⟩ := List.append_of_mem mem
  exact h.trans ⟨xs.flatMap bareLines, ys.flatMap bareLines, by simp⟩

/-- Texts that are set apart by a blank line. -/
theorem Shows.paragraphs {texts : List String} (mem : text ∈ texts) (h : Shows text part) :
    Shows ("\n\n".intercalate texts) part := by
  induction texts with
  | nil => cases mem
  | cons a rest ih =>
    cases rest with
    | nil => simpa [List.mem_singleton.1 mem] using h
    | cons b rest =>
      have split : "\n\n".intercalate (a :: b :: rest) =
          a ++ "\n" ++ ("" ++ "\n" ++ "\n\n".intercalate (b :: rest)) := by
        rw [String.intercalate_cons_cons, ← String.toList_inj]
        simp
      rw [split]
      rcases List.mem_cons.1 mem with rfl | mem
      · exact h.before _
      · exact ((ih mem).after "").after a

theorem Shows.ne_empty (h : Shows text part) (closed : Closed part) : text ≠ "" := by
  rintro rfl
  have none : bareLines part <:+: [] := closed.infix_of_concat (by simpa [Shows] using h)
  obtain ⟨before, last, lines, -⟩ := closed.last_ne_nil
  simp [lines] at none

theorem Shows.indent (blank : ∀ c ∈ unit.toList, c = ' ') (h : Shows s part)
    (closed : Closed part) : Shows (indent unit s) part := by
  rcases bareLines_eq_indent blank s with lines | lines
  · rwa [Shows, ← lines]
  · rw [Shows, lines] at h
    exact closed.infix_of_concat h

theorem Encloses.shows (h : Encloses text part) : Shows text part := by
  simpa using h "" ""

theorem Encloses.left (h : Encloses a part) (b : String) : Encloses (a ++ b) part := by
  intro before after
  simpa [String.append_assoc] using h before (b ++ after)

theorem Encloses.right (h : Encloses b part) (a : String) : Encloses (a ++ b) part := by
  intro before after
  simpa [String.append_assoc] using h (before ++ a) after

theorem Encloses.intercalate {texts : List String} (sep : String) (mem : text ∈ texts)
    (h : Encloses text part) : Encloses (sep.intercalate texts) part := by
  induction texts with
  | nil => cases mem
  | cons a rest ih =>
    cases rest with
    | nil => simpa [List.mem_singleton.1 mem] using h
    | cons b rest =>
      rw [String.intercalate_cons_cons]
      rcases List.mem_cons.1 mem with rfl | mem
      · exact (h.left _).left _
      · exact (ih mem).right _

theorem encloses_block (blank : ∀ c ∈ unit.toList, c = ' ') (h : Shows s part)
    (closed : Closed part) : Encloses (block unit s) part := by
  intro before after
  have full : block unit s = "\x7b\n" ++ Text.indent unit s ++ "\n\x7d" := by
    rw [block, if_neg]
    simpa using h.ne_empty closed
  have split : before ++ block unit s ++ after =
      (before ++ "\x7b") ++ "\n" ++ (Text.indent unit s ++ "\n" ++ ("\x7d" ++ after)) := by
    rw [full, ← String.toList_inj]
    simp
  rw [split]
  exact ((h.indent blank closed).before _).after _

end Rules

end Zephirize.Text
