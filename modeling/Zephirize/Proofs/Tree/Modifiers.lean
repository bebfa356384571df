import Mathlib.Data.List.TakeWhile
import Mathlib.Tactic
import Zephirize.Tree.Modifiers

/-!
# The text of modifiers

All 256 sets of bits are read back from their text. The text is made of words without bars and
white space, so that splitting it at the bars and trimming gives the words again
(`map_trim_splitOn`). Each word is read as the bits it was written for, and together the words
cover all bits.
-/

namespace Zephirize

/-- Reading succeeds for a list when it does for each of its items. -/
theorem mapM_eq_some {α β : Type} {read : α → Option β} {value : α → β} {items : List α}
    (h : ∀ a ∈ items, read a = some (value a)) : items.mapM read = some (items.map value) := by
  induction items with
  | nil => rfl
  | cons a rest ih =>
    have first := h a List.mem_cons_self
    have others := ih fun b mem => h b (List.mem_cons_of_mem a mem)
    simp [first, others]

namespace Text

theorem Chars.splitOn_eq (sep : Char) (cs : List Char) : Chars.splitOn sep cs = cs.splitOn sep := by
  induction cs with
  | nil => rfl
  | cons c rest ih =>
    obtain ⟨part, more, split⟩ := List.exists_cons_of_ne_nil (List.splitOn_ne_nil sep rest)
    rw [Chars.splitOn, List.splitOn_cons_eq_if_modifyHead, ih, split]
    by_cases h : c = sep <;> simp [h]

/-- White space in front of another character is dropped. -/
theorem Chars.dropWhile_pad {pad cs : List Char} (spaces : ∀ c ∈ pad, isSpace c = true)
    (first : ∀ c ∈ cs.head?, isSpace c = false) : (pad ++ cs).dropWhile isSpace = cs := by
  rw [List.dropWhile_append_of_pos spaces]
  cases cs with
  | nil => rfl
  | cons c rest => rw [List.dropWhile_cons_of_neg (by simp [first c rfl])]

/-- White space around a word is trimmed off. -/
theorem Chars.trim_pad (left right : List Char) {cs : List Char}
    (before : ∀ c ∈ left, isSpace c = true) (after : ∀ c ∈ right, isSpace c = true)
    (nonempty : cs ≠ []) (h : ∀ c ∈ cs, isSpace c = false) :
    Chars.trim (left ++ cs ++ right) = cs := by
  have start : trimStart (left ++ cs ++ right) = cs ++ right := by
    rw [trimStart, List.append_assoc]
    refine dropWhile_pad before fun c mem => h c ?_
    rw [List.head?_append_of_ne_nil _ nonempty] at mem
    exact List.mem_of_mem_head? mem
  have finish : trimEnd (cs ++ right) = cs := by
    rw [trimEnd, List.reverse_append, dropWhile_pad, List.reverse_reverse]
    · exact fun c mem => after c (List.mem_reverse.1 mem)
    · exact fun c mem => h c (List.mem_reverse.1 (List.mem_of_mem_head? mem))
  rw [trim, start, finish]

/-- The text is not empty and has neither bars nor white space. -/
def IsWord (s : String) : Prop :=
  s.toList ≠ [] ∧ s.toList.all (fun c => !isSpace c && c != '|') = true

instance (s : String) : Decidable (IsWord s) := inferInstanceAs (Decidable (_ ∧ _))

theorem IsWord.not_space {s : String} (h : IsWord s) : ∀ c ∈ s.toList, isSpace c = false := by
  intro c mem
  have char := List.all_eq_true.1 h.2 c mem
  simp_all

theorem IsWord.no_bar {s : String} (h : IsWord s) : '|' ∉ s.toList := by
  intro mem
  have char := List.all_eq_true.1 h.2 '|' mem
  simp at char

/-- Words joined by bars with blanks around them are split again. The first word may have white
space in front of it, as each word after a bar has. -/
theorem Chars.map_trim_splitOn {words : List String} (h : ∀ s ∈ words, IsWord s)
    (nonempty : words ≠ []) (left : List Char) (before : ∀ c ∈ left, isSpace c = true)
    (bar : '|' ∉ left) :
    (Chars.splitOn '|' (left ++ (" | ".intercalate words).toList)).map Chars.trim =
      words.map String.toList := by
  induction words generalizing left with
  | nil => exact absurd rfl nonempty
  | cons s rest ih =>
    have first := h s List.mem_cons_self
    have blank : ∀ c ∈ [' '], isSpace c = true := List.forall_mem_singleton.2 rfl
    cases rest with
    | nil =>
      have word := trim_pad left [] before (by simp) first.1 first.not_space
      rw [String.intercalate_singleton, splitOn_eq,
        List.splitOn_eq_singleton (by simp [bar, first.no_bar])]
      simpa using word
    | cons t rest =>
      have word := trim_pad left [' '] before blank first.1 first.not_space
      have others := ih (fun s' mem => h s' (List.mem_cons_of_mem s mem)) (by simp) [' '] blank
        (by simp)
      rw [splitOn_eq] at others ⊢
      have text : left ++ (" | ".intercalate (s :: t :: rest)).toList =
          (left ++ s.toList ++ [' ']) ++
            '|' :: ([' '] ++ (" | ".intercalate (t :: rest)).toList) := by
        simp [String.intercalate_cons_cons]
      rw [text, List.splitOn_append_cons_self_of_not_mem (by simp [bar, first.no_bar]),
        List.map_cons, word, others, List.map_cons, List.map_cons, List.map_cons]

theorem map_trim_splitOn {words : List String} (h : ∀ s ∈ words, IsWord s) (nonempty : words ≠ []) :
    (splitOn '|' (" | ".intercalate words)).map trim = words := by
  have chars := Chars.map_trim_splitOn h nonempty [] (by simp) (by simp)
  have texts := congrArg (List.map String.ofList) chars
  simpa [splitOn, trim, Function.comp_def] using texts

/-- Trimming keeps a text that is not blank. -/
theorem Chars.trim_ne_nil {cs : List Char} {c : Char} (mem : c ∈ cs) (h : isSpace c = false) :
    Chars.trim cs ≠ [] := by
  intro empty
  have spaces : ∀ d ∈ trimStart cs, isSpace d = true := by
    simpa [trim, trimEnd, List.dropWhile_eq_nil_iff] using empty
  rw [← List.takeWhile_append_dropWhile (p := isSpace) (l := cs), List.mem_append] at mem
  rcases mem with mem | mem
  · simp [List.mem_takeWhile_imp mem] at h
  · simp [spaces c mem] at h

end Text

namespace Modifiers

/-- The words of the text, each with the bits that it stands for. -/
def parts (m : Modifiers) : List (Modifiers × String) :=
  (flags.filter fun flag => m.has flag.1).map (fun flag => (⟨flag.1⟩, flag.2)) ++
    if m.unnamed = 0 then []
    else [(⟨m.unnamed⟩, "0x" ++ String.ofList (Nat.toDigits 16 m.unnamed.toNat))]

theorem text_eq (m : Modifiers) : m.text = " | ".intercalate (m.parts.map (·.2)) := by
  by_cases h : m.unnamed = 0 <;> simp [text, parts, h, Function.comp_def]

/-- The parts cover all bits. -/
theorem foldl_union (m : Modifiers) : (m.parts.map (·.1)).foldl union empty = m := by
  have all : ∀ b : Fin 256, ((parts ⟨⟨⟨b⟩⟩⟩).map (·.1)).foldl union empty = ⟨⟨⟨b⟩⟩⟩ := by
    decide +kernel
  exact all m.bits.toBitVec.toFin

/-- Only the two highest bits have no flag. -/
theorem unnamed_cases (m : Modifiers) :
    m.unnamed = 0 ∨ m.unnamed = 0x40 ∨ m.unnamed = 0x80 ∨ m.unnamed = 0xC0 := by
  have all : ∀ b : Fin 256, unnamed ⟨⟨⟨b⟩⟩⟩ ∈ [0, 0x40, 0x80, 0xC0] := by decide +kernel
  simpa using all m.bits.toBitVec.toFin

/-- A part is a word that is read as its bits. -/
theorem flag?_of_mem_parts {m : Modifiers} {part : Modifiers × String} (h : part ∈ m.parts) :
    Text.IsWord part.2 ∧ flag? part.2 = some part.1 := by
  rw [parts, List.mem_append] at h
  rcases h with h | h
  · have named : ∀ flag ∈ flags, Text.IsWord flag.2 ∧ flag? flag.2 = some ⟨flag.1⟩ := by
      decide +kernel
    obtain ⟨flag, mem, rfl⟩ := List.mem_map.1 h
    exact named flag (List.mem_of_mem_filter mem)
  · rcases m.unnamed_cases with eq | eq | eq | eq
    · simp [eq] at h
    all_goals
      rw [eq, if_neg (by decide), List.mem_singleton] at h
      subst h
      decide +kernel

/-- The text is blank only when there is no part. -/
theorem trim_text_ne_empty {m : Modifiers} {part : Modifiers × String}
    {rest : List (Modifiers × String)} (h : m.parts = part :: rest) :
    (Text.trim m.text).isEmpty = false := by
  have first := (flag?_of_mem_parts (h ▸ List.mem_cons_self : part ∈ m.parts)).1
  obtain ⟨c, letters, word⟩ := List.exists_cons_of_ne_nil first.1
  have mem : c ∈ m.text.toList := by
    rw [text_eq, h]
    cases rest <;> simp [String.intercalate_cons_cons, word]
  have kept := Text.Chars.trim_ne_nil mem (first.not_space c (by simp [word]))
  simpa [Text.trim] using kept

/-- Modifiers are read back from their text. -/
theorem ofText?_text (m : Modifiers) : ofText? m.text = some m := by
  cases h : m.parts with
  | nil =>
    have bits := m.foldl_union
    rw [text_eq, h, ← bits, h]
    rfl
  | cons part rest =>
    have words : ∀ s ∈ m.parts.map (·.2), Text.IsWord s :=
      List.forall_mem_map.2 fun part mem => (flag?_of_mem_parts mem).1
    have split := Text.map_trim_splitOn words (by simp [h])
    have read : (Text.splitOn '|' m.text).mapM (fun part => flag? (Text.trim part)) =
        some (m.parts.map (·.1)) :=
      calc (Text.splitOn '|' m.text).mapM (fun part => flag? (Text.trim part))
        _ = ((Text.splitOn '|' m.text).map Text.trim).mapM flag? := by
          simp only [List.mapM_map, Function.comp_def]
        _ = (m.parts.map (·.2)).mapM flag? := by rw [text_eq, split]
        _ = m.parts.mapM fun part => flag? part.2 := by
          simp only [List.mapM_map, Function.comp_def]
        _ = some (m.parts.map (·.1)) := mapM_eq_some fun part mem => (flag?_of_mem_parts mem).2
    rw [ofText?, trim_text_ne_empty h, if_neg (by simp), read]
    exact congrArg some m.foldl_union

end Modifiers

end Zephirize
