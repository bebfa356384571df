import Zephirize.Proofs.Tree.Modifiers
import Zephirize.Tree.Name

/-!
# The text of qualified names

A name whose parts are not empty and have no separator inside is read back from its text
(`Name.ofString_text`). The names that are read from texts are exactly these, so reading and writing
is settled after one turn (`Name.reading_settles`).
-/

namespace Zephirize

/-- No part has the separator inside. -/
theorem Text.Chars.notMem_of_mem_splitOn {sep : Char} {cs part : List Char}
    (mem : part ∈ splitOn sep cs) : sep ∉ part := by
  induction cs generalizing part with
  | nil =>
    rw [List.mem_singleton.1 mem]
    exact List.not_mem_nil
  | cons c rest ih =>
    rw [splitOn] at mem
    split_ifs at mem with here
    · rcases List.mem_cons.1 mem with rfl | mem
      · exact List.not_mem_nil
      · exact ih mem
    · have apart : sep ∉ [c] := by simpa using Ne.symm here
      cases parts : splitOn sep rest with
      | nil =>
        rw [parts] at mem
        rwa [List.mem_singleton.1 mem]
      | cons first more =>
        rw [parts] at mem ih
        rcases List.mem_cons.1 mem with rfl | mem
        · exact List.not_mem_append apart (ih List.mem_cons_self)
        · exact ih (List.mem_cons_of_mem first mem)

namespace Name

/-- The parts can be told apart in the text of the name. -/
def IsPlain (n : Name) : Prop := ∀ p ∈ n.parts, p ≠ "" ∧ separator ∉ p.toList

theorem toList_joined (n : Name) :
    n.joined.toList = [separator].intercalate (n.parts.map String.toList) :=
  String.toList_intercalate

/-- A character of the text separates parts or stands in one of them. -/
theorem mem_text {n : Name} {c : Char} (mem : c ∈ n.text.toList) :
    c = separator ∨ ∃ p ∈ n.parts, c ∈ p.toList := by
  have inside : ∀ parts : List String, c ∈ [separator].intercalate (parts.map String.toList) →
      c = separator ∨ ∃ p ∈ parts, c ∈ p.toList := by
    intro parts mem
    induction parts with
    | nil => simp at mem
    | cons p rest ih =>
      cases rest with
      | nil => exact .inr ⟨p, List.mem_cons_self, by simpa using mem⟩
      | cons q rest =>
        simp only [List.map_cons, List.intercalate_cons_cons, List.mem_append,
          List.mem_singleton] at mem
        rcases mem with (mem | mem) | mem
        · exact .inr ⟨p, List.mem_cons_self, mem⟩
        · exact .inl mem
        · exact (ih mem).imp_right fun ⟨r, hr, h⟩ => ⟨r, List.mem_cons_of_mem p hr, h⟩
  rw [text] at mem
  split at mem
  · rw [String.toList_append, List.mem_append, toList_joined] at mem
    rcases mem with mem | mem
    · exact .inl (List.mem_singleton.1 mem)
    · exact inside n.parts mem
  · rw [toList_joined] at mem
    exact inside n.parts mem

/-- The joined parts are taken apart again, whether there are any or not. -/
theorem parts_joined {n : Name} (h : n.IsPlain) :
    (Text.splitOn separator n.joined).filter (!·.isEmpty) = n.parts := by
  have words : n.parts.filter (!·.isEmpty) = n.parts := by
    refine List.filter_eq_self.2 fun p mem => ?_
    simpa using (h p mem).1
  by_cases empty : n.parts = []
  · rw [joined, empty]
    rfl
  · have apart : ∀ cs ∈ n.parts.map String.toList, separator ∉ cs := by
      intro cs mem
      obtain ⟨p, hp, rfl⟩ := List.mem_map.1 mem
      exact (h p hp).2
    rw [Text.splitOn, Text.Chars.splitOn_eq, toList_joined,
      List.splitOn_intercalate separator apart (by simpa using empty), List.map_map]
    simpa [Function.comp_def] using words

/-- The joined parts do not start with a separator. -/
theorem head?_joined {n : Name} (h : n.IsPlain) : n.joined.toList.head? ≠ some separator := by
  rw [toList_joined]
  rcases n with ⟨parts, flag⟩
  cases parts with
  | nil => simp
  | cons p rest =>
    obtain ⟨nonempty, apart⟩ := h p List.mem_cons_self
    have chars : p.toList ≠ [] := by simpa using nonempty
    obtain ⟨c, more, first⟩ := List.exists_cons_of_ne_nil chars
    have start : ([separator].intercalate ((p :: rest).map String.toList)).head? = some c := by
      cases rest with
      | nil => simp [first]
      | cons q rest => simp [List.intercalate_cons_cons, first]
    rw [start]
    rintro ⟨⟩
    exact apart (by simp [first])

/-- A name is read back from its text. -/
theorem ofString_text {n : Name} (h : n.IsPlain) : ofString n.text = n := by
  have parts := parts_joined h
  have head := head?_joined h
  rcases n with ⟨words, flag⟩
  cases flag with
  | false =>
    have text : text ⟨words, false⟩ = joined ⟨words, false⟩ := rfl
    rw [ofString, text, parts]
    simpa using head
  | true =>
    have text : (text ⟨words, true⟩).toList = separator :: (joined ⟨words, true⟩).toList := by
      rw [Name.text, if_pos rfl, String.toList_append]
      rfl
    have split : Text.splitOn separator (Name.text ⟨words, true⟩) =
        "" :: Text.splitOn separator (joined ⟨words, true⟩) := by
      rw [Text.splitOn, text, Text.Chars.splitOn, if_pos rfl]
      rfl
    rw [ofString, split, text, List.filter_cons_of_neg (by simp), parts]
    rfl

/-- However many separators a text has, the name it spells is plain. -/
theorem isPlain_ofString (s : String) : (ofString s).IsPlain := by
  intro p mem
  obtain ⟨split, nonempty⟩ := List.mem_filter.1 mem
  obtain ⟨part, found, rfl⟩ := List.mem_map.1 split
  refine ⟨by simpa using nonempty, ?_⟩
  rw [String.toList_ofList]
  exact Text.Chars.notMem_of_mem_splitOn found

/-- The names that come back from their texts are those with parts that are not empty and have no
separator inside. A name that was read from a text, whatever separators it has, is one of them. -/
theorem reading_settles :
    (∀ n : Name, ofString n.text = n ↔ ∀ p ∈ n.parts, p ≠ "" ∧ '\\' ∉ p.toList) ∧
      ∀ s : String, ofString (ofString s).text = ofString s := by
  refine ⟨fun n => ⟨fun back => ?_, fun plain => ofString_text plain⟩, fun s => ?_⟩
  · rw [← back]
    exact isPlain_ofString n.text
  · exact ofString_text (isPlain_ofString s)

end Name

end Zephirize
