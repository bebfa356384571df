import Mathlib.Data.String.Basic
import Mathlib.Tactic
import Zephirize.DocBlock

/-!
# Doc blocks are cut at the boundaries of characters

A text that is kept as bytes can be cut at a byte position only if no character reaches across it.
`DocBlock.ofSlices?` reads a comment in this way: it searches the bytes for the starts of tags and
takes the text between two of them, which may fail. `ofText_slices` says that it never does, that it
reads what `DocBlock.ofText` reads, and that the pieces are the text, cut right before each tag.

* `Text.slice?` — the text between two byte positions.
* `TagUnits.starts` — the positions at which tags start, in a list of bytes or of characters.
* `TagUnits.Spells` — bytes tell the same as the characters that they encode; a byte of a character
  beyond ASCII is taken for none of the characters that matter.
* `starts_flatMap` — so the starts of tags in the bytes are where the segments of the characters
  start.
-/

namespace Zephirize

/-! ### Bytes and slices -/

namespace Text

/-- The text between two byte positions. There is none if the positions are out of order, if one of
them is inside of a character, or if one is beyond the end. -/
def slice? (s : String) (start stop : ℕ) : Option String :=
  if start ≤ stop ∧ String.Pos.Raw.IsValid s ⟨start⟩ ∧ String.Pos.Raw.IsValid s ⟨stop⟩ then
    some (String.Pos.Raw.extract s ⟨start⟩ ⟨stop⟩)
  else none

theorem slice?_append (before piece after : List Char) :
    slice? (String.ofList (before ++ piece ++ after)) (String.utf8Len before)
      (String.utf8Len before + String.utf8Len piece) = some (String.ofList piece) := by
  have first : String.Pos.Raw.IsValid (String.ofList (before ++ piece ++ after))
      ⟨String.utf8Len before⟩ := by
    refine String.Pos.Raw.isValid_iff_exists_append.2
      ⟨String.ofList before, String.ofList (piece ++ after), ?_, ?_⟩
    · rw [← String.ofList_append, List.append_assoc]
    · rw [String.rawEndPos, String.utf8ByteSize_ofList]
  have last : String.Pos.Raw.IsValid (String.ofList (before ++ piece ++ after))
      ⟨String.utf8Len before + String.utf8Len piece⟩ := by
    refine String.Pos.Raw.isValid_iff_exists_append.2
      ⟨String.ofList (before ++ piece), String.ofList after, ?_, ?_⟩
    · rw [← String.ofList_append]
    · rw [String.rawEndPos, String.utf8ByteSize_ofList, String.utf8Len_append]
  rw [slice?, if_pos ⟨Nat.le_add_right _ _, first, last⟩, String.extract_of_valid]

/-- The bytes of a text. -/
def bytes (s : String) : List UInt8 := s.toByteArray.data.toList

theorem bytes_ofList (cs : List Char) :
    bytes (String.ofList cs) = cs.flatMap String.utf8EncodeChar := by
  simp [bytes, List.utf8Encode]

theorem length_flatMap_utf8EncodeChar (cs : List Char) :
    (cs.flatMap String.utf8EncodeChar).length = String.utf8Len cs := by
  rw [← bytes_ofList, ← String.utf8ByteSize_ofList]
  rfl

end Text

/-! ### Where tags start -/

/-- How the units of a text, its bytes or its characters, are told apart. -/
structure TagUnits (α : Type) where
  /-- The unit is the sign in front of a tag. -/
  sign : α → Bool
  /-- The unit is white space of ASCII. -/
  space : α → Bool
  /-- The unit is a letter of ASCII. -/
  letter : α → Bool

namespace TagUnits

variable {α : Type} (u : TagUnits α)

/-- Characters as units. -/
def chars : TagUnits Char where
  sign c := c == '@'
  space := Text.isAsciiSpace
  letter := Char.isAlpha

/-- Bytes as units. -/
def bytes : TagUnits UInt8 where
  sign b := b == 0x40
  space b := b == 0x20 || b == 0x09 || b == 0x0a || b == 0x0c || b == 0x0d
  letter b := (0x41 ≤ b && b ≤ 0x5a) || (0x61 ≤ b && b ≤ 0x7a)

/-- A tag starts at this position: there is a sign at the start of the text or after white space, and
before a letter. -/
def startsAt (xs : List α) (i : ℕ) : Bool :=
  xs[i]?.any u.sign && (i == 0 || xs[i - 1]?.any u.space) && xs[i + 1]?.any u.letter

/-- The positions at which tags start. -/
def starts (xs : List α) : List ℕ := (List.range xs.length).filter (u.startsAt xs)

/-- The positions at which tags start in a text that begins at position `i`; `fresh` says that a tag
may start there. -/
def startsFrom (fresh : Bool) (i : ℕ) : List α → List ℕ
  | [] => []
  | x :: rest =>
    if fresh && u.sign x && rest.head?.any u.letter then
      i :: startsFrom (u.space x) (i + 1) rest
    else startsFrom (u.space x) (i + 1) rest

/-- The search goes through the text once: what it needs to know of the units before is whether the
last one is white space. -/
theorem filter_startsAt (before rest : List α) :
    (List.range' before.length rest.length).filter (u.startsAt (before ++ rest)) =
      u.startsFrom (before.getLast?.all u.space) before.length rest := by
  induction rest generalizing before with
  | nil => rfl
  | cons x rest ih =>
    have more := ih (before ++ [x])
    rw [List.append_assoc, List.singleton_append, List.length_append, List.length_singleton,
      List.getLast?_concat, Option.all_some] at more
    have fresh : (before.length == 0 || (before ++ x :: rest)[before.length - 1]?.any u.space) =
        before.getLast?.all u.space := by
      rcases List.eq_nil_or_concat before with rfl | ⟨front, last, rfl⟩
      · rfl
      · simp
    have here : u.startsAt (before ++ x :: rest) before.length =
        (before.getLast?.all u.space && u.sign x && rest.head?.any u.letter) := by
      have sign : (before ++ x :: rest)[before.length]? = some x := by simp
      have next : (before ++ x :: rest)[before.length + 1]? = rest.head? := by
        rw [List.getElem?_append_right (by omega), Nat.add_sub_cancel_left,
          List.getElem?_cons_succ, List.head?_eq_getElem?]
      rw [startsAt, fresh, sign, next, Option.any_some, Bool.and_comm (u.sign x)]
    rw [List.length_cons, List.range'_succ, List.filter_cons, here, more, startsFrom]

theorem starts_eq (xs : List α) : u.starts xs = u.startsFrom true 0 xs := by
  rw [starts, List.range_eq_range']
  exact u.filter_startsAt [] xs

/-- Units that are none of those that matter are passed over. -/
theorem startsFrom_append {xs : List α} (plain : ∀ x ∈ xs, u.sign x = false ∧ u.space x = false)
    (fresh : Bool) (i : ℕ) (rest : List α) :
    u.startsFrom fresh i (xs ++ rest) =
      u.startsFrom (fresh && xs.isEmpty) (i + xs.length) rest := by
  induction xs generalizing fresh i with
  | nil => simp
  | cons x xs ih =>
    obtain ⟨sign, space⟩ := plain x List.mem_cons_self
    have more := ih (fun y mem => plain y (List.mem_cons_of_mem x mem)) false (i + 1)
    rw [List.cons_append, startsFrom, sign, space, more]
    simp [Nat.add_assoc, Nat.add_comm 1]

/-- A character is spelled by one unit that tells the same, or by units that are none of those that
matter, if it is none of the characters that do. -/
structure Spells (encode : Char → List α) : Prop where
  spelled : ∀ c, (∃ x, encode c = [x] ∧ u.sign x = (c == '@') ∧ u.space x = Text.isAsciiSpace c ∧
      u.letter x = c.isAlpha) ∨
    (encode c ≠ [] ∧ (∀ x ∈ encode c, u.sign x = false ∧ u.space x = false ∧ u.letter x = false) ∧
      (c == '@') = false ∧ Text.isAsciiSpace c = false ∧ c.isAlpha = false)

theorem Spells.head {encode : Char → List α} (h : u.Spells encode) (cs : List Char) :
    (cs.flatMap encode).head?.any u.letter = DocBlock.startsWithLetter cs := by
  cases cs with
  | nil => rfl
  | cons c rest =>
    rw [List.flatMap_cons, DocBlock.startsWithLetter]
    rcases h.spelled c with ⟨x, spelled, -, -, letter⟩ | ⟨nonempty, plain, -, -, letter⟩
    · rw [spelled, List.singleton_append, List.head?_cons, Option.any_some, letter]
    · obtain ⟨x, more, spelled⟩ := List.exists_cons_of_ne_nil nonempty
      rw [spelled] at plain ⊢
      rw [List.cons_append, List.head?_cons, Option.any_some, (plain x List.mem_cons_self).2.2,
        letter]

end TagUnits

namespace DocBlock

/-! ### Segments of characters -/

/-- The positions at which pieces start that stand one after the other from position `i` on. -/
def offsets (size : List Char → ℕ) (i : ℕ) : List (List Char) → List ℕ
  | [] => []
  | piece :: rest => i :: offsets size (i + size piece) rest

theorem length_offsets (size : List Char → ℕ) (i : ℕ) (pieces : List (List Char)) :
    (offsets size i pieces).length = pieces.length := by
  induction pieces generalizing i with
  | nil => rfl
  | cons piece rest ih => rw [offsets, List.length_cons, ih, List.length_cons]

theorem segments_cons (fresh : Bool) (c : Char) (rest : List Char) :
    segments fresh (c :: rest) =
      if fresh && c == '@' && startsWithLetter rest then
        ([], (c :: (segments (Text.isAsciiSpace c) rest).1) ::
          (segments (Text.isAsciiSpace c) rest).2)
      else (c :: (segments (Text.isAsciiSpace c) rest).1,
        (segments (Text.isAsciiSpace c) rest).2) := rfl

/-- The segments are the text, cut into pieces. -/
theorem flatten_segments (fresh : Bool) (cs : List Char) :
    (segments fresh cs).1 ++ (segments fresh cs).2.flatten = cs := by
  induction cs generalizing fresh with
  | nil => rfl
  | cons c rest ih =>
    have more := ih (Text.isAsciiSpace c)
    rw [segments_cons]
    split_ifs
    · rw [List.nil_append, List.flatten_cons, List.cons_append, more]
    · rw [List.cons_append, more]

/-- Each segment starts with its sign. -/
theorem exists_cons_of_mem_segments {fresh : Bool} {cs segment : List Char}
    (mem : segment ∈ (segments fresh cs).2) : ∃ rest, segment = '@' :: rest := by
  induction cs generalizing fresh with
  | nil => cases mem
  | cons c rest ih =>
    rw [segments_cons] at mem
    split_ifs at mem with start
    · rcases List.mem_cons.1 mem with rfl | mem
      · simp only [Bool.and_eq_true, beq_iff_eq] at start
        exact ⟨_, by rw [start.1.2]⟩
      · exact ih mem
    · exact ih mem

/-- What stands before the first tag starts as the text does, unless a tag starts right there. -/
theorem startsWithLetter_lead (fresh : Bool) (cs : List Char) :
    startsWithLetter (segments fresh cs).1 = startsWithLetter cs := by
  cases cs with
  | nil => rfl
  | cons c rest =>
    rw [segments_cons]
    split_ifs with start
    · simp only [Bool.and_eq_true, beq_iff_eq] at start
      rw [start.1.2]
      rfl
    · rfl

/-- No tag starts in what stands before the first tag, taken by itself. -/
theorem segments_lead (fresh : Bool) (cs : List Char) :
    segments fresh (segments fresh cs).1 = ((segments fresh cs).1, []) := by
  induction cs generalizing fresh with
  | nil => rfl
  | cons c rest ih =>
    rw [segments_cons]
    split_ifs with start
    · rfl
    · rw [segments_cons, startsWithLetter_lead, if_neg start, ih]

/-- In a segment, taken by itself, one tag starts: right at its start. -/
theorem segments_segment {fresh : Bool} {cs segment : List Char}
    (mem : segment ∈ (segments fresh cs).2) : segments true segment = ([], [segment]) := by
  induction cs generalizing fresh with
  | nil => cases mem
  | cons c rest ih =>
    rw [segments_cons] at mem
    split_ifs at mem with start
    · rcases List.mem_cons.1 mem with rfl | mem
      · simp only [Bool.and_eq_true] at start
        rw [segments_cons, startsWithLetter_lead, start.1.2, start.2, segments_lead]
        rfl
      · exact ih mem
    · exact ih mem

/-- Tags start in the units of a text where the segments of its characters start. -/
theorem startsFrom_flatMap {α : Type} {u : TagUnits α} {encode : Char → List α}
    (h : u.Spells encode) (fresh : Bool) (i : ℕ) (cs : List Char) :
    u.startsFrom fresh i (cs.flatMap encode) =
      offsets (fun piece => (piece.flatMap encode).length)
        (i + ((segments fresh cs).1.flatMap encode).length) (segments fresh cs).2 := by
  induction cs generalizing fresh i with
  | nil => rfl
  | cons c rest ih =>
    have more := ih (Text.isAsciiSpace c) (i + (encode c).length)
    have size (piece : List Char) : ((c :: piece).flatMap encode).length =
        (encode c).length + (piece.flatMap encode).length := by
      rw [List.flatMap_cons, List.length_append]
    rw [List.flatMap_cons, segments_cons]
    rcases h.spelled c with ⟨x, spelled, sign, space, -⟩ | ⟨nonempty, plain, sign, space, -⟩
    · have one : (encode c).length = 1 := by rw [spelled, List.length_singleton]
      rw [one] at more size
      rw [spelled, List.singleton_append, TagUnits.startsFrom, sign, space, h.head u rest, more]
      split_ifs
      · rw [List.flatMap_nil, List.length_nil, Nat.add_zero i, offsets, size, ← Nat.add_assoc]
      · rw [size, ← Nat.add_assoc]
    · -- No tag starts at such a character, and none right behind it.
      have passed := u.startsFrom_append (fun x mem => ⟨(plain x mem).1, (plain x mem).2.1⟩) fresh i
        (rest.flatMap encode)
      rw [List.isEmpty_eq_false_iff.2 nonempty, Bool.and_false, ← space] at passed
      rw [passed, more, sign, Bool.and_false, Bool.false_and, if_neg Bool.false_ne_true, size,
        ← Nat.add_assoc]

theorem starts_flatMap {α : Type} {u : TagUnits α} {encode : Char → List α}
    (h : u.Spells encode) (cs : List Char) :
    u.starts (cs.flatMap encode) =
      offsets (fun piece => (piece.flatMap encode).length)
        ((segments true cs).1.flatMap encode).length (segments true cs).2 := by
  rw [u.starts_eq, startsFrom_flatMap h, Nat.zero_add]

/-! ### Characters and bytes as units -/

theorem spells_chars : TagUnits.chars.Spells fun c => [c] :=
  ⟨fun c => .inl ⟨c, rfl, rfl, rfl, rfl⟩⟩

/-- The bytes of a character beyond ASCII are beyond ASCII. -/
theorem le_of_mem_utf8EncodeChar {c : Char} (wide : 128 ≤ c.toNat) {b : UInt8}
    (mem : b ∈ String.utf8EncodeChar c) : 128 ≤ b.toNat := by
  have value : c.val.toNat = c.toNat := rfl
  have lead (n k : ℕ) (high : 128 ≤ k) (fits : n + k < 256) : 128 ≤ (UInt8.ofNat (n + k)).toNat := by
    rw [UInt8.toNat_ofNat']
    omega
  simp only [String.utf8EncodeChar, value] at mem
  split_ifs at mem with narrow
  · omega
  all_goals
    simp only [List.mem_cons, List.not_mem_nil, or_false] at mem
    casesm* _ ∨ _ <;> subst mem <;> apply lead <;> omega

/-- Characters of ASCII are single bytes that tell the same. -/
theorem spells_ascii {c : Char} (narrow : c.toNat < 128) :
    String.utf8EncodeChar c = [UInt8.ofNat c.toNat] ∧
      TagUnits.bytes.sign (UInt8.ofNat c.toNat) = (c == '@') ∧
      TagUnits.bytes.space (UInt8.ofNat c.toNat) = Text.isAsciiSpace c ∧
      TagUnits.bytes.letter (UInt8.ofNat c.toNat) = c.isAlpha := by
  have all : (List.range 128).all fun n =>
      String.utf8EncodeChar (Char.ofNat n) == [UInt8.ofNat n] &&
        (TagUnits.bytes.sign (UInt8.ofNat n) == (Char.ofNat n == '@')) &&
        (TagUnits.bytes.space (UInt8.ofNat n) == Text.isAsciiSpace (Char.ofNat n)) &&
        (TagUnits.bytes.letter (UInt8.ofNat n) == (Char.ofNat n).isAlpha) := by decide
  have this := List.all_eq_true.1 all c.toNat (List.mem_range.2 narrow)
  rw [Char.ofNat_toNat] at this
  simpa only [Bool.and_eq_true, beq_iff_eq, and_assoc] using this

/-- Bytes beyond ASCII are none of those that matter. -/
theorem bytes_plain {b : UInt8} (high : 128 ≤ b.toNat) : TagUnits.bytes.sign b = false ∧
    TagUnits.bytes.space b = false ∧ TagUnits.bytes.letter b = false := by
  have all : (List.range 128).all fun n =>
      !TagUnits.bytes.sign (UInt8.ofNat (128 + n)) && !TagUnits.bytes.space (UInt8.ofNat (128 + n)) &&
        !TagUnits.bytes.letter (UInt8.ofNat (128 + n)) := by decide
  have bound : b.toNat - 128 < 128 := by
    have := b.toNat_lt
    omega
  have this := List.all_eq_true.1 all _ (List.mem_range.2 bound)
  rw [Nat.add_sub_cancel' high, UInt8.ofNat_toNat] at this
  simpa only [Bool.and_eq_true, Bool.not_eq_true', and_assoc] using this

/-- The characters that matter are characters of ASCII. -/
theorem ascii_of_matters {c : Char}
    (h : (c == '@') = true ∨ Text.isAsciiSpace c = true ∨ c.isAlpha = true) : c.toNat < 128 := by
  rcases h with sign | space | letter
  · rw [beq_iff_eq.1 sign]
    decide
  · simp only [Text.isAsciiSpace, Bool.or_eq_true, beq_iff_eq] at space
    rcases space with (((rfl | rfl) | rfl) | rfl) | rfl <;> decide
  · have bounds : (decide (c.val ≥ 'A'.val ∧ c.val ≤ 'Z'.val) ||
        (decide (c.val ≥ 'a'.val) && decide (c.val ≤ 'z'.val))) = true := letter
    have range : (65 ≤ c.toNat ∧ c.toNat ≤ 90) ∨ (97 ≤ c.toNat ∧ c.toNat ≤ 122) := by
      simpa [UInt32.le_iff_toNat_le] using bounds
    omega

theorem spells_bytes : TagUnits.bytes.Spells String.utf8EncodeChar := by
  refine ⟨fun c => ?_⟩
  by_cases narrow : c.toNat < 128
  · exact .inl ⟨_, spells_ascii narrow⟩
  · have other {b : Bool} (h : b = true → c.toNat < 128) : b = false :=
      Bool.eq_false_iff.2 fun holds => narrow (h holds)
    exact .inr ⟨String.utf8EncodeChar_ne_nil,
      fun b mem => bytes_plain (le_of_mem_utf8EncodeChar (by omega) mem),
      other fun h => ascii_of_matters (.inl h), other fun h => ascii_of_matters (.inr (.inl h)),
      other fun h => ascii_of_matters (.inr (.inr h))⟩

/-- The byte positions at which tags start. -/
def tagOffsets (text : String) : List ℕ := TagUnits.bytes.starts (Text.bytes text)

theorem tagOffsets_ofList (cs : List Char) :
    tagOffsets (String.ofList cs) =
      offsets String.utf8Len (String.utf8Len (segments true cs).1) (segments true cs).2 := by
  have size : (fun piece : List Char => (piece.flatMap String.utf8EncodeChar).length) =
      String.utf8Len := funext Text.length_flatMap_utf8EncodeChar
  rw [tagOffsets, Text.bytes_ofList, starts_flatMap spells_bytes, size,
    Text.length_flatMap_utf8EncodeChar]

/-- The signs that start tags are as many as the segments. -/
theorem length_starts_chars (cs : List Char) :
    (TagUnits.chars.starts cs).length = (segments true cs).2.length := by
  have same : cs.flatMap (fun c => [c]) = cs := List.flatMap_singleton' cs
  rw [← length_offsets, ← starts_flatMap spells_chars, same]

/-! ### Reading slices -/

/-- Each start with what it reaches to: the next start, or else the end. -/
def spans (stop : ℕ) : List ℕ → List (ℕ × ℕ)
  | [] => []
  | start :: rest => (start, rest.headD stop) :: spans stop rest

/-- The doc block of a comment, read by cutting its text at byte positions. The summary reaches to
the first start of a tag, and a tag from behind its sign to the next start. -/
def ofSlices? (comment : String) : Option DocBlock := do
  let text := body comment
  let starts := tagOffsets text
  let summary ← Text.slice? text 0 (starts.headD text.utf8ByteSize)
  let tags ← (spans text.utf8ByteSize starts).mapM fun span => Text.slice? text (span.1 + 1) span.2
  return ⟨Text.trim summary, tags.map fun tag => DocTag.ofSegment tag.toList⟩

theorem headD_offsets (i : ℕ) (pieces : List (List Char)) :
    (offsets String.utf8Len i pieces).headD (i + String.utf8Len pieces.flatten) = i := by
  cases pieces <;> rfl

/-- Pieces that stand one after the other are cut out, each without as many characters at its start
as all of them have there. -/
theorem mapM_slice? (skipped before : List Char) (pieces : List (List Char)) :
    (spans (String.utf8Len before + String.utf8Len (pieces.map (skipped ++ ·)).flatten)
        (offsets String.utf8Len (String.utf8Len before) (pieces.map (skipped ++ ·)))).mapM
      (fun span => Text.slice? (String.ofList (before ++ (pieces.map (skipped ++ ·)).flatten))
        (span.1 + String.utf8Len skipped) span.2) = some (pieces.map String.ofList) := by
  induction pieces generalizing before with
  | nil => rfl
  | cons piece rest ih =>
    have more := ih (before ++ (skipped ++ piece))
    rw [List.append_assoc, String.utf8Len_append, Nat.add_assoc] at more
    have stop := headD_offsets (String.utf8Len before + String.utf8Len (skipped ++ piece))
      (rest.map (skipped ++ ·))
    rw [Nat.add_assoc] at stop
    have first : Text.slice?
        (String.ofList (before ++ (skipped ++ piece ++ (rest.map (skipped ++ ·)).flatten)))
        (String.utf8Len before + String.utf8Len skipped)
        (String.utf8Len before + String.utf8Len (skipped ++ piece)) = some (String.ofList piece) := by
      have cut := Text.slice?_append (before ++ skipped) piece (rest.map (skipped ++ ·)).flatten
      simpa only [String.utf8Len_append, List.append_assoc, Nat.add_assoc] using cut
    rw [List.map_cons, List.flatten_cons, String.utf8Len_append, offsets, spans, List.mapM_cons, stop]
    dsimp only
    rw [first, more]
    rfl

/-- The summary, the segments, and the segments without their signs are cut out of the text. -/
theorem slices_segments (cs : List Char) :
    let text := String.ofList cs
    let starts := tagOffsets text
    Text.slice? text 0 (starts.headD text.utf8ByteSize) =
        some (String.ofList (segments true cs).1) ∧
      (spans text.utf8ByteSize starts).mapM (fun span => Text.slice? text span.1 span.2) =
        some ((segments true cs).2.map String.ofList) ∧
      (spans text.utf8ByteSize starts).mapM (fun span => Text.slice? text (span.1 + 1) span.2) =
        some ((segments true cs).2.map fun segment => String.ofList (segment.drop 1)) := by
  intro text starts
  have flat := flatten_segments true cs
  have signs : ∀ segment ∈ (segments true cs).2, ∃ rest, segment = '@' :: rest :=
    fun _ => exists_cons_of_mem_segments
  have starts_eq : starts = _ := tagOffsets_ofList cs
  have text_eq : text = String.ofList cs := rfl
  generalize (segments true cs).1 = lead at flat starts_eq ⊢
  generalize (segments true cs).2 = tags at flat signs starts_eq ⊢
  have size : text.utf8ByteSize = String.utf8Len lead + String.utf8Len tags.flatten := by
    rw [text_eq, String.utf8ByteSize_ofList, ← flat, String.utf8Len_append]
  rw [size, starts_eq, headD_offsets, text_eq, ← flat]
  refine ⟨?_, ?_, ?_⟩
  · have cut := Text.slice?_append [] lead tags.flatten
    rwa [List.nil_append, String.utf8Len_nil, Nat.zero_add] at cut
  · have cut := mapM_slice? [] lead tags
    have whole : tags.map ([] ++ ·) = tags := List.map_id tags
    rwa [whole] at cut
  · have cut := mapM_slice? ['@'] lead (tags.map (List.drop 1))
    have whole : (tags.map (List.drop 1)).map (['@'] ++ ·) = tags := by
      rw [List.map_map]
      refine List.map_congr_left (fun segment mem => ?_) |>.trans (List.map_id tags)
      obtain ⟨rest, rfl⟩ := signs segment mem
      rfl
    have one : String.utf8Len ['@'] = 1 := rfl
    rwa [whole, one, List.map_map] at cut

/-- A type and what follows it are cut out of the text of a tag. -/
theorem splitType_append (depth : ℕ) (cs : List Char) :
    (DocTag.splitType depth cs).1 ++ (DocTag.splitType depth cs).2 = cs := by
  induction cs generalizing depth with
  | nil => rfl
  | cons c rest ih =>
    rw [DocTag.splitType]
    split
    · rfl
    · exact congrArg (c :: ·) (ih _)

theorem slice?_nextType (cs : List Char) :
    Text.slice? (String.ofList (Text.Chars.trimStart cs)) 0
        (String.utf8Len (DocTag.nextType cs).1) = some (String.ofList (DocTag.nextType cs).1) ∧
      Text.slice? (String.ofList (Text.Chars.trimStart cs)) (String.utf8Len (DocTag.nextType cs).1)
        (String.utf8Len (Text.Chars.trimStart cs)) = some (String.ofList (DocTag.nextType cs).2) := by
  have text : (DocTag.nextType cs).1 ++ (DocTag.nextType cs).2 = Text.Chars.trimStart cs :=
    splitType_append 0 _
  have first := Text.slice?_append [] (DocTag.nextType cs).1 (DocTag.nextType cs).2
  have last := Text.slice?_append (DocTag.nextType cs).1 (DocTag.nextType cs).2 []
  rw [List.nil_append, text, String.utf8Len_nil, Nat.zero_add] at first
  rw [List.append_nil, ← String.utf8Len_append, text] at last
  exact ⟨first, last⟩

/-- Doc blocks are read by cutting the text of a comment at byte positions that are boundaries of
characters. The pieces are what stands before the first tag and one segment for each tag; they are
the text, cut where tags start and nowhere else, and there are as many tags as signs that start
one. -/
theorem ofText_slices (comment : String) :
    let text := body comment
    let starts := tagOffsets text
    ofSlices? comment = some (ofText comment) ∧
      (∃ lead segments, Text.slice? text 0 (starts.headD text.utf8ByteSize) = some lead ∧
        (spans text.utf8ByteSize starts).mapM (fun span => Text.slice? text span.1 span.2) =
          some segments ∧
        lead ++ String.join segments = text ∧
        tagOffsets lead = [] ∧ ∀ segment ∈ segments, tagOffsets segment = [0]) ∧
      (ofText comment).tags.length = (TagUnits.chars.starts text.toList).length ∧
      ∀ rest : List Char,
        Text.slice? (String.ofList (Text.Chars.trimStart rest)) 0
          (String.utf8Len (DocTag.nextType rest).1) = some (String.ofList (DocTag.nextType rest).1) ∧
        Text.slice? (String.ofList (Text.Chars.trimStart rest))
          (String.utf8Len (DocTag.nextType rest).1) (String.utf8Len (Text.Chars.trimStart rest)) =
            some (String.ofList (DocTag.nextType rest).2) := by
  obtain ⟨cs, chars⟩ : ∃ cs, cs = (body comment).toList := ⟨_, rfl⟩
  have written : body comment = String.ofList cs := by rw [chars, String.ofList_toList]
  have read : ofText comment = ⟨String.ofList (Text.Chars.trim (segments true cs).1),
      (segments true cs).2.map fun segment => DocTag.ofSegment (segment.drop 1)⟩ := by
    rw [chars]
    rfl
  obtain ⟨summary, whole, cut⟩ := slices_segments cs
  dsimp only
  rw [ofSlices?, written, read]
  dsimp only
  refine ⟨?_, ⟨_, _, summary, whole, ?_, ?_, ?_⟩, ?_, slice?_nextType⟩
  · rw [summary, cut]
    simp [Text.trim]
  · rw [← String.toList_inj]
    simp [List.flatMap_map, List.flatMap_id', flatten_segments]
  · rw [tagOffsets_ofList, segments_lead]
    rfl
  · intro segment mem
    obtain ⟨piece, inside, rfl⟩ := List.mem_map.1 mem
    rw [tagOffsets_ofList, segments_segment inside]
    rfl
  · rw [List.length_map, String.toList_ofList, length_starts_chars]

end DocBlock

end Zephirize
