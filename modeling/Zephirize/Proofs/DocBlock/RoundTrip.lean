import Mathlib.Tactic
import Zephirize.DocBlock
import Zephirize.Proofs.Tree.Modifiers

/-!
# Doc tags are read back

The tags of a signature give types to parameters, to the result and to exceptions. They are written
in one of two ways: on lines of their own with a star in front (`blockText`), or one after the other
on a single line (`lineText`). Reading undoes both (`ofText_written`).

Reading goes through three stages. The markers of the comment and the stars are stripped, which
leaves the tags with one white-space character between them (`body_blockText`, `body_lineText`); the
text is cut where a tag starts, which is nowhere inside a tag (`Reads`); and from each piece the type
and the variable are taken, where the type reaches to the first white space outside of brackets
(`splitType_sealed`).
-/

namespace Zephirize

/-! ### Tags and their texts -/

namespace DocTag

/-- The number of open brackets after a character. A closing bracket without an open one does not
count. -/
def depthAfter (depth : ℕ) (c : Char) : ℕ :=
  if isOpening c then depth + 1 else if isClosing c then depth - 1 else depth

/-- White space stands inside of brackets only, where `depth` brackets are open in front. -/
def spacesInside (depth : ℕ) : List Char → Bool
  | [] => true
  | c :: rest => (!Text.isSpace c || 0 < depth) && spacesInside (depthAfter depth c) rest

end DocTag

/-- A type that a tag can give. -/
structure TypeText where
  text : String
  nonempty : text ≠ ""
  oneLine : '\n' ∉ text.toList ∧ '\r' ∉ text.toList
  untagged : '@' ∉ text.toList
  spaced : DocTag.spacesInside 0 text.toList = true
  /-- No bracket is open at the end. -/
  closed : text.toList.foldl DocTag.depthAfter 0 = 0

/-- The name of a variable, without its dollar sign. Identifiers are such names, as they are made of
letters, digits and underscores. -/
structure VariableName where
  text : String
  solid : text.toList.all (!Text.isSpace ·) = true
  untagged : '@' ∉ text.toList

/-- A tag of a signature. -/
inductive SignatureTag where
  /-- The type of a parameter; it does not look like a variable. -/
  | param (type : TypeText) (typed : DocTag.isVariable type.text.toList = false)
      (var : VariableName)
  | returns (type : TypeText)
  | throws (type : TypeText)

namespace SignatureTag

/-- The tag as it is read. -/
def tag : SignatureTag → DocTag
  | .param type _ var => .param type.text ("$" ++ var.text)
  | .returns type => .returns type.text
  | .throws type => .throws type.text

/-- The word after the `@`. -/
def keyword : SignatureTag → String
  | .param .. => "param"
  | .returns _ => "return"
  | .throws _ => "throws"

/-- What follows the word. -/
def content : SignatureTag → String
  | .param type _ var => type.text ++ " $" ++ var.text
  | .returns type => type.text
  | .throws type => type.text

/-- The text of the tag. -/
def written (t : SignatureTag) : String := "@" ++ t.keyword ++ " " ++ t.content

/-- The text of the tag on a line of its own. -/
def starred (t : SignatureTag) : String := " * " ++ t.written

/-- The type that the tag gives to the parameter with this name. -/
def typeFor? (name : String) : SignatureTag → Option String
  | .param type _ var => if var.text = name then some type.text else none
  | _ => none

/-- The type that the tag gives to the result. -/
def resultType? : SignatureTag → Option String
  | .returns type => some type.text
  | _ => none

end SignatureTag

/-- The doc comment with each tag on a line of its own. -/
def blockText (tags : List SignatureTag) : String :=
  "/**\n" ++ String.join (tags.map fun t => t.starred ++ "\n") ++ " */"

/-- The tags with a blank between them. -/
def spacedText (tags : List SignatureTag) : String :=
  " ".intercalate (tags.map SignatureTag.written)

/-- The doc comment with all tags on one line. -/
def lineText (tags : List SignatureTag) : String := "/** " ++ spacedText tags ++ " */"

/-- The two ways to write tags. -/
inductive TagLayout where
  | block
  | line

/-- The doc comment of these tags. -/
def TagLayout.comment : TagLayout → List SignatureTag → String
  | .block => blockText
  | .line => lineText

/-! ### White space and lines -/

namespace Text

namespace Chars

theorem trimStart_of_head {cs : List Char} (h : ∀ c ∈ cs.head?, isSpace c = false) :
    trimStart cs = cs := by
  cases cs with
  | nil => rfl
  | cons c rest => exact List.dropWhile_cons_of_neg (by simp [h c rfl])

/-- White space around a text is trimmed off, while that inside stays. -/
theorem trim_around (left right : List Char) {cs : List Char} (before : ∀ c ∈ left, isSpace c = true)
    (after : ∀ c ∈ right, isSpace c = true) (nonempty : cs ≠ [])
    (first : ∀ c ∈ cs.head?, isSpace c = false) (last : ∀ c ∈ cs.getLast?, isSpace c = false) :
    trim (left ++ cs ++ right) = cs := by
  have start : trimStart (left ++ cs ++ right) = cs ++ right := by
    rw [trimStart, List.append_assoc]
    refine dropWhile_pad before fun c mem => first c ?_
    rwa [List.head?_append_of_ne_nil _ nonempty] at mem
  have finish : trimEnd (cs ++ right) = cs := by
    rw [trimEnd, List.reverse_append, dropWhile_pad, List.reverse_reverse]
    · exact fun c mem => after c (List.mem_reverse.1 mem)
    · exact fun c mem => last c (by rwa [List.head?_reverse] at mem)
  rw [trim, start, finish]

theorem trim_spaces {cs : List Char} (h : ∀ c ∈ cs, isSpace c = true) : trim cs = [] := by
  rw [trim, trimStart, List.dropWhile_eq_nil_iff.2 h]
  rfl

/-- A line ends at its line feed. -/
theorem lines_append {line : List Char} (feed : '\n' ∉ line) (ret : '\r' ∉ line)
    (rest : List Char) : lines (line ++ '\n' :: rest) = line :: lines rest := by
  induction line with
  | nil => rfl
  | cons c line ih =>
    have more := ih (fun mem => feed (List.mem_cons_of_mem c mem))
      fun mem => ret (List.mem_cons_of_mem c mem)
    rw [List.cons_append, lines, more]
    · rintro _ rfl
      exact absurd List.mem_cons_self ret
    · rintro rfl
      exact feed List.mem_cons_self

/-- A text without line feeds is one line. -/
theorem lines_of_notMem {line : List Char} (nonempty : line ≠ []) (feed : '\n' ∉ line) :
    lines line = [line] := by
  induction line with
  | nil => exact absurd rfl nonempty
  | cons c line ih =>
    have other : '\n' ∉ line := fun mem => feed (List.mem_cons_of_mem c mem)
    rw [lines]
    · by_cases last : line = []
      · rw [last, lines]
      · rw [ih last other]
    · rintro rest - rfl
      exact other List.mem_cons_self
    · rintro rfl
      exact feed List.mem_cons_self

end Chars

theorem dropStart?_append (start rest : String) : dropStart? start (start ++ rest) = some rest := by
  unfold dropStart?
  rw [String.toList_append, if_pos (by simp), ← String.length_toList, List.drop_left,
    String.ofList_toList]

theorem dropEnd?_append (rest ending : String) : dropEnd? ending (rest ++ ending) = some rest := by
  unfold dropEnd?
  rw [String.toList_append, if_pos (by simp), String.length_append, Nat.add_sub_cancel,
    ← String.length_toList, List.take_left, String.ofList_toList]

end Text

/-! ### Types and variables in a tag -/

namespace DocTag

theorem depthAfter_space {c : Char} (h : Text.isSpace c = true) (depth : ℕ) :
    depthAfter depth c = depth := by
  have opening : isOpening c = false := by
    by_contra bracket
    simp only [isOpening, Bool.not_eq_false, Bool.or_eq_true, beq_iff_eq] at bracket
    rcases bracket with ((rfl | rfl) | rfl) | rfl <;> revert h <;> decide
  have closing : isClosing c = false := by
    by_contra bracket
    simp only [isClosing, Bool.not_eq_false, Bool.or_eq_true, beq_iff_eq] at bracket
    rcases bracket with ((rfl | rfl) | rfl) | rfl <;> revert h <;> decide
  unfold depthAfter
  rw [opening, closing]
  rfl

/-- A token with white space inside of brackets only, and all brackets closed, ends where white space
follows. -/
theorem splitType_sealed {depth : ℕ} {cs rest : List Char} (spaced : spacesInside depth cs = true)
    (closed : cs.foldl depthAfter depth = 0) (stops : ∀ c ∈ rest.head?, Text.isSpace c = true) :
    splitType depth (cs ++ rest) = (cs, rest) := by
  induction cs generalizing depth with
  | nil =>
    obtain rfl : depth = 0 := closed
    cases rest with
    | nil => rfl
    | cons c rest => simp [splitType, stops c rfl]
  | cons c cs ih =>
    rw [spacesInside, Bool.and_eq_true] at spaced
    have goes_on : (Text.isSpace c && depth == 0) = false := by
      cases space : Text.isSpace c with
      | false => rfl
      | true =>
        have inside : 0 < depth := by simpa [space] using spaced.1
        simpa using Nat.ne_of_gt inside
    rw [List.cons_append, splitType, goes_on]
    have tail : splitType (depthAfter depth c) (cs ++ rest) = (cs, rest) := ih spaced.2 closed
    unfold depthAfter at tail
    simp only [Bool.false_eq_true, if_false, tail]

/-- A token without white space reaches to the end. -/
theorem splitType_solid {cs : List Char} (solid : ∀ c ∈ cs, Text.isSpace c = false) (depth : ℕ) :
    splitType depth cs = (cs, []) := by
  induction cs generalizing depth with
  | nil => rfl
  | cons c cs ih =>
    have first := solid c List.mem_cons_self
    have tail := ih fun d mem => solid d (List.mem_cons_of_mem c mem)
    simp [splitType, first, tail]

theorem spacesInside_concat {depth : ℕ} {cs : List Char} {c : Char}
    (h : spacesInside depth (cs ++ [c]) = true) (space : Text.isSpace c = true) :
    0 < cs.foldl depthAfter depth := by
  induction cs generalizing depth with
  | nil => simpa [spacesInside, space] using h
  | cons d cs ih =>
    rw [List.cons_append, spacesInside, Bool.and_eq_true] at h
    exact ih h.2

end DocTag

namespace TypeText

variable (type : TypeText)

theorem toList_ne_nil : type.text.toList ≠ [] := by
  simpa using type.nonempty

theorem head_solid : ∀ c ∈ type.text.toList.head?, Text.isSpace c = false := by
  intro c first
  have spaced := type.spaced
  obtain ⟨rest, text⟩ := List.head?_eq_some_iff.1 first
  rw [text, DocTag.spacesInside, Bool.and_eq_true] at spaced
  simpa using spaced.1

/-- White space at the end would stand inside of brackets that are not closed. -/
theorem last_solid : ∀ c ∈ type.text.toList.getLast?, Text.isSpace c = false := by
  intro c last
  obtain ⟨cs, text⟩ := List.getLast?_eq_some_iff.1 last
  have spaced := type.spaced
  have closed := type.closed
  rw [text] at spaced closed
  rw [List.foldl_append, List.foldl_cons, List.foldl_nil] at closed
  by_contra space
  rw [Bool.not_eq_false] at space
  have inside := DocTag.spacesInside_concat spaced space
  rw [DocTag.depthAfter_space space] at closed
  omega

end TypeText

namespace SignatureTag

/-- The text of the tag after its `@`. -/
def chars (t : SignatureTag) : List Char := t.keyword.toList ++ ' ' :: t.content.toList

theorem toList_written (t : SignatureTag) : t.written.toList = '@' :: t.chars := by
  simp [written, chars]

theorem toList_content_param (type : TypeText) (typed : DocTag.isVariable type.text.toList = false)
    (var : VariableName) : (param type typed var).content.toList =
      type.text.toList ++ (' ' :: '$' :: var.text.toList) := by
  simp [content]

theorem content_ne_nil (t : SignatureTag) : t.content.toList ≠ [] := by
  cases t with
  | param type typed var =>
    rw [toList_content_param]
    exact List.append_ne_nil_of_left_ne_nil type.toList_ne_nil _
  | returns type => exact type.toList_ne_nil
  | throws type => exact type.toList_ne_nil

theorem content_head (t : SignatureTag) : ∀ c ∈ t.content.toList.head?, Text.isSpace c = false := by
  cases t with
  | param type typed var =>
    rw [toList_content_param, List.head?_append_of_ne_nil _ type.toList_ne_nil]
    exact type.head_solid
  | returns type => exact type.head_solid
  | throws type => exact type.head_solid

/-- The dollar sign and the name of a variable. -/
theorem variable_solid (var : VariableName) :
    ∀ c ∈ '$' :: var.text.toList, Text.isSpace c = false := by
  intro c mem
  rcases List.mem_cons.1 mem with rfl | mem
  · decide
  · simpa using List.all_eq_true.1 var.solid c mem

theorem content_last (t : SignatureTag) :
    ∀ c ∈ t.content.toList.getLast?, Text.isSpace c = false := by
  cases t with
  | param type typed var =>
    intro c last
    rw [toList_content_param, List.getLast?_append_of_ne_nil _ (by simp),
      List.getLast?_cons_of_ne_nil (by simp)] at last
    exact variable_solid var c (List.mem_of_getLast? last)
  | returns type => exact type.last_solid
  | throws type => exact type.last_solid

/-- The words after an `@` that make a tag of a signature. -/
def keywords : List String := ["param", "return", "throws"]

theorem keyword_mem (t : SignatureTag) : t.keyword ∈ keywords := by
  cases t with
  | param type typed var => exact List.mem_cons_self
  | returns type => exact List.mem_cons_of_mem _ List.mem_cons_self
  | throws type => exact List.mem_cons_of_mem _ (List.mem_cons_of_mem _ List.mem_cons_self)

theorem keyword_solid (t : SignatureTag) : ∀ c ∈ t.keyword.toList, Text.isSpace c = false := by
  have all : ∀ word ∈ keywords, word.toList.all (fun c => !Text.isSpace c) = true := by decide
  intro c mem
  simpa using List.all_eq_true.1 (all _ t.keyword_mem) c mem

/-- The text after the `@` starts with a letter. -/
theorem startsWithLetter_chars (t : SignatureTag) (rest : List Char) :
    DocBlock.startsWithLetter (t.chars ++ rest) = true := by
  have all : ∀ word ∈ keywords, ∃ c cs, word.toList = c :: cs ∧ c.isAlpha = true := by
    intro word mem
    simp only [keywords, List.mem_cons, List.not_mem_nil, or_false] at mem
    rcases mem with rfl | rfl | rfl
    · exact ⟨'p', "aram".toList, rfl, by decide⟩
    · exact ⟨'r', "eturn".toList, rfl, by decide⟩
    · exact ⟨'t', "hrows".toList, rfl, by decide⟩
  obtain ⟨c, cs, word, letter⟩ := all _ t.keyword_mem
  rw [chars, word]
  exact letter

/-- The text after the `@` has no other `@` and is part of one line. -/
theorem chars_plain (t : SignatureTag) : '@' ∉ t.chars ∧ '\n' ∉ t.chars ∧ '\r' ∉ t.chars := by
  have content : '@' ∉ t.content.toList ∧ '\n' ∉ t.content.toList ∧ '\r' ∉ t.content.toList := by
    cases t with
    | param type typed var =>
      have solid : ∀ c, Text.isSpace c = true → c ∉ var.text.toList := fun c space mem => by
        rw [variable_solid var c (List.mem_cons_of_mem _ mem)] at space
        cases space
      rw [toList_content_param]
      simp [type.untagged, type.oneLine, var.untagged, solid '\n' (by decide),
        solid '\r' (by decide)]
    | returns type => exact ⟨type.untagged, type.oneLine⟩
    | throws type => exact ⟨type.untagged, type.oneLine⟩
  have words : ∀ word ∈ keywords,
      '@' ∉ word.toList ∧ '\n' ∉ word.toList ∧ '\r' ∉ word.toList := by decide
  simp [chars, content, words _ t.keyword_mem]

theorem written_head (t : SignatureTag) : ∀ c ∈ t.written.toList.head?, Text.isSpace c = false := by
  rw [toList_written]
  rintro c ⟨⟩
  decide

theorem written_last (t : SignatureTag) :
    ∀ c ∈ t.written.toList.getLast?, Text.isSpace c = false := by
  intro c last
  rw [toList_written, chars, ← List.cons_append, List.getLast?_append_of_ne_nil _ (by simp),
    List.getLast?_cons_of_ne_nil t.content_ne_nil] at last
  exact t.content_last c last

end SignatureTag

/-! ### Reading a tag -/

namespace DocTag

theorem ofParts_param (rest : List Char) :
    ofParts "param" rest =
      if isVariable (nextType rest).1 then .param "" (String.ofList (nextType rest).1)
      else .param (String.ofList (nextType rest).1)
        (String.ofList (nextType (nextType rest).2).1) := rfl

/-- The type at the start of a text is its first token. -/
theorem nextType_type (type : TypeText) (rest : List Char)
    (stops : ∀ c ∈ rest.head?, Text.isSpace c = true) :
    nextType (type.text.toList ++ rest) = (type.text.toList, rest) := by
  have start : Text.Chars.trimStart (type.text.toList ++ rest) = type.text.toList ++ rest := by
    refine Text.Chars.trimStart_of_head fun c first => type.head_solid c ?_
    rwa [List.head?_append_of_ne_nil _ type.toList_ne_nil] at first
  rw [nextType, start]
  exact splitType_sealed type.spaced type.closed stops

theorem nextType_variable (var : VariableName) :
    nextType (' ' :: '$' :: var.text.toList) = ('$' :: var.text.toList, []) := by
  have start : Text.Chars.trimStart (' ' :: '$' :: var.text.toList) = '$' :: var.text.toList := rfl
  rw [nextType, start]
  exact splitType_solid (SignatureTag.variable_solid var) 0

/-- A tag is made again from its keyword and its content. -/
theorem ofParts_content (t : SignatureTag) : ofParts t.keyword t.content.toList = t.tag := by
  have alone (type : TypeText) : nextType type.text.toList = (type.text.toList, []) := by
    have token := nextType_type type [] (by simp)
    rwa [List.append_nil] at token
  cases t with
  | param type typed var =>
    have first : nextType (SignatureTag.param type typed var).content.toList =
        (type.text.toList, ' ' :: '$' :: var.text.toList) := by
      rw [SignatureTag.toList_content_param]
      refine nextType_type type _ ?_
      rintro c ⟨⟩
      decide
    have name : String.ofList ('$' :: var.text.toList) = "$" ++ var.text := by
      apply String.toList_injective
      simp
    show ofParts "param" _ = .param type.text ("$" ++ var.text)
    rw [ofParts_param, first, if_neg (by simp [typed]), nextType_variable, String.ofList_toList, name]
  | returns type =>
    show DocTag.returns (String.ofList (nextType type.text.toList).1) = .returns type.text
    rw [alone, String.ofList_toList]
  | throws type =>
    show DocTag.throws (String.ofList (nextType type.text.toList).1) = .throws type.text
    rw [alone, String.ofList_toList]

/-- A tag is read from its text, with or without white space behind it. -/
theorem ofSegment_chars (t : SignatureTag) (gap : List Char)
    (space : ∀ c ∈ gap, Text.isSpace c = true) : ofSegment (t.chars ++ gap) = t.tag := by
  have word : ∀ c ∈ t.keyword.toList, (!Text.isSpace c) = true := by
    intro c mem
    rw [t.keyword_solid c mem]
    rfl
  have text : t.chars ++ gap = t.keyword.toList ++ ' ' :: (t.content.toList ++ gap) := by
    simp [SignatureTag.chars]
  have taken : (t.chars ++ gap).takeWhile (fun c => !Text.isSpace c) = t.keyword.toList := by
    rw [text, List.takeWhile_append_of_pos word, List.takeWhile_cons_of_neg (by decide),
      List.append_nil]
  have left : (t.chars ++ gap).dropWhile (fun c => !Text.isSpace c) =
      ' ' :: (t.content.toList ++ gap) := by
    rw [text, List.dropWhile_append_of_pos word, List.dropWhile_cons_of_neg (by decide)]
  have trimmed : Text.Chars.trim (t.content.toList ++ gap) = t.content.toList :=
    Text.Chars.trim_around [] gap (by simp) space t.content_ne_nil t.content_head t.content_last
  calc ofSegment (t.chars ++ gap)
      = ofParts (String.ofList ((t.chars ++ gap).takeWhile fun c => !Text.isSpace c))
          (Text.Chars.trim (((t.chars ++ gap).dropWhile fun c => !Text.isSpace c).drop 1)) := rfl
    _ = ofParts t.keyword t.content.toList := by
        rw [taken, left, List.drop_one, List.tail_cons, trimmed, String.ofList_toList]
    _ = t.tag := ofParts_content t

end DocTag

/-! ### Cutting a text into tags -/

namespace DocBlock

/-- Nothing is cut where no tag starts. -/
theorem segments_append {cs : List Char} (h : '@' ∉ cs) (fresh : Bool) (c : Char) (other : c ≠ '@')
    (rest : List Char) :
    segments fresh (cs ++ c :: rest) =
      (cs ++ c :: (segments (Text.isAsciiSpace c) rest).1,
        (segments (Text.isAsciiSpace c) rest).2) := by
  induction cs generalizing fresh with
  | nil => simp [segments, other]
  | cons d cs ih =>
    have first : d ≠ '@' := fun same => h (by simp [same])
    have tail := ih fun mem => h (List.mem_cons_of_mem d mem)
    simp [segments, first, tail]

theorem segments_of_notMem {cs : List Char} (h : '@' ∉ cs) (fresh : Bool) :
    segments fresh cs = (cs, []) := by
  induction cs generalizing fresh with
  | nil => rfl
  | cons d cs ih =>
    have first : d ≠ '@' := fun same => h (by simp [same])
    have tail := ih fun mem => h (List.mem_cons_of_mem d mem)
    simp [segments, first, tail]

/-- The text starts with a tag, if it is not empty, and is cut into these tags. -/
def Reads (cs : List Char) (tags : List SignatureTag) : Prop :=
  (segments true cs).1 = [] ∧
    (segments true cs).2.map (fun segment => DocTag.ofSegment (segment.drop 1)) =
      tags.map SignatureTag.tag

theorem Reads.nil : Reads [] [] := ⟨rfl, rfl⟩

theorem Reads.last (t : SignatureTag) : Reads t.written.toList [t] := by
  have letter : startsWithLetter t.chars = true := by
    simpa using t.startsWithLetter_chars []
  have cut : segments true t.written.toList = ([], ['@' :: t.chars]) := by
    rw [t.toList_written]
    simp [segments, letter, segments_of_notMem t.chars_plain.1]
  have read : DocTag.ofSegment t.chars = t.tag := by
    simpa using DocTag.ofSegment_chars t [] (by simp)
  unfold Reads
  rw [cut]
  exact ⟨rfl, by simp [read]⟩

/-- A tag is cut off where white space and further tags follow. -/
theorem Reads.cons (t : SignatureTag) {c : Char} (space : Text.isAsciiSpace c = true)
    {rest : List Char} {tags : List SignatureTag} (h : Reads rest tags) :
    Reads (t.written.toList ++ c :: rest) (t :: tags) := by
  obtain ⟨lead, read⟩ := h
  have other : c ≠ '@' := by
    rintro rfl
    cases space
  have cut : segments true (t.written.toList ++ c :: rest) =
      ([], ('@' :: (t.chars ++ [c])) :: (segments true rest).2) := by
    rw [t.toList_written]
    simp [segments, t.startsWithLetter_chars, segments_append t.chars_plain.1 _ c other, space, lead]
  have wide : ∀ d ∈ [c], Text.isSpace d = true := by
    simp only [List.mem_singleton, forall_eq]
    simp only [Text.isAsciiSpace, Bool.or_eq_true, beq_iff_eq] at space
    rcases space with (((rfl | rfl) | rfl) | rfl) | rfl <;> decide
  unfold Reads
  rw [cut]
  refine ⟨rfl, ?_⟩
  rw [List.map_cons, List.map_cons, read, List.drop_one, List.tail_cons,
    DocTag.ofSegment_chars t [c] wide]

/-! ### The text inside of a comment -/

/-- The markers of a comment are stripped, then the stars in front of its lines. -/
theorem body_comment (inner : String) :
    body ("/**" ++ (inner ++ "*/")) = Text.joinLines ((Text.lines inner).map strippedLine) := by
  have trimmed : Text.trim ("/**" ++ (inner ++ "*/")) = "/**" ++ (inner ++ "*/") := by
    have chars : ("/**" ++ (inner ++ "*/")).toList =
        [] ++ ('/' :: ("**".toList ++ inner.toList ++ "*".toList) ++ ['/']) ++ [] := by
      simp
    rw [Text.trim, chars, Text.Chars.trim_around [] [] (by simp) (by simp) (by simp)]
    · rw [← String.toList_inj, String.toList_ofList, chars]
      simp
    · rintro c ⟨⟩
      decide
    · rw [List.getLast?_concat]
      rintro c ⟨⟩
      decide
  unfold body
  rw [trimmed]
  simp only [Text.dropStart?_append]
  show Text.joinLines ((Text.lines ((Text.dropEnd? "*/" (inner ++ "*/")).getD _)).map _) = _
  rw [Text.dropEnd?_append, Option.getD_some]

/-- White space around a text on a line is stripped. -/
theorem trim_eq {left right : List Char} {s : String} (before : ∀ c ∈ left, Text.isSpace c = true)
    (after : ∀ c ∈ right, Text.isSpace c = true) (nonempty : s.toList ≠ [])
    (first : ∀ c ∈ s.toList.head?, Text.isSpace c = false)
    (last : ∀ c ∈ s.toList.getLast?, Text.isSpace c = false) :
    Text.trim (String.ofList (left ++ s.toList ++ right)) = s := by
  rw [Text.trim, String.toList_ofList,
    Text.Chars.trim_around left right before after nonempty first last, String.ofList_toList]

theorem strippedLine_star (t : SignatureTag) : strippedLine t.starred = t.written := by
  have start : Text.trimStart t.starred = "*" ++ (" " ++ t.written) := by
    apply String.toList_injective
    rw [SignatureTag.starred, Text.trimStart, String.toList_ofList, String.toList_append,
      String.toList_append, String.toList_append]
    rfl
  have blank : " " ++ t.written = String.ofList ([' '] ++ t.written.toList ++ []) := by
    apply String.toList_injective
    simp
  unfold strippedLine
  rw [start]
  simp only [Text.dropStart?_append, Option.getD_some]
  rw [blank]
  exact trim_eq (List.forall_mem_singleton.2 rfl) (by simp) (by simp [t.toList_written])
    t.written_head t.written_last

/-- The lines of a block: one for each tag, and the blank in front of the closing marker. -/
theorem lines_starred (tags : List SignatureTag) :
    Text.Chars.lines ((tags.flatMap fun t => t.starred.toList ++ ['\n']) ++ [' ']) =
      tags.map (fun t => t.starred.toList) ++ [[' ']] := by
  induction tags with
  | nil => rfl
  | cons t rest ih =>
    have plain : '\n' ∉ t.starred.toList ∧ '\r' ∉ t.starred.toList := by
      simp [SignatureTag.starred, t.toList_written, t.chars_plain]
    rw [List.flatMap_cons, List.append_assoc, List.append_assoc, List.singleton_append,
      Text.Chars.lines_append plain.1 plain.2, ih]
    rfl

theorem toList_joinLines_written (tags : List SignatureTag) :
    (Text.joinLines (tags.map SignatureTag.written ++ [""])).toList =
      tags.flatMap fun t => t.written.toList ++ ['\n'] := by
  induction tags with
  | nil => rfl
  | cons t rest ih =>
    rw [List.map_cons, List.cons_append, Text.joinLines,
      String.intercalate_cons_of_ne_nil (by simp), ← Text.joinLines, String.toList_append, ih]
    simp

/-- The lines of a block are the tags, between two lines that are blank without their markers. -/
theorem body_blockText (tags : List SignatureTag) :
    (body (blockText tags)).toList = '\n' :: tags.flatMap fun t => t.written.toList ++ ['\n'] := by
  let inner : String := "\n" ++ String.join (tags.map fun t => t.starred ++ "\n") ++ " "
  have comment : blockText tags = "/**" ++ (inner ++ "*/") := by
    apply String.toList_injective
    simp [blockText, inner]
  have chars : inner.toList =
      '\n' :: ((tags.flatMap fun t => t.starred.toList ++ ['\n']) ++ [' ']) := by
    simp [inner, String.toList_join, List.flatMap_map]
  have lines : Text.lines inner = "" :: (tags.map SignatureTag.starred ++ [" "]) := by
    rw [Text.lines, chars, Text.Chars.lines, lines_starred]
    simp [Function.comp_def]
  have stripped : ("" :: (tags.map SignatureTag.starred ++ [" "])).map strippedLine =
      "" :: (tags.map SignatureTag.written ++ [""]) := by
    have tagLine : strippedLine ∘ SignatureTag.starred = SignatureTag.written :=
      funext strippedLine_star
    rw [List.map_cons, List.map_append, List.map_map, tagLine]
    rfl
  rw [comment, body_comment, lines, stripped, Text.joinLines,
    String.intercalate_cons_of_ne_nil (by simp), ← Text.joinLines, String.toList_append,
    toList_joinLines_written]
  rfl

theorem spacedText_singleton (t : SignatureTag) : spacedText [t] = t.written :=
  String.intercalate_singleton

theorem toList_spacedText_cons (t u : SignatureTag) (rest : List SignatureTag) :
    (spacedText (t :: u :: rest)).toList =
      t.written.toList ++ ' ' :: (spacedText (u :: rest)).toList := by
  unfold spacedText
  rw [List.map_cons, String.intercalate_cons_of_ne_nil (by simp), String.toList_append,
    String.toList_append, List.append_assoc]
  rfl

/-- Tags with blanks between them start with an `@`, end with no white space and are on one line. -/
theorem spacedText_ends (t : SignatureTag) (tags : List SignatureTag) :
    (spacedText (t :: tags)).toList.head? = some '@' ∧
      (∀ c ∈ (spacedText (t :: tags)).toList.getLast?, Text.isSpace c = false) ∧
      '\n' ∉ (spacedText (t :: tags)).toList := by
  induction tags generalizing t with
  | nil =>
    rw [spacedText_singleton]
    refine ⟨by rw [t.toList_written]; rfl, t.written_last, ?_⟩
    simp [t.toList_written, t.chars_plain]
  | cons u rest ih =>
    obtain ⟨head, last, plain⟩ := ih u
    have nonempty : (spacedText (u :: rest)).toList ≠ [] := by
      intro empty
      rw [empty] at head
      cases head
    rw [toList_spacedText_cons]
    refine ⟨?_, ?_, ?_⟩
    · rw [t.toList_written]
      rfl
    · rw [List.getLast?_append_of_ne_nil _ (by simp), List.getLast?_cons_of_ne_nil nonempty]
      exact last
    · rw [List.mem_append, List.mem_cons, t.toList_written]
      simp only [plain, or_false]
      simp [t.chars_plain]

theorem strippedLine_blanks {s : String} (head : s.toList.head? = some '@')
    (last : ∀ c ∈ s.toList.getLast?, Text.isSpace c = false) :
    strippedLine (" " ++ s ++ " ") = s := by
  obtain ⟨rest, chars⟩ := List.head?_eq_some_iff.1 head
  have start : Text.trimStart (" " ++ s ++ " ") = s ++ " " := by
    apply String.toList_injective
    rw [Text.trimStart, String.toList_ofList, String.toList_append, String.toList_append,
      String.toList_append, chars]
    rfl
  have starless : Text.dropStart? "*" (s ++ " ") = none := by
    unfold Text.dropStart?
    rw [String.toList_append, chars]
    rfl
  have blank : s ++ " " = String.ofList ([] ++ s.toList ++ [' ']) := by
    apply String.toList_injective
    simp
  unfold strippedLine
  rw [start]
  simp only [starless, Option.getD_none]
  rw [blank]
  refine trim_eq (by simp) (List.forall_mem_singleton.2 rfl) (by simp [chars]) ?_ last
  rw [head]
  rintro c ⟨⟩
  decide

/-- The single line of a comment is the tags with blanks between them. -/
theorem body_lineText (tags : List SignatureTag) : body (lineText tags) = spacedText tags := by
  cases tags with
  | nil => decide
  | cons t tags =>
    obtain ⟨head, last, plain⟩ := spacedText_ends t tags
    have comment : lineText (t :: tags) =
        "/**" ++ (" " ++ spacedText (t :: tags) ++ " " ++ "*/") := by
      apply String.toList_injective
      simp [lineText]
    have lines : Text.lines (" " ++ spacedText (t :: tags) ++ " ") =
        [" " ++ spacedText (t :: tags) ++ " "] := by
      rw [Text.lines, Text.Chars.lines_of_notMem (by simp) (by simp [plain]), List.map_singleton,
        String.ofList_toList]
    rw [comment, body_comment, lines, List.map_singleton, strippedLine_blanks head last,
      Text.joinLines, String.intercalate_singleton]

/-! ### Reading a comment -/

theorem reads_block (tags : List SignatureTag) :
    Reads (tags.flatMap fun t => t.written.toList ++ ['\n']) tags := by
  induction tags with
  | nil => exact .nil
  | cons t rest ih =>
    rw [List.flatMap_cons, List.append_assoc, List.singleton_append]
    exact ih.cons t rfl

theorem reads_line (tags : List SignatureTag) : Reads (spacedText tags).toList tags := by
  induction tags with
  | nil => exact .nil
  | cons t rest ih =>
    cases rest with
    | nil =>
      rw [spacedText_singleton]
      exact .last t
    | cons u rest =>
      rw [toList_spacedText_cons]
      exact ih.cons t rfl

theorem ofText_eq (comment : String) :
    ofText comment =
      ⟨String.ofList (Text.Chars.trim (segments true (body comment).toList).1),
        (segments true (body comment).toList).2.map fun segment =>
          DocTag.ofSegment (segment.drop 1)⟩ := by
  unfold ofText
  rcases segments true (body comment).toList with ⟨lead, tags⟩
  rfl

theorem ofText_blockText (tags : List SignatureTag) :
    ofText (blockText tags) = ⟨"", tags.map SignatureTag.tag⟩ := by
  obtain ⟨lead, read⟩ := reads_block tags
  -- The line feed after the opening marker is all that stands in front of the tags.
  have cut : segments true ('\n' :: tags.flatMap fun t => t.written.toList ++ ['\n']) =
      (['\n'], (segments true (tags.flatMap fun t => t.written.toList ++ ['\n'])).2) := by
    have first := segments_append List.not_mem_nil true '\n' (by decide)
      (tags.flatMap fun t => t.written.toList ++ ['\n'])
    simpa only [List.nil_append, show Text.isAsciiSpace '\n' = true from rfl, lead] using first
  have blank : Text.Chars.trim ['\n'] = [] :=
    Text.Chars.trim_spaces (List.forall_mem_singleton.2 rfl)
  rw [ofText_eq, body_blockText, cut, read, blank]

theorem ofText_lineText (tags : List SignatureTag) :
    ofText (lineText tags) = ⟨"", tags.map SignatureTag.tag⟩ := by
  obtain ⟨lead, read⟩ := reads_line tags
  rw [ofText_eq, body_lineText, lead, read]
  rfl

end DocBlock

/-! ### Looking up types -/

theorem SignatureTag.parameter?_param (type : TypeText)
    (typed : DocTag.isVariable type.text.toList = false) (var : VariableName) :
    (param type typed var).tag.parameter? = some var.text := by
  have chars : ("$" ++ var.text).toList = '$' :: var.text.toList := by simp
  show (DocTag.param type.text ("$" ++ var.text)).parameter? = some var.text
  simp [DocTag.parameter?, chars]

namespace DocBlock

theorem typeOfParam?_tags (tags : List SignatureTag) (name : String) :
    typeOfParam? ⟨"", tags.map SignatureTag.tag⟩ name =
      tags.findSome? (SignatureTag.typeFor? name) := by
  unfold typeOfParam?
  rw [List.findSome?_map]
  congr 1
  funext t
  cases t with
  | param type typed var =>
    have named : type.text.isEmpty = false := by simpa using type.nonempty
    show (if !type.text.isEmpty && (SignatureTag.param type typed var).tag.parameter? == some name
      then some type.text else none) = if var.text = name then some type.text else none
    rw [SignatureTag.parameter?_param, named]
    by_cases same : var.text = name
    · simp [same]
    · simp [same]
  | returns type => rfl
  | throws type => rfl

theorem typeOfResult?_tags (tags : List SignatureTag) :
    typeOfResult? ⟨"", tags.map SignatureTag.tag⟩ =
      tags.findSome? SignatureTag.resultType? := by
  unfold typeOfResult?
  rw [List.findSome?_map]
  congr 1
  funext t
  cases t with
  | param type typed var => rfl
  | returns type =>
    have named : type.text.isEmpty = false := by simpa using type.nonempty
    show (if type.text.isEmpty then none else some type.text) = some type.text
    rw [named]
    rfl
  | throws type => rfl

/-- Reading undoes writing. Whether the tags of a signature stand on lines of their own or all on one
line, exactly these tags are read, in order and without a summary. So the type of a parameter is that
of the first tag with its name, and the type of the result that of the first tag for it. -/
theorem ofText_written (layout : TagLayout) (tags : List SignatureTag) :
    ofText (layout.comment tags) = ⟨"", tags.map SignatureTag.tag⟩ ∧
      (∀ name, (ofText (layout.comment tags)).typeOfParam? name =
        tags.findSome? (SignatureTag.typeFor? name)) ∧
      (ofText (layout.comment tags)).typeOfResult? = tags.findSome? SignatureTag.resultType? := by
  have read : ofText (layout.comment tags) = ⟨"", tags.map SignatureTag.tag⟩ := by
    cases layout with
    | block => exact ofText_blockText tags
    | line => exact ofText_lineText tags
  rw [read]
  exact ⟨rfl, typeOfParam?_tags tags, typeOfResult?_tags tags⟩

/-- White space inside of nested brackets belongs to the type, and the first of two tags for a
parameter counts. -/
theorem ofText_written_nested :
    let text := "/** @param array<int, list<string | null>> $a @return callable(int $x):\\User[]" ++
      " @param int $a @throws int */"
    ofText text = ⟨"", [.param "array<int, list<string | null>>" "$a",
        .returns "callable(int $x):\\User[]", .param "int" "$a", .throws "int"]⟩ ∧
      (ofText text).typeOfParam? "a" = some "array<int, list<string | null>>" ∧
      (ofText text).typeOfResult? = some "callable(int $x):\\User[]" := by
  intro text
  let lists : TypeText :=
    ⟨"array<int, list<string | null>>", by decide, by decide, by decide, by decide, by decide⟩
  let users : TypeText :=
    ⟨"callable(int $x):\\User[]", by decide, by decide, by decide, by decide, by decide⟩
  let int : TypeText := ⟨"int", by decide, by decide, by decide, by decide, by decide⟩
  let a : VariableName := ⟨"a", by decide, by decide⟩
  have written : TagLayout.line.comment [.param lists (by decide) a, .returns users,
      .param int (by decide) a, .throws int] = text := by
    decide
  obtain ⟨tags, params, result⟩ := ofText_written .line [.param lists (by decide) a,
    .returns users, .param int (by decide) a, .throws int]
  rw [written] at tags params result
  exact ⟨tags, params "a", result⟩

end DocBlock

end Zephirize
