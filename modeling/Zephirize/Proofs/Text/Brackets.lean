import Mathlib.Tactic
import Zephirize.Proofs.Text.Layout
import Zephirize.Text.Quoted

/-!
# Well bracketed texts

A scan goes through a text and keeps the closing brackets that are still awaited. It skips string
literals, in which a backslash escapes the character after it. A text is `WellBracketed` if each
bracket outside of literals closes the last one that is open, and nothing is open at the end.

Such texts can be put one after another and between brackets, and the literal of any string is one:
being well bracketed is `Compositional`. `Plain` texts have no bracket, no quote and no line feed, and
so every compositional property. Indenting keeps texts well bracketed, also where a literal goes over
several lines: a scan does not see the blanks after a line feed, since none of the places where it
can stand then is after a backslash.
-/

namespace Zephirize.Text

/-- The bracket that closes what the character opens. -/
def closing? : Char → Option Char
  | '(' => some ')'
  | '[' => some ']'
  | '\x7b' => some '\x7d'
  | _ => none

/-- The character is a closing bracket. -/
def isClosing (c : Char) : Bool := [')', ']', '\x7d'].contains c

/-- The brackets and the double quote. -/
def delimiters : List Char := ['"', '(', ')', '[', ']', '\x7b', '\x7d']

/-- The character is neither a bracket nor a double quote. -/
def isNeutral (c : Char) : Bool := !delimiters.contains c

/-- The text has no bracket and no double quote. -/
def Neutral (text : String) : Prop := text.toList.all isNeutral = true

instance (text : String) : Decidable (Neutral text) := inferInstanceAs (Decidable (_ = true))

/-! ### Classes of characters -/

/-- The text consists of characters of a class. -/
def Consists (p : Char → Bool) (text : String) : Prop := text.toList.all p = true

instance (p : Char → Bool) (text : String) : Decidable (Consists p text) :=
  inferInstanceAs (Decidable (_ = true))

/-- The character is neither a delimiter nor a line feed. -/
def isPlain (c : Char) : Bool := isNeutral c && c != '\n'

/-- The text stands on one line and has no delimiter. -/
abbrev Plain : String → Prop := Consists isPlain

/-- Characters of a class that has neither a delimiter nor the line feed in it. -/
theorem isPlain_of {p : Char → Bool} (free : ('\n' :: delimiters).all (!p ·) = true) {c : Char}
    (h : p c = true) : isPlain c = true := by
  have other : ∀ d ∈ '\n' :: delimiters, c ≠ d := by
    rintro d mem rfl
    have none := List.all_eq_true.1 free c mem
    rw [h] at none
    cases none
  rw [isPlain, isNeutral, Bool.and_eq_true, Bool.not_eq_true', List.contains_eq_mem,
    decide_eq_false_iff_not, bne_iff_ne]
  exact ⟨fun mem => other c (List.mem_cons_of_mem _ mem) rfl, other _ List.mem_cons_self⟩

section Classes

variable {p q : Char → Bool} {a b : String}

theorem consists_append : Consists p (a ++ b) ↔ Consists p a ∧ Consists p b := by
  simp [Consists]

theorem consists_ofList {cs : List Char} :
    Consists p (String.ofList cs) ↔ ∀ c ∈ cs, p c = true := by
  rw [Consists, String.toList_ofList, List.all_eq_true]

namespace Consists

theorem mem (h : Consists p a) {c : Char} (mem : c ∈ a.toList) : p c = true :=
  List.all_eq_true.1 h c mem

theorem mono (h : Consists p a) (weaker : ∀ c, p c = true → q c = true) : Consists q a :=
  List.all_eq_true.2 fun _ mem => weaker _ (h.mem mem)

/-- A part of the text. -/
theorem sublist (h : Consists p a) {cs : List Char} (sub : cs.Sublist a.toList) :
    ∀ c ∈ cs, p c = true :=
  fun _ mem => h.mem (sub.subset mem)

theorem ite {choice : Prop} [Decidable choice] (ha : Consists p a) (hb : Consists p b) :
    Consists p (if choice then a else b) := by
  split_ifs
  · exact ha
  · exact hb

theorem plain (h : Consists p a) (free : ('\n' :: delimiters).all (!p ·) = true) : Plain a :=
  h.mono fun _ => isPlain_of free

end Consists

theorem Plain.neutral (h : Plain a) : Neutral a :=
  h.mono (q := isNeutral) fun _ both => (Bool.and_eq_true_iff.1 both).1

end Classes

/-! ### Scans -/

/-- Where a scan stands. -/
inductive Scan.Place where
  | code
  /-- Inside a string literal. -/
  | literal
  /-- Inside a string literal, after a backslash. -/
  | escape
deriving DecidableEq

/-- A scan for brackets. -/
structure Scan where
  place : Scan.Place := .code
  /-- The closing brackets that are to come, the innermost first. -/
  awaited : List Char := []
deriving DecidableEq

namespace Scan

/-- Reads a character; there is no result at a closing bracket that is not the one awaited. -/
def step (s : Scan) (c : Char) : Option Scan :=
  match s.place with
  | .code =>
    if c = '"' then some { s with place := .literal }
    else if isClosing c then
      if s.awaited.head? = some c then some { s with awaited := s.awaited.tail } else none
    else some { s with awaited := (closing? c).toList ++ s.awaited }
  | .literal =>
    some { s with place := if c = '"' then .code else if c = '\\' then .escape else .literal }
  | .escape => some { s with place := .literal }

/-- Reads a text. -/
def run (s : Scan) (cs : List Char) : Option Scan := cs.foldlM step s

/-- The scan with more brackets open around it. -/
def within (outer : List Char) (s : Scan) : Scan := { s with awaited := s.awaited ++ outer }

section Run

variable {s t : Scan} {c : Char} {cs : List Char}

@[simp]
theorem run_nil (s : Scan) : s.run [] = some s := rfl

theorem run_cons (s : Scan) (c : Char) (cs : List Char) :
    s.run (c :: cs) = (s.step c).bind (·.run cs) :=
  List.foldlM_cons ..

theorem run_append (s : Scan) (cs ds : List Char) :
    s.run (cs ++ ds) = (s.run cs).bind (·.run ds) :=
  List.foldlM_append ..

theorem run_step (h : s.step c = some t) (cs : List Char) : s.run (c :: cs) = t.run cs := by
  rw [run_cons, h, Option.bind_some]

theorem step_within (h : s.step c = some t) (outer : List Char) :
    (s.within outer).step c = some (t.within outer) := by
  obtain ⟨place, awaited⟩ := s
  cases place with
  | literal =>
    cases h
    rfl
  | escape =>
    cases h
    rfl
  | code =>
    simp only [step, within] at h ⊢
    by_cases quote : c = '"'
    · rw [if_pos quote] at h ⊢
      cases h
      rfl
    rw [if_neg quote] at h ⊢
    by_cases closes : isClosing c = true
    · rw [if_pos closes] at h ⊢
      obtain ⟨next, same⟩ := Option.ite_none_right_eq_some.1 h
      cases same
      obtain ⟨rest, rfl⟩ := List.head?_eq_some_iff.1 next
      exact if_pos rfl
    · rw [if_neg closes] at h ⊢
      cases h
      rw [List.append_assoc]

/-- Brackets that are open around a text play no part in it. -/
theorem run_within (h : s.run cs = some t) (outer : List Char) :
    (s.within outer).run cs = some (t.within outer) := by
  induction cs generalizing s with
  | nil =>
    cases h
    rfl
  | cons c rest ih =>
    rw [run_cons] at h
    obtain ⟨next, first, more⟩ := Option.bind_eq_some_iff.1 h
    rw [run_step (step_within first outer), ih more]

end Run

theorem step_neutral {c : Char} (h : isNeutral c = true) (awaited : List Char) :
    step ⟨.code, awaited⟩ c = some ⟨.code, awaited⟩ := by
  simp only [isNeutral, delimiters, List.contains_eq_mem, List.mem_cons, List.not_mem_nil,
    or_false, Bool.not_eq_true', decide_eq_false_iff_not, not_or] at h
  obtain ⟨quote, _, paren, _, square, _, brace⟩ := h
  have closes : isClosing c = false := by simp [isClosing, paren, square, brace]
  have opens : closing? c = none := by
    unfold closing?
    split <;> simp_all
  simp [step, quote, closes, opens]

/-! ### Line feeds -/

/-- After a line feed no escape is open. -/
theorem step_feed (s : Scan) : ∃ t, s.step '\n' = some t ∧ t.place ≠ .escape := by
  obtain ⟨place, awaited⟩ := s
  cases place <;> exact ⟨_, rfl, by simp⟩

theorem step_blank {s : Scan} (h : s.place ≠ .escape) : s.step ' ' = some s := by
  obtain ⟨place, awaited⟩ := s
  cases place with
  | code => rfl
  | literal => rfl
  | escape => exact absurd rfl h

theorem run_dropBlanks {s : Scan} (h : s.place ≠ .escape) (cs : List Char) :
    s.run (Chars.dropBlanks cs) = s.run cs := by
  induction cs with
  | nil => rfl
  | cons c rest ih =>
    by_cases blank : c = ' '
    · rw [blank, Chars.dropBlanks_blank, ih, run_step (step_blank h)]
    · rw [Chars.dropBlanks_cons blank]

theorem run_flush (s : Scan) (cs : List Char) : s.run (Chars.flush cs) = s.run cs := by
  induction cs generalizing s with
  | nil => rfl
  | cons c rest ih =>
    by_cases feed : c = '\n'
    · obtain ⟨t, first, inside⟩ := s.step_feed
      rw [feed, Chars.flush_feed, run_step first, run_step first, run_dropBlanks inside, ih]
    · rw [Chars.flush_cons feed, run_cons, run_cons]
      simp only [ih]

/-- A carriage return makes no difference before a line feed. -/
theorem run_return_feed (s : Scan) (cs : List Char) :
    s.run ('\r' :: '\n' :: cs) = s.run ('\n' :: cs) := by
  obtain ⟨place, awaited⟩ := s
  cases place <;> rfl

theorem run_unreturn (s : Scan) (cs : List Char) : s.run (Chars.unreturn cs) = s.run cs := by
  fun_induction Chars.unreturn cs generalizing s with
  | case1 => rfl
  | case2 rest ih =>
    rw [run_return_feed, run_cons, run_cons]
    simp only [ih]
  | case3 c rest h ih =>
    rw [run_cons, run_cons]
    simp only [ih]

end Scan

/-- Reading the text changes nothing outside of literals, whatever is open around it. -/
def Balanced (cs : List Char) : Prop :=
  ∀ awaited, Scan.run ⟨.code, awaited⟩ cs = some ⟨.code, awaited⟩

namespace Balanced

variable {a b : List Char}

theorem append (ha : Balanced a) (hb : Balanced b) : Balanced (a ++ b) := by
  intro awaited
  rw [Scan.run_append, ha, Option.bind_some, hb]

theorem neutral (h : a.all isNeutral = true) : Balanced a := by
  intro awaited
  induction a with
  | nil => rfl
  | cons c rest ih =>
    rw [List.all_cons, Bool.and_eq_true] at h
    rw [Scan.run_step (Scan.step_neutral h.1 awaited), ih h.2]

/-- A text between a bracket and the one that closes it. -/
theorem enclose {opening closing : Char} (pair : closing? opening = some closing)
    (h : Balanced a) : Balanced (opening :: a ++ [closing]) := by
  intro awaited
  have opens : Scan.step ⟨.code, awaited⟩ opening = some ⟨.code, closing :: awaited⟩ := by
    unfold closing? at pair
    split at pair <;> cases pair <;> rfl
  have closes : Scan.step ⟨.code, closing :: awaited⟩ closing = some ⟨.code, awaited⟩ := by
    unfold closing? at pair
    split at pair <;> cases pair <;> rfl
  rw [List.cons_append, Scan.run_step opens, Scan.run_append, h, Option.bind_some,
    Scan.run_step closes, Scan.run_nil]

theorem feed_cons : Balanced ('\n' :: a) ↔ Balanced a := by
  refine forall_congr' fun awaited => ?_
  rw [Scan.run_step (t := ⟨.code, awaited⟩) rfl]

theorem of_concat_feed (h : Balanced (a ++ ['\n'])) : Balanced a := by
  intro awaited
  have whole := h awaited
  rw [Scan.run_append] at whole
  obtain ⟨⟨place, inner⟩, before, last⟩ := Option.bind_eq_some_iff.1 whole
  cases place with
  | code =>
    cases last
    exact before
  | literal => cases last
  | escape => cases last

/-- The lines of a text, moved to the right by blanks. -/
theorem indentLines {unit : List Char} (blank : ∀ c ∈ unit, c = ' ') (h : Balanced a) :
    Balanced (['\n'].intercalate ((Chars.lines a).map (Chars.indentLine unit))) := by
  have lines : Balanced (['\n'].intercalate (Chars.lines a)) := by
    have whole : Balanced (['\n'].intercalate (Chars.lines a) ++ Chars.finalFeed a) := by
      intro awaited
      rw [Chars.intercalate_lines, Scan.run_unreturn, h]
    unfold Chars.finalFeed at whole
    split_ifs at whole
    · exact whole.of_concat_feed
    · rwa [List.append_nil] at whole
  rw [← feed_cons] at lines ⊢
  intro awaited
  rw [← Scan.run_flush, Chars.flush_indentLine blank, Scan.run_flush, lines]

end Balanced

/-! ### Putting texts together -/

/-- A property of texts that is kept where the texts of expressions are put together: plain texts
and literals have it, and texts that have it can stand one after another and between brackets. -/
structure Compositional (P : String → Prop) : Prop where
  plain {a : String} : Plain a → P a
  append {a b : String} : P a → P b → P (a ++ b)
  enclosed {a left right : String} {opening closing : Char} : P a → left.toList = [opening] →
    right.toList = [closing] → closing? opening = some closing → P (left ++ a ++ right)
  quote (s : String) : P (Quoted.quote s)

namespace Compositional

variable {P : String → Prop} {a b sep : String} (h : Compositional P)

include h

theorem empty : P "" := h.plain (by decide)

theorem after (plain : Plain a) (hb : P b) : P (a ++ b) := h.append (h.plain plain) hb

theorem before (ha : P a) (plain : Plain b) : P (a ++ b) := h.append ha (h.plain plain)

theorem joined (ha : P a) (between : Plain sep) (hb : P b) : P (a ++ sep ++ b) :=
  h.append (h.before ha between) hb

theorem parens (ha : P a) : P ("(" ++ a ++ ")") := h.enclosed ha rfl rfl rfl

theorem square (ha : P a) : P ("[" ++ a ++ "]") := h.enclosed ha rfl rfl rfl

theorem braces (ha : P a) : P ("\x7b" ++ a ++ "\x7d") := h.enclosed ha rfl rfl rfl

/-- A call. -/
theorem applied (ha : P a) (hb : P b) : P (a ++ "(" ++ b ++ ")") := by
  have whole := h.append ha (h.parens hb)
  rwa [← String.append_assoc, ← String.append_assoc] at whole

/-- An indexed fetch. -/
theorem indexed (ha : P a) (hb : P b) : P (a ++ "[" ++ b ++ "]") := by
  have whole := h.append ha (h.square hb)
  rwa [← String.append_assoc, ← String.append_assoc] at whole

/-- A cast. -/
theorem castTo (ha : P a) (hb : P b) : P ("(" ++ a ++ ") " ++ b) := by
  have whole := h.append (h.before (b := " ") (h.parens ha) (by decide)) hb
  have closing : "(" ++ a ++ ")" ++ " " = "(" ++ a ++ ") " := String.append_assoc
  rwa [closing] at whole

theorem and {Q : String → Prop} (other : Compositional Q) : Compositional fun a => P a ∧ Q a where
  plain ha := ⟨h.plain ha, other.plain ha⟩
  append ha hb := ⟨h.append ha.1 hb.1, other.append ha.2 hb.2⟩
  enclosed ha opens closes pair :=
    ⟨h.enclosed ha.1 opens closes pair, other.enclosed ha.2 opens closes pair⟩
  quote s := ⟨h.quote s, other.quote s⟩

theorem intercalate (between : P sep) {texts : List String} (ht : ∀ text ∈ texts, P text) :
    P (sep.intercalate texts) := by
  induction texts with
  | nil => exact h.empty
  | cons text rest ih =>
    rw [List.forall_mem_cons] at ht
    cases rest with
    | nil => simpa using ht.1
    | cons next more =>
      rw [String.intercalate_cons_cons]
      exact h.append (h.append ht.1 between) (ih ht.2)

end Compositional

/-! ### Well bracketed texts -/

/-- Outside of string literals the brackets of the text are properly nested, and no literal is left
open. -/
def WellBracketed (text : String) : Prop := Scan.run {} text.toList = some {}

instance (text : String) : Decidable (WellBracketed text) :=
  inferInstanceAs (Decidable (_ = some _))

theorem wellBracketed_iff_balanced {text : String} :
    WellBracketed text ↔ Balanced text.toList :=
  ⟨fun h awaited => Scan.run_within h awaited, fun h => h []⟩

namespace WellBracketed

variable {a b : String}

theorem empty : WellBracketed "" := rfl

theorem append (ha : WellBracketed a) (hb : WellBracketed b) : WellBracketed (a ++ b) := by
  rw [wellBracketed_iff_balanced] at ha hb ⊢
  rw [String.toList_append]
  exact ha.append hb

theorem neutral (h : Neutral a) : WellBracketed a :=
  wellBracketed_iff_balanced.2 (.neutral h)

/-- A neutral text in front. -/
theorem after (hb : WellBracketed b) (h : Neutral a) : WellBracketed (a ++ b) :=
  (neutral h).append hb

/-- A neutral text behind. -/
theorem before (ha : WellBracketed a) (h : Neutral b) : WellBracketed (a ++ b) :=
  ha.append (neutral h)

/-- A neutral text between two others. -/
theorem joined (ha : WellBracketed a) {sep : String} (between : Neutral sep)
    (hb : WellBracketed b) : WellBracketed (a ++ sep ++ b) :=
  (ha.before between).append hb

theorem enclosed (ha : WellBracketed a) {left right : String} {opening closing : Char}
    (opens : left.toList = [opening]) (closes : right.toList = [closing])
    (pair : closing? opening = some closing) : WellBracketed (left ++ a ++ right) := by
  rw [wellBracketed_iff_balanced] at ha ⊢
  rw [String.toList_append, String.toList_append, opens, closes]
  exact ha.enclose pair

theorem parens (ha : WellBracketed a) : WellBracketed ("(" ++ a ++ ")") :=
  ha.enclosed rfl rfl rfl

theorem braces (ha : WellBracketed a) : WellBracketed ("\x7b" ++ a ++ "\x7d") :=
  ha.enclosed rfl rfl rfl

/-- The literal of a string, whatever the string holds. -/
theorem quote (s : String) : WellBracketed (Quoted.quote s) := by
  -- Inside the literal each character is read back to where the scan stood before it.
  have escaped (awaited : List Char) (cs rest : List Char) :
      Scan.run ⟨.literal, awaited⟩ (cs.flatMap Quoted.escape ++ rest) =
        Scan.run ⟨.literal, awaited⟩ rest := by
    induction cs with
    | nil => rfl
    | cons c more ih =>
      rw [List.flatMap_cons, List.append_assoc, ← ih]
      unfold Quoted.escape
      split
      · rfl
      · rfl
      · rfl
      · rfl
      · rfl
      · rename_i quote slash _ _ _
        have inside : Scan.step ⟨.literal, awaited⟩ c = some ⟨.literal, awaited⟩ := by
          simp only [Scan.step, if_neg quote, if_neg slash]
        rw [List.singleton_append, Scan.run_step inside]
  rw [WellBracketed, Quoted.quote, String.toList_ofList, List.cons_append,
    Scan.run_step (t := ⟨.literal, []⟩) rfl, escaped]
  rfl

theorem compositional : Compositional WellBracketed where
  plain h := .neutral h.neutral
  append := .append
  enclosed h opens closes pair := h.enclosed opens closes pair
  quote := .quote

theorem intercalate {sep : String} (between : Neutral sep) {texts : List String}
    (h : ∀ text ∈ texts, WellBracketed text) : WellBracketed (sep.intercalate texts) :=
  compositional.intercalate (.neutral between) h

variable {unit : String}

theorem indent (blank : ∀ c ∈ unit.toList, c = ' ') (ha : WellBracketed a) :
    WellBracketed (Text.indent unit a) := by
  rw [wellBracketed_iff_balanced] at ha ⊢
  rw [toList_indent]
  exact ha.indentLines blank

theorem joinLines {texts : List String} (h : ∀ text ∈ texts, WellBracketed text) :
    WellBracketed (Text.joinLines texts) :=
  .intercalate (by decide) h

theorem block (blank : ∀ c ∈ unit.toList, c = ' ') (ha : WellBracketed a) :
    WellBracketed (block unit a) := by
  unfold Zephirize.block
  split_ifs
  · rfl
  · have inside := (((ha.indent blank).after (a := "\n") rfl).before (b := "\n") rfl).braces
    have opening : "\x7b" ++ "\n" = "\x7b\n" := rfl
    have closing : "\n" ++ "\x7d" = "\n\x7d" := rfl
    rwa [← String.append_assoc, ← String.append_assoc, opening, String.append_assoc, closing]
      at inside

theorem caseText (blank : ∀ c ∈ unit.toList, c = ' ') {head : String} (hh : WellBracketed head)
    (ha : WellBracketed a) : WellBracketed (caseText unit head a) := by
  unfold Zephirize.caseText
  split_ifs
  · exact hh
  · exact hh.joined (by decide) (ha.indent blank)

end WellBracketed

end Zephirize.Text
