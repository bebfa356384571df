import Zephirize.Program
import Zephirize.Proofs.Code.Parts
import Zephirize.Proofs.Text.BareLines

/-!
# Statements stand in the text of the code

Every statement inside some code has its lines in the text of the code, up to indentation. This goes
from statements to methods, and from methods to classes.
-/

namespace Zephirize

open Text (Shows Encloses Closed closed_block encloses_block)

/-! ### Statements end with a semicolon or a brace -/

theorem Update.closed_render (target : String) (update : Update) :
    Closed (update.render target) := by
  cases update with
  | set value => exact .semicolon _
  | combine op value => exact .semicolon _
  | increment => exact .append (.inl (by simp)) _
  | decrement => exact .append (.inl (by simp)) _

/-- What follows the first block of an `if` is nothing or ends with a brace. -/
theorem Chain.closed_render (unit : String) : ∀ chain : Chain,
    chain.render unit = "" ∨ Closed (chain.render unit)
  | .done => .inl (by rw [Chain.render])
  | .elseIf test body rest => by
    rw [Chain.render]
    rcases rest.closed_render unit with none | closed
    · rw [none, String.append_empty]
      exact .inr ((closed_block unit _).append _)
    · exact .inr (closed.append _)
  | .otherwise body => .inr (by rw [Chain.render]; exact (closed_block unit _).append _)

theorem Clause.closed_handlers (unit : String) (clauses : List Clause) :
    ∀ text ∈ Clause.renderHandlers unit clauses, Closed text := by
  induction clauses with
  | nil => simp [Clause.renderHandlers]
  | cons clause rest ih =>
    obtain ⟨head, body⟩ := clause
    rw [Clause.renderHandlers, List.forall_mem_cons]
    exact ⟨(closed_block unit _).append _, ih⟩

theorem Code.closed_render (unit : String) (c : Code) : Closed (c.render unit) := by
  unfold Code.render
  split
  · exact Update.closed_render _ _
  · exact Update.closed_render _ _
  · exact .semicolon _
  · exact .inl (by simp)
  · exact .semicolon _
  · exact .semicolon _
  · exact .semicolon _
  · exact .semicolon _
  · exact .inl (by simp)
  · exact .inl (by simp)
  · rename_i test body rest
    rcases rest.closed_render unit with none | closed
    · rw [none, String.append_empty]
      exact (closed_block unit _).append _
    · exact closed.append _
  · exact (closed_block unit _).append _
  · exact (closed_block unit _).append _
  · exact .semicolon _
  · exact (closed_block unit _).append _
  · exact (closed_block unit _).append _
  · rename_i body handlers
    refine .intercalate " " (by simp) ?_
    rw [List.forall_mem_cons]
    exact ⟨(closed_block unit _).append _, Clause.closed_handlers unit handlers⟩

/-! ### Statements -/

theorem eq_blank_of_mem_blanks (width : ℕ) : ∀ c ∈ (blanks width).toList, c = ' ' := by
  intro c hc
  rw [blanks, String.toList_ofList] at hc
  exact List.eq_of_mem_replicate hc

section Statements

variable {width : ℕ}

theorem Code.shows_of_encloses {c q : Code} {inner : List Code} (hq : q ∈ c :: inner)
    (h : q ∈ inner → Encloses (c.render (blanks width)) (q.render (blanks width))) :
    Shows (c.render (blanks width)) (q.render (blanks width)) := by
  rcases List.mem_cons.1 hq with rfl | hq
  · exact .refl _
  · exact (h hq).shows

mutual

/-- A statement inside a statement stands in its text. -/
theorem Code.shows_parts : ∀ (c : Code) {q : Code}, q ∈ c.parts →
    Shows (c.render (blanks width)) (q.render (blanks width))
  | .branch test body rest, q, hq => by
    rw [Code.parts] at hq
    refine Code.shows_of_encloses hq fun hq => ?_
    rw [Code.render]
    rcases List.mem_append.1 hq with hq | hq
    · exact ((Code.encloses_block body hq).right _).left _
    · exact (Chain.encloses_parts rest hq).right _
  | .whileLoop test body, q, hq => by
    rw [Code.parts] at hq
    refine Code.shows_of_encloses hq fun hq => ?_
    rw [Code.render]
    exact (Code.encloses_block body hq).right _
  | .loop body, q, hq => by
    rw [Code.parts] at hq
    refine Code.shows_of_encloses hq fun hq => ?_
    rw [Code.render]
    exact (Code.encloses_block body hq).right _
  | .doWhile body test, q, hq => by
    rw [Code.parts] at hq
    refine Code.shows_of_encloses hq fun hq => ?_
    rw [Code.render]
    exact ((((Code.encloses_block body hq).right _).left _).left _).left _
  | .forIn binding subject body, q, hq => by
    rw [Code.parts] at hq
    refine Code.shows_of_encloses hq fun hq => ?_
    rw [Code.render]
    exact (Code.encloses_block body hq).right _
  | .switch subject cases, q, hq => by
    rw [Code.parts] at hq
    refine Code.shows_of_encloses hq fun hq => ?_
    rw [Code.render]
    obtain ⟨text, mem, shown⟩ := Clause.shows_cases cases hq
    have closed := q.closed_render (blanks width)
    exact (encloses_block (eq_blank_of_mem_blanks width) (shown.joinLines mem) closed).right _
  | .tryCatch body handlers, q, hq => by
    rw [Code.parts] at hq
    refine Code.shows_of_encloses hq fun hq => ?_
    rw [Code.render]
    rcases List.mem_append.1 hq with hq | hq
    · exact ((Code.encloses_block body hq).right _).intercalate " " List.mem_cons_self
    · obtain ⟨text, mem, encloses⟩ := Clause.encloses_handlers handlers hq
      exact encloses.intercalate " " (List.mem_cons_of_mem _ mem)
  | .assign .., q, hq | .keep .., q, hq | .eval .., q, hq | .ret .., q, hq | .raise .., q, hq
  | .echo .., q, hq | .unset .., q, hq | .breakLoop, q, hq | .continueLoop, q, hq => by
    simp only [Code.parts] at hq
    exact Code.shows_of_encloses hq fun none => by cases none

/-- A statement inside some code stands in the text of one of the statements of the code. -/
theorem Code.shows_partsOf : ∀ (code : List Code) {q : Code}, q ∈ Code.partsOf code →
    ∃ text ∈ Code.renderEach (blanks width) code, Shows text (q.render (blanks width))
  | [], q, hq => by simp at hq
  | c :: rest, q, hq => by
    rw [Code.partsOf_cons, List.mem_append] at hq
    rw [Code.renderEach]
    rcases hq with hq | hq
    · exact ⟨_, List.mem_cons_self, Code.shows_parts c hq⟩
    · obtain ⟨text, mem, shown⟩ := Code.shows_partsOf rest hq
      exact ⟨text, List.mem_cons_of_mem _ mem, shown⟩

theorem Code.encloses_block (body : List Code) {q : Code} (hq : q ∈ Code.partsOf body) :
    Encloses (block (blanks width) (Text.joinLines (Code.renderEach (blanks width) body)))
      (q.render (blanks width)) := by
  obtain ⟨text, mem, shown⟩ := Code.shows_partsOf body hq
  exact Text.encloses_block (eq_blank_of_mem_blanks width) (shown.joinLines mem) (q.closed_render _)

theorem Chain.encloses_parts : ∀ (chain : Chain) {q : Code}, q ∈ chain.parts →
    Encloses (chain.render (blanks width)) (q.render (blanks width))
  | .done, q, hq => by simp [Chain.parts] at hq
  | .elseIf test body rest, q, hq => by
    rw [Chain.parts, List.mem_append] at hq
    rw [Chain.render]
    rcases hq with hq | hq
    · exact ((Code.encloses_block body hq).right _).left _
    · exact (Chain.encloses_parts rest hq).right _
  | .otherwise body, q, hq => by
    rw [Chain.parts] at hq
    rw [Chain.render]
    exact (Code.encloses_block body hq).right _

theorem Clause.shows_cases : ∀ (clauses : List Clause) {q : Code}, q ∈ Clause.partsOf clauses →
    ∃ text ∈ Clause.renderCases (blanks width) clauses, Shows text (q.render (blanks width))
  | [], q, hq => by simp [Clause.partsOf] at hq
  | .mk head body :: rest, q, hq => by
    rw [Clause.partsOf, List.mem_append] at hq
    rw [Clause.renderCases]
    rcases hq with hq | hq
    · obtain ⟨text, mem, shown⟩ := Code.shows_partsOf body hq
      refine ⟨_, List.mem_cons_self, ?_⟩
      have closed := q.closed_render (blanks width)
      have full := (shown.joinLines mem).ne_empty closed
      rw [caseText, if_neg (by simpa using full)]
      exact ((shown.joinLines mem).indent (eq_blank_of_mem_blanks width) closed).after head
    · obtain ⟨text, mem, shown⟩ := Clause.shows_cases rest hq
      exact ⟨text, List.mem_cons_of_mem _ mem, shown⟩

theorem Clause.encloses_handlers : ∀ (clauses : List Clause) {q : Code},
    q ∈ Clause.partsOf clauses →
    ∃ text ∈ Clause.renderHandlers (blanks width) clauses, Encloses text (q.render (blanks width))
  | [], q, hq => by simp [Clause.partsOf] at hq
  | .mk head body :: rest, q, hq => by
    rw [Clause.partsOf, List.mem_append] at hq
    rw [Clause.renderHandlers]
    rcases hq with hq | hq
    · exact ⟨_, List.mem_cons_self, (Code.encloses_block body hq).right _⟩
    · obtain ⟨text, mem, encloses⟩ := Clause.encloses_handlers rest hq
      exact ⟨text, List.mem_cons_of_mem _ mem, encloses⟩

end

/-- A statement inside some code stands in the text of the code. -/
theorem Code.shows_renderAll {code : List Code} {q : Code} (hq : q ∈ Code.partsOf code) :
    Shows (Code.renderAll (blanks width) code) (q.render (blanks width)) := by
  obtain ⟨text, mem, shown⟩ := Code.shows_partsOf code hq
  exact shown.joinLines mem

end Statements

/-! ### Methods and classes -/

/-- The statements in the text of a member. -/
def MemberCode.parts : MemberCode → List Code
  | .method _ code => (code.body.map fun body => Code.partsOf body.2).getD []
  | _ => []

theorem MethodCode.shows_body {m : MethodCode} {vars : List String} {code : List Code} {q : Code}
    (width : ℕ) (hbody : m.body = some (vars, code)) (hq : q ∈ Code.partsOf code) :
    Shows (m.render (blanks width)) (q.render (blanks width)) := by
  have closed := q.closed_render (blanks width)
  have statements : Shows (Code.renderAll (blanks width) code) (q.render (blanks width)) :=
    Code.shows_renderAll hq
  have full : (Code.renderAll (blanks width) code).isEmpty = false := by
    simpa using statements.ne_empty closed
  unfold MethodCode.render
  rw [hbody]
  dsimp only
  generalize (if vars.isEmpty then [] else
    [Text.indent (blanks width) ("var " ++ ", ".intercalate vars ++ ";")]) = declaration
  rw [full, if_neg Bool.false_ne_true, if_neg (by simp)]
  have split : ∀ inside : String, m.head ++ "\n\x7b" ++ ("\n" ++ inside) ++ "\n\x7d" =
      m.head ++ "\n\x7b" ++ "\n" ++ (inside ++ "\n" ++ "\x7d") := by
    intro inside
    rw [← String.toList_inj]
    simp
  rw [split]
  have inside := (statements.indent (eq_blank_of_mem_blanks width) closed).paragraphs
    (List.mem_append_right declaration (List.mem_singleton_self _))
  exact (inside.before _).after _

theorem documented_shows {text part : String} (h : Shows text part) (doc : Option String) :
    Shows (documented doc text) part := by
  cases doc with
  | none => exact h
  | some doc => exact h.after _

theorem MemberCode.shows_parts {members : List MemberCode} {member : MemberCode} {q : Code}
    (width : ℕ) (mem : member ∈ members) (hq : q ∈ member.parts) :
    Shows (MemberCode.renderAll (blanks width) members) (q.render (blanks width)) := by
  cases member with
  | constant text => cases hq
  | property text => cases hq
  | method doc code =>
    cases hbody : code.body with
    | none => simp [parts, hbody] at hq
    | some body =>
      have shown := code.shows_body width hbody (by simpa [parts, hbody] using hq)
      refine (documented_shows shown doc).paragraphs (List.mem_append_right _ ?_)
      exact List.mem_filterMap.2 ⟨_, mem, rfl⟩

/-- A statement of a method stands in the text of the class. -/
theorem ClassCode.shows_parts {c : ClassCode} {member : MemberCode} {q : Code} (width : ℕ)
    (mem : member ∈ c.members) (hq : q ∈ member.parts) :
    Shows (c.render (blanks width)) (q.render (blanks width)) := by
  have members := MemberCode.shows_parts width mem hq
  have declaration := ((encloses_block (eq_blank_of_mem_blanks width) members
    (q.closed_render _)).shows).after (documented c.doc c.head)
  unfold ClassCode.render
  dsimp only
  rw [← String.append_empty (s := _ ++ "\n")]
  exact (declaration.paragraphs (List.mem_append_right _ (List.mem_singleton_self _))).before _

end Zephirize
