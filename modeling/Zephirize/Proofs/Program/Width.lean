import Zephirize.Proofs.Code.Shown
import Zephirize.Proofs.Text.Layout

/-!
# The width of the indentation

The conversion does not know the width of the indentation, only the writing of the code does. Code
that is written with two widths has the same lines up to the blanks in front of them: for statements
by induction over the code, and from there for methods, for classes and for programs
(`zephirize_indentWidth`).
-/

namespace Zephirize

open Text (Alike SameEnd Closed)

/-! ### Statements -/

theorem Code.closed_renderEach {unit : String} {codes : List Code} :
    ∀ text ∈ Code.renderEach unit codes, Closed text := by
  induction codes with
  | nil => simp [Code.renderEach]
  | cons c rest ih =>
    rw [Code.renderEach, List.forall_mem_cons]
    exact ⟨c.closed_render unit, ih⟩

theorem Code.closed_renderAll (unit : String) (c : Code) (rest : List Code) :
    Closed (Code.renderAll unit (c :: rest)) :=
  .intercalate "\n" (by rw [Code.renderEach]; exact List.cons_ne_nil _ _) Code.closed_renderEach

theorem Code.sameEnd_renderAll (unit unit' : String) (codes : List Code) :
    SameEnd (Code.renderAll unit codes) (Code.renderAll unit' codes) := by
  cases codes with
  | nil => rfl
  | cons c rest => exact .ofClosed (closed_renderAll unit c rest) (closed_renderAll unit' c rest)

section Statements

variable {w w' : ℕ}

theorem alike_block {a b : String} (alike : Alike a b) (ends : SameEnd a b) :
    Alike (block (blanks w) a) (block (blanks w') b) :=
  alike.block (eq_blank_of_mem_blanks w) (eq_blank_of_mem_blanks w') ends

theorem Code.alike_block {codes : List Code}
    (h : List.Forall₂ Alike (Code.renderEach (blanks w) codes)
      (Code.renderEach (blanks w') codes)) :
    Alike (block (blanks w) (Text.joinLines (Code.renderEach (blanks w) codes)))
      (block (blanks w') (Text.joinLines (Code.renderEach (blanks w') codes))) :=
  Zephirize.alike_block (.intercalate "\n" h) (Code.sameEnd_renderAll _ _ codes)

theorem closed_caseText {unit body : String} (head : String) (h : Closed body) :
    Closed (caseText unit head body) := by
  have full : ¬ body.isEmpty = true := by
    intro none
    obtain rfl : body = "" := by simpa using none
    rcases h with h | h <;> cases h
  rw [caseText, if_neg full]
  exact (h.indent unit).append _

/-- A case ends with its body or with its heading. -/
theorem Clause.sameEnd_cases (clauses : List Clause) :
    List.Forall₂ SameEnd (Clause.renderCases (blanks w) clauses)
      (Clause.renderCases (blanks w') clauses) := by
  induction clauses with
  | nil => simp [Clause.renderCases]
  | cons clause rest ih =>
    obtain ⟨head, body⟩ := clause
    rw [Clause.renderCases, Clause.renderCases]
    refine .cons ?_ ih
    cases body with
    | nil => rfl
    | cons c body =>
      refine .ofClosed (closed_caseText head ?_) (closed_caseText head ?_)
      · exact Code.closed_renderAll _ c body
      · exact Code.closed_renderAll _ c body

mutual

theorem Code.alike_render : ∀ c : Code, Alike (c.render (blanks w)) (c.render (blanks w'))
  | .assign target update => by simpa only [Code.render] using .refl _
  | .keep temp value => by simpa only [Code.render] using .refl _
  | .eval text => by simpa only [Code.render] using .refl _
  | .ret none => by simpa only [Code.render] using .refl _
  | .ret (some value) => by simpa only [Code.render] using .refl _
  | .raise value => by simpa only [Code.render] using .refl _
  | .echo values => by simpa only [Code.render] using .refl _
  | .unset var => by simpa only [Code.render] using .refl _
  | .breakLoop => by simpa only [Code.render] using .refl _
  | .continueLoop => by simpa only [Code.render] using .refl _
  | .branch test body rest => by
    rw [Code.render, Code.render]
    exact ((Code.alike_block (Code.alike_renderEach body)).after _).append (Chain.alike_render rest)
  | .whileLoop test body => by
    rw [Code.render, Code.render]
    exact (Code.alike_block (Code.alike_renderEach body)).after _
  | .loop body => by
    rw [Code.render, Code.render]
    exact (Code.alike_block (Code.alike_renderEach body)).after _
  | .doWhile body test => by
    rw [Code.render, Code.render]
    exact ((((Code.alike_block (Code.alike_renderEach body)).after _).before _).before _).before _
  | .forIn binding subject body => by
    rw [Code.render, Code.render]
    exact (Code.alike_block (Code.alike_renderEach body)).after _
  | .switch subject cases => by
    rw [Code.render, Code.render]
    have alike := Clause.alike_cases cases
    exact (Zephirize.alike_block (.intercalate "\n" alike)
      (.intercalate "\n" alike (Clause.sameEnd_cases cases))).after _
  | .tryCatch body handlers => by
    rw [Code.render, Code.render]
    exact .intercalate " " (.cons ((Code.alike_block (Code.alike_renderEach body)).after _)
      (Clause.alike_handlers handlers))

theorem Code.alike_renderEach : ∀ codes : List Code,
    List.Forall₂ Alike (Code.renderEach (blanks w) codes) (Code.renderEach (blanks w') codes)
  | [] => by
    rw [Code.renderEach, Code.renderEach]
    exact .nil
  | c :: rest => by
    rw [Code.renderEach, Code.renderEach]
    exact .cons (Code.alike_render c) (Code.alike_renderEach rest)

theorem Chain.alike_render : ∀ chain : Chain,
    Alike (chain.render (blanks w)) (chain.render (blanks w'))
  | .done => by simpa only [Chain.render] using .refl _
  | .elseIf test body rest => by
    rw [Chain.render, Chain.render]
    exact ((Code.alike_block (Code.alike_renderEach body)).after _).append (Chain.alike_render rest)
  | .otherwise body => by
    rw [Chain.render, Chain.render]
    exact (Code.alike_block (Code.alike_renderEach body)).after _

theorem Clause.alike_cases : ∀ clauses : List Clause,
    List.Forall₂ Alike (Clause.renderCases (blanks w) clauses)
      (Clause.renderCases (blanks w') clauses)
  | [] => by
    rw [Clause.renderCases, Clause.renderCases]
    exact .nil
  | .mk head body :: rest => by
    rw [Clause.renderCases, Clause.renderCases]
    exact .cons (.caseText (eq_blank_of_mem_blanks w) (eq_blank_of_mem_blanks w') head
      (.intercalate "\n" (Code.alike_renderEach body)) (Code.sameEnd_renderAll _ _ body))
      (Clause.alike_cases rest)

theorem Clause.alike_handlers : ∀ clauses : List Clause,
    List.Forall₂ Alike (Clause.renderHandlers (blanks w) clauses)
      (Clause.renderHandlers (blanks w') clauses)
  | [] => by
    rw [Clause.renderHandlers, Clause.renderHandlers]
    exact .nil
  | .mk head body :: rest => by
    rw [Clause.renderHandlers, Clause.renderHandlers]
    exact .cons ((Code.alike_block (Code.alike_renderEach body)).after _)
      (Clause.alike_handlers rest)

end

end Statements

/-! ### Methods and classes -/

section Classes

variable {w w' : ℕ}

theorem alike_indent {a b : String} (alike : Alike a b) (ends : SameEnd a b) :
    Alike ("\n" ++ Text.indent (blanks w) a) ("\n" ++ Text.indent (blanks w') b) :=
  alike.indent (eq_blank_of_mem_blanks w) (eq_blank_of_mem_blanks w') ends

/-- The parts of a body, each below a line. -/
theorem alike_inside {parts parts' : List String}
    (h : List.Forall₂ (fun a b => Alike ("\n" ++ a) ("\n" ++ b)) parts parts') :
    Alike (if parts.isEmpty then "" else "\n" ++ "\n\n".intercalate parts)
      (if parts'.isEmpty then "" else "\n" ++ "\n\n".intercalate parts') := by
  cases h with
  | nil => exact .refl _
  | cons head rest =>
    rw [List.isEmpty_cons, List.isEmpty_cons, if_neg Bool.false_ne_true, if_neg Bool.false_ne_true]
    exact .paragraphs (.cons head rest)

theorem MethodCode.alike_render (m : MethodCode) :
    Alike (m.render (blanks w)) (m.render (blanks w')) := by
  unfold MethodCode.render
  cases m.body with
  | none => exact .refl _
  | some body =>
    obtain ⟨vars, code⟩ := body
    have statements : Alike (Code.renderAll (blanks w) code) (Code.renderAll (blanks w') code) :=
      .intercalate "\n" (Code.alike_renderEach code)
    refine ((alike_inside (List.rel_append ?_ ?_)).after _).before _
    · split_ifs
      · exact .nil
      · exact .cons (alike_indent (.refl _) rfl) .nil
    · rw [statements.isEmpty_eq]
      split_ifs
      · exact .nil
      · exact .cons (alike_indent statements (Code.sameEnd_renderAll _ _ code)) .nil

theorem MethodCode.closed_render (unit : String) (m : MethodCode) : Closed (m.render unit) := by
  unfold MethodCode.render
  split
  · exact .semicolon _
  · exact .append (.inr (by simp)) _

theorem closed_documented {text : String} (h : Closed text) (doc : Option String) :
    Closed (documented doc text) := by
  cases doc with
  | none => exact h
  | some doc => exact h.append _

theorem alike_documented {a b : String} (h : Alike a b) (doc : Option String) :
    Alike (documented doc a) (documented doc b) := by
  cases doc with
  | none => exact h
  | some doc => exact h.after _

theorem alike_intercalate {texts texts' : List String} (sep : String)
    (h : List.Forall₂ (fun a b => Alike a b ∧ SameEnd a b) texts texts') :
    Alike (sep.intercalate texts) (sep.intercalate texts') ∧
      SameEnd (sep.intercalate texts) (sep.intercalate texts') := by
  have alike := h.imp fun _ _ => And.left
  exact ⟨.intercalate sep alike, .intercalate sep alike (h.imp fun _ _ => And.right)⟩

/-- The constants and the properties are texts already. -/
theorem MemberCode.alike_renderAll (members : List MemberCode) :
    Alike (MemberCode.renderAll (blanks w) members) (MemberCode.renderAll (blanks w') members) ∧
      SameEnd (MemberCode.renderAll (blanks w) members)
        (MemberCode.renderAll (blanks w') members) := by
  unfold MemberCode.renderAll
  refine alike_intercalate "\n\n" (List.rel_append ?_ ?_)
  · exact List.forall₂_same.2 fun _ _ => ⟨.refl _, rfl⟩
  · refine List.rel_filterMap ?_ (List.forall₂_same.2 fun _ _ => Eq.refl _)
    rintro member _ rfl
    cases member with
    | constant text => exact .none
    | property text => exact .none
    | method doc code =>
      have closed (unit : String) := closed_documented (code.closed_render unit) doc
      exact .some ⟨alike_documented code.alike_render doc, .ofClosed (closed _) (closed _)⟩

theorem ClassCode.alike_render (c : ClassCode) :
    Alike (c.render (blanks w)) (c.render (blanks w')) := by
  obtain ⟨alike, ends⟩ := @MemberCode.alike_renderAll w w' c.members
  have same (texts : List String) : List.Forall₂ Alike texts texts :=
    List.forall₂_same.2 fun _ _ => .refl _
  unfold ClassCode.render
  exact (Alike.intercalate "\n\n" (List.rel_append (same _)
    (.cons ((alike_block alike ends).after _) .nil))).before "\n"

end Classes

/-! ### Programs -/

theorem classText_unindented (ctx : Context) (w w' : ℕ) :
    (classText ctx w).1.map Text.unindented = (classText ctx w').1.map Text.unindented ∧
      (classText ctx w).2 = (classText ctx w').2 := by
  obtain ⟨r, s, run⟩ : ∃ r s, (lowerDecl ctx).run.run {} = (r, s) := ⟨_, _, rfl⟩
  rw [classText, classText, run]
  cases r with
  | ok code =>
    dsimp only [Except.map]
    exact ⟨congrArg Except.ok code.alike_render.unindented_eq, rfl⟩
  | error e =>
    dsimp only [Except.map]
    exact ⟨rfl, rfl⟩

theorem resultFor_registered {resolver : Resolver} {w : ℕ} {d : Declared}
    (h : (resolver.registry.get? d.fullName).map Declared.place = some d.place) :
    resultFor resolver w d =
      (⟨d.fullName, (classText ⟨Scope.of d.file d.decl, resolver⟩ w).1⟩,
        (classText ⟨Scope.of d.file d.decl, resolver⟩ w).2) := by
  rw [resultFor, if_pos h]

theorem resultFor_unindented (resolver : Resolver) (w w' : ℕ) (d : Declared) :
    (resultFor resolver w d).1.name = (resultFor resolver w' d).1.name ∧
      (resultFor resolver w d).1.result.map Text.unindented =
        (resultFor resolver w' d).1.result.map Text.unindented ∧
      (resultFor resolver w d).2 = (resultFor resolver w' d).2 := by
  have texts := classText_unindented ⟨Scope.of d.file d.decl, resolver⟩ w w'
  by_cases registered : (resolver.registry.get? d.fullName).map Declared.place = some d.place
  · rw [resultFor_registered registered, resultFor_registered registered]
    dsimp only
    exact ⟨rfl, texts⟩
  · rw [resultFor, resultFor, if_neg registered, if_neg registered]
    exact ⟨rfl, rfl, rfl⟩

/-- A program that is converted with two widths of the indentation has the same classes, the same
refusals and the same diagnostics, and the texts have the same lines up to the blanks in front. -/
theorem zephirize_indentWidth (files : List SourceFile) (known : List String) (w w' : ℕ) :
    let p := zephirize files ⟨known, w⟩
    let p' := zephirize files ⟨known, w'⟩
    (p.classes.map fun c => (c.name, c.result.map Text.unindented)) =
        (p'.classes.map fun c => (c.name, c.result.map Text.unindented)) ∧
      p.diagnostics = p'.diagnostics := by
  have each := fun d => resultFor_unindented
    ⟨Registry.ofFiles files, ClassSet.builtin.add known⟩ w w' d
  simp only [zephirize, List.map_map, List.flatMap_map]
  constructor
  · exact List.map_congr_left fun d _ => Prod.ext (each d).1 (each d).2.1
  · exact List.flatMap_congr fun d _ => (each d).2.2

end Zephirize
