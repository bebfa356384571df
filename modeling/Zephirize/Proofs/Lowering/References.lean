import Mathlib.Tactic
import Zephirize.Proofs.Code.Equality
import Zephirize.Proofs.Lowering.Marks
import Zephirize.Proofs.Lowering.Methods

/-!
# Notes about the reference marks of a method

Methods and parameters can be marked as references too. Resolving a signature and searching for
variables add no note about a mark, so the notes about marks are those of the heading, of the
default values and of the body (`lowerMethod_reference_notes`).
-/

namespace Zephirize

open Lowering

variable {cls : String}

/-! ### Headings -/

/-- The notes of a resolved type are not about marks. -/
theorem countP_resolve (r : Resolver) (scope : Scope) (node raw : String) :
    (r.resolve scope node raw).2.countP Diagnostic.isReference = 0 := by
  rw [List.countP_eq_zero]
  intro d hd
  obtain ⟨name, -, rfl⟩ := List.mem_map.1 hd
  exact Bool.false_ne_true

theorem countP_param (r : Resolver) (scope : Scope) (doc : Option DocBlock) (p : Param) :
    (r.param scope doc p).2.countP Diagnostic.isReference = 0 := by
  unfold Resolver.param
  dsimp only
  split
  · rfl
  · split
    · exact countP_resolve r _ _ _
    · rfl

theorem countP_params (r : Resolver) (scope : Scope) (doc : Option DocBlock) (params : List Param) :
    (r.params scope doc params).2.countP Diagnostic.isReference = 0 := by
  induction params with
  | nil => rfl
  | cons p rest ih =>
    have first := countP_param r scope doc p
    unfold Resolver.params
    split
    · rename_i e notes same
      rwa [same] at first
    · rename_i spec notes same
      rw [same] at first
      rw [List.countP_append, first, ih]

theorem countP_result (r : Resolver) (scope : Scope) (doc : Option DocBlock) (method : String) :
    (r.result scope doc method).2.countP Diagnostic.isReference = 0 := by
  unfold Resolver.result
  dsimp only
  split
  · exact countP_resolve r _ _ _
  · rfl

/-- The notes of a resolved signature are not about marks. -/
theorem countP_signature (r : Resolver) (scope : Scope) (m : Method) :
    (r.signature scope m).2.countP Diagnostic.isReference = 0 := by
  have params := countP_params r scope (m.doc.map DocBlock.ofText) m.params
  unfold Resolver.signature
  dsimp only
  split
  · rename_i e notes same
    rwa [same] at params
  · rename_i specs notes same
    rw [same] at params
    split_ifs
    · exact params
    · rw [List.countP_append, params, countP_result]

theorem reports_resolveSignature (ctx : Context) (m : Method) :
    Reports (resolveSignature ctx m) 0 := by
  have unmarked := countP_signature ctx.resolver ctx.scope m
  intro s t sig run
  unfold resolveSignature at run
  rcases resolved : ctx.resolver.signature ctx.scope m with ⟨result, notes⟩
  rw [resolved] at run unmarked
  cases result with
  | error e => cases run
  | ok result =>
    cases run
    exact ⟨notes, rfl, by rw [unmarked, Nat.cast_zero]⟩

theorem reports_reportParams (params : List Param) :
    Reports (reportParams cls params) (params.countP Param.byRef) := by
  induction params with
  | nil => exact .pure ()
  | cons p rest ih =>
    have first : Reports (reportParam cls p) p.byRef.toNat :=
      .congr (.bind (.marked p.byRef cls _ _) fun _ => .other p.variadic cls _ _ (by decide))
        (add_zero _)
    refine .congr (.bind first fun _ => ih) ?_
    rw [List.countP_cons]
    cases p.byRef <;> simp [add_comm]

theorem reports_paramTypeText (name : String) (type : Option UnionType) :
    Reports (paramTypeText cls name type) 0 := by
  cases type with
  | none => exact .pure _
  | some union =>
    unfold paramTypeText
    dsimp only
    split
    · split
      · exact .pure _
      · exact .pure _
      · exact .silent fun _ => rfl
    · exact .bind (.inform cls _ _) fun _ => .pure _
    · exact .pure _

theorem reports_paramTexts : ∀ params : List (Param × ParamSpec),
    Reports (paramTexts cls params)
      (reportedIn ((params.filterMap fun p => p.2.value).map .expr))
  | [] => .congr (.pure _) (by simp)
  | (p, spec) :: rest => by
    have default : Reports (defaultText cls spec.value)
        (reportedIn (spec.value.toList.map .expr)) := by
      cases spec.value with
      | none => exact .congr (.pure _) (by simp)
      | some value => exact .congr (.bind (reports_exprText value) fun _ => .pure _) (by simp)
    refine .congr (.bind (.bind (reports_paramTypeText p.name spec.type) fun _ =>
      .bind default fun _ => .pure _) fun _ =>
      .bind (reports_paramTexts rest) fun _ => .pure _) ?_
    rw [List.filterMap_cons]
    cases spec.value <;> simp

/-- The number of marks in the heading of a method: its own, and those of its parameters. -/
def Method.headMarks (m : Method) : ℕ := m.byRef.toNat + m.params.countP Param.byRef

theorem reports_lowerHead (ctx : Context) (m : Method) :
    Reports (lowerHead ctx m) (m.headMarks + reportedIn (m.defaults.map .expr)) := by
  have typed : ∀ sig head, Reports (withResultType m sig head) 0 := by
    intro sig head
    unfold withResultType
    split
    · exact .pure _
    · exact .pure _
    · exact .silent fun _ => rfl
  -- The default values come from the signature, which has those of the parameters.
  have defaults : ∀ s t sig, (resolveSignature ctx m).run.run s = (.ok sig, t) →
      Reports (paramTexts ctx.cls (m.params.zip sig.params))
        (reportedIn (m.defaults.map .expr)) := by
    intro s t sig run
    obtain ⟨notes, resolved⟩ := run_resolveSignature ctx m
    rcases signature_run ctx.resolver ctx.scope m with ⟨sig', hsig, -, values, -⟩ | ⟨e, hsig, -⟩
    · rw [resolved, hsig] at run
      cases run
      rw [Method.defaults, ← filterMap_zip_value values]
      exact reports_paramTexts _
    · rw [resolved, hsig] at run
      cases run
  refine .congr (.bindOf (reports_resolveSignature ctx m) fun s t sig run =>
    .bind (reports_reportParams m.params) fun _ => .bind (.marked m.byRef ctx.cls _ _) fun _ =>
    .bind (defaults s t sig run) fun _ => .bind (.silent fun _ => rfl) fun _ =>
    .bind (typed sig _) fun _ => .pure _) ?_
  rw [Method.headMarks]
  push_cast
  ring

/-! ### Methods -/

/-- The search for variables leaves the notes alone, though it converts parts of the body. -/
theorem diagnostics_locals (cls : String) (body : List Stmt) (params : List String) (s : State) :
    ((locals cls body params).run s).2.diagnostics = s.diagnostics := by
  rw [locals_eq]

theorem reports_lowerBody (body : List Stmt) (params : List String) :
    Reports (lowerBody cls body params) (reportedIn (body.map .stmt)) := by
  have search : Reports ((locals cls body params : StateM State (List String)) :
      Lowering (List String)) 0 := .silent fun s => by
    rw [run_locals]
    exact diagnostics_locals cls body params s
  exact .congr (.bind search fun _ => .bind (.inBlock (reports_stmts body)) fun _ => .pure _)
    (by simp)

theorem reports_lowerMethod (ctx : Context) (m : Method) :
    Reports (lowerMethod ctx m) (m.headMarks + reportedIn m.roots) := by
  have start : Reports (modify fun s => s.reset (some m.name) : Lowering Unit) 0 :=
    .silent fun _ => rfl
  rw [Method.roots, reportedIn_append, ← add_assoc, Method.statements, lowerMethod]
  cases m.body with
  | none =>
    exact .congr (.bind start fun _ => .bind (reports_lowerHead ctx m) fun _ => .pure _) (by simp)
  | some body =>
    exact .congr (.bind start fun _ => .bind (reports_lowerHead ctx m) fun r =>
      .bind (reports_lowerBody body r.2) fun _ => .pure _) (by simp)

/-- A method that can be converted is converted with a note for each mark, but for those on the
slots that its assignments write to. So all marks are reported exactly if no such slot has one. The
search for variables adds no note. -/
theorem lowerMethod_reference_notes {ctx : Context} {m : Method} {s t : State} {code : MethodCode}
    (h : (lowerMethod ctx m).run.run s = (.ok code, t)) :
    ∃ notes, t.diagnostics = s.diagnostics ++ notes ∧
      notes.countP Diagnostic.isReference + slotMarksOf m.roots = m.headMarks + marksOf m.roots ∧
      (notes.countP Diagnostic.isReference = m.headMarks + marksOf m.roots ↔
        ∀ n ∈ nodesOf m.roots, n.slotMarks = 0) ∧
      ∀ body params u, ((locals ctx.cls body params).run u).2.diagnostics = u.diagnostics := by
  obtain ⟨notes, added, count⟩ := reports_lowerMethod ctx m s t code h
  rw [reportedIn_eq] at count
  have balance : notes.countP Diagnostic.isReference + slotMarksOf m.roots =
      m.headMarks + marksOf m.roots := by omega
  have none : slotMarksOf m.roots = 0 ↔ ∀ n ∈ nodesOf m.roots, n.slotMarks = 0 := by
    simp [slotMarksOf, List.sum_eq_zero_iff]
  refine ⟨notes, added, balance, ?_, diagnostics_locals ctx.cls⟩
  rw [← none]
  omega

/-- In `m(&p)` with the body `[&a] = [&b]; foreach (p as &v)`, the marks of the parameter, the
item and the loop are reported, and that of the slot is not. -/
theorem lowerMethod_reference_notes_slot :
    let ctx : Context := ⟨Scope.of {} { name := "A" }, ⟨{}, {}⟩⟩
    let item (name : String) : Item := ⟨none, .var (.literal name), true, false⟩
    let m : Method :=
      { name := "m", params := [{ name := "p", byRef := true }],
        body := some [.expression (.assign (.list [some (item "a")]) (.array [item "b"]) false),
          .foreach (.var (.literal "p")) none (.var (.literal "v")) true []] }
    let note (message node : String) : Diagnostic :=
      ⟨.incompatibility "reference", message, "m: " ++ node, "A"⟩
    let t : State :=
      { method := some "m", diagnostics := [
          note "Reference not supported in parameter (var \"p\")" "param $p",
          note "Reference not supported in array item" "array item",
          note "Reference not supported in foreach" "foreach"] }
    (lowerMethod ctx m).run.run {} = (.ok ⟨"public function m(p)",
        some (["a", "tmpListA", "b", "v"],
          [.keep "tmpListA" "[b]", .set "a" "tmpListA[0]", .forIn "v" "p" []])⟩, t) ∧
      ∃ notes, t.diagnostics = [] ++ notes ∧
        notes.countP Diagnostic.isReference + slotMarksOf m.roots = m.headMarks + marksOf m.roots ∧
        (notes.countP Diagnostic.isReference = m.headMarks + marksOf m.roots ↔
          ∀ n ∈ nodesOf m.roots, n.slotMarks = 0) ∧
        ∀ body params u, ((locals ctx.cls body params).run u).2.diagnostics = u.diagnostics := by
  intro ctx item m note t
  have run : (lowerMethod ctx m).run.run {} = (.ok ⟨"public function m(p)",
      some (["a", "tmpListA", "b", "v"],
        [.keep "tmpListA" "[b]", .set "a" "tmpListA[0]", .forIn "v" "p" []])⟩, t) := by decide +kernel
  exact ⟨run, lowerMethod_reference_notes run⟩

/-- In a method with the body `[&a] = x` there is a mark, and no note is made. -/
theorem slot_mark_not_reported :
    let ctx : Context := ⟨Scope.of {} { name := "A" }, ⟨{}, {}⟩⟩
    let m : Method :=
      { name := "m",
        body := some [.expression (.assign
          (.list [some ⟨none, .var (.literal "a"), true, false⟩]) (.var (.literal "x")) false)] }
    ((lowerMethod ctx m).run.run {}).1.isOk = true ∧
      ((lowerMethod ctx m).run.run {}).2.diagnostics = [] ∧
      m.headMarks + marksOf m.roots = 1 := by
  intro ctx m
  refine ⟨by decide +kernel, by decide +kernel, ?_⟩
  decide +kernel

end Zephirize
