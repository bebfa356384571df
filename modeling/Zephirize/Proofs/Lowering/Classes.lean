import Zephirize.Proofs.Code.Equality
import Zephirize.Proofs.Code.Shown
import Zephirize.Proofs.Lowering.Methods

/-!
# Converting classes

The members of a class are converted one after the other, each from a state of its own. What a class
hoists is what its values hoist and what the bodies of its methods hoist, and only the latter is
written. A class is refused for what stands in its values and bodies.

* `hoisted_lines_shown_iff` — the hoisted lines that stand in the text of a class.
* `classText_refusals` — the classes that are refused, and why.
-/

namespace Zephirize

open Lowering

/-- The values of a member: its own, or the default values of its parameters. -/
def Member.values : Member → List Expr
  | .constant c => [c.value]
  | .property p => p.value.toList
  | .method m => m.defaults

/-- The statements of a member. -/
def Member.statements : Member → List Node
  | .method m => m.statements
  | _ => []

/-- The roots of the trees in a member. -/
def Member.roots (member : Member) : List Node := member.values.map .expr ++ member.statements

/-- Every class name in the declared types of a member has a part. -/
def Member.IsNamed : Member → Prop
  | .method m => m.IsNamed
  | _ => True

/-- The lines that converting the values of a member hoists. -/
def valueLines (ctx : Context) : Member → List Code
  | .constant c => ((exprText ctx.cls c.value).run.run {}).2.queued
  | .property p => ((defaultText ctx.cls p.value).run.run {}).2.queued
  | .method m => headLines ctx m

/-! ### Members -/

/-- What a member with a single value does. -/
theorem lowerValue_run {cls : String} {step : Lowering String} {tally : Tally}
    (converts : Converts cls step [] tally fun _ => []) (write : String → String) (s : State) :
    (∃ text t, (do
        modify fun s => s.reset none
        return write (← step) : Lowering String).run.run s = (.ok text, t) ∧
      tally.refused = ∅ ∧ t.queued = s.queued ++ (step.run.run {}).2.queued) ∨
    (∃ k t, (do
        modify fun s => s.reset none
        return write (← step) : Lowering String).run.run s = (.error (.unsupported k cls), t) ∧
      k ∈ tally.refused) := by
  rw [run_bind_ok (run_modify _ s)]
  rcases converts.outcome (s.reset none) with ⟨text, t, run, -, clean, -⟩ | ⟨k, t, run, -, hk⟩
  · exact .inl ⟨write text, t, by rw [run_bind_ok run]; rfl, clean,
      converts.uniform.queued_reset s none run⟩
  · exact .inr ⟨k, t, run_bind_error run, hk⟩

/-- What the conversion of a member does. -/
theorem lowerMember_run (ctx : Context) (member : Member) (s : State) :
    (∃ code t log, (lowerMember ctx member).run.run s = (.ok code, t) ∧
      (Tally.of member.roots).refused = ∅ ∧
      t.queued = s.queued ++ valueLines ctx member ++ log ∧ ∀ q ∈ log, q ∈ code.parts) ∨
    (∃ k t, (lowerMember ctx member).run.run s = (.error (.unsupported k ctx.cls), t) ∧
      k ∈ (Tally.of member.roots).refused) ∨
    (∃ e t, (lowerMember ctx member).run.run s = (.error (.malformedType e), t) ∧
      ¬ member.IsNamed) := by
  cases member with
  | constant c =>
    rcases lowerValue_run (@converts_exprText ctx.cls c.value)
        (fun text => "const " ++ c.name ++ " = " ++ text ++ ";") s with
      ⟨text, t, run, clean, queued⟩ | ⟨k, t, run, hk⟩
    · refine .inl ⟨.constant text, t, [], ?_, ?_, by simpa [valueLines] using queued, by simp⟩
      · rw [lowerMember, lowerConstant, run_bind_ok run]
        rfl
      · simpa [Member.roots, Member.values, Member.statements] using clean
    · refine .inr (.inl ⟨k, t, ?_, ?_⟩)
      · rw [lowerMember, lowerConstant, run_bind_error run]
      · simpa [Member.roots, Member.values, Member.statements] using hk
  | property p =>
    rcases lowerValue_run (@converts_defaultText ctx.cls p.value)
        (fun value => documented p.doc (p.flags.withVisibility.keywords ++ p.name ++ value ++ ";"))
        s with ⟨text, t, run, clean, queued⟩ | ⟨k, t, run, hk⟩
    · refine .inl ⟨.property text, t, [], ?_, ?_, by simpa [valueLines] using queued, by simp⟩
      · rw [lowerMember, lowerProperty, run_bind_ok run]
        rfl
      · simpa [Member.roots, Member.values, Member.statements] using clean
    · refine .inr (.inl ⟨k, t, ?_, ?_⟩)
      · rw [lowerMember, lowerProperty, run_bind_error run]
      · simpa [Member.roots, Member.values, Member.statements] using hk
  | method m =>
    rw [lowerMember]
    rcases lowerMethod_run ctx m s with
      ⟨code, t, log, run, clean, cleanBody, queued, written⟩ | ⟨k, t, run, hk⟩ | ⟨e, t, run, unnamed⟩
    · refine .inl ⟨.method m.doc code, t, log, by rw [run_bind_ok run]; rfl, ?_, queued, ?_⟩
      · simp [Member.roots, Member.values, Member.statements, clean, cleanBody]
      · intro q hq
        obtain ⟨body, hbody, mem⟩ := written q hq
        rw [Option.mem_def] at hbody
        simpa [MemberCode.parts, hbody] using mem
    · refine .inr (.inl ⟨k, t, run_bind_error run, ?_⟩)
      simpa [Member.roots, Member.values, Member.statements] using hk
    · exact .inr (.inr ⟨e, t, run_bind_error run, unnamed⟩)

/-- What the conversion of members does. -/
theorem lowerMembers_run (ctx : Context) (members : List Member) (s : State) :
    (∃ codes t log, (lowerMembers ctx members).run.run s = (.ok codes, t) ∧
      (Tally.of (members.flatMap Member.roots)).refused = ∅ ∧ t.queued = s.queued ++ log ∧
      (∀ member ∈ members, ∀ q ∈ valueLines ctx member, q ∈ log) ∧
      ∀ q ∈ log, (∃ member ∈ members, q ∈ valueLines ctx member) ∨
        ∃ code ∈ codes, q ∈ code.parts) ∨
    (∃ k t, (lowerMembers ctx members).run.run s = (.error (.unsupported k ctx.cls), t) ∧
      k ∈ (Tally.of (members.flatMap Member.roots)).refused) ∨
    (∃ e t, (lowerMembers ctx members).run.run s = (.error (.malformedType e), t) ∧
      ∃ member ∈ members, ¬ member.IsNamed) := by
  induction members generalizing s with
  | nil => exact .inl ⟨[], s, [], rfl, by simp, by simp, by simp, by simp⟩
  | cons member rest ih =>
    rw [lowerMembers]
    rcases lowerMember_run ctx member s with
      ⟨code, t, log, run, clean, queued, written⟩ | ⟨k, t, run, hk⟩ | ⟨e, t, run, unnamed⟩
    · rw [run_bind_ok run]
      rcases ih t with
        ⟨codes, u, more, converted, cleanRest, queued', values, known⟩ | ⟨k, u, failed, hk⟩ |
        ⟨e, u, failed, other, mem, unnamed⟩
      · refine .inl ⟨code :: codes, u, valueLines ctx member ++ log ++ more, ?_, ?_, ?_, ?_, ?_⟩
        · rw [run_bind_ok converted]
          rfl
        · simp [clean, cleanRest]
        · rw [queued', queued]
          simp
        · rw [List.forall_mem_cons]
          refine ⟨fun q hq => ?_, fun other mem q hq => ?_⟩
          · simp [hq]
          · simp [values other mem q hq]
        · intro q hq
          rw [List.mem_append, List.mem_append] at hq
          rcases hq with (hq | hq) | hq
          · exact .inl ⟨member, List.mem_cons_self, hq⟩
          · exact .inr ⟨code, List.mem_cons_self, written q hq⟩
          · rcases known q hq with ⟨other, mem, hq⟩ | ⟨other, mem, hq⟩
            · exact .inl ⟨other, List.mem_cons_of_mem _ mem, hq⟩
            · exact .inr ⟨other, List.mem_cons_of_mem _ mem, hq⟩
      · exact .inr (.inl ⟨k, u, run_bind_error failed, by simp [hk]⟩)
      · exact .inr (.inr ⟨e, u, run_bind_error failed, other, List.mem_cons_of_mem _ mem, unnamed⟩)
    · exact .inr (.inl ⟨k, t, run_bind_error run, by simp [hk]⟩)
    · exact .inr (.inr ⟨e, t, run_bind_error run, member, List.mem_cons_self, unnamed⟩)

theorem classHead_run (cls : String) (decl : ClassDecl) (s : State) :
    ∃ head notes, (classHead cls decl).run.run s = (.ok head, s.noting notes) := by
  obtain ⟨notes, run⟩ := run_reportIf (decl.kind == .trait) cls "trait"
    ("Trait \"" ++ decl.name ++ "\" converted to a class") "trait"
  rw [classHead, run_bind_ok (run s)]
  cases decl.kind with
  | interface => exact ⟨_, notes, rfl⟩
  | plain => exact ⟨_, notes, rfl⟩
  | trait => exact ⟨_, notes, rfl⟩

/-- The roots of the trees in a class. -/
def ClassDecl.roots (decl : ClassDecl) : List Node := decl.members.flatMap Member.roots

/-- The lines that converting a class hoists. -/
def hoistedLines (ctx : Context) : List Code := ((lowerDecl ctx).run.run {}).2.queued

/-- What the conversion of a class does. -/
theorem lowerDecl_run (ctx : Context) :
    (∃ code t, (lowerDecl ctx).run.run {} = (.ok code, t) ∧
      (Tally.of ctx.scope.decl.roots).refused = ∅ ∧
      (∀ member ∈ ctx.scope.decl.members, ∀ q ∈ valueLines ctx member, q ∈ hoistedLines ctx) ∧
      ∀ q ∈ hoistedLines ctx,
        (∃ member ∈ ctx.scope.decl.members, q ∈ valueLines ctx member) ∨
          ∃ member ∈ code.members, q ∈ member.parts) ∨
    (∃ k t, (lowerDecl ctx).run.run {} = (.error (.unsupported k ctx.cls), t) ∧
      k ∈ (Tally.of ctx.scope.decl.roots).refused) ∨
    (∃ e t, (lowerDecl ctx).run.run {} = (.error (.malformedType e), t) ∧
      ∃ member ∈ ctx.scope.decl.members, ¬ member.IsNamed) := by
  obtain ⟨head, notes, run⟩ := classHead_run ctx.cls ctx.scope.decl {}
  rw [hoistedLines, lowerDecl, run_bind_ok run]
  rcases lowerMembers_run ctx ctx.scope.decl.members (({} : State).noting notes) with
    ⟨codes, t, log, converted, clean, queued, values, known⟩ | ⟨k, t, failed, hk⟩ |
    ⟨e, t, failed, unnamed⟩
  · rw [run_bind_ok converted]
    obtain rfl : t.queued = log := queued
    exact .inl ⟨_, t, rfl, clean, values, known⟩
  · exact .inr (.inl ⟨k, t, run_bind_error failed, hk⟩)
  · exact .inr (.inr ⟨e, t, run_bind_error failed, unnamed⟩)

/-! ### Lines that are written -/

/-- A hoisted line stands in the text of the class, up to indentation, unless a value hoists it. So
no hoisted line is lost exactly when those of the values stand there too. -/
theorem hoisted_lines_shown_iff {ctx : Context} {width : ℕ} {text : String}
    (h : (classText ctx width).1 = .ok text) :
    (∀ q ∈ hoistedLines ctx, Text.Shows text (q.render (blanks width)) ∨
      ∃ member ∈ ctx.scope.decl.members, q ∈ valueLines ctx member) ∧
    ((∀ q ∈ hoistedLines ctx, Text.Shows text (q.render (blanks width))) ↔
      ∀ member ∈ ctx.scope.decl.members, ∀ q ∈ valueLines ctx member,
        Text.Shows text (q.render (blanks width))) := by
  rw [classText] at h
  rcases lowerDecl_run ctx with
    ⟨code, t, run, -, values, known⟩ | ⟨k, t, run, -⟩ | ⟨e, t, run, -⟩
  · rw [run] at h
    cases h
    have shownOrValue : ∀ q ∈ hoistedLines ctx,
        Text.Shows (code.render (blanks width)) (q.render (blanks width)) ∨
          ∃ member ∈ ctx.scope.decl.members, q ∈ valueLines ctx member := by
      intro q hq
      rcases known q hq with value | ⟨member, mem, hq⟩
      · exact .inr value
      · exact .inl (ClassCode.shows_parts width mem hq)
    refine ⟨shownOrValue, fun shown member mem q hq => shown q (values member mem q hq), ?_⟩
    intro shown q hq
    rcases shownOrValue q hq with shows | ⟨member, mem, hq⟩
    · exact shows
    · exact shown member mem q hq
  · rw [run] at h
    cases h
  · rw [run] at h
    cases h

/-- In a class with the method `m(p = B::C[0])` and the body `return B::C[0]`, the line for the
default value stands in the body. -/
theorem hoisted_lines_shown_iff_repeated :
    let fetch : Expr := .dim (.classConst ⟨["B"], false⟩ "C") (some (.int 0))
    let m : Method :=
      { name := "m", params := [{ name := "p", value := some fetch }],
        body := some [.ret (some fetch)] }
    let ctx : Context := ⟨Scope.of {} { name := "A", members := [.method m] }, ⟨{}, {}⟩⟩
    let text := "class A\n\x7b\n    public function m(p = tmpDim1[0])\n    \x7b\n" ++
      "        var tmpDim2;\n\n        let tmpDim1 = B::C;\n        return tmpDim1[0];\n" ++
      "    \x7d\n\x7d\n"
    (classText ctx 4).1 = .ok text ∧
      (∀ q ∈ hoistedLines ctx, Text.Shows text (q.render (blanks 4)) ∨
        ∃ member ∈ ctx.scope.decl.members, q ∈ valueLines ctx member) ∧
      ((∀ q ∈ hoistedLines ctx, Text.Shows text (q.render (blanks 4))) ↔
        ∀ member ∈ ctx.scope.decl.members, ∀ q ∈ valueLines ctx member,
          Text.Shows text (q.render (blanks 4))) := by
  intro fetch m ctx text
  have ok : (classText ctx 4).1 = .ok text := by decide +kernel
  exact ⟨ok, hoisted_lines_shown_iff ok⟩

/-- In a class with the constant `X = B::C[0]`, the line for its value is lost. -/
theorem value_lines_lost :
    let fetch : Expr := .dim (.classConst ⟨["B"], false⟩ "C") (some (.int 0))
    let ctx : Context :=
      ⟨Scope.of {} { name := "A", members := [.constant ⟨"X", fetch⟩] }, ⟨{}, {}⟩⟩
    let text := "class A\n\x7b\n    const X = tmpDim1[0];\n\x7d\n"
    (classText ctx 4).1 = .ok text ∧ hoistedLines ctx = [.keep "tmpDim1" "B::C"] ∧
      ¬ Text.Shows text ((Code.keep "tmpDim1" "B::C").render (blanks 4)) := by
  intro fetch ctx text
  refine ⟨by decide +kernel, by decide +kernel, ?_⟩
  rw [Text.Shows]
  decide +kernel

/-! ### Refusals -/

/-- The kinds of nodes that the target language has no form for. -/
def unsupportedKinds : List Kind := [.goto, .label, .html, .eval, .shell]

/-- A node is refused for its kind. -/
theorem Node.mem_tally_refused {k : Kind} (n : Node) :
    k ∈ n.tally.refused ↔ n.kind = k ∧ k ∈ unsupportedKinds := by
  constructor
  · intro hk
    unfold Node.tally at hk
    split at hk
    case h_1 base index =>
      split_ifs at hk
      · cases hk
      · cases hk
    case h_4 | h_5 | h_9 | h_10 | h_11 =>
      rw [Set.mem_singleton_iff.1 hk]
      exact ⟨rfl, by decide⟩
    all_goals cases hk
  · rintro ⟨rfl, hk⟩
    cases n with
    | stmt s =>
      cases s <;> first | exact Set.mem_singleton _ | simp [kind, Stmt.kind, unsupportedKinds] at hk
    | expr e =>
      cases e <;> first | exact Set.mem_singleton _ | simp [kind, Expr.kind, unsupportedKinds] at hk
    | _ => simp [kind, unsupportedKinds] at hk

theorem mem_refused_iff {k : Kind} {roots : List Node} :
    k ∈ (Tally.of roots).refused ↔ k ∈ unsupportedKinds ∧ anyOfKind roots k = true := by
  simp only [Tally.mem_of_refused, Node.mem_tally_refused, anyOfKind, nodesOf, List.mem_map,
    List.any_eq_true, beq_iff_eq]
  constructor
  · rintro ⟨_, ⟨v, hv, rfl⟩, kind, unsupported⟩
    exact ⟨unsupported, v, hv, kind⟩
  · rintro ⟨unsupported, v, hv, kind⟩
    exact ⟨_, ⟨v, hv, rfl⟩, kind, unsupported⟩

/-- A class whose declared types name their classes is converted exactly when no unsupported kind
occurs in its values and bodies; else the refusal names the class and a kind that occurs. -/
theorem classText_refusals (ctx : Context) (width : ℕ)
    (named : ∀ member ∈ ctx.scope.decl.members, member.IsNamed) :
    ((∃ text, (classText ctx width).1 = .ok text) ↔
      ∀ k ∈ unsupportedKinds, anyOfKind ctx.scope.decl.roots k = false) ∧
    ∀ e, (classText ctx width).1 = .error e →
      ∃ k ∈ unsupportedKinds, e = .unsupported k ctx.cls ∧
        anyOfKind ctx.scope.decl.roots k = true := by
  rcases lowerDecl_run ctx with
    ⟨code, t, run, clean, -⟩ | ⟨k, t, run, hk⟩ | ⟨e, t, run, member, mem, unnamed⟩
  · rw [classText, run]
    refine ⟨⟨fun _ k unsupported => ?_, fun _ => ⟨_, rfl⟩⟩, fun e fault => by cases fault⟩
    by_contra occurs
    have hk := mem_refused_iff.2 ⟨unsupported, by simpa using occurs⟩
    rw [clean] at hk
    exact hk
  · obtain ⟨unsupported, occurs⟩ := mem_refused_iff.1 hk
    rw [classText, run]
    refine ⟨⟨?_, fun none => ?_⟩, fun e fault => ?_⟩
    · rintro ⟨text, ok⟩
      cases ok
    · exact absurd occurs (by simp [none k unsupported])
    · cases fault
      exact ⟨k, unsupported, rfl, occurs⟩
  · exact absurd (named member mem) unnamed

/-- In a class with a method `m(B p)` that jumps when `p` holds, the jump is refused. -/
theorem classText_refusals_jump :
    let jump : Stmt := .ifElse (.var (.literal "p")) [.goto "end"] [] none
    let m : Method :=
      { name := "m", params := [{ name := "p", type := some (.ofClass ⟨["B"], false⟩) }],
        body := some [jump] }
    let ctx : Context :=
      ⟨Scope.of {} { name := "A", members := [.constant ⟨"X", .int 1⟩, .method m] }, ⟨{}, {}⟩⟩
    (∀ member ∈ ctx.scope.decl.members, member.IsNamed) ∧
      (classText ctx 4).1 = .error (.unsupported .goto "A") ∧
      ((∃ text, (classText ctx 4).1 = .ok text) ↔
        ∀ k ∈ unsupportedKinds, anyOfKind ctx.scope.decl.roots k = false) ∧
      ∀ e, (classText ctx 4).1 = .error e →
        ∃ k ∈ unsupportedKinds, e = .unsupported k ctx.cls ∧
          anyOfKind ctx.scope.decl.roots k = true := by
  intro jump m ctx
  have method : m.IsNamed := by
    simp [Method.IsNamed, Method.classNames, m, TypeExpr.classNames]
  have named : ∀ member ∈ ctx.scope.decl.members, member.IsNamed := by
    intro member mem
    rcases List.mem_pair.1 mem with rfl | rfl
    · trivial
    · exact method
  exact ⟨named, by decide +kernel, classText_refusals ctx 4 named⟩

end Zephirize
