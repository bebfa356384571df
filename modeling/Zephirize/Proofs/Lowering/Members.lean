import Zephirize.Program
import Zephirize.Proofs.Lowering.Classes

/-!
# Members on their own

A member is converted from a state that keeps nothing but the records, and a conversion does not
look at the records. So from every state a member gives the result and adds the notes that it has on
its own (`Independent`), and a class is put together from what its members are on their own
(`classText_members`).

The variables of a body are searched for before the body is converted. The search may try
conversions that fail, so it has its own rule: it gives the same names from states that agree, and
does not touch the records (`Searches`).
-/

namespace Zephirize

open Lowering

/-! ### Searches -/

/-- From states that agree, the search gives the same result and leaves states that agree. It does
not touch the records. -/
def Searches {α : Type} (search : StateM State α) : Prop :=
  ∀ s s' : State, s.Agree s' → (search.run s).1 = (search.run s').1 ∧
    (search.run s).2.Agree (search.run s').2 ∧ s.Logs (search.run s).2 [] []

namespace Searches

variable {α β : Type}

theorem pure (a : α) : Searches (Pure.pure a : StateM State α) :=
  fun s _ agree => ⟨rfl, agree, .refl s⟩

theorem bind {x : StateM State α} {f : α → StateM State β} (hx : Searches x)
    (hf : ∀ a, Searches (f a)) : Searches (x >>= f) := by
  intro s s' agree
  obtain ⟨result, agree, logs⟩ := hx s s' agree
  obtain ⟨result', agree', logs'⟩ := hf (x.run s).1 _ _ agree
  have start (u : State) : (x >>= f).run u = (f (x.run u).1).run (x.run u).2 := rfl
  rw [start s, start s', ← result]
  exact ⟨result', agree', logs.trans logs'⟩

/-- A search as a step of a conversion. -/
theorem uniform {x : StateM State α} (hx : Searches x) : Uniform (x : Lowering α) := by
  intro s s' agree
  have start (u : State) : (x : Lowering α).run.run u = (.ok (x.run u).1, (x.run u).2) := rfl
  obtain ⟨result, agree', logs⟩ := hx s s' agree
  refine ⟨.ok (x.run s).1, _, _, [], fun _ => [], start s, ?_, agree', logs,
    (hx s' s' (.refl s')).2.2⟩
  rw [start s', result]

end Searches

variable {cls : String}

/-- States that agree, as a search starts from them. -/
theorem State.Agree.cleared {s s' : State} (agree : s.Agree s') :
    State.Agree { s with hoisted := [], diagnostics := [], hoistArrays := false }
      { s' with hoisted := [], diagnostics := [], hoistArrays := false } :=
  ⟨agree.dims, rfl, agree.created, rfl, agree.loops⟩

theorem searches_dimTemps (e : Expr) : Searches (dimTemps cls e) := by
  intro s s' agree
  obtain ⟨r, t, t', lines, notes, run, run', agree', logs, -⟩ :=
    (@converts_exprText cls e).uniform _ _ agree.cleared
  rw [dimTemps_eq, dimTemps_eq, run, run']
  dsimp only
  rw [agree.created, agree'.created]
  exact ⟨rfl, ⟨agree'.dims, agree.hoisted, rfl, agree.hoistArrays, agree'.loops⟩,
    .silent logs.method rfl rfl⟩

theorem searches_visitNames (v : Visit) : Searches (visitNames cls v) := by
  unfold visitNames
  split
  · split_ifs
    · exact .pure _
    · exact searches_dimTemps _
  · exact .pure _

theorem searches_allNames (visits : List Visit) : Searches (allNames cls visits) := by
  induction visits with
  | nil => exact .pure _
  | cons v rest ih => exact (searches_visitNames v).bind fun _ => ih.bind fun _ => .pure _

theorem searches_locals (body : List Stmt) (params : List String) :
    Searches (locals cls body params) := by
  intro s s' agree
  obtain ⟨names, agree', logs⟩ :=
    @searches_allNames cls (descendants (body.map .stmt)) _ _ agree.cleared
  rw [locals_eq, locals_eq]
  dsimp only
  rw [names]
  exact ⟨rfl, ⟨rfl, agree.hoisted, rfl, agree.hoistArrays, agree'.loops⟩,
    .silent logs.method rfl rfl⟩

theorem uniform_lowerBody (body : List Stmt) (params : List String) :
    Uniform (lowerBody cls body params) :=
  (searches_locals body params).uniform.bind fun _ =>
    .bind (@settles_stmts cls body).uniform.inBlock fun _ => .pure _

/-! ### Members -/

/-- From every state the step gives the result and adds the notes that it has from a fresh state. -/
def Independent {α : Type} (step : Lowering α) : Prop :=
  ∀ s : State, (step.run.run s).1 = (step.run.run {}).1 ∧
    (step.run.run s).2.diagnostics = s.diagnostics ++ (step.run.run {}).2.diagnostics

namespace Independent

variable {α β : Type}

/-- A step that starts by dropping all but the records. The states that it then runs from agree, and
have the same method for the notes. -/
theorem ofReset {x : Lowering α} (hx : Uniform x) (method : Option String) :
    Independent (do
      modify fun s => s.reset method
      x) := by
  intro s
  have agree : (s.reset method).Agree (({} : State).reset method) := ⟨rfl, rfl, rfl, rfl, rfl⟩
  obtain ⟨r, t, t', lines, notes, run, run', -, logs, logs'⟩ := hx _ _ agree
  rw [run_bind_ok (run_modify _ s), run_bind_ok (run_modify _ _), run, run']
  refine ⟨rfl, ?_⟩
  dsimp only
  rw [logs.diagnostics, logs'.diagnostics]
  rfl

theorem map {x : Lowering α} (hx : Independent x) (f : α → β) :
    Independent (do return f (← x)) := by
  intro s
  obtain ⟨result, notes⟩ := hx s
  rw [run_map, run_map, result]
  exact ⟨rfl, notes⟩

end Independent

theorem independent_lowerMethod (ctx : Context) (m : Method) : Independent (lowerMethod ctx m) := by
  refine .ofReset ((uniform_lowerHead ctx m).bind fun head => ?_) (some m.name)
  cases m.body with
  | none => exact .pure _
  | some body => exact (uniform_lowerBody body head.2).bind fun _ => .pure _

theorem independent_lowerMember (ctx : Context) (member : Member) :
    Independent (lowerMember ctx member) := by
  cases member with
  | constant c =>
    have value := (@converts_exprText ctx.cls c.value).uniform
    exact .map (.ofReset (value.bind fun _ => .pure _) none) _
  | property p =>
    have value := (@converts_defaultText ctx.cls p.value).uniform
    exact .map (.ofReset (value.bind fun _ => .pure _) none) _
  | method m => exact .map (independent_lowerMethod ctx m) _

/-- The kind of the member that the code is for. -/
def MemberCode.kind : MemberCode → Kind
  | .constant _ => .classConst
  | .property _ => .property
  | .method _ _ => .method

/-- The text of a member. The doc comment of a method stands above it. -/
def MemberCode.text (unit : String) : MemberCode → String
  | .constant text => text
  | .property text => text
  | .method doc code => documented doc (code.render unit)

/-- A member converted on its own, with its diagnostics. -/
def memberText (ctx : Context) (width : ℕ) (member : Member) :
    Except Refusal String × List Diagnostic :=
  let run := (lowerMember ctx member).run.run {}
  (run.1.map (MemberCode.text (blanks width)), run.2.diagnostics)

/-- The diagnostics of members, each converted on its own. -/
def memberNotes (ctx : Context) (width : ℕ) (members : List Member) : List Diagnostic :=
  members.flatMap fun member => (memberText ctx width member).2

theorem exists_of_map_eq_ok {α β : Type} {r : Except Refusal α} {f : α → β} {b : β}
    (h : r.map f = .ok b) : ∃ a, r = .ok a ∧ f a = b := by
  cases r with
  | ok a => exact ⟨a, rfl, Except.ok.inj h⟩
  | error e => cases h

theorem lowerMember_kind {ctx : Context} {member : Member} {code : MemberCode}
    (h : ((lowerMember ctx member).run.run {}).1 = .ok code) : code.kind = member.kind := by
  cases member with
  | constant c | property p | method m =>
    rw [lowerMember, run_map] at h
    obtain ⟨_, -, rfl⟩ := exists_of_map_eq_ok h
    rfl

/-- Members are converted up to the first that fails on its own, and each adds its own notes. -/
theorem lowerMembers_alone (ctx : Context) (width : ℕ) (members : List Member) (s : State) :
    (∃ codes t, (lowerMembers ctx members).run.run s = (.ok codes, t) ∧
      List.Forall₂ (fun member code => ((lowerMember ctx member).run.run {}).1 = .ok code)
        members codes ∧
      t.diagnostics = s.diagnostics ++ memberNotes ctx width members) ∨
    ∃ earlier member later e t, (lowerMembers ctx members).run.run s = (.error e, t) ∧
      members = earlier ++ member :: later ∧
      (∀ m ∈ earlier, ∃ text, (memberText ctx width m).1 = .ok text) ∧
      (memberText ctx width member).1 = .error e ∧
      t.diagnostics = s.diagnostics ++ memberNotes ctx width (earlier ++ [member]) := by
  induction members generalizing s with
  | nil => exact .inl ⟨[], s, rfl, .nil, by simp [memberNotes]⟩
  | cons member rest ih =>
    obtain ⟨r, t, run⟩ : ∃ r t, (lowerMember ctx member).run.run s = (r, t) := ⟨_, _, rfl⟩
    obtain ⟨result, notes⟩ := independent_lowerMember ctx member s
    rw [run] at result notes
    have own : (memberText ctx width member).1 = r.map (MemberCode.text (blanks width)) :=
      congrArg (Except.map _) result.symm
    have noted (rest : List Member) : t.diagnostics ++ memberNotes ctx width rest =
        s.diagnostics ++ memberNotes ctx width (member :: rest) := by
      rw [memberNotes, memberNotes, List.flatMap_cons, ← List.append_assoc]
      exact congrArg (· ++ _) notes
    rw [lowerMembers]
    cases r with
    | error e =>
      refine .inr ⟨[], member, rest, e, t, run_bind_error run, rfl, by simp, own, ?_⟩
      rw [List.nil_append, ← noted [], memberNotes, List.flatMap_nil, List.append_nil]
    | ok code =>
      rw [run_bind_ok run]
      rcases ih t with
        ⟨codes, u, converted, all, more⟩ | ⟨earlier, m, later, e, u, failed, rfl, all, fault, more⟩
      · refine .inl ⟨code :: codes, u, ?_, .cons result.symm all, ?_⟩
        · rw [run_bind_ok converted]
          rfl
        · rw [more, noted]
      · refine .inr ⟨member :: earlier, m, later, e, u, run_bind_error failed, rfl, ?_, fault, ?_⟩
        · exact List.forall_mem_cons.2 ⟨⟨_, own⟩, all⟩
        · rw [more, noted, List.cons_append]

/-! ### Classes -/

/-- The texts of the members of a kind, in order. -/
def textsOf (kind : Kind) (members : List Member) (texts : List String) : List String :=
  ((members.zip texts).filter fun entry => entry.1.kind == kind).map Prod.snd

/-- The inside of a class: the constants on lines of their own, then each property and each method,
set apart by blank lines. -/
def membersText (members : List Member) (texts : List String) : String :=
  let constants := textsOf .classConst members texts
  "\n\n".intercalate ((if constants.isEmpty then [] else [Text.joinLines constants]) ++
    textsOf .property members texts ++ textsOf .method members texts)

/-- What stands above the block of a class with a heading. -/
def headerText (scope : Scope) (head : String) : String :=
  let nameSpace := scope.nameSpace.toList.map fun ns => "namespace " ++ ns ++ ";"
  let uses := if scope.imports.isEmpty then [] else
    [Text.joinLines (scope.imports.map fun entry => useText entry.1 entry.2)]
  "\n\n".intercalate (nameSpace ++ uses ++ [documented scope.decl.doc head])

/-- A text put after the last part of an intercalation. -/
theorem intercalate_concat (sep : String) (xs : List String) (last more : String) :
    sep.intercalate (xs ++ [last ++ more]) = sep.intercalate (xs ++ [last]) ++ more := by
  by_cases hx : xs = []
  · simp [hx]
  · rw [String.intercalate_append_of_ne_nil hx (by simp),
      String.intercalate_append_of_ne_nil hx (by simp)]
    simp [String.append_assoc]

/-- Parts joined beforehand. -/
theorem intercalate_joined (sep : String) (xs ys zs : List String) :
    sep.intercalate (xs ++ (if ys.isEmpty then [] else [sep.intercalate ys]) ++ zs) =
      sep.intercalate (xs ++ ys ++ zs) := by
  cases ys with
  | nil => simp
  | cons y ys =>
    have joined : sep.intercalate ([sep.intercalate (y :: ys)] ++ zs) =
        sep.intercalate (y :: ys ++ zs) := by
      by_cases hz : zs = []
      · simp [hz]
      · rw [String.intercalate_append_of_ne_nil (by simp) hz,
          String.intercalate_append_of_ne_nil (by simp) hz, String.intercalate_singleton]
    rw [List.isEmpty_cons, if_neg Bool.false_ne_true, List.append_assoc, List.append_assoc]
    by_cases hx : xs = []
    · rw [hx, List.nil_append, List.nil_append, joined]
    · rw [String.intercalate_append_of_ne_nil hx (by simp),
        String.intercalate_append_of_ne_nil hx (by simp), joined]

theorem textsOf_eq {ctx : Context} {members : List Member} {codes : List MemberCode} (unit : String)
    (h : List.Forall₂ (fun member code => ((lowerMember ctx member).run.run {}).1 = .ok code)
      members codes) (kind : Kind) {pick : MemberCode → Option String}
    (picks : ∀ code, pick code = if code.kind = kind then some (code.text unit) else none) :
    codes.filterMap pick = textsOf kind members (codes.map (MemberCode.text unit)) := by
  induction h with
  | nil => rfl
  | @cons member code members codes head rest ih =>
    rw [textsOf, List.map_cons, List.zip_cons_cons, List.filter_cons, ← lowerMember_kind head]
    by_cases same : code.kind = kind
    · rw [List.filterMap_cons_some (b := code.text unit) (by rw [picks, if_pos same]), ih]
      simp [same, textsOf]
    · rw [List.filterMap_cons_none (by rw [picks, if_neg same]), ih]
      simp [same, textsOf]

theorem renderAll_eq {ctx : Context} {members : List Member} {codes : List MemberCode}
    (unit : String)
    (h : List.Forall₂ (fun member code => ((lowerMember ctx member).run.run {}).1 = .ok code)
      members codes) :
    MemberCode.renderAll unit codes =
      membersText members (codes.map (MemberCode.text unit)) := by
  rw [MemberCode.renderAll, textsOf_eq unit h .classConst, textsOf_eq unit h .property,
    textsOf_eq unit h .method, intercalate_joined]
  · rfl
  all_goals
    intro code
    cases code <;> rfl

theorem render_eq (unit : String) (scope : Scope) (head : String) (codes : List MemberCode) :
    (⟨scope.nameSpace, scope.imports, scope.decl.doc, head, codes⟩ : ClassCode).render unit =
      headerText scope head ++ "\n" ++ block unit (MemberCode.renderAll unit codes) ++ "\n" := by
  rw [ClassCode.render, String.append_assoc, intercalate_concat, ← String.append_assoc]
  rfl

theorem exists_of_mem_left {α β : Type} {R : α → β → Prop} {xs : List α} {ys : List β}
    (h : List.Forall₂ R xs ys) {a : α} (mem : a ∈ xs) : ∃ b, R a b := by
  induction h with
  | nil => cases mem
  | cons head rest ih =>
    rcases List.mem_cons.1 mem with rfl | mem
    · exact ⟨_, head⟩
    · exact ih mem

/-- A class is put together from its members as they are on their own: it is converted when each of
them is, from their texts, and else refused as the first that fails is. Its diagnostics are those of
the heading and then those of each member. What was converted before a method makes no
difference. -/
theorem classText_members (ctx : Context) (width : ℕ) :
    let members := ctx.scope.decl.members
    let own := memberText ctx width
    (∃ head notes,
      (classHead ctx.cls ctx.scope.decl).run.run {} = (.ok head, { diagnostics := notes }) ∧
      ((∃ text, (classText ctx width).1 = .ok text) ↔
        ∀ m ∈ members, ∃ text, (own m).1 = .ok text) ∧
      ((∃ texts, List.Forall₂ (fun m text => (own m).1 = .ok text) members texts ∧
          classText ctx width =
            (.ok (headerText ctx.scope head ++ "\n" ++
                block (blanks width) (membersText members texts) ++ "\n"),
              notes ++ memberNotes ctx width members)) ∨
        ∃ earlier m later e, members = earlier ++ m :: later ∧
          (∀ k ∈ earlier, ∃ text, (own k).1 = .ok text) ∧ (own m).1 = .error e ∧
          classText ctx width = (.error e, notes ++ memberNotes ctx width (earlier ++ [m])))) ∧
    ∀ m : Method, Independent (lowerMethod ctx m) := by
  intro members own
  refine ⟨?_, independent_lowerMethod ctx⟩
  obtain ⟨head, notes, run⟩ := classHead_run ctx.cls ctx.scope.decl {}
  refine ⟨head, notes none, run, ?_⟩
  rw [classText, lowerDecl, run_bind_ok run]
  rcases lowerMembers_alone ctx width members (({} : State).noting notes) with
    ⟨codes, t, converted, all, more⟩ | ⟨earlier, m, later, e, t, failed, split, all, fault, more⟩
  · have texts : List.Forall₂ (fun m text => (own m).1 = .ok text) members
        (codes.map (MemberCode.text (blanks width))) :=
      List.forall₂_map_right_iff.2 (all.imp fun m code ok => congrArg (Except.map _) ok)
    rw [run_bind_ok converted]
    refine ⟨⟨fun _ m => exists_of_mem_left texts, fun _ => ⟨_, rfl⟩⟩, .inl ⟨_, texts, ?_⟩⟩
    rw [← renderAll_eq _ all, ← render_eq]
    exact Prod.ext rfl more
  · rw [run_bind_error failed]
    refine ⟨⟨?_, fun each => ?_⟩, .inr ⟨earlier, m, later, e, split, all, fault, ?_⟩⟩
    · rintro ⟨text, ok⟩
      cases ok
    · obtain ⟨text, ok⟩ := each m (by rw [split]; simp)
      rw [fault] at ok
      cases ok
    · exact Prod.ext rfl more

end Zephirize
