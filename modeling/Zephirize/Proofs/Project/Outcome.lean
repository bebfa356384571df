import Mathlib.Tactic
import Zephirize.Proofs.Project.Saving
import Zephirize.Proofs.Tree.RoundTrip

/-!
# The outcome of a run

A run converts all classes before it writes anything. If it is to stop at the first failure and a
class fails, nothing is written. Else the files of the converted classes are written, and then the
diagnostics (`run_outcome`).
-/

namespace Zephirize

/-- The files that a run has to write, with their texts. -/
def toSave (s : Settings) (output : ProgramResult) : List (Path × String) :=
  (output.classes.filterMap fun c => c.result.toOption.map (outputPath s c, ·)) ++
    s.diagnosticsFile.toList.map (·, diagnosticsText output.diagnostics)

theorem saveClasses_eq (s : Settings) (classes : List ClassResult) :
    classes.forM (saveClass s) =
      (classes.filterMap fun c => c.result.toOption.map (outputPath s c, ·)).forM
        fun save => saveFile save.1 save.2 := by
  induction classes with
  | nil => rfl
  | cons c rest ih =>
    rw [List.forM, ih, saveClass, List.filterMap_cons]
    cases c.result with
    | ok text => simp only [Except.toOption, Option.map_some, List.forM]
    | error e => exact pure_bind _ _

theorem saveOutput_eq (s : Settings) (output : ProgramResult) :
    saveOutput s output = (toSave s output).forM fun save => saveFile save.1 save.2 := by
  rw [saveOutput, saveClasses_eq, toSave, saveDiagnostics]
  refine Eq.trans ?_ (List.forM_append ..).symm
  refine bind_congr fun _ => ?_
  cases s.diagnosticsFile with
  | none => rfl
  | some p => exact bind_pure_unit.symm

theorem map_fst_toSave (s : Settings) (output : ProgramResult) :
    (toSave s output).map Prod.fst =
      (output.classes.filter (·.succeeded)).map (outputPath s) ++ s.diagnosticsFile.toList := by
  have converted (classes : List ClassResult) :
      (classes.filterMap fun c => c.result.toOption.map (outputPath s c, ·)).map Prod.fst =
        (classes.filter (·.succeeded)).map (outputPath s) := by
    induction classes with
    | nil => rfl
    | cons c rest ih =>
      cases result : c.result with
      | ok text => simpa [ClassResult.succeeded, result, Except.toOption] using ih
      | error e => simpa [ClassResult.succeeded, result, Except.toOption] using ih
  rw [toSave, List.map_append, converted, List.map_map]
  congr 1
  exact List.map_id _

/-- The classes that a run lists as refused. -/
theorem refused_summarize (s : Settings) (inputs : ℕ) (output : ProgramResult) :
    List.Forall₂ (fun c f => f.name = c.name ∧ ∃ e, c.result = .error e ∧ f.message = e.message)
      (output.classes.filter (!·.succeeded)) (summarize s inputs output).refused := by
  unfold summarize
  dsimp only
  induction output.classes with
  | nil => exact .nil
  | cons c rest ih =>
    cases result : c.result with
    | ok text => simpa [ClassResult.succeeded, ClassResult.failure?, result] using ih
    | error e => simpa [ClassResult.succeeded, ClassResult.failure?, result] using ih

theorem firstFailure?_cases (classes : List ClassResult) :
    (firstFailure? classes = none ∧ ∀ c ∈ classes, c.succeeded = true) ∨
    ∃ earlier c later e, firstFailure? classes = some (c.name, e) ∧
      classes = earlier ++ c :: later ∧ (∀ b ∈ earlier, b.succeeded = true) ∧
      c.result = .error e := by
  induction classes with
  | nil => exact .inl ⟨rfl, by simp⟩
  | cons c rest ih =>
    rw [firstFailure?]
    cases result : c.result with
    | error e => exact .inr ⟨[], c, rest, e, rfl, rfl, by simp, result⟩
    | ok text =>
      have ok : c.succeeded = true := by simp [ClassResult.succeeded, result]
      rcases ih with ⟨none, all⟩ | ⟨earlier, d, later, e, first, rfl, all, failed⟩
      · exact .inl ⟨none, List.forall_mem_cons.2 ⟨ok, all⟩⟩
      · exact .inr ⟨c :: earlier, d, later, e, first, rfl, List.forall_mem_cons.2 ⟨ok, all⟩, failed⟩

theorem convertInputs_read {s : Settings} {store : Store} {sources : List SourceFile}
    (read : readInputs s store = .ok sources) :
    convertInputs s store =
      if s.failFast then
        (firstFailure? (zephirize sources s.options).classes).elim
          (.ok (sources.length, zephirize sources s.options)) fun first =>
            .error (.classFailed first.1 first.2)
      else .ok (sources.length, zephirize sources s.options) := by
  unfold convertInputs
  rw [read]
  simp only [Except.mapError, bind, Except.bind]
  generalize zephirize sources s.options = output
  cases s.failFast with
  | false => rfl
  | true =>
    cases firstFailure? output.classes with
    | none => rfl
    | some failure => rfl

/-- A run goes on to write unless it is to stop at a class that failed. -/
theorem convertInputs_go {s : Settings} {store : Store} {sources : List SourceFile}
    (read : readInputs s store = .ok sources)
    (go : ¬ (s.failFast = true ∧
      ∃ c ∈ (zephirize sources s.options).classes, c.succeeded = false)) :
    convertInputs s store = .ok (sources.length, zephirize sources s.options) := by
  rw [convertInputs_read read]
  split_ifs with fast
  · rcases firstFailure?_cases (zephirize sources s.options).classes with
      ⟨none, -⟩ | ⟨earlier, c, later, e, -, split, -, failed⟩
    · rw [none, Option.elim_none]
    · refine absurd ⟨fast, c, ?_, ?_⟩ go
      · rw [split]
        exact List.mem_append_right earlier List.mem_cons_self
      · simp [ClassResult.succeeded, failed]
  · rfl

theorem length_zephirize (files : List SourceFile) (options : Options) :
    (zephirize files options).classes.length = (declarations files).length := by
  rw [zephirize, List.length_map, List.length_map]

theorem run_error {s : Settings} {store : Store} {e : RunError}
    (h : convertInputs s store = .error e) : (run s).run.run store = (.error e, store) := by
  unfold run
  rw [Session.run_bind_ok (Session.run_get store), h]
  rfl

theorem run_converted {s : Settings} {store : Store} {inputs : ℕ} {output : ProgramResult}
    (h : convertInputs s store = .ok (inputs, output)) :
    (run s).run.run store = (do
      saveOutput s output
      return summarize s inputs output : Session Summary).run.run store := by
  unfold run
  rw [Session.run_bind_ok (Session.run_get store), h]
  rfl

/-- A run of readable inputs that is to stop at the first failure, and has one, ends with that class
and leaves the store as it is. Every other run succeeds when the store has room for what it writes:
then it lists the converted classes and the others in order, and nothing in the store is different
but the files that it lists, the file with the diagnostics, and the directories on the way to
them. -/
theorem run_outcome {s : Settings} {store : Store} {sources : List SourceFile}
    (read : readInputs s store = .ok sources) :
    let output := zephirize sources s.options
    let saves := toSave s output
    let stops := s.failFast = true ∧ ∃ c ∈ output.classes, c.succeeded = false
    (stops → ∃ earlier c later e, output.classes = earlier ++ c :: later ∧
      (∀ b ∈ earlier, b.succeeded = true) ∧ c.result = .error e ∧
      (run s).run.run store = (.error (.classFailed c.name e), store)) ∧
    (¬ stops → store.HasRoom (saves.map Prod.fst) → ∃ summary store',
      (run s).run.run store = (.ok summary, store') ∧
      summary.written = (output.classes.filter (·.succeeded)).map (outputPath s) ∧
      List.Forall₂ (fun c f => f.name = c.name ∧ ∃ e, c.result = .error e ∧ f.message = e.message)
        (output.classes.filter (!·.succeeded)) summary.refused ∧
      summary.written.length + summary.refused.length = (declarations sources).length ∧
      saves.map Prod.fst = summary.written ++ s.diagnosticsFile.toList ∧
      Saved saves store store') ∧
    (¬ stops → ¬ store.HasRoom (saves.map Prod.fst) →
      ∃ e store', (run s).run.run store = (.error e, store')) := by
  intro output saves stops
  have conversion := convertInputs_read read
  refine ⟨fun stop => ?_, fun go room => ?_, fun go full => ?_⟩
  · rcases firstFailure?_cases output.classes with
      ⟨-, all⟩ | ⟨earlier, c, later, e, first, split, all, failed⟩
    · obtain ⟨c, mem, failed⟩ := stop.2
      simp [all c mem] at failed
    · rw [if_pos stop.1, first] at conversion
      exact ⟨earlier, c, later, e, split, all, failed, run_error conversion⟩
  · have run := run_converted (convertInputs_go read go)
    rw [saveOutput_eq] at run
    rcases saveAll_run saves store with ⟨store', saved, -, result⟩ | ⟨e, store', -, full⟩
    · rw [Session.run_bind_ok saved] at run
      have refused := refused_summarize s sources.length output
      refine ⟨_, store', run, rfl, refused, ?_, map_fst_toSave s output, result⟩
      calc
        _ = (output.classes.filter (·.succeeded)).length +
            (output.classes.filter (!·.succeeded)).length := by
          rw [refused.length_eq]
          exact congrArg (· + _) (List.length_map _)
        _ = output.classes.length := (List.length_eq_length_filter_add _).symm
        _ = (declarations sources).length := length_zephirize sources s.options
    · exact absurd room full
  · have run := run_converted (convertInputs_go read go)
    rw [saveOutput_eq] at run
    rcases saveAll_run saves store with ⟨store', -, room, -⟩ | ⟨e, store', failed, -⟩
    · exact absurd room full
    · exact ⟨e, store', run.trans (Session.run_bind_error failed)⟩

/-- A store with one input. -/
def oneInput (text : String) : Store := ⟨[(["a.ast.json"], .text text)]⟩

theorem readInputs_oneInput {text : String} {file : SourceFile}
    (parsed : SourceFile.ofText? text = some file) {s : Settings}
    (inputs : s.inputs = [⟨["a.ast.json"]⟩]) (exclude : s.exclude = []) :
    readInputs s (oneInput text) = .ok [{ file with path := file.path <|> some "a.ast.json" }] := by
  have none : exclusions [] = .ok [] := rfl
  have root : inputsOf (oneInput text) s.baseDir [] ⟨["a.ast.json"]⟩ = .ok [⟨["a.ast.json"]⟩] := by
    rfl
  have sorted : Path.sorted [⟨["a.ast.json"]⟩] = [⟨["a.ast.json"]⟩] := by
    rw [Path.sorted, List.mergeSort_singleton]
    rfl
  have content : (oneInput text).read? ⟨["a.ast.json"]⟩ = some text := by rfl
  have read : readInput (oneInput text) ⟨["a.ast.json"]⟩ =
      .ok { file with path := file.path <|> some "a.ast.json" } := by
    rw [readInput, content]
    dsimp only
    rw [parsed]
    rfl
  rw [readInputs, inputs, exclude, none]
  simp only [bind, Except.bind, discover, List.mapM_cons, List.mapM_nil, root, pure, Except.pure,
    List.flatten_cons, List.flatten_nil, List.append_nil, sorted, read]

/-- A program with the classes `A` and `B`, of which the second jumps. -/
def jumping : SourceFile where
  path := some "a.ast.json"
  classes := [
    { name := "A" },
    { name := "B", members := [.method { name := "m", body := some [.goto "end"] }] }]

theorem ofText?_jumping : SourceFile.ofText? jumping.toJson.compact = some jumping := by
  have none : ∀ x, Node.expr (.float x) ∉ nodesOf jumping.nodes := by
    simp [jumping, SourceFile.nodes, ClassDecl.nodes, Member.nodes, Method.nodes, nodesOf_cons,
      Node.children, Node.ofStmt]
  have room : jumping.toJson.depth ≤ Json.nestingLimit := by decide
  rw [SourceFile.ofText?,
    Json.read?_compact (SourceFile.lossless_toJson fun x h => absurd h (none x)) room]
  exact SourceFile.ofJson?_toJson (fun x h => absurd h (none x)) fun x h => absurd h (none x)

/-- The settings of a run on one input. -/
def oneRun (failFast : Bool) : Settings where
  baseDir := ⟨[""]⟩
  inputs := [⟨["a.ast.json"]⟩]
  exclude := []
  outDir := ⟨["out"]⟩
  options := {}
  diagnosticsFile := some ⟨["notes.json"]⟩
  failFast

/-- The class `A` is converted, and `B` is refused. -/
def jumpingClasses : List ClassResult :=
  [⟨"A", .ok "class A\n\x7b\n\x7d\n"⟩, ⟨"B", .error (.unsupported .goto "B")⟩]

theorem classes_jumping (failFast : Bool) :
    (zephirize [jumping] (oneRun failFast).options).classes = jumpingClasses := by
  have parts : ((zephirize [jumping] {}).classes.map fun c => (c.name, c.result)) =
      jumpingClasses.map fun c => (c.name, c.result) := by decide +kernel
  refine List.map_injective_iff.2 ?_ parts
  rintro ⟨name, result⟩ ⟨name', result'⟩ same
  cases same
  rfl

theorem toSave_jumping {output : ProgramResult} (h : output.classes = jumpingClasses) :
    toSave (oneRun false) output =
      [(⟨["out", "a.zep"]⟩, "class A\n\x7b\n\x7d\n"),
        (⟨["notes.json"]⟩, diagnosticsText output.diagnostics)] := by
  have path : outputPath (oneRun false) ⟨"A", .ok "class A\n\x7b\n\x7d\n"⟩ =
      ⟨["out", "a.zep"]⟩ := by rfl
  rw [toSave, h, ← path]
  rfl

theorem route_class : Path.route? ⟨["out", "a.zep"]⟩ = some ⟨[["out"]], ["out", "a.zep"]⟩ := by rfl

theorem route_notes : Path.route? ⟨["notes.json"]⟩ = some ⟨[], ["notes.json"]⟩ := by rfl

theorem hasRoom_oneInput (text : String) :
    (oneInput text).HasRoom [⟨["out", "a.zep"]⟩, ⟨["notes.json"]⟩] := by
  have entries : Store.entry? (oneInput text) ["out"] = none ∧
      Store.entry? (oneInput text) ["out", "a.zep"] = none ∧
      Store.entry? (oneInput text) ["notes.json"] = none := ⟨rfl, rfl, rfl⟩
  simp [Store.HasRoom, Store.Passable, route_class, route_notes, entries]

/-- A run on `jumping` writes the file of `A`, unless it is to stop at the first failure. -/
theorem run_outcome_jumping :
    let store := oneInput jumping.toJson.compact
    readInputs (oneRun true) store = .ok [jumping] ∧ readInputs (oneRun false) store = .ok [jumping] ∧
      (run (oneRun true)).run.run store =
        (.error (.classFailed "B" (.unsupported .goto "B")), store) ∧
      ∃ summary store', (run (oneRun false)).run.run store = (.ok summary, store') ∧
        summary.written = [⟨["out", "a.zep"]⟩] ∧ summary.refused.length = 1 ∧
        store'.entry? ["out", "a.zep"] = some (.text "class A\n\x7b\n\x7d\n") := by
  have read (failFast : Bool) :
      readInputs (oneRun failFast) (oneInput jumping.toJson.compact) = .ok [jumping] :=
    readInputs_oneInput ofText?_jumping rfl rfl
  have free := hasRoom_oneInput jumping.toJson.compact
  have classes := classes_jumping
  generalize oneInput jumping.toJson.compact = store at read free ⊢
  refine ⟨read true, read false, ?_, ?_⟩
  · have jump : ⟨"B", .error (.unsupported .goto "B")⟩ ∈ jumpingClasses :=
      List.mem_cons_of_mem _ List.mem_cons_self
    obtain ⟨earlier, c, later, e, split, all, failed, result⟩ :=
      (run_outcome (read true)).1 ⟨rfl, _, by rw [classes]; exact jump, rfl⟩
    rw [classes] at split
    cases earlier with
    | nil =>
      obtain ⟨rfl, -⟩ := List.cons.inj split
      cases failed
    | cons first earlier =>
      obtain ⟨-, split⟩ := List.cons.inj split
      cases earlier with
      | nil =>
        obtain ⟨rfl, -⟩ := List.cons.inj split
        cases failed
        exact result
      | cons second earlier => simp at split
  · have saves := toSave_jumping (classes false)
    have room : store.HasRoom
        ((toSave (oneRun false) (zephirize [jumping] (oneRun false).options)).map Prod.fst) := by
      rw [saves]
      exact free
    obtain ⟨summary, store', result, written, refused, -, -, saved⟩ :=
      (run_outcome (read false)).2.1 (fun stop => Bool.false_ne_true stop.1) room
    refine ⟨summary, store', result, ?_, ?_, ?_⟩
    · rw [written, classes]
      rfl
    · rw [← refused.length_eq, classes]
      rfl
    · exact saved.written [] _ _ saves _ route_class (by simp [route_notes])

end Zephirize
