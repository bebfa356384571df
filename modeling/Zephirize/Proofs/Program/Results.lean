import Zephirize.Program
import Zephirize.Proofs.Lowering.Classes
import Zephirize.Proofs.Program.Registration

/-!
# The results for a program

Every class declaration has one entry, in order. A declaration that repeats the name of an earlier
one is refused for that; every other one has the result that it has on its own against the registry
of the whole program, and its diagnostics are recorded whether it is converted or refused
(`zephirize_results`).
-/

namespace Zephirize

/-- What the types of a program are resolved against. -/
def Resolver.ofProgram (files : List SourceFile) (options : Options) : Resolver :=
  ⟨Registry.ofFiles files, ClassSet.builtin.add options.knownClasses⟩

@[simp] theorem Resolver.ofProgram_registry (files : List SourceFile) (options : Options) :
    (Resolver.ofProgram files options).registry = Registry.ofFiles files := rfl

@[simp] theorem Resolver.ofProgram_known (files : List SourceFile) (options : Options) :
    (Resolver.ofProgram files options).known = ClassSet.builtin.add options.knownClasses := rfl

/-- A class of a program converted on its own, with its diagnostics. -/
def convertedAlone (files : List SourceFile) (options : Options) (file : SourceFile)
    (decl : ClassDecl) : Except Refusal String × List Diagnostic :=
  classText ⟨Scope.of file decl, .ofProgram files options⟩ options.indentWidth

/-- The class was refused because its name is taken. -/
def ClassResult.IsDuplicate (c : ClassResult) : Prop :=
  ∃ cls, c.result = .error (.duplicateClass cls)

/-- An earlier one of the declarations has the full name of the one at a position. -/
def Repeats (ds : List Declared) (d : Declared × ℕ) : Prop :=
  d.1.fullName ∈ (ds.take d.2).map Declared.fullName

instance (ds : List Declared) (d : Declared × ℕ) : Decidable (Repeats ds d) :=
  inferInstanceAs (Decidable (_ ∈ _))

/-- What a program says about the declaration at a position. -/
structure EntryOf (files : List SourceFile) (options : Options) (d : Declared × ℕ)
    (c : ClassResult) : Prop where
  name : c.name = d.1.fullName
  duplicate_iff : c.IsDuplicate ↔ Repeats (declarations files) d
  /-- Otherwise the result is that for the declaration on its own. -/
  alone : ¬ Repeats (declarations files) d →
    c.result = (convertedAlone files options d.1.file d.1.decl).1

/-- A conversion does not refuse a class because its name is taken. -/
theorem classText_ne_duplicate (ctx : Context) (width : ℕ) (cls : String) :
    (classText ctx width).1 ≠ .error (.duplicateClass cls) := by
  rw [classText]
  rcases lowerDecl_run ctx with ⟨code, t, run, -⟩ | ⟨k, t, run, -⟩ | ⟨e, t, run, -⟩
  · rw [run]
    intro refused
    cases refused
  · rw [run]
    intro refused
    cases refused
  · rw [run]
    intro refused
    cases refused

theorem zephirize_classes (files : List SourceFile) (options : Options) :
    (zephirize files options).classes = (declarations files).map fun d =>
      (resultFor (.ofProgram files options) options.indentWidth d).1 := by
  rw [zephirize, List.map_map]
  rfl

theorem zephirize_diagnostics (files : List SourceFile) (options : Options) :
    (zephirize files options).diagnostics = (declarations files).flatMap fun d =>
      (resultFor (.ofProgram files options) options.indentWidth d).2 := by
  rw [zephirize, List.flatMap_map]
  rfl

section

variable {files : List SourceFile} {options : Options} {earlier later : List Declared}
  {d : Declared}

/-- The result for a declaration whose name is new. -/
theorem resultFor_new (h : declarations files = earlier ++ d :: later)
    (new : d.fullName ∉ earlier.map Declared.fullName) :
    resultFor (.ofProgram files options) options.indentWidth d =
      (⟨d.fullName, (convertedAlone files options d.file d.decl).1⟩,
        (convertedAlone files options d.file d.decl).2) := by
  rw [resultFor, Resolver.ofProgram_registry, if_pos ((Registry.registered_iff h).2 new)]
  rfl

/-- The result for a declaration whose name is taken. -/
theorem resultFor_repeated (h : declarations files = earlier ++ d :: later)
    (taken : d.fullName ∈ earlier.map Declared.fullName) :
    resultFor (.ofProgram files options) options.indentWidth d =
      (⟨d.fullName, .error (.duplicateClass d.fullName)⟩, []) := by
  rw [resultFor, Resolver.ofProgram_registry,
    if_neg fun registered => (Registry.registered_iff h).1 registered taken]

theorem repeats_iff (h : declarations files = earlier ++ d :: later) :
    Repeats (declarations files) (d, earlier.length) ↔
      d.fullName ∈ earlier.map Declared.fullName := by
  rw [Repeats, h, List.take_left]

theorem entryOf_resultFor (h : declarations files = earlier ++ d :: later) :
    EntryOf files options (d, earlier.length)
      (resultFor (.ofProgram files options) options.indentWidth d).1 := by
  by_cases taken : d.fullName ∈ earlier.map Declared.fullName
  · have repeated := (repeats_iff h).2 taken
    rw [resultFor_repeated h taken]
    exact ⟨rfl, ⟨fun _ => repeated, fun _ => ⟨_, rfl⟩⟩, fun new => absurd repeated new⟩
  · have new := mt (repeats_iff h).1 taken
    rw [resultFor_new h taken]
    refine ⟨rfl, ⟨?_, fun repeated => absurd repeated new⟩, fun _ => rfl⟩
    rintro ⟨cls, refused⟩
    exact absurd refused (classText_ne_duplicate _ _ cls)

end

/-- The entries and the diagnostics of the declarations from some point on. -/
theorem results_from (files : List SourceFile) (options : Options) (later : List Declared) :
    ∀ earlier, declarations files = earlier ++ later →
      List.Forall₂ (EntryOf files options) (later.zipIdx earlier.length)
        (later.map fun d => (resultFor (.ofProgram files options) options.indentWidth d).1) ∧
      (later.flatMap fun d => (resultFor (.ofProgram files options) options.indentWidth d).2) =
        ((later.zipIdx earlier.length).filter fun d => ¬ Repeats (declarations files) d).flatMap
          fun d => (convertedAlone files options d.1.file d.1.decl).2 := by
  induction later with
  | nil => exact fun _ _ => ⟨.nil, rfl⟩
  | cons d rest ih =>
    intro earlier h
    obtain ⟨entries, notes⟩ := ih (earlier ++ [d]) (by simp [h])
    rw [List.length_append, List.length_singleton] at entries notes
    rw [List.zipIdx_cons, List.map_cons, List.flatMap_cons, notes]
    refine ⟨.cons (entryOf_resultFor h) entries, ?_⟩
    by_cases taken : d.fullName ∈ earlier.map Declared.fullName
    · have repeated := (repeats_iff h).2 taken
      rw [resultFor_repeated h taken, List.filter_cons_of_neg (by simpa using repeated)]
      rfl
    · have new := mt (repeats_iff h).1 taken
      rw [resultFor_new h taken, List.filter_cons_of_pos (by simpa using new)]
      rfl

/-- A program has one entry for each class declaration, in order. The entry is a refusal of a
duplicate exactly when an earlier declaration has the same full name; every other entry is the
result for the declaration on its own. The diagnostics are those of the latter declarations, in
order. -/
theorem zephirize_results (files : List SourceFile) (options : Options) :
    let ds := declarations files
    let p := zephirize files options
    ds.map (fun d => (d.file, d.decl)) = declaredClasses files ∧
    List.Forall₂ (EntryOf files options) ds.zipIdx p.classes ∧
    p.diagnostics = (ds.zipIdx.filter fun d => ¬ Repeats ds d).flatMap fun d =>
      (convertedAlone files options d.1.file d.1.decl).2 := by
  intro ds p
  obtain ⟨entries, notes⟩ := results_from files options ds [] rfl
  rw [show p.classes = _ from zephirize_classes files options,
    show p.diagnostics = _ from zephirize_diagnostics files options]
  exact ⟨map_declarations files, entries, notes⟩

end Zephirize
