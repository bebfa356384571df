import Zephirize.Proofs.Program.Results

/-!
# The files of a program's classes

Of several declarations with one name at most one is converted, so the converted classes have
different names. Their files may still be the same: two names lead to one file when they agree in
lower case, written with slashes (`classFile_eq_iff`). So the files are pairwise different exactly
when no two names agree like that (`converted_paths_nodup_iff`).
-/

namespace Zephirize

/-! ### Lower case, part by part -/

namespace Text

theorem startsCased_slash (cs rest : List Char) :
    startsCased (cs ++ '/' :: rest) = startsCased cs := by
  have ignorable : isCaseIgnorable '/' = false := by decide +kernel
  have cased : isCased '/' = false := by decide +kernel
  unfold startsCased
  rw [List.dropWhile_append]
  cases first : cs.dropWhile isCaseIgnorable with
  | nil => simp [ignorable, cased]
  | cons c more => simp

/-- What stands before a slash has no part in the case of what follows. -/
theorem lowerFrom_after_slash (cs before earlier : List Char) :
    lowerFrom (before ++ '/' :: earlier) cs = lowerFrom before cs := by
  induction cs generalizing before with
  | nil => rfl
  | cons c rest ih =>
    rw [lowerFrom, lowerFrom, startsCased_slash, ← List.cons_append, ih]

/-- What stands after a slash has no part in the case of what comes before. -/
theorem lowerFrom_before_slash (cs before rest : List Char) :
    lowerFrom before (cs ++ '/' :: rest) = lowerFrom before cs ++ '/' :: lowerFrom [] rest := by
  induction cs generalizing before with
  | nil =>
    have slash : lowerFrom before ('/' :: rest) = '/' :: lowerFrom ('/' :: before) rest := rfl
    rw [List.nil_append, slash]
    exact congrArg _ (lowerFrom_after_slash rest [] before)
  | cons c more ih =>
    rw [List.cons_append, lowerFrom, lowerFrom, startsCased_slash, ih]
    simp

theorem lower_slash (a b : String) : lower (a ++ "/" ++ b) = lower a ++ "/" ++ lower b := by
  apply String.toList_inj.1
  simp [lower, lowerFrom_before_slash]

theorem lower_intercalate (parts : List String) :
    lower ("/".intercalate parts) = "/".intercalate (parts.map lower) := by
  induction parts with
  | nil => rfl
  | cons a rest ih =>
    cases rest with
    | nil => simp
    | cons b rest =>
      rw [String.intercalate_cons_cons, lower_slash, ih]
      simp

end Text

/-! ### Files -/

/-- A full name with slashes between its parts; empty parts do not count. -/
def slashed (fullName : String) : String :=
  "/".intercalate ((Text.splitOn Name.separator fullName).filter (!·.isEmpty))

/-- Two names lead to one file exactly when they agree in lower case, written with slashes. -/
theorem classFile_eq_iff {a b : String} :
    classFile a = classFile b ↔ Text.lower (slashed a) = Text.lower (slashed b) := by
  have file (name : String) : classFile name = Text.lower (slashed name) ++ ".zep" := by
    rw [slashed, Text.lower_intercalate]
    rfl
  rw [file, file]
  exact String.append_left_inj ".zep"

/-! ### Names of converted classes -/

/-- The entries of the classes that were converted. -/
def ProgramResult.converted (p : ProgramResult) : List ClassResult :=
  p.classes.filter (·.succeeded)

/-- Converted classes have names of their own, also apart from the declarations before them. -/
theorem converted_names_from (files : List SourceFile) (options : Options) (later : List Declared) :
    ∀ earlier, declarations files = earlier ++ later →
      let names := (((later.map fun d =>
        (resultFor (.ofProgram files options) options.indentWidth d).1).filter
          (·.succeeded)).map ClassResult.name)
      names.Nodup ∧ ∀ name ∈ names, name ∉ earlier.map Declared.fullName := by
  induction later with
  | nil => exact fun _ _ => ⟨List.nodup_nil, by simp⟩
  | cons d rest ih =>
    intro earlier h
    obtain ⟨nodup, apart⟩ := ih (earlier ++ [d]) (by simp [h])
    have others : ∀ name ∈ ((rest.map fun d =>
        (resultFor (.ofProgram files options) options.indentWidth d).1).filter
          (·.succeeded)).map ClassResult.name,
        name ∉ earlier.map Declared.fullName ∧ name ≠ d.fullName := by
      intro name mem
      simpa using apart name mem
    rw [List.map_cons]
    by_cases taken : d.fullName ∈ earlier.map Declared.fullName
    · rw [resultFor_repeated h taken, List.filter_cons_of_neg (by simp [ClassResult.succeeded])]
      exact ⟨nodup, fun name mem => (others name mem).1⟩
    · rw [resultFor_new h taken, List.filter_cons]
      split
      · simp only [List.map_cons, List.nodup_cons, List.forall_mem_cons]
        exact ⟨⟨fun mem => (others _ mem).2 rfl, nodup⟩, taken, fun name mem => (others name mem).1⟩
      · exact ⟨nodup, fun name mem => (others name mem).1⟩

/-- No two converted classes have the same full name. So they are written to different files exactly
when no two of their names agree in lower case, written with slashes. -/
theorem converted_paths_nodup_iff (files : List SourceFile) (options : Options) :
    let converted := (zephirize files options).converted
    (converted.map ClassResult.name).Nodup ∧
    ((converted.map ClassResult.path).Nodup ↔
      ∀ c ∈ converted, ∀ d ∈ converted, c.name ≠ d.name →
        Text.lower (slashed c.name) ≠ Text.lower (slashed d.name)) := by
  intro converted
  have names : (converted.map ClassResult.name).Nodup := by
    have := (converted_names_from files options (declarations files) [] rfl).1
    rwa [← zephirize_classes files options] at this
  have paths : converted.map ClassResult.path = (converted.map ClassResult.name).map classFile := by
    rw [List.map_map]
    rfl
  refine ⟨names, ?_⟩
  rw [paths, List.nodup_map_iff_inj_on names]
  simp only [List.forall_mem_map, classFile_eq_iff]
  constructor
  · intro apart c hc d hd differ same
    exact differ (apart c hc d hd same)
  · intro apart c hc d hd same
    by_contra differ
    exact apart c hc d hd differ same

/-- The classes `App\User` and `app\user` are converted both, and written to one file. -/
theorem converted_paths_collide :
    let file (nameSpace cls : String) : SourceFile :=
      { nameSpace := some ⟨[nameSpace], false⟩, classes := [{ name := cls }] }
    let p := zephirize [file "App" "User", file "app" "user"] {}
    p.converted.map ClassResult.name = ["App\\User", "app\\user"] ∧
      p.converted.map ClassResult.path = ["app/user.zep", "app/user.zep"] := by
  decide +kernel

end Zephirize
