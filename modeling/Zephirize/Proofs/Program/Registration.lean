import Mathlib.Tactic
import Mathlib.Data.List.Nodup
import Zephirize.Registry

/-!
# Registration

The registry of a program holds, for each full name, the first declaration with this name
(`get?_ofFiles`). No two declarations of a program stand at the same place, so a declaration is the
registered one exactly when none with its name comes before it (`registered_iff`).
-/

namespace Zephirize

/-- The class declarations of a program with their files, in order. -/
def declaredClasses (files : List SourceFile) : List (SourceFile × ClassDecl) :=
  files.flatMap fun file => file.classes.map fun decl => (file, decl)

/-- The full names of the classes of a file, in order. -/
def SourceFile.classNames (file : SourceFile) : List String :=
  file.classes.map fun decl => nameWithin file.nameSpace decl.name

/-! ### The declarations of a program -/

theorem declarations_eq (files : List SourceFile) :
    declarations files = files.zipIdx.flatMap fun f =>
      f.1.classes.zipIdx.map fun c => ⟨f.1, c.1, (f.2, c.2)⟩ := rfl

theorem map_declarations (files : List SourceFile) :
    (declarations files).map (fun d => (d.file, d.decl)) = declaredClasses files := by
  have inFile (file : SourceFile) (i : ℕ) :
      (file.classes.zipIdx.map fun c => (⟨file, c.1, (i, c.2)⟩ : Declared)).map
        (fun d => (d.file, d.decl)) = file.classes.map fun decl => (file, decl) := by
    rw [List.map_map]
    conv_rhs => rw [← List.zipIdx_map_fst 0 file.classes, List.map_map]
    rfl
  rw [declarations_eq, List.map_flatMap, declaredClasses]
  simp only [inFile]
  conv_rhs => rw [← List.zipIdx_map_fst 0 files, List.flatMap_map]

theorem map_fullName_declarations (files : List SourceFile) :
    (declarations files).map Declared.fullName = files.flatMap SourceFile.classNames := by
  have names : Declared.fullName = (fun c : SourceFile × ClassDecl =>
      nameWithin c.1.nameSpace c.2.name) ∘ fun d : Declared => (d.file, d.decl) := rfl
  rw [names, ← List.map_map, map_declarations, declaredClasses, List.map_flatMap]
  simp only [List.map_map]
  rfl

/-- Every declaration of a program stands at a place of its own. -/
theorem nodup_places (files : List SourceFile) :
    ((declarations files).map Declared.place).Nodup := by
  rw [declarations_eq, List.map_flatMap, List.nodup_flatMap]
  refine ⟨fun f _ => ?_, ?_⟩
  · -- The places inside a file are numbered.
    have places : (f.1.classes.zipIdx.map fun c => (⟨f.1, c.1, (f.2, c.2)⟩ : Declared)).map
        Declared.place = (List.range' 0 f.1.classes.length).map (f.2, ·) := by
      rw [← List.zipIdx_map_snd 0 f.1.classes, List.map_map, List.map_map]
      rfl
    rw [places]
    exact List.Nodup.map (fun j k same => (Prod.mk.inj same).2) List.nodup_range'
  · -- The places of two files differ in the number of the file.
    have apart : files.zipIdx.Pairwise fun a b => a.2 ≠ b.2 := by
      rw [← List.pairwise_map (f := Prod.snd), List.zipIdx_map_snd]
      exact List.nodup_range'
    refine apart.imp fun {a b} differ => ?_
    rw [Function.onFun, List.disjoint_left]
    intro place first second
    have number : ∀ f : SourceFile × ℕ, place ∈ (f.1.classes.zipIdx.map fun c =>
        (⟨f.1, c.1, (f.2, c.2)⟩ : Declared)).map Declared.place → place.1 = f.2 := by
      rintro f mem
      simp only [List.mem_map] at mem
      obtain ⟨d, ⟨p, -, rfl⟩, rfl⟩ := mem
      rfl
    exact differ ((number a first).symm.trans (number b second))

/-! ### The registry of a program -/

namespace Registry

theorem get?_insert (r : Registry) (d : Declared) (name : String) :
    (r.insert d).get? name = (r.get? name).or (if d.fullName == name then some d else none) := by
  unfold insert contains
  split
  · rename_i taken
    split_ifs with same
    · -- The name is taken, so the new declaration does not count.
      obtain ⟨first, found⟩ := Option.isSome_iff_exists.1 taken
      rw [← eq_of_beq same, found]
      rfl
    · rw [Option.or_none]
  · rw [get?, List.find?_append, List.find?_singleton]
    rfl

theorem get?_foldl_insert (ds : List Declared) (name : String) : ∀ r : Registry,
    (ds.foldl insert r).get? name = (r.get? name).or (ds.find? fun d => d.fullName == name) := by
  induction ds with
  | nil => intro r; rw [List.foldl_nil, List.find?_nil, Option.or_none]
  | cons d rest ih =>
    intro r
    rw [List.foldl_cons, ih, get?_insert, Option.or_assoc, List.find?_cons]
    cases d.fullName == name with
    | true => rfl
    | false => rfl

/-- Of several declarations with one name the first is registered. -/
theorem get?_ofFiles (files : List SourceFile) (name : String) :
    (ofFiles files).get? name = (declarations files).find? fun d => d.fullName == name := by
  rw [ofFiles, get?_foldl_insert]
  rfl

/-- A declaration is the registered one exactly when no earlier one has its name. -/
theorem registered_iff {files : List SourceFile} {earlier later : List Declared} {d : Declared}
    (h : declarations files = earlier ++ d :: later) :
    ((ofFiles files).get? d.fullName).map Declared.place = some d.place ↔
      d.fullName ∉ earlier.map Declared.fullName := by
  have places := nodup_places files
  rw [get?_ofFiles, h, List.find?_append]
  rw [h, List.map_append, List.map_cons] at places
  constructor
  · intro found mem
    obtain ⟨e, he, same⟩ := List.mem_map.1 mem
    -- An earlier declaration with the name is found first, and it stands elsewhere.
    cases first : earlier.find? fun e => e.fullName == d.fullName with
    | none => exact List.find?_eq_none.1 first e he (by simp [same])
    | some f =>
      rw [first, Option.some_or, Option.map_some, Option.some_inj] at found
      have atF : f.place ∈ earlier.map Declared.place :=
        List.mem_map_of_mem (List.mem_of_find?_eq_some first)
      exact (List.nodup_append.1 places).2.2 _ atF _ (by simp) found
  · intro new
    have none : (earlier.find? fun e => e.fullName == d.fullName) = none := by
      rw [List.find?_eq_none]
      intro e he same
      exact new (List.mem_map.2 ⟨e, he, eq_of_beq same⟩)
    rw [none, Option.none_or, List.find?_cons_of_pos (by simp)]
    rfl

end Registry

end Zephirize
