import Zephirize.Proofs.Program.Results
import Zephirize.Proofs.Program.Visible

/-!
# The order of files

Classes are looked up by full name, so with different names for all classes the order of the files
does not matter for lookups. It may matter for a documented type: the first registered name that
fits decides how the type is written. A type that is the full name of one class and the end of
another name has two readings; a type is `Settled` when all files agree on its reading, and this is
so exactly when every order of the files gives it the same meaning (`settled_iff`). Where all
documented types are settled, another order of the files only moves the results
(`zephirize_perm`).
-/

namespace Zephirize

/-! ### Registered names -/

theorem findSome?_addDistinct {α β : Type} [BEq α] [LawfulBEq α] (f : α → Option β) (seen : List α)
    (x : α) : (addDistinct seen x).findSome? f = (seen.findSome? f).or (f x) := by
  unfold addDistinct
  split
  · rename_i mem
    cases first : seen.findSome? f with
    | some b => rfl
    | none =>
      rw [List.findSome?_eq_none_iff.1 first x (List.contains_iff_mem.1 mem), Option.or_none]
  · rw [List.findSome?_append, List.findSome?_singleton]

/-- Leaving out repetitions does not change what is found first. -/
theorem findSome?_firstOccurrences {α β : Type} [BEq α] [LawfulBEq α] (f : α → Option β)
    (items : List α) : (firstOccurrences items).findSome? f = items.findSome? f := by
  have from_seen : ∀ (items seen : List α),
      (items.foldl addDistinct seen).findSome? f = (seen.findSome? f).or (items.findSome? f) := by
    intro items
    induction items with
    | nil => intro seen; rw [List.foldl_nil, List.findSome?_nil, Option.or_none]
    | cons x rest ih =>
      intro seen
      rw [List.foldl_cons, ih, findSome?_addDistinct, List.findSome?_cons, Option.or_assoc]
      cases f x with
      | none => rfl
      | some b => rfl
  rw [firstOccurrences, from_seen]
  rfl

theorem Registry.names_ofFiles (files : List SourceFile) :
    (ofFiles files).names = firstOccurrences (files.flatMap SourceFile.classNames) := by
  have insert_names (r : Registry) (d : Declared) :
      (r.insert d).names = addDistinct r.names d.fullName := by
    have taken : r.contains d.fullName = r.names.contains d.fullName := by
      rw [Bool.eq_iff_iff]
      simp [contains, get?, names]
    unfold insert addDistinct
    rw [taken]
    split
    · rfl
    · simp [names]
  have foldl_names : ∀ (ds : List Declared) (r : Registry),
      (ds.foldl insert r).names = (ds.map Declared.fullName).foldl addDistinct r.names := by
    intro ds
    induction ds with
    | nil => exact fun _ => rfl
    | cons d rest ih =>
      intro r
      rw [List.foldl_cons, ih, insert_names, List.map_cons, List.foldl_cons]
  rw [ofFiles, foldl_names, map_fullName_declarations]
  rfl

/-! ### Readings of a documented type -/

/-- A type without the separator in front of it. -/
def bareType (raw : String) : String := (Text.dropStart? "\\" raw).getD raw

/-- The reading that the first fitting name gives to a documented type. The type loses the separator
in front of it when it is the end of the name, and stays as written when it is the name. -/
def readingBy (raw : String) (names : List String) : Option TypeMember :=
  names.findSome? fun name =>
    if endsInName name (bareType raw) then some (.ofClass (bareType raw))
    else if name == bareType raw then some (.ofClass raw)
    else none

/-- The member for a documented type that no registered name fits. -/
def unregisteredMember (raw : String) : TypeMember :=
  if (Text.dropEnd? "[]" raw).isSome then .primitive "array"
  else if primitiveTypes.contains (Text.asciiLower raw) then .primitive (Text.asciiLower raw)
  else .ofClass raw

/-- An import of the class fits the type. -/
def Scope.imports? (scope : Scope) (raw : String) : Bool :=
  scope.importTargets.any fun full => endsInName full (bareType raw)

theorem Resolver.memberFor_eq (r : Resolver) (scope : Scope) (raw : String) :
    r.memberFor scope raw =
      if r.known.contains raw then .ofClass raw
      else if scope.imports? raw then .ofClass (bareType raw)
      else (readingBy raw r.registry.names).getD (unregisteredMember raw) := by
  unfold memberFor
  dsimp only
  rw [← bareType, ← Scope.imports?, ← readingBy]
  cases readingBy raw r.registry.names with
  | none => rfl
  | some m => rfl

/-- The files are asked for a reading one after the other. -/
theorem readingBy_names (files : List SourceFile) (raw : String) :
    readingBy raw (Registry.ofFiles files).names =
      files.findSome? fun file => readingBy raw file.classNames := by
  rw [Registry.names_ofFiles, readingBy, findSome?_firstOccurrences]
  induction files with
  | nil => rfl
  | cons file rest ih =>
    rw [List.flatMap_cons, List.findSome?_append, List.findSome?_cons, ih]
    rw [readingBy]
    cases List.findSome? _ file.classNames with
    | none => rfl
    | some m => rfl

/-- The files agree on the reading of the type, unless it is known or imported. -/
def Settled (files : List SourceFile) (options : Options) (scope : Scope) (raw : String) : Prop :=
  (ClassSet.builtin.add options.knownClasses).contains raw = true ∨ scope.imports? raw = true ∨
    ∀ f ∈ files, ∀ g ∈ files, ∀ m ∈ readingBy raw f.classNames, ∀ n ∈ readingBy raw g.classNames,
      m = n

instance (files : List SourceFile) (options : Options) (scope : Scope) (raw : String) :
    Decidable (Settled files options scope raw) :=
  inferInstanceAs (Decidable (_ ∨ _ ∨ _))

theorem findSome?_perm {α β : Type} {f : α → Option β} {l l' : List α} (h : l.Perm l')
    (alike : ∀ a ∈ l, ∀ b ∈ l, ∀ x ∈ f a, ∀ y ∈ f b, x = y) : l'.findSome? f = l.findSome? f := by
  cases first : l.findSome? f with
  | none =>
    rw [List.findSome?_eq_none_iff] at first ⊢
    exact fun a ha => first a (h.mem_iff.2 ha)
  | some x =>
    obtain ⟨a, ha, hx⟩ := List.exists_of_findSome?_eq_some first
    cases other : l'.findSome? f with
    | none => exact absurd hx (by simp [List.findSome?_eq_none_iff.1 other a (h.mem_iff.1 ha)])
    | some y =>
      obtain ⟨b, hb, hy⟩ := List.exists_of_findSome?_eq_some other
      rw [alike b (h.mem_iff.2 hb) a ha y hy x hx]

/-- A documented type is settled exactly when every order of the files gives it the same meaning. -/
theorem settled_iff {files : List SourceFile} {options : Options} {scope : Scope} {raw : String} :
    Settled files options scope raw ↔ ∀ files', files.Perm files' →
      (Resolver.ofProgram files options).memberFor scope raw =
        (Resolver.ofProgram files' options).memberFor scope raw := by
  have member (files : List SourceFile) :
      (Resolver.ofProgram files options).memberFor scope raw =
        if (ClassSet.builtin.add options.knownClasses).contains raw then .ofClass raw
        else if scope.imports? raw then .ofClass (bareType raw)
        else (files.findSome? fun file => readingBy raw file.classNames).getD
          (unregisteredMember raw) := by
    rw [Resolver.memberFor_eq, Resolver.ofProgram_registry, Resolver.ofProgram_known,
      readingBy_names]
  simp only [member]
  constructor
  · rintro (known | imported | alike) files' h
    · rw [if_pos known, if_pos known]
    · rw [if_pos imported, if_pos imported]
    · rw [findSome?_perm h alike]
  · intro same
    by_cases known : (ClassSet.builtin.add options.knownClasses).contains raw = true
    · exact .inl known
    by_cases imported : scope.imports? raw = true
    · exact .inr (.inl imported)
    refine .inr (.inr fun f hf g hg m hm n hn => ?_)
    simp only [if_neg known, if_neg imported] at same
    -- The file that comes first decides.
    have first : ∀ e ∈ files, ∀ k ∈ readingBy raw e.classNames,
        (files.findSome? fun file => readingBy raw file.classNames).getD
          (unregisteredMember raw) = k := by
      intro e he k hk
      obtain ⟨before, after, rfl⟩ := List.append_of_mem he
      rw [same (e :: (before ++ after)) List.perm_middle, List.findSome?_cons, hk]
      rfl
    rw [← first f hf m hm, first g hg n hn]

/-! ### Lookups -/

/-- The full name of a declared class. -/
def declaredName (c : SourceFile × ClassDecl) : String := nameWithin c.1.nameSpace c.2.name

theorem map_declaredName (files : List SourceFile) :
    (declaredClasses files).map declaredName = files.flatMap SourceFile.classNames := by
  rw [declaredClasses, List.map_flatMap]
  simp only [List.map_map]
  rfl

theorem find?_of_mem {α : Type} {key : α → String} {l : List α} (nodup : (l.map key).Nodup) {a : α}
    (ha : a ∈ l) : (l.find? fun b => key b == key a) = some a := by
  cases found : l.find? fun b => key b == key a with
  | none => exact absurd (beq_self_eq_true (key a)) (List.find?_eq_none.1 found a ha)
  | some b =>
    have same : key b = key a := by simpa using List.find?_some found
    rw [List.inj_on_of_nodup_map nodup (List.mem_of_find?_eq_some found) ha same]

theorem find?_perm {α : Type} {key : α → String} {l l' : List α} (h : l.Perm l')
    (nodup : (l.map key).Nodup) (k : String) :
    (l.find? fun a => key a == k) = l'.find? fun a => key a == k := by
  cases found : l.find? fun a => key a == k with
  | none =>
    symm
    rw [List.find?_eq_none] at found ⊢
    exact fun a ha => found a (h.mem_iff.2 ha)
  | some a =>
    have same : key a = k := by simpa using List.find?_some found
    have ha : a ∈ l' := h.mem_iff.1 (List.mem_of_find?_eq_some found)
    rw [← same, find?_of_mem ((h.map key).nodup_iff.1 nodup) ha]

theorem Registry.get?_decl (files : List SourceFile) (name : String) :
    ((ofFiles files).get? name).map Declared.decl =
      ((declaredClasses files).find? fun c => declaredName c == name).map Prod.snd := by
  rw [get?_ofFiles, ← map_declarations, List.find?_map, Option.map_map]
  rfl

theorem Registry.lookupMethod_congr {r r' : Registry} {cls : String}
    (h : (r.get? cls).map Declared.decl = (r'.get? cls).map Declared.decl) (method : String) :
    r.lookupMethod cls method = r'.lookupMethod cls method := by
  unfold lookupMethod
  cases first : r.get? cls with
  | none =>
    rw [first, Option.map_none] at h
    rw [Option.map_eq_none_iff.1 h.symm]
  | some d =>
    rw [first, Option.map_some] at h
    obtain ⟨e, other, same⟩ := Option.map_eq_some_iff.1 h.symm
    rw [other]
    dsimp only
    rw [same]

section

variable {files files' : List SourceFile}

theorem declaredClasses_perm (h : files.Perm files') :
    (declaredClasses files).Perm (declaredClasses files') := h.flatMap_right _

/-- With different names for all classes, the order of the files does not matter for lookups. -/
theorem Registry.lookupMethod_perm (h : files.Perm files')
    (nodup : (files.flatMap SourceFile.classNames).Nodup) (cls method : String) :
    (ofFiles files).lookupMethod cls method = (ofFiles files').lookupMethod cls method := by
  refine lookupMethod_congr ?_ method
  rw [get?_decl, get?_decl, find?_perm (declaredClasses_perm h) (by rwa [map_declaredName])]

end

/-! ### Results -/

/-- The entry of each class declaration with the diagnostics that are recorded for it, in order. -/
def programEntries (files : List SourceFile) (options : Options) :
    List (ClassResult × List Diagnostic) :=
  (declarations files).map (resultFor (.ofProgram files options) options.indentWidth)

/-- The entry of a class that is converted on its own. -/
def entryAlone (files : List SourceFile) (options : Options) (c : SourceFile × ClassDecl) :
    ClassResult × List Diagnostic :=
  (⟨declaredName c, (convertedAlone files options c.1 c.2).1⟩,
    (convertedAlone files options c.1 c.2).2)

theorem programEntries_eq {files : List SourceFile}
    (nodup : (files.flatMap SourceFile.classNames).Nodup) (options : Options) :
    programEntries files options = (declaredClasses files).map (entryAlone files options) := by
  rw [← map_fullName_declarations] at nodup
  rw [programEntries, ← map_declarations, List.map_map]
  refine List.map_congr_left fun d hd => ?_
  obtain ⟨earlier, later, h⟩ := List.append_of_mem hd
  rw [h, List.map_append, List.map_cons] at nodup
  refine resultFor_new h fun taken => ?_
  exact (List.nodup_append.1 nodup).2.2 _ taken _ (by simp) rfl

/-- Every documented type of the class is settled. -/
def AllSettled (files : List SourceFile) (options : Options) (c : SourceFile × ClassDecl) : Prop :=
  ∀ m ∈ c.2.methods,
    ∀ raw ∈ (Resolver.ofProgram files options).documentedTypes (Scope.of c.1 c.2) m,
    Settled files options (Scope.of c.1 c.2) raw

instance (files : List SourceFile) (options : Options) (c : SourceFile × ClassDecl) :
    Decidable (AllSettled files options c) :=
  inferInstanceAs (Decidable (∀ _ ∈ _, ∀ _ ∈ _, _))

/-- A class whose documented types are settled is converted in the same way for every order of the
files. -/
theorem entryAlone_perm {files files' : List SourceFile} {options : Options}
    {c : SourceFile × ClassDecl} (h : files.Perm files')
    (nodup : (files.flatMap SourceFile.classNames).Nodup) (settled : AllSettled files options c) :
    entryAlone files options c = entryAlone files' options c := by
  have signatures : ∀ m ∈ c.2.methods,
      (Resolver.ofProgram files options).signature (Scope.of c.1 c.2) m =
        (Resolver.ofProgram files' options).signature (Scope.of c.1 c.2) m := by
    intro m hm
    refine Resolver.signature_congr (fun cls method => ?_) fun raw hraw => ?_
    · rw [Registry.methodDoc?, Registry.methodDoc?]
      exact congrArg (Except.toOption · |>.bind Method.doc)
        (Registry.lookupMethod_perm h nodup cls method)
    · exact settled_iff.1 (settled m hm raw hraw) files' h
  have converted :
      convertedAlone files options c.1 c.2 = convertedAlone files' options c.1 c.2 := by
    rw [convertedAlone, convertedAlone, classText, classText, lowerDecl_congr signatures]
  rw [entryAlone, entryAlone, converted]

theorem zephirize_eq_entries (files : List SourceFile) (options : Options) :
    zephirize files options =
      ⟨(programEntries files options).map Prod.fst,
        (programEntries files options).flatMap Prod.snd⟩ :=
  rfl

/-- With different names for all classes, and where all documented types are settled, the order of
the files does not matter: each class has the same result and the same diagnostics, and only the
order of the entries changes. -/
theorem zephirize_perm {files files' : List SourceFile} (options : Options)
    (h : files.Perm files') (nodup : (files.flatMap SourceFile.classNames).Nodup)
    (settled : ∀ c ∈ declaredClasses files, AllSettled files options c) :
    (programEntries files options).Perm (programEntries files' options) ∧
      ∀ fs ∈ [files, files'], zephirize fs options =
        ⟨(programEntries fs options).map Prod.fst,
          (programEntries fs options).flatMap Prod.snd⟩ := by
  have nodup' : (files'.flatMap SourceFile.classNames).Nodup :=
    (h.flatMap_right _).nodup_iff.1 nodup
  have moved : ((declaredClasses files).map (entryAlone files' options)).Perm
      ((declaredClasses files').map (entryAlone files' options)) := (declaredClasses_perm h).map _
  refine ⟨?_, fun fs _ => zephirize_eq_entries fs options⟩
  rw [programEntries_eq nodup, programEntries_eq nodup',
    List.map_congr_left fun c hc => entryAlone_perm h nodup (settled c hc)]
  exact moved

/-- A class `App\Foo` with documented types in all places, beside `App\Models\Post` and an interface
that documents a result. -/
theorem zephirize_perm_documented :
    let shown : Method := { name := "shown", doc := some "/** @return \\App\\Models\\Post */" }
    let showing : Method :=
      { name := "shown", params := [{ name := "p" }], doc := some "/** @param Post|int $p */",
        body := some [] }
    let app : SourceFile :=
      { nameSpace := some ⟨["App"], false⟩,
        classes := [
          { name := "Foo", interfaces := [⟨["Shows"], false⟩], members := [.method showing] },
          { kind := .interface, name := "Shows", members := [.method shown] }] }
    let models : SourceFile :=
      { nameSpace := some ⟨["App", "Models"], false⟩, classes := [{ name := "Post" }] }
    ([app, models].flatMap SourceFile.classNames).Nodup ∧
      (∀ c ∈ declaredClasses [app, models], AllSettled [app, models] {} c) ∧
      (programEntries [app, models] {}).Perm (programEntries [models, app] {}) ∧
      ∀ fs ∈ [[app, models], [models, app]], zephirize fs {} =
        ⟨(programEntries fs {}).map Prod.fst, (programEntries fs {}).flatMap Prod.snd⟩ := by
  intro shown showing app models
  have nodup : ([app, models].flatMap SourceFile.classNames).Nodup := by decide +kernel
  have alike : ∀ c ∈ declaredClasses [app, models], ∀ m ∈ c.2.methods,
      ∀ raw ∈ (Resolver.ofProgram [app, models] {}).documentedTypes (Scope.of c.1 c.2) m,
      ∀ f ∈ [app, models], ∀ g ∈ [app, models], ∀ m ∈ readingBy raw f.classNames,
        ∀ n ∈ readingBy raw g.classNames, m = n := by
    decide +kernel
  have settled : ∀ c ∈ declaredClasses [app, models], AllSettled [app, models] {} c :=
    fun c hc m hm raw hraw => .inr (.inr (alike c hc m hm raw hraw))
  exact ⟨nodup, settled, zephirize_perm {} (List.Perm.swap models app []) nodup settled⟩

/-- The text of the class with this name. -/
def ProgramResult.textOf? (p : ProgramResult) (name : String) : Option String :=
  (p.classes.find? fun c => c.name == name).bind fun c => c.result.toOption

theorem textOf?_eq {files : List SourceFile} (nodup : (files.flatMap SourceFile.classNames).Nodup)
    (options : Options) {c : SourceFile × ClassDecl} (hc : c ∈ declaredClasses files) :
    (zephirize files options).textOf? (declaredName c) =
      (convertedAlone files options c.1 c.2).1.toOption := by
  have names : ((declaredClasses files).map declaredName).Nodup := by rwa [map_declaredName]
  rw [zephirize_eq_entries, programEntries_eq nodup, ProgramResult.textOf?, List.map_map,
    List.find?_map]
  have byName : ((fun r : ClassResult => r.name == declaredName c) ∘ Prod.fst ∘
      entryAlone files options) = fun b => declaredName b == declaredName c := rfl
  rw [byName, find?_of_mem names hc]
  rfl

/-- With classes `Foo` and `App\Foo`, the order of the two files decides how `Foo` writes the
documented type `\Foo`. -/
theorem file_order_decides :
    let copy : Method :=
      { name := "copy", doc := some "/** @return \\Foo */",
        body := some [.ret (some (.named "this"))] }
    let app : SourceFile := { nameSpace := some ⟨["App"], false⟩, classes := [{ name := "Foo" }] }
    let top : SourceFile := { classes := [{ name := "Foo", members := [.method copy] }] }
    let text (type : String) := "class Foo\n\x7b\n    /** @return \\Foo */\n" ++
      "    public function copy() -> " ++ type ++
      "\n    \x7b\n        return this;\n    \x7d\n\x7d\n"
    ([app, top].flatMap SourceFile.classNames).Nodup ∧ [app, top].Perm [top, app] ∧
      (zephirize [app, top] {}).textOf? "Foo" = some (text "<Foo>") ∧
      (zephirize [top, app] {}).textOf? "Foo" = some (text "<\\Foo>") := by
  have unknown : (ClassSet.builtin.add []).contains "\\Foo" = false := by
    rw [ClassSet.contains_add, ClassSet.builtin, ClassSet.contains_add]
    simp only [ClassSet.normalize_beq]
    decide +kernel
  intro copy app top text
  let decl : ClassDecl := { name := "Foo", members := [.method copy] }
  have nodup : ([app, top].flatMap SourceFile.classNames).Nodup := by decide +kernel
  have nodup' : ([top, app].flatMap SourceFile.classNames).Nodup := by decide +kernel
  -- No known class has the name, so the class is converted as if there were none.
  have textOf (files : List SourceFile) (nodup : (files.flatMap SourceFile.classNames).Nodup)
      (mem : (top, decl) ∈ declaredClasses files)
      (types : (Resolver.ofProgram files {}).documentedTypes (Scope.of top decl) copy = ["\\Foo"]) :
      (zephirize files {}).textOf? "Foo" =
        (classText ⟨Scope.of top decl, ⟨Registry.ofFiles files, {}⟩⟩ 4).1.toOption := by
    rw [show "Foo" = declaredName (top, decl) from rfl, textOf?_eq nodup {} mem, convertedAlone,
      classText, lowerDecl_unknown]
    · rfl
    · intro m hm raw hraw
      obtain rfl : m = copy := by simpa [Scope.of, ClassDecl.methods, decl] using hm
      rw [types, List.mem_singleton] at hraw
      rw [hraw, Resolver.ofProgram_known]
      exact unknown
  refine ⟨nodup, List.Perm.swap top app [], ?_, ?_⟩
  · rw [textOf [app, top] nodup (by simp [declaredClasses, top, decl]) (by decide +kernel)]
    decide +kernel
  · rw [textOf [top, app] nodup' (by simp [declaredClasses, top, decl]) (by decide +kernel)]
    decide +kernel

end Zephirize
