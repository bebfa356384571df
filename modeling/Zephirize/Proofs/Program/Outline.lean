import Zephirize.Proofs.Program.Order

/-!
# What classes see of each other

Other classes see a class by its outline: its full name, its place, and the names and documentation
of its methods. Programs with the same outlines have registries that answer alike
(`Registry.alike_ofFiles`), and a class is converted in the same way against registries that answer
alike (`resultFor_congr`).

`Surroundings` is a program with one class left open. Filling in members with the same outline does
not change the entry of any other class (`zephirize_outside`).
-/

namespace Zephirize

/-- What other classes see of the members of a class: the names and the documentation of its
methods, in order. -/
def ClassDecl.methodDocs (c : ClassDecl) : List (String × Option String) :=
  c.methods.map fun m => (m.name, m.doc)

/-- The documentation of a method depends on the outline only. -/
theorem ClassDecl.find?_doc (c : ClassDecl) (method : String) :
    (c.methods.find? fun m => m.name == method).bind Method.doc =
      (c.methodDocs.find? fun m => m.1 == method).bind Prod.snd := by
  rw [methodDocs, List.find?_map, Option.bind_map]
  rfl

/-! ### Outlines -/

/-- The declarations look the same to other classes. -/
structure Declared.SameOutline (d e : Declared) : Prop where
  place : d.place = e.place
  nameSpace : d.file.nameSpace = e.file.nameSpace
  uses : d.file.uses = e.file.uses
  name : d.decl.name = e.decl.name
  methodDocs : d.decl.methodDocs = e.decl.methodDocs

theorem Declared.SameOutline.refl (d : Declared) : d.SameOutline d := ⟨rfl, rfl, rfl, rfl, rfl⟩

theorem Declared.SameOutline.fullName {d e : Declared} (h : d.SameOutline e) :
    d.fullName = e.fullName := by
  rw [Declared.fullName, Declared.fullName, h.nameSpace, h.name]

/-- The registries answer alike. -/
structure Registry.Alike (r r' : Registry) : Prop where
  names : r.names = r'.names
  places : ∀ name, (r.get? name).map Declared.place = (r'.get? name).map Declared.place
  docs : ∀ cls method, r.methodDoc? cls method = r'.methodDoc? cls method

theorem Registry.methodDoc?_eq (r : Registry) (cls method : String) :
    r.methodDoc? cls method = (r.get? cls).bind fun d =>
      (d.decl.methodDocs.find? fun m => m.1 == method).bind Prod.snd := by
  unfold methodDoc? lookupMethod
  cases r.get? cls with
  | none => rfl
  | some d =>
    rw [Option.bind_some, ← ClassDecl.find?_doc]
    dsimp only
    cases d.decl.methods.find? fun m => m.name == method with
    | none => rfl
    | some m => rfl

/-- The first declarations with a name, among declarations with the same outlines. -/
theorem find?_sameOutline {ds es : List Declared} (h : List.Forall₂ Declared.SameOutline ds es)
    (name : String) :
    Option.Rel Declared.SameOutline (ds.find? fun d => d.fullName == name)
      (es.find? fun e => e.fullName == name) := by
  induction h with
  | nil => exact .none
  | @cons d e ds es same _ ih =>
    rw [List.find?_cons, List.find?_cons, same.fullName]
    cases e.fullName == name with
    | true => exact .some same
    | false => exact ih

theorem map_fullName_sameOutline {ds es : List Declared}
    (h : List.Forall₂ Declared.SameOutline ds es) :
    ds.map Declared.fullName = es.map Declared.fullName := by
  induction h with
  | nil => rfl
  | cons same _ ih => rw [List.map_cons, List.map_cons, same.fullName, ih]

/-- Programs with the same outlines have registries that answer alike. -/
theorem Registry.alike_ofFiles {files files' : List SourceFile}
    (h : List.Forall₂ Declared.SameOutline (declarations files) (declarations files')) :
    (ofFiles files).Alike (ofFiles files') where
  names := by
    rw [names_ofFiles, names_ofFiles, ← map_fullName_declarations, ← map_fullName_declarations,
      map_fullName_sameOutline h]
  places name := by
    have found := find?_sameOutline h name
    rw [← get?_ofFiles, ← get?_ofFiles] at found
    generalize (ofFiles files).get? name = first, (ofFiles files').get? name = first' at found ⊢
    cases found with
    | none => rfl
    | some same => simp only [Option.map_some, same.place]
  docs cls method := by
    have found := find?_sameOutline h cls
    rw [← get?_ofFiles, ← get?_ofFiles] at found
    rw [methodDoc?_eq, methodDoc?_eq]
    generalize (ofFiles files).get? cls = first, (ofFiles files').get? cls = first' at found ⊢
    cases found with
    | none => rfl
    | some same => simp only [Option.bind_some, same.methodDocs]

/-! ### Converting a class -/

section

variable {r r' : Resolver}

theorem Resolver.signature_alike (h : r.registry.Alike r'.registry) (known : r.known = r'.known)
    (scope : Scope) (m : Method) : r.signature scope m = r'.signature scope m := by
  refine signature_congr h.docs fun name _ => ?_
  rw [memberFor_eq, memberFor_eq, h.names, known]

/-- A class is converted in the same way against registries that answer alike, and whatever the
other classes of its file are. -/
theorem resultFor_congr (h : r.registry.Alike r'.registry) (known : r.known = r'.known) (width : ℕ)
    {d e : Declared} (same : d.SameOutline e) (decl : d.decl = e.decl) :
    resultFor r width d = resultFor r' width e := by
  have scope : Scope.of d.file d.decl = Scope.of e.file e.decl := by
    rw [Scope.of, Scope.of, same.nameSpace, same.uses, decl]
  have converted : lowerDecl ⟨Scope.of e.file e.decl, r⟩ = lowerDecl ⟨Scope.of e.file e.decl, r'⟩ :=
    lowerDecl_congr fun m _ => Resolver.signature_alike h known _ m
  rw [resultFor, resultFor, same.fullName, same.place, h.places, scope, classText, classText,
    converted]

end

/-- A class has the same entry in programs with the same outlines. -/
theorem resultFor_sameOutline {files files' : List SourceFile}
    (h : List.Forall₂ Declared.SameOutline (declarations files) (declarations files'))
    (options : Options) {d e : Declared} (same : d.SameOutline e) (decl : d.decl = e.decl) :
    resultFor (.ofProgram files options) options.indentWidth d =
      resultFor (.ofProgram files' options) options.indentWidth e := by
  refine resultFor_congr ?_ ?_ _ same decl
  · rw [Resolver.ofProgram_registry, Resolver.ofProgram_registry]
    exact Registry.alike_ofFiles h
  · rw [Resolver.ofProgram_known, Resolver.ofProgram_known]

/-! ### A program with one class left open -/

/-- The declarations of these classes in the file at position `i` of a program, when the first of
them is at position `j` of the file. -/
def declaredIn (file : SourceFile) (i j : ℕ) (classes : List ClassDecl) : List Declared :=
  (classes.zipIdx j).map fun c => ⟨file, c.1, (i, c.2)⟩

/-- The declarations of these files, when the first of them is at position `i` of a program. -/
def declarationsFrom (i : ℕ) (files : List SourceFile) : List Declared :=
  (files.zipIdx i).flatMap fun f => declaredIn f.1 f.2 0 f.1.classes

theorem declarations_eq_from (files : List SourceFile) :
    declarations files = declarationsFrom 0 files := rfl

theorem declarationsFrom_cons (i : ℕ) (file : SourceFile) (rest : List SourceFile) :
    declarationsFrom i (file :: rest) =
      declaredIn file i 0 file.classes ++ declarationsFrom (i + 1) rest := by
  rw [declarationsFrom, List.zipIdx_cons, List.flatMap_cons]
  rfl

theorem declarationsFrom_append (i : ℕ) (files more : List SourceFile) :
    declarationsFrom i (files ++ more) =
      declarationsFrom i files ++ declarationsFrom (i + files.length) more := by
  rw [declarationsFrom, List.zipIdx_append, List.flatMap_append]
  rfl

theorem declaredIn_split (file : SourceFile) (i : ℕ) (first last : List ClassDecl) (c : ClassDecl) :
    declaredIn file i 0 (first ++ c :: last) =
      declaredIn file i 0 first ++
        ⟨file, c, (i, first.length)⟩ :: declaredIn file i (first.length + 1) last := by
  rw [declaredIn, List.zipIdx_append, List.zipIdx_cons, List.map_append, List.map_cons,
    Nat.zero_add]
  rfl

theorem length_declarations (files : List SourceFile) :
    (declarations files).length = (files.flatMap SourceFile.classes).length := by
  have decls : (declarations files).map (fun d => (d.file, d.decl)) = declaredClasses files :=
    map_declarations files
  rw [← List.length_map (f := fun d : Declared => (d.file, d.decl)), decls, declaredClasses,
    List.length_flatMap, List.length_flatMap]
  simp only [List.length_map]

/-- A program with one class left open: the files before and after that of the class, and in this
file the classes before and after it. -/
structure Surroundings where
  before : List SourceFile := []
  /-- The file of the class; the classes it has do not count. -/
  file : SourceFile := {}
  first : List ClassDecl := []
  last : List ClassDecl := []
  after : List SourceFile := []

namespace Surroundings

/-- The file of the class, with a class filled in. -/
def fileWith (p : Surroundings) (c : ClassDecl) : SourceFile :=
  { p.file with classes := p.first ++ c :: p.last }

/-- The program with a class filled in. -/
def fill (p : Surroundings) (c : ClassDecl) : List SourceFile :=
  p.before ++ p.fileWith c :: p.after

/-- The number of declarations before the class. -/
def position (p : Surroundings) : ℕ :=
  (p.before.flatMap SourceFile.classes).length + p.first.length

/-- The declarations before the class. -/
def earlier (p : Surroundings) (c : ClassDecl) : List Declared :=
  declarations p.before ++ declaredIn (p.fileWith c) p.before.length 0 p.first

/-- The declaration of the class. -/
def declared (p : Surroundings) (c : ClassDecl) : Declared :=
  ⟨p.fileWith c, c, (p.before.length, p.first.length)⟩

/-- The declarations after the class. -/
def later (p : Surroundings) (c : ClassDecl) : List Declared :=
  declaredIn (p.fileWith c) p.before.length (p.first.length + 1) p.last ++
    declarationsFrom (p.before.length + 1) p.after

theorem declarations_fill (p : Surroundings) (c : ClassDecl) :
    declarations (p.fill c) = p.earlier c ++ p.declared c :: p.later c := by
  rw [fill, declarations_eq_from, declarationsFrom_append, declarationsFrom_cons, Nat.zero_add,
    show (p.fileWith c).classes = p.first ++ c :: p.last from rfl, declaredIn_split, earlier, later,
    declarations_eq_from]
  simp only [List.append_assoc, List.cons_append]
  rfl

theorem length_earlier (p : Surroundings) (c : ClassDecl) : (p.earlier c).length = p.position := by
  rw [earlier, List.length_append, length_declarations, position, declaredIn, List.length_map,
    List.length_zipIdx]

/-- The declarations are of the same class and look the same. -/
def SameClass (d e : Declared) : Prop := d.SameOutline e ∧ d.decl = e.decl

theorem sameClass_refl : ∀ ds : List Declared, List.Forall₂ SameClass ds ds
  | [] => .nil
  | d :: rest => .cons ⟨.refl d, rfl⟩ (sameClass_refl rest)

/-- The other classes of the file only see its namespace and its imports. -/
theorem sameClass_declaredIn (p : Surroundings) (c c' : ClassDecl) (i j : ℕ)
    (classes : List ClassDecl) :
    List.Forall₂ SameClass (declaredIn (p.fileWith c) i j classes)
      (declaredIn (p.fileWith c') i j classes) := by
  induction classes generalizing j with
  | nil => exact .nil
  | cons decl rest ih => exact .cons ⟨⟨rfl, rfl, rfl, rfl, rfl⟩, rfl⟩ (ih (j + 1))

theorem sameClass_earlier (p : Surroundings) (c c' : ClassDecl) :
    List.Forall₂ SameClass (p.earlier c) (p.earlier c') :=
  List.rel_append (sameClass_refl _) (p.sameClass_declaredIn c c' _ _ _)

theorem sameClass_later (p : Surroundings) (c c' : ClassDecl) :
    List.Forall₂ SameClass (p.later c) (p.later c') :=
  List.rel_append (p.sameClass_declaredIn c c' _ _ _) (sameClass_refl _)

variable {c c' : ClassDecl}

/-- Filling in another class with the same outline keeps all outlines. -/
theorem sameOutline_fill (p : Surroundings) (docs : c.methodDocs = c'.methodDocs)
    (name : c.name = c'.name) :
    List.Forall₂ Declared.SameOutline (declarations (p.fill c)) (declarations (p.fill c')) := by
  have outline {ds es : List Declared} (h : List.Forall₂ SameClass ds es) :
      List.Forall₂ Declared.SameOutline ds es := h.imp fun _ _ => And.left
  rw [declarations_fill, declarations_fill]
  exact List.rel_append (outline (p.sameClass_earlier c c'))
    (.cons ⟨rfl, rfl, rfl, name, docs⟩ (outline (p.sameClass_later c c')))

/-- Classes other than the one filled in have the same entries. -/
theorem map_resultFor_fill (p : Surroundings) (docs : c.methodDocs = c'.methodDocs)
    (name : c.name = c'.name) (options : Options) {ds es : List Declared}
    (h : List.Forall₂ SameClass ds es) :
    ds.map (resultFor (.ofProgram (p.fill c) options) options.indentWidth) =
      es.map (resultFor (.ofProgram (p.fill c') options) options.indentWidth) := by
  induction h with
  | nil => rw [List.map_nil, List.map_nil]
  | cons same _ ih =>
    rw [List.map_cons, List.map_cons, ih,
      resultFor_sameOutline (p.sameOutline_fill docs name) options same.1 same.2]

/-- The entries of a program with a class filled in. -/
theorem programEntries_fill (p : Surroundings) (c : ClassDecl) (options : Options) :
    programEntries (p.fill c) options =
      (p.earlier c).map (resultFor (.ofProgram (p.fill c) options) options.indentWidth) ++
        resultFor (.ofProgram (p.fill c) options) options.indentWidth (p.declared c) ::
        (p.later c).map (resultFor (.ofProgram (p.fill c) options) options.indentWidth) := by
  rw [programEntries, p.declarations_fill c, List.map_append, List.map_cons]

end Surroundings

theorem getElem?_of_ne_length {α : Type} {before after : List α} {i : ℕ} (h : i ≠ before.length)
    (a b : α) : (before ++ a :: after)[i]? = (before ++ b :: after)[i]? := by
  by_cases left : i < before.length
  · rw [List.getElem?_append_left left, List.getElem?_append_left left]
  · obtain ⟨k, rfl⟩ : ∃ k, i = before.length + (k + 1) := ⟨i - before.length - 1, by omega⟩
    rw [List.getElem?_append_right (by omega), List.getElem?_append_right (by omega),
      Nat.add_sub_cancel_left, List.getElem?_cons_succ, List.getElem?_cons_succ]

/-- Classes only see each other's names and the names and documentation of methods. Where two
programs differ in nothing but the members of one class, and its methods have the same names and
documentation in the same order, every other declaration has the same entry with the same
diagnostics. -/
theorem zephirize_outside (p : Surroundings) (c : ClassDecl) (members : List Member)
    (options : Options) (docs : c.methodDocs = { c with members }.methodDocs) :
    let files := p.fill c
    let files' := p.fill { c with members }
    (declarations files)[p.position]?.map Declared.decl = some c ∧
    (∀ i, i ≠ p.position →
      (programEntries files options)[i]? = (programEntries files' options)[i]?) ∧
    ∀ fs ∈ [files, files'], zephirize fs options =
      ⟨(programEntries fs options).map Prod.fst, (programEntries fs options).flatMap Prod.snd⟩ := by
  intro files files'
  refine ⟨?_, fun i other => ?_, fun fs _ => zephirize_eq_entries fs options⟩
  · rw [p.declarations_fill c, ← p.length_earlier c, List.getElem?_append_right (Nat.le_refl _),
      Nat.sub_self]
    rfl
  · rw [p.programEntries_fill, p.programEntries_fill,
      p.map_resultFor_fill docs rfl options (p.sameClass_earlier c { c with members }),
      p.map_resultFor_fill docs rfl options (p.sameClass_later c { c with members })]
    refine getElem?_of_ne_length ?_ _ _
    rwa [List.length_map, p.length_earlier]

/-- The interface `Shows` after a class that implements it: with a parameter, a body that cannot be
converted and a constant more, it leaves the class as it was. -/
theorem zephirize_outside_interface :
    let shown : Method := { name := "shown", doc := some "/** @return string */" }
    let changed : Method :=
      { shown with params := [{ name := "p", byRef := true }], body := some [.goto "end"] }
    let c : ClassDecl := { kind := .interface, name := "Shows", members := [.method shown] }
    let members : List Member := [.constant ⟨"X", .int 1⟩, .method changed]
    let showing : Method := { name := "shown", body := some [.ret (some (.string "a"))] }
    let p : Surroundings :=
      { first := [
          { name := "Foo", interfaces := [⟨["Shows"], false⟩], members := [.method showing] }] }
    c.methodDocs = { c with members }.methodDocs ∧ p.position = 1 ∧
      ∀ i, i ≠ 1 →
        (programEntries (p.fill c) {})[i]? = (programEntries (p.fill { c with members }) {})[i]? := by
  intro shown changed c members showing p
  exact ⟨rfl, rfl, (zephirize_outside p c members {} rfl).2.1⟩

end Zephirize
