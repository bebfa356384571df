import Zephirize.Distinct
import Zephirize.Proofs.Program.Registration
import Zephirize.Proofs.Tree.Names

/-!
# Names of interfaces

A name in a file denotes a full name: a fully qualified one denotes itself, one whose first part is
the local name of an import goes on from the import, and any other name stands inside the namespace
of the file (`SourceFile.denotedParts`). Classes are registered under texts that are put together
from the namespace and the name of the declaration, and interfaces are looked up under texts that are
put together from imports, namespace and the parts that are written. Both ways lead to the joined
parts of the full name (`nameWithin_eq`, `joined_mem_interfaceKeys`), so the class that a name
denotes is found (`interfaceKeys_denoted`).
-/

namespace Zephirize

/-! ### What a name denotes -/

namespace SourceFile

/-- The parts of the namespace of a file; the global namespace has none. -/
def namespaceParts (file : SourceFile) : List String := (file.nameSpace.map Name.parts).getD []

/-- The last import with this local name. -/
def lastImport? (file : SourceFile) (name : String) : Option Import :=
  (file.uses.filter fun use => use.localName == name).getLast?

/-- The parts of the full name that a name denotes in a file. -/
def denotedParts (file : SourceFile) (name : Name) : List String :=
  if name.fullyQualified then name.parts
  else
    ((name.parts.head?.bind file.lastImport?).map fun use => use.name.parts ++ name.parts.tail).getD
      (file.namespaceParts ++ name.parts)

theorem denotedParts_qualified (file : SourceFile) {name : Name} (h : name.fullyQualified = true) :
    file.denotedParts name = name.parts := by
  unfold denotedParts
  rw [if_pos h]

theorem denotedParts_imported {file : SourceFile} {name : Name} {first : String}
    {rest : List String} {use : Import} (h : name.fullyQualified = false)
    (parts : name.parts = first :: rest) (found : file.lastImport? first = some use) :
    file.denotedParts name = use.name.parts ++ rest := by
  unfold denotedParts
  rw [if_neg (by simp [h]), parts, List.head?_cons, Option.bind_some, found]
  rfl

theorem denotedParts_near {file : SourceFile} {name : Name} {first : String} {rest : List String}
    (h : name.fullyQualified = false) (parts : name.parts = first :: rest)
    (found : file.lastImport? first = none) :
    file.denotedParts name = file.namespaceParts ++ name.parts := by
  unfold denotedParts
  rw [if_neg (by simp [h]), parts, List.head?_cons, Option.bind_some, found]
  rfl

theorem mem_uses_of_lastImport? {file : SourceFile} {name : String} {use : Import}
    (h : file.lastImport? name = some use) : use ∈ file.uses :=
  List.mem_of_mem_filter (List.mem_of_getLast? h)

end SourceFile

/-! ### Keys of the registry -/

/-- The key of a class is the text of its full name. -/
theorem nameWithin_eq (file : SourceFile) (cls : String) :
    nameWithin file.nameSpace cls = "\\".intercalate (file.namespaceParts ++ [cls]) := by
  unfold nameWithin SourceFile.namespaceParts
  cases file.nameSpace with
  | none => exact String.intercalate_singleton.symm
  | some ns =>
    show (if ns.parts.isEmpty then cls else ns.joined ++ "\\" ++ cls) = _
    by_cases empty : ns.parts = []
    · rw [if_pos (by simp [empty]), Option.map_some, Option.getD_some, empty, List.nil_append,
        String.intercalate_singleton]
    · rw [if_neg (by simp [empty]), Option.map_some, Option.getD_some,
        String.intercalate_append_of_ne_nil empty (by simp), String.intercalate_singleton,
        Name.joined]

/-- The names of a declaration can be told apart in its full name. -/
def Declared.IsPlain (d : Declared) : Prop :=
  Name.IsPlain ⟨d.file.namespaceParts ++ [d.decl.name], true⟩

/-- Different lists of plain parts have different texts. -/
theorem eq_of_intercalate_eq {parts parts' : List String} (plain : Name.IsPlain ⟨parts, true⟩)
    (plain' : Name.IsPlain ⟨parts', true⟩)
    (h : "\\".intercalate parts = "\\".intercalate parts') : parts = parts' := by
  have left := Name.parts_joined plain
  have right := Name.parts_joined plain'
  have joined : Name.joined ⟨parts, true⟩ = Name.joined ⟨parts', true⟩ := h
  rw [joined] at left
  exact left.symm.trans right

namespace Registry

/-- A declared class is registered under its full name, or another one is that has the same name. -/
theorem exists_get?_of_mem {files : List SourceFile} {file : SourceFile} {decl : ClassDecl}
    (inProgram : file ∈ files) (inFile : decl ∈ file.classes) :
    ∃ d, (ofFiles files).get? (nameWithin file.nameSpace decl.name) = some d := by
  have declared : (file, decl) ∈ (declarations files).map fun d => (d.file, d.decl) := by
    rw [map_declarations]
    exact List.mem_flatMap.2 ⟨file, inProgram, List.mem_map_of_mem inFile⟩
  obtain ⟨d, mem, same⟩ := List.mem_map.1 declared
  have name : d.fullName = nameWithin file.nameSpace decl.name := by
    obtain ⟨rfl, rfl⟩ := Prod.mk.inj same
    rfl
  rw [get?_ofFiles, ← Option.isSome_iff_exists, List.find?_isSome]
  exact ⟨d, mem, by simp [name]⟩

theorem fullName_of_get? {r : Registry} {name : String} {d : Declared} (h : r.get? name = some d) :
    d.fullName = name := by
  simpa using List.find?_some h

end Registry

/-! ### Keys of an interface -/

namespace Scope

/-- Changing values under their keys changes what is looked up. -/
theorem lookup_map_values {α β γ : Type} [BEq α] [LawfulBEq α] (f : α → β → γ) (key : α)
    (entries : List (α × β)) :
    (entries.map fun entry => (entry.1, f entry.1 entry.2)).lookup key =
      (entries.lookup key).map (f key) := by
  induction entries with
  | nil => rfl
  | cons entry rest ih =>
    rw [List.map_cons, List.lookup_cons, List.lookup_cons, ih]
    cases here : key == entry.1 with
    | true =>
      rw [eq_of_beq here]
      rfl
    | false => rfl

theorem addImport_eq (imports : List (String × String)) (use : Import) :
    addImport imports use =
      if imports.any fun entry => entry.1 == use.localName then
        imports.map fun entry =>
          (entry.1, if entry.1 == use.localName then use.name.joined else entry.2)
      else imports ++ [(use.localName, use.name.joined)] := by
  unfold addImport
  congr 2
  funext entry
  obtain ⟨key, full⟩ := entry
  show (if key == use.localName then (key, use.name.joined) else (key, full)) =
    (key, if key == use.localName then use.name.joined else full)
  by_cases same : key == use.localName
  · rw [if_pos same, if_pos same]
  · rw [if_neg same, if_neg same]

/-- The new import counts for its local name, and nothing changes for others. -/
theorem lookup_addImport (imports : List (String × String)) (use : Import) (name : String) :
    (addImport imports use).lookup name =
      if name == use.localName then some use.name.joined else imports.lookup name := by
  rw [addImport_eq]
  split
  · rename_i taken
    rw [lookup_map_values fun key full => if key == use.localName then use.name.joined else full]
    by_cases same : name == use.localName
    · -- The name is known, so its value is replaced.
      obtain ⟨entry, mem, key⟩ := List.any_eq_true.1 taken
      have known : (imports.lookup name).isSome = true :=
        List.lookup_isSome_iff.2 ⟨entry, mem, by rw [eq_of_beq same, eq_of_beq key]; simp⟩
      obtain ⟨full, found⟩ := Option.isSome_iff_exists.1 known
      rw [found, if_pos same, Option.map_some, if_pos same]
    · rw [if_neg same]
      simp only [same, Bool.false_eq_true, if_false, Option.map_id_fun', id_eq]
  · rename_i new
    have unknown : imports.lookup use.localName = none := by
      rw [List.lookup_eq_none_iff]
      intro entry mem
      rw [List.any_eq_true, not_exists] at new
      have differ := new entry
      simp only [mem, true_and, beq_iff_eq] at differ
      simpa using Ne.symm differ
    rw [List.lookup_append]
    by_cases same : name == use.localName
    · rw [if_pos same, eq_of_beq same, unknown, Option.none_or, List.lookup_cons_self]
    · have differ : (name == use.localName) = false := by simpa using same
      rw [if_neg same, List.lookup_cons, differ, List.lookup_nil, Option.or_none]

/-- Of several imports with one local name the last counts. -/
theorem lookup_imports (file : SourceFile) (decl : ClassDecl) (name : String) :
    (Scope.of file decl).imports.lookup name =
      (file.lastImport? name).map fun use => use.name.joined := by
  show (file.uses.foldl addImport []).lookup name = _
  unfold SourceFile.lastImport?
  induction file.uses using List.reverseRecOn with
  | nil => rfl
  | append_singleton uses use ih =>
    rw [List.foldl_append, List.foldl_cons, List.foldl_nil, lookup_addImport, ih,
      List.filter_append, List.getLast?_append]
    by_cases same : name = use.localName
    · simp [same]
    · simp [same, Ne.symm same]

/-- The text of a name inside the namespace of the class. -/
def nearKey (s : Scope) (name : Name) : String :=
  (s.nameSpace.map (· ++ "\\")).getD "" ++ name.joined

theorem nearKey_of (file : SourceFile) (decl : ClassDecl) {name : Name} (named : name.parts ≠ []) :
    (Scope.of file decl).nearKey name =
      "\\".intercalate (file.namespaceParts ++ name.parts) := by
  unfold nearKey SourceFile.namespaceParts
  show ((((file.nameSpace.filter fun ns => !ns.parts.isEmpty).map Name.joined).map
    (· ++ "\\")).getD "" ++ name.joined) = _
  cases file.nameSpace with
  | none => exact String.empty_append
  | some ns =>
    by_cases empty : ns.parts = []
    · simp [Option.filter_some, empty, Name.joined]
    · simp [Option.filter_some, empty, Name.joined,
        String.intercalate_append_of_ne_nil empty named]

theorem interfaceKeys_qualified (s : Scope) {name : Name} (h : name.fullyQualified = true) :
    s.interfaceKeys name = [name.joined] := by
  unfold interfaceKeys
  rw [if_pos h]

section

variable {s : Scope} {name : Name} {first : String} {rest : List String}

/-- Without an import for its first part, a name is looked up inside the namespace. -/
theorem interfaceKeys_near (h : name.fullyQualified = false) (parts : name.parts = first :: rest)
    (found : s.imports.lookup first = none) : s.interfaceKeys name = [s.nearKey name] := by
  unfold interfaceKeys nearKey
  rw [if_neg (by simp [h])]
  simp only [parts, found]
  cases s.nameSpace with
  | none => simp
  | some ns => rfl

/-- The import that the first part of a name stands for gives a second key, unless it is the same. -/
theorem interfaceKeys_imported {full : String} (h : name.fullyQualified = false)
    (parts : name.parts = first :: rest) (found : s.imports.lookup first = some full) :
    s.interfaceKeys name = addDistinct [s.nearKey name] ("\\".intercalate (full :: rest)) := by
  unfold interfaceKeys nearKey addDistinct
  rw [if_neg (by simp [h])]
  simp only [parts, found]
  cases s.nameSpace with
  | none => simp
  | some ns => simp

end

/-- The keys of a name hold the text of the full name that it denotes. -/
theorem joined_mem_interfaceKeys {file : SourceFile} (decl : ClassDecl) {name : Name}
    (imports : ∀ use ∈ file.uses, use.name.parts ≠ []) (named : name.parts ≠ []) :
    "\\".intercalate (file.denotedParts name) ∈ (Scope.of file decl).interfaceKeys name := by
  cases qualified : name.fullyQualified with
  | true =>
    rw [interfaceKeys_qualified _ qualified, SourceFile.denotedParts_qualified _ qualified]
    exact List.mem_singleton.2 rfl
  | false =>
    obtain ⟨first, rest, parts⟩ := List.exists_cons_of_ne_nil named
    have lookup := lookup_imports file decl first
    cases found : file.lastImport? first with
    | none =>
      rw [found, Option.map_none] at lookup
      rw [interfaceKeys_near qualified parts lookup, nearKey_of file decl named,
        SourceFile.denotedParts_near qualified parts found]
      exact List.mem_singleton.2 rfl
    | some use =>
      rw [found, Option.map_some] at lookup
      have some_part := imports use (SourceFile.mem_uses_of_lastImport? found)
      -- Joining the parts of the import first makes no difference.
      have joined : "\\".intercalate (use.name.joined :: rest) =
          "\\".intercalate (use.name.parts ++ rest) := by
        by_cases last : rest = []
        · rw [last, String.intercalate_singleton, List.append_nil, Name.joined]
        · rw [String.intercalate_cons_of_ne_nil last,
            String.intercalate_append_of_ne_nil some_part last, Name.joined]
      rw [interfaceKeys_imported qualified parts lookup, joined,
        SourceFile.denotedParts_imported qualified parts found, mem_addDistinct]
      exact .inr rfl

/-- There are one or two keys. -/
theorem interfaceKeys_few (s : Scope) {name : Name} (named : name.parts ≠ []) :
    (s.interfaceKeys name).Nodup ∧
      ((s.interfaceKeys name).length = 1 ∨ (s.interfaceKeys name).length = 2) := by
  cases qualified : name.fullyQualified with
  | true =>
    rw [interfaceKeys_qualified s qualified]
    exact ⟨List.nodup_singleton _, .inl rfl⟩
  | false =>
    obtain ⟨first, rest, parts⟩ := List.exists_cons_of_ne_nil named
    cases found : s.imports.lookup first with
    | none =>
      rw [interfaceKeys_near qualified parts found]
      exact ⟨List.nodup_singleton _, .inl rfl⟩
    | some full =>
      rw [interfaceKeys_imported qualified parts found]
      refine ⟨nodup_addDistinct (List.nodup_singleton _), ?_⟩
      unfold addDistinct
      split
      · exact .inl rfl
      · exact .inr rfl

end Scope

/-- The parts of the full name that a plain name denotes are plain. -/
theorem SourceFile.isPlain_denotedParts {file : SourceFile} {name : Name}
    (space : ∀ ns ∈ file.nameSpace, ns.IsPlain) (imports : ∀ use ∈ file.uses, use.name.IsPlain)
    (plain : name.IsPlain) : Name.IsPlain ⟨file.denotedParts name, true⟩ := by
  have inside : ∀ p ∈ file.namespaceParts, p ≠ "" ∧ Name.separator ∉ p.toList := by
    intro p hp
    cases declared : file.nameSpace with
    | none => simp [namespaceParts, declared] at hp
    | some ns => exact space ns declared p (by simpa [namespaceParts, declared] using hp)
  intro p hp
  unfold denotedParts at hp
  split at hp
  · exact plain p hp
  · cases found : name.parts.head?.bind file.lastImport? with
    | none =>
      rw [found] at hp
      rcases List.mem_append.1 hp with hp | hp
      · exact inside p hp
      · exact plain p hp
    | some use =>
      rw [found] at hp
      obtain ⟨first, -, last⟩ := Option.bind_eq_some_iff.1 found
      rcases List.mem_append.1 hp with hp | hp
      · exact imports use (mem_uses_of_lastImport? last) p hp
      · exact plain p (List.mem_of_mem_tail hp)

/-- Lookup finds what the name of an interface denotes. A class that is declared under the denoted
full name has its key in the registry among the keys of the interface, and what is registered there
has no other full name. The keys are one or two, without repetition. -/
theorem interfaceKeys_denoted (file : SourceFile) (decl : ClassDecl) {interface : Name}
    (space : ∀ ns ∈ file.nameSpace, ns.IsPlain)
    (imports : ∀ use ∈ file.uses, use.name.IsPlain ∧ use.name.parts ≠ [])
    (plain : interface.IsPlain) (named : interface.parts ≠ []) :
    (∀ (home : SourceFile) (cls : ClassDecl),
      home.namespaceParts = (file.denotedParts interface).dropLast →
      some cls.name = (file.denotedParts interface).getLast? →
      nameWithin home.nameSpace cls.name ∈ (Scope.of file decl).interfaceKeys interface ∧
      ∀ files, home ∈ files → cls ∈ home.classes →
        ∃ d, (Registry.ofFiles files).get? (nameWithin home.nameSpace cls.name) = some d ∧
          (d.IsPlain → d.file.namespaceParts ++ [d.decl.name] = file.denotedParts interface)) ∧
      ((Scope.of file decl).interfaceKeys interface).Nodup ∧
      (((Scope.of file decl).interfaceKeys interface).length = 1 ∨
        ((Scope.of file decl).interfaceKeys interface).length = 2) := by
  refine ⟨?_, Scope.interfaceKeys_few _ named⟩
  intro home cls others last
  have full : home.namespaceParts ++ [cls.name] = file.denotedParts interface := by
    rw [others]
    exact List.dropLast_append_getLast? cls.name last.symm
  have key : nameWithin home.nameSpace cls.name =
      "\\".intercalate (file.denotedParts interface) := by
    rw [nameWithin_eq, full]
  constructor
  · rw [key]
    exact Scope.joined_mem_interfaceKeys decl (fun use mem => (imports use mem).2) named
  · intro files inProgram inFile
    obtain ⟨d, found⟩ := Registry.exists_get?_of_mem inProgram inFile
    refine ⟨d, found, fun apart => ?_⟩
    have denoted : Name.IsPlain ⟨file.denotedParts interface, true⟩ :=
      SourceFile.isPlain_denotedParts space (fun use mem => (imports use mem).1) plain
    have same : d.fullName = "\\".intercalate (file.denotedParts interface) :=
      (Registry.fullName_of_get? found).trans key
    rw [Declared.fullName, nameWithin_eq] at same
    exact eq_of_intercalate_eq apart denoted same

/-- A name behind an import that was given twice under one local name: the last import counts, and the
interface is found in the namespace `Lib\Contracts`. -/
theorem interfaceKeys_denoted_imported :
    let greeter : ClassDecl := { kind := .interface, name := "Greeter" }
    let home : SourceFile :=
      { nameSpace := some ⟨["Lib", "Contracts"], false⟩, classes := [greeter] }
    let file : SourceFile :=
      { nameSpace := some ⟨["App"], false⟩,
        uses := [⟨⟨["Old"], false⟩, some "C"⟩, ⟨⟨["Lib", "Contracts"], false⟩, some "C"⟩] }
    let interface : Name := ⟨["C", "Greeter"], false⟩
    (∀ ns ∈ file.nameSpace, ns.IsPlain) ∧
      (∀ use ∈ file.uses, use.name.IsPlain ∧ use.name.parts ≠ []) ∧
      interface.IsPlain ∧ interface.parts ≠ [] ∧
      file.denotedParts interface = ["Lib", "Contracts", "Greeter"] ∧
      "Lib\\Contracts\\Greeter" ∈
        (Scope.of file { name := "Hello" }).interfaceKeys interface ∧
      ∃ d, (Registry.ofFiles [file, home]).get? "Lib\\Contracts\\Greeter" = some d := by
  intro greeter home file interface
  have space : ∀ ns ∈ file.nameSpace, ∀ p ∈ ns.parts, p ≠ "" ∧ Name.separator ∉ p.toList := by
    decide
  have imports : ∀ use ∈ file.uses,
      (∀ p ∈ use.name.parts, p ≠ "" ∧ Name.separator ∉ p.toList) ∧ use.name.parts ≠ [] := by
    decide
  have plain : ∀ p ∈ interface.parts, p ≠ "" ∧ Name.separator ∉ p.toList := by decide
  have named : interface.parts ≠ [] := by decide
  obtain ⟨found, -⟩ :=
    interfaceKeys_denoted file { name := "Hello" } space imports plain named
  obtain ⟨key, registered⟩ := found home greeter (by decide) (by decide)
  obtain ⟨d, declared, -⟩ := registered [file, home] (by simp) (by simp [home])
  have text : nameWithin home.nameSpace greeter.name = "Lib\\Contracts\\Greeter" := by
    decide
  rw [text] at key declared
  exact ⟨space, imports, plain, named, by decide, key, d, declared⟩

end Zephirize
