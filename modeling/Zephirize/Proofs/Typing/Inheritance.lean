import Zephirize.Proofs.Program.Visible

/-!
# Documentation from interfaces

The result of a method is documented by the implemented interfaces before the method itself. The
interfaces are asked in the order in which the class names them, each under the full names that it
may be registered under. The first that has a doc comment for the method is the one that counts: its
type of the result is taken, and if it gives none, the method's own (`signature_result`). A later
interface is not asked then, even if it documents a result (`silent_interface_hides`).
-/

namespace Zephirize

/-- The class registered under `key` documents the method: its first method with this name has the
doc comment `text`. -/
def Registry.Documents (r : Registry) (method key text : String) : Prop :=
  ∃ d found, r.get? key = some d ∧ d.decl.methods.find? (fun m => m.name == method) = some found ∧
    found.doc = some text

theorem Registry.methodDoc?_eq_some_iff {r : Registry} {method key text : String} :
    r.methodDoc? key method = some text ↔ r.Documents method key text := by
  unfold methodDoc? lookupMethod Documents
  cases registered : r.get? key with
  | none => simp [Except.toOption]
  | some d =>
    cases declared : d.decl.methods.find? fun m => m.name == method with
    | none => simp [declared, Except.toOption]
    | some found => simp [declared, Except.toOption]

theorem Registry.methodDoc?_eq_none_iff {r : Registry} {method key : String} :
    r.methodDoc? key method = none ↔ ∀ text, ¬ r.Documents method key text := by
  simp only [Option.eq_none_iff_forall_ne_some, ne_eq, methodDoc?_eq_some_iff]

namespace Resolver

/-- The full names under which the implemented interfaces of a class are looked up, in order. -/
def interfaceCandidates (scope : Scope) : List String :=
  scope.decl.interfaces.flatMap scope.interfaceKeys

variable {r : Resolver} {scope : Scope}

/-- The doc comment that counts is that of the first candidate with one. -/
theorem docFromInterfaces_of_first {method key text : String} {earlier later : List String}
    (split : interfaceCandidates scope = earlier ++ key :: later)
    (silent : ∀ k ∈ earlier, ∀ other, ¬ r.registry.Documents method k other)
    (documented : r.registry.Documents method key text) :
    r.docFromInterfaces scope method = some (DocBlock.ofText text) := by
  have none : (earlier.findSome? fun k => r.registry.methodDoc? k method) = none :=
    List.findSome?_eq_none_iff.2 fun k hk => Registry.methodDoc?_eq_none_iff.2 (silent k hk)
  rw [docFromInterfaces_eq, ← interfaceCandidates, split, List.findSome?_append, none,
    Option.none_or, List.findSome?_cons, Registry.methodDoc?_eq_some_iff.2 documented]
  rfl

theorem docFromInterfaces_of_none {method : String}
    (silent : ∀ k ∈ interfaceCandidates scope, ∀ text, ¬ r.registry.Documents method k text) :
    r.docFromInterfaces scope method = none := by
  rw [docFromInterfaces_eq, ← interfaceCandidates, Option.map_eq_none_iff]
  exact List.findSome?_eq_none_iff.2 fun k hk => Registry.methodDoc?_eq_none_iff.2 (silent k hk)

/-- The types of a method with a result, once its parameters have theirs. -/
theorem signature_eq {m : Method} (regular : m.isConstructor = false) :
    (r.signature scope m).1 =
      (r.params scope (m.doc.map DocBlock.ofText) m.params).1.map fun specs =>
        ⟨specs, (r.resultTag scope (m.doc.map DocBlock.ofText) m.name).map fun raw =>
          (r.resolve scope ("method " ++ m.name) raw).1⟩ := by
  unfold signature
  dsimp only
  rcases r.params scope (m.doc.map DocBlock.ofText) m.params with ⟨specs | e, notes⟩
  · rfl
  · unfold result
    dsimp only
    rw [if_neg (by simp [regular]), ← resultTag]
    cases r.resultTag scope (m.doc.map DocBlock.ofText) m.name with
    | none => rfl
    | some raw => rfl

/-- The documented type of a result comes from the implemented interfaces before the method. The
first candidate that documents the method decides: where its doc comment has a type for the result,
this is the type that is resolved, and else the method's own. The method's own is also used when no
candidate documents the method. -/
theorem signature_result (r : Resolver) (scope : Scope) {m : Method}
    (regular : m.isConstructor = false) :
    let own := (m.doc.map DocBlock.ofText).bind DocBlock.typeOfResult?
    ∃ raw : Option String,
      (r.signature scope m).1 =
        (r.params scope (m.doc.map DocBlock.ofText) m.params).1.map (fun specs =>
          ⟨specs, raw.map fun type => (r.resolve scope ("method " ++ m.name) type).1⟩) ∧
      (∀ earlier key later text, interfaceCandidates scope = earlier ++ key :: later →
        (∀ k ∈ earlier, ∀ other, ¬ r.registry.Documents m.name k other) →
        r.registry.Documents m.name key text →
        (∀ type, (DocBlock.ofText text).typeOfResult? = some type → raw = some type) ∧
        ((DocBlock.ofText text).typeOfResult? = none → raw = own)) ∧
      ((∀ k ∈ interfaceCandidates scope, ∀ text, ¬ r.registry.Documents m.name k text) →
        raw = own) := by
  intro own
  refine ⟨r.resultTag scope (m.doc.map DocBlock.ofText) m.name, signature_eq regular, ?_, ?_⟩
  · intro earlier key later text split silent documented
    have inherited := docFromInterfaces_of_first split silent documented
    unfold resultTag
    rw [inherited, Option.bind_some]
    constructor
    · intro type given
      rw [given]
      rfl
    · intro absent
      rw [absent]
      rfl
  · intro silent
    unfold resultTag
    rw [docFromInterfaces_of_none silent, Option.bind_none]
    rfl

/-- `App\Blank` declares no method, `App\Counted` documents another one, and no class is registered
as `App\Named`. So the import `Lib\Named` decides, and not the method itself. -/
theorem signature_result_imported :
    let count : Method := { name := "count", doc := some "/** Counts. */" }
    let name : Method := { name := "name", doc := some "/** @return string */" }
    let file : SourceFile :=
      { nameSpace := some ⟨["App"], false⟩, uses := [⟨⟨["Lib", "Named"], false⟩, none⟩],
        classes := [{ name := "Hello",
                      interfaces := [⟨["Blank"], false⟩, ⟨["Counted"], false⟩, ⟨["Named"], false⟩] },
          { kind := .interface, name := "Blank" },
          { kind := .interface, name := "Counted", members := [.method count] }] }
    let lib : SourceFile :=
      { nameSpace := some ⟨["Lib"], false⟩,
        classes := [{ kind := .interface, name := "Named", members := [.method name] }] }
    let r : Resolver := ⟨Registry.ofFiles [file, lib], {}⟩
    let scope : Scope := .of file { name := "Hello", interfaces :=
      [⟨["Blank"], false⟩, ⟨["Counted"], false⟩, ⟨["Named"], false⟩] }
    let own : Method := { name := "name", doc := some "/** @return int */" }
    own.isConstructor = false ∧
      interfaceCandidates scope =
        ["App\\Blank", "App\\Counted", "App\\Named"] ++ "Lib\\Named" :: [] ∧
      ((r.signature scope own).1.toOption.bind Signature.result) =
        some (.single (.primitive "string")) := by
  intro count name file lib r scope own
  have regular : own.isConstructor = false := by
    rw [Method.isConstructor, Text.asciiLower_eq]
    decide
  have candidates : interfaceCandidates scope =
      ["App\\Blank", "App\\Counted", "App\\Named"] ++ "Lib\\Named" :: [] := by
    decide
  obtain ⟨raw, signature, first, -⟩ := signature_result r scope regular
  have silent : ∀ k ∈ ["App\\Blank", "App\\Counted", "App\\Named"], ∀ other,
      ¬ r.registry.Documents "name" k other := by
    simp only [← Registry.methodDoc?_eq_none_iff]
    decide
  have documented : r.registry.Documents "name" "Lib\\Named" "/** @return string */" := by
    rw [← Registry.methodDoc?_eq_some_iff]
    decide
  obtain ⟨given, -⟩ := first _ _ _ _ candidates silent documented
  have resolved : (r.resolve scope "method name" "string").1 = .single (.primitive "string") := by
    unfold resolve namedTypes normalizeType lacksCounterpart memberFor
    rw [Text.asciiLower_eq]
    decide
  rw [signature, given "string" (by decide)]
  exact ⟨regular, candidates, congrArg some resolved⟩

/-- An interface that documents a method without a result hides the result that a later interface
documents: the method keeps its own. -/
theorem silent_interface_hides :
    let shown : Method := { name := "m", doc := some "/** Shows it. */" }
    let named : Method := { name := "m", doc := some "/** @return string */" }
    let own : Method := { name := "m", doc := some "/** @return int */" }
    let cls : ClassDecl := { name := "A", interfaces := [⟨["I"], false⟩, ⟨["J"], false⟩] }
    let file : SourceFile :=
      { classes := [cls, { kind := .interface, name := "I", members := [.method shown] },
          { kind := .interface, name := "J", members := [.method named] }] }
    let r : Resolver := ⟨Registry.ofFiles [file], {}⟩
    let scope : Scope := .of file cls
    own.isConstructor = false ∧ interfaceCandidates scope = ["I", "J"] ∧
      (DocBlock.ofText "/** Shows it. */").typeOfResult? = none ∧
      r.registry.Documents "m" "I" "/** Shows it. */" ∧
      (DocBlock.ofText "/** @return string */").typeOfResult? = some "string" ∧
      r.registry.Documents "m" "J" "/** @return string */" ∧
      ((r.signature scope own).1.toOption.bind Signature.result) =
        some (.single (.primitive "int")) ∧
      (r.resolve scope "method m" "string").1 = .single (.primitive "string") := by
  intro shown named own cls file r scope
  have regular : own.isConstructor = false := by
    rw [Method.isConstructor, Text.asciiLower_eq]
    decide
  have candidates : interfaceCandidates scope = [] ++ "I" :: ["J"] := by decide
  have documented : r.registry.Documents "m" "I" "/** Shows it. */" :=
    Registry.methodDoc?_eq_some_iff.1 (by decide)
  -- The comment of `I` is found first and has no result, so `J` is never asked.
  have tag : r.resultTag scope (own.doc.map DocBlock.ofText) own.name = some "int" := by
    unfold resultTag
    rw [docFromInterfaces_of_first candidates (by simp) documented]
    decide
  have resolved : ∀ name ∈ ["int", "string"],
      (r.resolve scope "method m" name).1 = .single (.primitive name) := by
    unfold resolve namedTypes normalizeType lacksCounterpart memberFor
    rw [Text.asciiLower_eq]
    decide
  refine ⟨regular, candidates, by decide, documented, by decide,
    Registry.methodDoc?_eq_some_iff.1 (by decide), ?_, resolved "string" (by simp)⟩
  rw [signature_eq regular, tag]
  exact congrArg some (resolved "int" (by simp))

end Resolver

end Zephirize
