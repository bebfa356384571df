import Mathlib.Tactic
import Zephirize.Lowering.Class

/-!
# What a class sees of its program

The conversion of a class consults the other classes of a program only for the signatures of its own
methods (`lowerDecl_congr`), and a signature only asks how the registered methods are documented and
which member a documented type stands for (`Resolver.signature_congr`). Known classes that no
documented type names have no part in it (`lowerDecl_unknown`).
-/

namespace Zephirize

/-- Lower case letter by letter, in a form that can be evaluated. -/
theorem Text.asciiLower_eq : asciiLower = fun s => String.ofList (s.toList.map Char.toLower) := by
  funext s
  rw [asciiLower, ← String.toList_map, String.ofList_toList]

/-- The documentation of a method of a registered class. -/
def Registry.methodDoc? (r : Registry) (cls method : String) : Option String :=
  (r.lookupMethod cls method).toOption.bind Method.doc

namespace Resolver

variable {r r' : Resolver} {scope : Scope}

/-- The documented type of a result, as it is written: that of an implemented interface before the
method's own. -/
def resultTag (r : Resolver) (scope : Scope) (doc : Option DocBlock) (method : String) :
    Option String :=
  (r.docFromInterfaces scope method).bind DocBlock.typeOfResult? <|> doc.bind DocBlock.typeOfResult?

/-- The names that a documented type leaves to be looked up. -/
def lookedUp (raw : String) : List String := (namedTypes raw).filter (!lacksCounterpart ·)

/-- The documented types that the signature of a method looks up. A declared type comes before a
documented one, and a constructor has no result. -/
def documentedTypes (r : Resolver) (scope : Scope) (m : Method) : List String :=
  let doc := m.doc.map DocBlock.ofText
  let ofParams := m.params.filterMap fun p =>
    if p.type.isSome then none else doc.bind fun d => d.typeOfParam? p.name
  let ofResult := if m.isConstructor then none else r.resultTag scope doc m.name
  (ofParams ++ ofResult.toList).flatMap lookedUp

theorem docFromInterfaces_eq (r : Resolver) (scope : Scope) (method : String) :
    r.docFromInterfaces scope method =
      ((scope.decl.interfaces.flatMap scope.interfaceKeys).findSome? fun cls =>
        r.registry.methodDoc? cls method).map DocBlock.ofText := by
  unfold docFromInterfaces
  dsimp only
  congr 2
  funext cls
  unfold Registry.methodDoc?
  cases r.registry.lookupMethod cls method with
  | ok found => rfl
  | error e => rfl

theorem resolve_congr {raw : String} (node : String)
    (h : ∀ name ∈ lookedUp raw, r.memberFor scope name = r'.memberFor scope name) :
    r.resolve scope node raw = r'.resolve scope node raw := by
  rw [resolve, resolve, show (namedTypes raw).filter (!lacksCounterpart ·) = lookedUp raw from rfl,
    List.map_congr_left h]

theorem param_congr {doc : Option DocBlock} {p : Param}
    (h : ∀ raw, p.type = none → (doc.bind fun d => d.typeOfParam? p.name) = some raw →
      ∀ name ∈ lookedUp raw, r.memberFor scope name = r'.memberFor scope name) :
    r.param scope doc p = r'.param scope doc p := by
  unfold param
  cases type : p.type with
  | some hint => rfl
  | none =>
    dsimp only
    cases tag : doc.bind fun d => d.typeOfParam? p.name with
    | none => rfl
    | some raw => simp only [resolve_congr _ (h raw type tag)]

theorem params_congr {doc : Option DocBlock} {params : List Param}
    (h : ∀ p ∈ params, r.param scope doc p = r'.param scope doc p) :
    r.params scope doc params = r'.params scope doc params := by
  induction params with
  | nil => rfl
  | cons p rest ih =>
    rw [Resolver.params, Resolver.params, h p (by simp),
      ih fun q hq => h q (List.mem_cons_of_mem p hq)]

theorem result_congr {doc : Option DocBlock} {method : String}
    (inherited : r.docFromInterfaces scope method = r'.docFromInterfaces scope method)
    (h : ∀ raw, r.resultTag scope doc method = some raw →
      ∀ name ∈ lookedUp raw, r.memberFor scope name = r'.memberFor scope name) :
    r.result scope doc method = r'.result scope doc method := by
  have tags : r'.resultTag scope doc method = r.resultTag scope doc method := by
    rw [resultTag, resultTag, inherited]
  unfold result
  dsimp only
  rw [← resultTag, ← resultTag, tags]
  cases tag : r.resultTag scope doc method with
  | none => rfl
  | some raw => simp only [resolve_congr _ (h raw tag)]

/-- A signature only depends on the documentation of the registered methods and on the members that
its documented types stand for. -/
theorem signature_congr {m : Method}
    (docs : ∀ cls method, r.registry.methodDoc? cls method = r'.registry.methodDoc? cls method)
    (members : ∀ name ∈ r.documentedTypes scope m,
      r.memberFor scope name = r'.memberFor scope name) :
    r.signature scope m = r'.signature scope m := by
  have inherited : r.docFromInterfaces scope m.name = r'.docFromInterfaces scope m.name := by
    simp only [docFromInterfaces_eq, docs]
  have params : r.params scope (m.doc.map DocBlock.ofText) m.params =
      r'.params scope (m.doc.map DocBlock.ofText) m.params := by
    refine params_congr fun p hp => param_congr fun raw type tag name hname => members name ?_
    refine List.mem_flatMap.2 ⟨raw, List.mem_append_left _ ?_, hname⟩
    exact List.mem_filterMap.2 ⟨p, hp, by rw [type]; exact tag⟩
  unfold signature
  dsimp only
  rw [params]
  split
  · rfl
  · split
    · rfl
    · rename_i ordinary
      have result := @result_congr r r' scope (m.doc.map DocBlock.ofText) m.name inherited
        fun raw tag name hname => members name ?_
      · rw [result]
      · refine List.mem_flatMap.2 ⟨raw, List.mem_append_right _ ?_, hname⟩
        rw [if_neg ordinary, tag]
        exact List.mem_singleton_self raw

end Resolver

/-! ### Classes -/

section

variable {scope : Scope} {r r' : Resolver}

theorem lowerMethod_congr {m : Method} (h : r.signature scope m = r'.signature scope m) :
    lowerMethod ⟨scope, r⟩ m = lowerMethod ⟨scope, r'⟩ m := by
  have resolved : resolveSignature ⟨scope, r⟩ m = resolveSignature ⟨scope, r'⟩ m := by
    rw [resolveSignature, resolveSignature]
    dsimp only
    rw [h]
  have head : lowerHead ⟨scope, r⟩ m = lowerHead ⟨scope, r'⟩ m := by
    rw [lowerHead, lowerHead, resolved]
    rfl
  rw [lowerMethod, lowerMethod, head]
  rfl

theorem lowerMember_congr {member : Member}
    (h : ∀ m, member = .method m → r.signature scope m = r'.signature scope m) :
    lowerMember ⟨scope, r⟩ member = lowerMember ⟨scope, r'⟩ member := by
  cases member with
  | constant c => rfl
  | property p => rfl
  | method m => rw [lowerMember, lowerMember, lowerMethod_congr (h m rfl)]

theorem lowerMembers_congr {members : List Member}
    (h : ∀ m, .method m ∈ members → r.signature scope m = r'.signature scope m) :
    lowerMembers ⟨scope, r⟩ members = lowerMembers ⟨scope, r'⟩ members := by
  induction members with
  | nil => rfl
  | cons member rest ih =>
    rw [lowerMembers, lowerMembers, ih fun m hm => h m (List.mem_cons_of_mem member hm),
      lowerMember_congr fun m same => h m (by simp [same])]

/-- Other classes of a program only enter the conversion of a class through the signatures of its
methods. -/
theorem lowerDecl_congr
    (h : ∀ m ∈ scope.decl.methods, r.signature scope m = r'.signature scope m) :
    lowerDecl ⟨scope, r⟩ = lowerDecl ⟨scope, r'⟩ := by
  have members : lowerMembers ⟨scope, r⟩ scope.decl.members =
      lowerMembers ⟨scope, r'⟩ scope.decl.members :=
    lowerMembers_congr fun m hm => h m (List.mem_filterMap.2 ⟨.method m, hm, rfl⟩)
  rw [lowerDecl, lowerDecl]
  dsimp only
  rw [members]
  rfl

end

/-! ### Known classes -/

namespace ClassSet

theorem contains_insert (k : ClassSet) (n name : String) :
    (k.insert n).contains name = (k.contains name || normalize n == normalize name) := by
  rw [Bool.eq_iff_iff]
  simp only [contains, insert, List.contains_iff_mem, mem_addDistinct, Bool.or_eq_true, beq_iff_eq]
  exact or_congr_right eq_comm

theorem contains_add (k : ClassSet) (names : List String) (name : String) :
    (k.add names).contains name =
      (k.contains name || names.any fun n => normalize n == normalize name) := by
  induction names generalizing k with
  | nil => simp [add]
  | cons n rest ih =>
    rw [add, List.foldl_cons, ← add, ih, contains_insert, List.any_cons, Bool.or_assoc]

/-- The characters under which a name is compared. -/
def folded (cs : List Char) : List Char :=
  ((Text.Chars.trim cs).dropWhile (· == '\\')).map Char.toLower

theorem normalize_beq (a b : String) :
    (normalize a == normalize b) = (folded a.toList == folded b.toList) := by
  have chars (name : String) : (normalize name).toList = folded name.toList := by
    simp [normalize, Text.asciiLower, folded]
  rw [Bool.eq_iff_iff, beq_iff_eq, beq_iff_eq, ← chars, ← chars, String.toList_inj]

end ClassSet

theorem Resolver.memberFor_unknown {r : Resolver} {raw : String} (h : r.known.contains raw = false)
    (scope : Scope) : r.memberFor scope raw = Resolver.memberFor ⟨r.registry, {}⟩ scope raw := by
  have none : ClassSet.contains {} raw = false := rfl
  simp only [memberFor, h, none]

/-- Known classes that no documented type of a class names do not matter for it. -/
theorem lowerDecl_unknown {r : Resolver} {scope : Scope}
    (h : ∀ m ∈ scope.decl.methods, ∀ raw ∈ r.documentedTypes scope m,
      r.known.contains raw = false) :
    lowerDecl ⟨scope, r⟩ = lowerDecl ⟨scope, ⟨r.registry, {}⟩⟩ :=
  lowerDecl_congr fun m hm => Resolver.signature_congr (fun _ _ => rfl) fun raw hraw =>
    Resolver.memberFor_unknown (h m hm raw hraw) scope

end Zephirize
