import Zephirize.Proofs.Lowering.Members
import Zephirize.Proofs.Typing.Inheritance

/-!
# The members of a result's annotation

The annotation of a result lists members: those of the documented type or the declared type, and
`null` after a declared type that is marked as nullable. The documented type is written without
repetition, but `null` is put behind it without a look at what is there.

* `UnionType.listed` — the texts of a documented type.
* `Method.listedResult` — the members of the annotation of a method's result.
* `resultType_eq_listingText` — what is written are these members.
* `resultType_members` — no member is empty and none but `null` is repeated; `null` is repeated
  exactly where a nullable type is `null` itself or stands for a documented type that lists it.
-/

namespace Zephirize

/-- The annotation that lists these members; none if there are none. -/
def listingText (members : List String) : Option String :=
  if members.isEmpty then none else some (" | ".intercalate members)

theorem listingText_eq_some {members : List String} {text : String} :
    listingText members = some text ↔ members ≠ [] ∧ text = " | ".intercalate members := by
  unfold listingText
  split_ifs with empty
  · simp [List.isEmpty_iff.1 empty]
  · simp [List.isEmpty_eq_false_iff.1 (Bool.eq_false_iff.2 empty), eq_comm]

/-- A type that is marked as nullable has one member more. -/
theorem listingText_concat (members : List String) :
    (listingText members).map (· ++ " | null") =
      listingText (if members.isEmpty then [] else members ++ ["null"]) := by
  unfold listingText
  split_ifs with empty rest rest
  · rfl
  · exact absurd rfl rest
  · simp at rest
  · rw [Option.map_some, String.intercalate_append_of_ne_nil (by simpa using empty) (by simp),
      String.intercalate_singleton, String.append_assoc]
    rfl

/-! ### Documented types -/

namespace UnionType

/-- The texts of the members that have a name, without repetition. -/
def listed (u : UnionType) : List String :=
  firstOccurrences ((u.members.filter fun m => !m.isEmpty).map TypeMember.text)

theorem filterMap_mapM_render {members : List TypeMember} {each : List (Option String)}
    (h : members.mapM TypeMember.render = .ok each) :
    each.filterMap id = (members.filter fun m => !m.isEmpty).map TypeMember.text := by
  induction members generalizing each with
  | nil =>
    cases h
    rfl
  | cons m rest ih =>
    rw [List.mapM_cons] at h
    cases first : m.render with
    | error e =>
      rw [first] at h
      cases h
    | ok text =>
      cases more : rest.mapM TypeMember.render with
      | error e =>
        rw [first, more] at h
        cases h
      | ok texts =>
        rw [first, more] at h
        cases h
        -- A member without a name is left out on both sides.
        unfold TypeMember.render at first
        split_ifs at first with empty isClass
        · cases first
          rw [List.filterMap_cons_none rfl, List.filter_cons_of_neg (by simp [empty]), ih more]
        · cases first
          rw [List.filterMap_cons_some (id_eq _), List.filter_cons_of_pos (by simp [empty]),
            ih more, List.map_cons]

/-- A documented type that can be written lists its members. -/
theorem render_eq_listingText {u : UnionType} {type : Option String} (h : u.render = .ok type) :
    type = listingText u.listed := by
  unfold render at h
  cases each : u.members.mapM TypeMember.render with
  | error e =>
    rw [each] at h
    cases h
  | ok texts =>
    rw [each] at h
    cases h
    rw [filterMap_mapM_render each]
    rfl

theorem nodup_listed (u : UnionType) : u.listed.Nodup := nodup_firstOccurrences _

theorem mem_listed {u : UnionType} {text : String} :
    text ∈ u.listed ↔ ∃ m ∈ u.members, m.value ≠ "" ∧ m.text = text := by
  rw [listed, mem_firstOccurrences]
  simp [TypeMember.isEmpty, and_assoc]

theorem empty_notMem_listed (u : UnionType) : "" ∉ u.listed := by
  intro mem
  obtain ⟨m, -, named, text⟩ := mem_listed.1 mem
  cases m with
  | ofClass name => exact absurd (congrArg String.toList text) (by simp [TypeMember.text])
  | primitive name => exact named text

/-- A class is written in brackets, so only the primitive type is written `null`. -/
theorem null_mem_listed {u : UnionType} : "null" ∈ u.listed ↔ .primitive "null" ∈ u.members := by
  rw [mem_listed]
  constructor
  · rintro ⟨m, mem, -, text⟩
    cases m with
    | ofClass name => exact absurd (congrArg String.toList text) (by simp [TypeMember.text])
    | primitive name =>
      obtain rfl : name = "null" := text
      exact mem
  · intro mem
    exact ⟨.primitive "null", mem, by decide, rfl⟩

end UnionType

/-! ### Results -/

/-- The members of a result's documented type. -/
def Signature.listed (sig : Signature) : List String := (sig.result.map UnionType.listed).getD []

theorem documentedResult_eq_listingText {sig : Signature} {type : Option String}
    (h : documentedResult sig = .ok type) : type = listingText sig.listed := by
  unfold documentedResult at h
  unfold Signature.listed
  cases result : sig.result with
  | none =>
    rw [result] at h
    cases h
    rfl
  | some union =>
    rw [result] at h
    exact UnionType.render_eq_listingText h

theorem Signature.nodup_listed (sig : Signature) : sig.listed.Nodup := by
  unfold listed
  cases sig.result with
  | none => exact List.nodup_nil
  | some union => exact union.nodup_listed

theorem Signature.empty_notMem_listed (sig : Signature) : "" ∉ sig.listed := by
  unfold listed
  cases sig.result with
  | none => exact List.not_mem_nil
  | some union => exact union.empty_notMem_listed

theorem Signature.null_mem_listed {sig : Signature} :
    "null" ∈ sig.listed ↔ ∃ union ∈ sig.result, .primitive "null" ∈ union.members := by
  unfold listed
  cases sig.result with
  | none => simp
  | some union => simpa using UnionType.null_mem_listed

/-- The declared type is put together from others. -/
def TypeExpr.isCompound : TypeExpr → Bool
  | .nullable _ => true
  | .union _ => true
  | _ => false

/-- The members that a declared type lists. The documented members stand for a compound type, where
the method has a body that returns. -/
def Method.listedHint (m : Method) (sig : Signature) : TypeExpr → List String
  | .builtin name => if (Text.trim name).isEmpty then [] else [Text.trim name]
  | .ofClass name => ["<" ++ name.text ++ ">"]
  | _ => if anyOfKind ((m.body.getD []).map .stmt) .ret then sig.listed else []

/-- The members of the annotation of a method's result. -/
def Method.listedResult (m : Method) (sig : Signature) : List String :=
  match m.returnType with
  | none => sig.listed
  | some (.nullable inner) =>
    if (m.listedHint sig inner).isEmpty then [] else m.listedHint sig inner ++ ["null"]
  | some hint => m.listedHint sig hint

/-- The declared type of the result is nullable, and what it is nullable over lists `null`
already. -/
def Method.ListsNullTwice (m : Method) (sig : Signature) : Prop :=
  ∃ inner, m.returnType = some (.nullable inner) ∧
    ((∃ name, inner = .builtin name ∧ Text.trim name = "null") ∨
      (inner.isCompound = true ∧ ∃ union ∈ sig.result, .primitive "null" ∈ union.members))

theorem declaredResult_eq_listingText {m : Method} {sig : Signature} {hint : TypeExpr}
    {type : Option String} (h : declaredResult m sig hint = .ok type) :
    type = listingText (m.listedHint sig hint) := by
  -- The documented members come in only if the body returns.
  have documented : (if anyOfKind ((m.body.getD []).map .stmt) .ret then documentedResult sig
      else .ok none) = .ok type → type = listingText
        (if anyOfKind ((m.body.getD []).map .stmt) .ret then sig.listed else []) := by
    intro h
    split_ifs at h ⊢
    · exact documentedResult_eq_listingText h
    · cases h
      rfl
  cases hint with
  | builtin name =>
    cases h
    unfold Method.listedHint listingText
    split_ifs <;> simp_all
  | ofClass name =>
    unfold declaredResult at h
    dsimp only at h
    split_ifs at h
    cases h
    simp [Method.listedHint, listingText]
  | nullable inner => exact documented h
  | union types => exact documented h

/-- What is written for a result are its members. -/
theorem resultType_eq_listingText {m : Method} {sig : Signature} {type : Option String}
    (h : resultType m sig = .ok type) (other : m.isConstructor = false) :
    type = listingText (m.listedResult sig) := by
  unfold resultType at h
  unfold Method.listedResult
  rw [if_neg (by simp [other])] at h
  generalize m.returnType = declared at h ⊢
  cases declared with
  | none => exact documentedResult_eq_listingText h
  | some hint =>
    cases hint with
    | nullable inner =>
      dsimp only at h
      cases run : declaredResult m sig inner with
      | error e =>
        rw [run] at h
        cases h
      | ok hint =>
        rw [run] at h
        cases h
        rw [declaredResult_eq_listingText run]
        exact listingText_concat _
    | _ => exact declaredResult_eq_listingText h

/-- Where a body returns, a nullable compound type is written as the documented type and `null`. -/
theorem resultType_nullable {m : Method} {inner : TypeExpr} (sig : Signature)
    (other : m.isConstructor = false) (declared : m.returnType = some (.nullable inner))
    (compound : inner.isCompound = true)
    (returns : anyOfKind ((m.body.getD []).map .stmt) .ret = true) :
    resultType m sig = (documentedResult sig).map fun type => type.map (· ++ " | null") := by
  rw [resultType, if_neg (by simp [other]), declared]
  cases inner with
  | nullable _ => simp only [declaredResult, returns, if_true]
  | union _ => simp only [declaredResult, returns, if_true]
  | builtin _ => cases compound
  | ofClass _ => cases compound

theorem Method.nodup_listedHint (m : Method) (sig : Signature) (hint : TypeExpr) :
    (m.listedHint sig hint).Nodup := by
  unfold listedHint
  split
  · split_ifs <;> simp
  · simp
  · split_ifs
    · exact sig.nodup_listed
    · exact List.nodup_nil

theorem Method.empty_notMem_listedHint (m : Method) (sig : Signature) (hint : TypeExpr) :
    "" ∉ m.listedHint sig hint := by
  unfold listedHint
  split
  · split_ifs with empty
    · simp
    · intro mem
      exact empty (by rw [← List.mem_singleton.1 mem]; rfl)
  · simp
  · split_ifs
    · exact sig.empty_notMem_listed
    · simp

/-- A declared type that lists anything lists `null` if it is `null`, or if it is compound and the
documented type lists it. -/
theorem Method.null_mem_listedHint {m : Method} {sig : Signature} {hint : TypeExpr}
    (h : m.listedHint sig hint ≠ []) :
    "null" ∈ m.listedHint sig hint ↔ (∃ name, hint = .builtin name ∧ Text.trim name = "null") ∨
      (hint.isCompound = true ∧ ∃ union ∈ sig.result, .primitive "null" ∈ union.members) := by
  rw [← Signature.null_mem_listed]
  cases hint with
  | builtin name =>
    have only : m.listedHint sig (.builtin name) = [Text.trim name] := by
      unfold listedHint at h ⊢
      dsimp only at h ⊢
      split_ifs at h ⊢
      · exact absurd rfl h
      · rfl
    rw [only, List.mem_singleton]
    constructor
    · exact fun same => .inl ⟨name, rfl, same.symm⟩
    · rintro (⟨other, same, null⟩ | ⟨compound, -⟩)
      · rw [TypeExpr.builtin.inj same, null]
      · exact absurd compound Bool.false_ne_true
  | ofClass name =>
    have bracket : "null" ≠ "<" ++ name.text ++ ">" := by
      intro same
      exact absurd (congrArg String.toList same) (by simp)
    simpa [listedHint, TypeExpr.isCompound] using bracket
  | nullable inner =>
    unfold listedHint at h ⊢
    split_ifs at h ⊢
    · simp [TypeExpr.isCompound]
    · exact absurd rfl h
  | union types =>
    unfold listedHint at h ⊢
    split_ifs at h ⊢
    · simp [TypeExpr.isCompound]
    · exact absurd rfl h

/-- An annotation lists members that are not empty, and none but `null` more than once. It has no
repetition exactly if a nullable type does not list `null` already. -/
theorem resultType_members {m : Method} {sig : Signature} {text : String}
    (h : resultType m sig = .ok (some text)) :
    text = " | ".intercalate (m.listedResult sig) ∧ m.listedResult sig ≠ [] ∧
      "" ∉ m.listedResult sig ∧ (∀ x ≠ "null", (m.listedResult sig).count x ≤ 1) ∧
      ((m.listedResult sig).Nodup ↔ ¬ m.ListsNullTwice sig) := by
  have other : m.isConstructor = false := by
    by_contra constructs
    rw [resultType, if_pos (by simpa using constructs)] at h
    cases h
  obtain ⟨some, written⟩ := listingText_eq_some.1 (resultType_eq_listingText h other).symm
  refine ⟨written, some, ?_⟩
  by_cases nullable : ∃ inner, m.returnType = .some (.nullable inner)
  · obtain ⟨inner, declared⟩ := nullable
    have list : m.listedResult sig =
        if (m.listedHint sig inner).isEmpty then [] else m.listedHint sig inner ++ ["null"] := by
      rw [Method.listedResult, declared]
    have hint : m.listedHint sig inner ≠ [] := by
      intro empty
      rw [list, empty] at some
      exact some rfl
    have nodup := m.nodup_listedHint sig inner
    rw [list, if_neg (by simpa using hint)]
    refine ⟨?_, ?_, ?_⟩
    · simpa using m.empty_notMem_listedHint sig inner
    · intro x hx
      rw [List.count_append, List.count_singleton, if_neg (by simpa using hx.symm), Nat.add_zero]
      exact List.nodup_iff_count_le_one.1 nodup x
    · -- What stands in front of `null` has no repetition.
      have twice : m.ListsNullTwice sig ↔ "null" ∈ m.listedHint sig inner := by
        rw [Method.null_mem_listedHint hint]
        simp [Method.ListsNullTwice, declared]
      rw [twice, ← List.concat_eq_append, List.nodup_concat]
      simp [nodup]
  · have once : ¬ m.ListsNullTwice sig := fun ⟨inner, declared, _⟩ => nullable ⟨inner, declared⟩
    have plain : (m.listedResult sig).Nodup ∧ "" ∉ m.listedResult sig := by
      unfold Method.listedResult
      split
      · exact ⟨sig.nodup_listed, sig.empty_notMem_listed⟩
      · rename_i inner declared
        exact absurd ⟨inner, declared⟩ nullable
      · exact ⟨m.nodup_listedHint sig _, m.empty_notMem_listedHint sig _⟩
    exact ⟨plain.2, fun x _ => List.nodup_iff_count_le_one.1 plain.1 x, by simp [plain.1, once]⟩

/-- A method that is declared as `?(int|Foo)` and documented as `int|Foo`. -/
theorem resultType_members_union :
    let m : Method :=
      { name := "m",
        returnType := some (.nullable (.union [.builtin "int", .ofClass ⟨["Foo"], false⟩])),
        body := some [.ret (some (.var (.literal "x")))] }
    let sig : Signature := ⟨[], some ⟨[.primitive "int", .ofClass "Foo"]⟩⟩
    resultType m sig = .ok (some "int | <Foo> | null") ∧
      "int | <Foo> | null" = " | ".intercalate (m.listedResult sig) ∧ m.listedResult sig ≠ [] ∧
      "" ∉ m.listedResult sig ∧ (∀ x ≠ "null", (m.listedResult sig).count x ≤ 1) ∧
      ((m.listedResult sig).Nodup ↔ ¬ m.ListsNullTwice sig) := by
  intro m sig
  have regular : m.isConstructor = false := by
    rw [Method.isConstructor, Text.asciiLower_eq]
    decide
  have returns : anyOfKind ((m.body.getD []).map .stmt) .ret = true := by
    simp [m, anyOfKind, descendants, walk, Node.kind, Stmt.kind]
  have type : resultType m sig = .ok (some "int | <Foo> | null") := by
    rw [resultType_nullable sig regular rfl rfl returns]
    decide
  exact ⟨type, resultType_members type⟩

/-- A method that is declared as `?(int|string)` and documented as `int|null` lists `null` twice. -/
theorem null_listed_twice :
    let m : Method :=
      { name := "m", doc := some "/** @return int|null */",
        returnType := some (.nullable (.union [.builtin "int", .builtin "string"])),
        body := some [.ret (some (.var (.literal "x")))] }
    let r : Resolver := ⟨{}, {}⟩
    let scope : Scope := .of {} { name := "A" }
    let sig : Signature := ⟨[], some ⟨[.primitive "int", .primitive "null"]⟩⟩
    (r.signature scope m).1 = .ok sig ∧ resultType m sig = .ok (some "int | null | null") := by
  intro m r scope sig
  have regular : m.isConstructor = false := by
    rw [Method.isConstructor, Text.asciiLower_eq]
    decide
  have returns : anyOfKind ((m.body.getD []).map .stmt) .ret = true := by
    simp [m, anyOfKind, descendants, walk, Node.kind, Stmt.kind]
  have tag : r.resultTag scope (m.doc.map DocBlock.ofText) m.name = some "int|null" := by decide
  have resolved : (r.resolve scope "method m" "int|null").1 =
      ⟨[.primitive "int", .primitive "null"]⟩ := by
    unfold Resolver.resolve namedTypes normalizeType lacksCounterpart Resolver.memberFor
    rw [Text.asciiLower_eq]
    decide
  constructor
  · rw [Resolver.signature_eq regular, tag]
    exact congrArg (fun union => Except.ok (Signature.mk [] (some union))) resolved
  · rw [resultType_nullable sig regular rfl rfl returns]
    decide

end Zephirize
