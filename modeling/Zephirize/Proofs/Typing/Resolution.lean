import Mathlib.Tactic
import Zephirize.Lowering.Method

/-!
# Types can be written

A documented type never stands for a class without a name (`resolve_written`), whatever the doc
comment says. So only a declared class type without any part can keep a signature from being written
(`signature_run`, `resultType_eq_ok`).
-/

namespace Zephirize

/-! ### Members that can be written -/

namespace TypeMember

/-- The member is no class without a name. -/
def Written (m : TypeMember) : Prop := m ≠ .ofClass ""

theorem written_primitive (name : String) : (primitive name).Written := by
  intro h
  cases h

theorem written_ofClass {name : String} (h : name ≠ "") : (ofClass name).Written := by
  intro same
  cases same
  exact h rfl

theorem Written.render_eq_ok {m : TypeMember} (h : m.Written) : ∃ text, m.render = .ok text := by
  unfold render
  split_ifs with empty isClass
  · cases m with
    | ofClass name =>
      have : name = "" := by simpa [isEmpty, value] using empty
      exact absurd (congrArg ofClass this) h
    | primitive name => cases isClass
  · exact ⟨none, rfl⟩
  · exact ⟨some m.text, rfl⟩

end TypeMember

namespace UnionType

theorem render_eq_ok {u : UnionType} (h : ∀ m ∈ u.members, m.Written) :
    ∃ text, u.render = .ok text := by
  have each : ∀ members : List TypeMember, (∀ m ∈ members, m.Written) →
      ∃ texts, members.mapM TypeMember.render = .ok texts := by
    intro members
    induction members with
    | nil => exact fun _ => ⟨[], rfl⟩
    | cons m rest ih =>
      intro written
      obtain ⟨text, first⟩ := (written m (by simp)).render_eq_ok
      obtain ⟨texts, more⟩ := ih fun n hn => written n (List.mem_cons_of_mem m hn)
      refine ⟨text :: texts, ?_⟩
      rw [List.mapM_cons, first, more]
      rfl
  obtain ⟨texts, run⟩ := each u.members h
  rw [render, run]
  exact ⟨_, rfl⟩

/-- A parameter is never given a type without a name. -/
theorem written_of_soleType {u : UnionType} {m : TypeMember} (h : u.soleType = .single m) :
    m.Written := by
  unfold soleType at h
  split at h
  · cases h
  · rename_i only
    cases h
    -- The sole type is what is left after the empty members are dropped.
    have mem : m ∈ u.members.filter fun m => !m.isEmpty && !m.isNull := by rw [only]; simp
    rintro rfl
    simp [TypeMember.isEmpty, TypeMember.value] at mem
  · cases h

end UnionType

/-! ### Documented types -/

theorem ne_empty_of_mem_namedTypes {raw name : String} (h : name ∈ namedTypes raw) : name ≠ "" := by
  rw [namedTypes, mem_firstOccurrences] at h
  obtain ⟨part, mem, rfl⟩ := List.mem_map.1 h
  have part_ne : part ≠ "" := by simpa using (List.mem_filter.1 mem).2
  unfold normalizeType
  split
  · decide
  · decide
  · exact part_ne

theorem ne_empty_of_endsInName {full name : String} (h : endsInName full name = true) :
    name ≠ "" := by
  rintro rfl
  simp [endsInName] at h

theorem memberFor_written (r : Resolver) (scope : Scope) {raw : String} (h : raw ≠ "") :
    (r.memberFor scope raw).Written := by
  unfold Resolver.memberFor
  dsimp only
  split
  · exact TypeMember.written_ofClass h
  · split
    · rename_i imported
      obtain ⟨full, -, ends⟩ := List.any_eq_true.1 imported
      exact TypeMember.written_ofClass (ne_empty_of_endsInName ends)
    · split
      · rename_i m found
        obtain ⟨name, -, hm⟩ := List.exists_of_findSome?_eq_some found
        split_ifs at hm with ends same
        · cases hm
          exact TypeMember.written_ofClass (ne_empty_of_endsInName ends)
        · cases hm
          exact TypeMember.written_ofClass h
      · split_ifs
        · exact TypeMember.written_primitive _
        · exact TypeMember.written_primitive _
        · exact TypeMember.written_ofClass h

/-- Every member that a documented type stands for can be written. -/
theorem resolve_written (r : Resolver) (scope : Scope) (node raw : String) :
    ∀ m ∈ (r.resolve scope node raw).1.members, m.Written := by
  unfold Resolver.resolve
  dsimp only
  split_ifs
  · intro m hm
    rw [UnionType.single, List.mem_singleton] at hm
    rw [hm]
    exact TypeMember.written_primitive ""
  · intro m hm
    rw [UnionType.ofList, mem_firstOccurrences] at hm
    obtain ⟨name, mem, rfl⟩ := List.mem_map.1 hm
    exact memberFor_written r scope (ne_empty_of_mem_namedTypes (List.mem_filter.1 mem).1)

theorem result_written (r : Resolver) (scope : Scope) (doc : Option DocBlock) (method : String) :
    ∀ u ∈ (r.result scope doc method).1, ∀ m ∈ u.members, m.Written := by
  unfold Resolver.result
  dsimp only
  split
  · intro u hu
    cases hu
    exact resolve_written r scope _ _
  · intro u hu
    cases hu

/-! ### Declared types -/

/-- The class names in a declared type. -/
def TypeExpr.classNames : TypeExpr → List Name
  | .builtin _ => []
  | .ofClass name => [name]
  | .nullable inner => inner.classNames
  | .union types => types.flatMap TypeExpr.classNames

/-- Every class name in a declared type has a part. -/
def TypeExpr.IsNamed (t : TypeExpr) : Prop := ∀ name ∈ t.classNames, name.parts ≠ []

theorem TypeExpr.isNamed_nullable {inner : TypeExpr} :
    (TypeExpr.nullable inner).IsNamed ↔ inner.IsNamed := by
  rw [IsNamed, classNames, IsNamed]

mutual

theorem declaredType_eq_ok : ∀ t : TypeExpr, t.IsNamed → ∃ union, t.declaredType = .ok union
  | .builtin name, _ => by
    rw [TypeExpr.declaredType]
    split
    · exact ⟨_, rfl⟩
    · exact ⟨_, rfl⟩
  | .ofClass name, h => by
    have parts : name.parts ≠ [] := h name (by simp [TypeExpr.classNames])
    rw [TypeExpr.declaredType, if_neg (by simpa using parts)]
    exact ⟨_, rfl⟩
  | .nullable inner, h => by
    rw [TypeExpr.declaredType]
    exact declaredType_eq_ok inner (TypeExpr.isNamed_nullable.1 h)
  | .union types, h => by
    obtain ⟨members, run⟩ := declaredMembers_eq_ok types fun t ht name hn => h name (by
      rw [TypeExpr.classNames]
      exact List.mem_flatMap.2 ⟨t, ht, hn⟩)
    rw [TypeExpr.declaredType, run]
    exact ⟨_, rfl⟩

theorem declaredMembers_eq_ok : ∀ types : List TypeExpr, (∀ t ∈ types, t.IsNamed) →
    ∃ members, TypeExpr.declaredMembers types = .ok members
  | [], _ => ⟨[], by rw [TypeExpr.declaredMembers]⟩
  | t :: rest, h => by
    obtain ⟨union, first⟩ := declaredType_eq_ok t (h t (by simp))
    obtain ⟨more, run⟩ := declaredMembers_eq_ok rest fun u hu => h u (List.mem_cons_of_mem t hu)
    rw [TypeExpr.declaredMembers, first, run]
    exact ⟨_, rfl⟩

end

/-! ### Signatures -/

/-- The names of a method's parameters as they are written. -/
def Method.paramNames (m : Method) : List String := m.params.map fun p => safeName p.name

/-- The default values of a method's parameters. -/
def Method.defaults (m : Method) : List Expr := m.params.filterMap Param.value

/-- The class names in the declared types of a method. -/
def Method.classNames (m : Method) : List Name :=
  (m.params.filterMap Param.type ++ m.returnType.toList).flatMap TypeExpr.classNames

/-- Every class name in the declared types of a method has a part. -/
def Method.IsNamed (m : Method) : Prop := ∀ name ∈ m.classNames, name.parts ≠ []

theorem param_run (r : Resolver) (scope : Scope) (doc : Option DocBlock) (p : Param) :
    (∃ spec, (r.param scope doc p).1 = .ok spec ∧ spec.name = safeName p.name ∧
      spec.value = p.value) ∨
    (∃ e, (r.param scope doc p).1 = .error e ∧ ∃ t ∈ p.type, ¬ t.IsNamed) := by
  unfold Resolver.param
  dsimp only
  split
  · rename_i hint declared
    cases type : hint.declaredType with
    | ok union => exact .inl ⟨_, rfl, rfl, rfl⟩
    | error e =>
      refine .inr ⟨e, rfl, hint, declared, fun named => ?_⟩
      obtain ⟨union, run⟩ := declaredType_eq_ok hint named
      rw [type] at run
      cases run
  · split
    · exact .inl ⟨_, rfl, rfl, rfl⟩
    · exact .inl ⟨_, rfl, rfl, rfl⟩

/-- The parameters of a method keep their names and default values. Only a class name without parts
is in the way of their types. -/
theorem params_run (r : Resolver) (scope : Scope) (doc : Option DocBlock) (params : List Param) :
    (∃ specs, (r.params scope doc params).1 = .ok specs ∧
      specs.map ParamSpec.name = params.map (fun p => safeName p.name) ∧
      specs.map ParamSpec.value = params.map Param.value) ∨
    (∃ e, (r.params scope doc params).1 = .error e ∧
      ∃ p ∈ params, ∃ t ∈ p.type, ¬ t.IsNamed) := by
  induction params with
  | nil => exact .inl ⟨[], rfl, rfl, rfl⟩
  | cons p rest ih =>
    have first := param_run r scope doc p
    rw [Resolver.params]
    rcases hp : r.param scope doc p with ⟨result, notes⟩
    rw [hp] at first
    rcases first with ⟨spec, rfl, name, value⟩ | ⟨e, rfl, type⟩
    · rcases ih with ⟨specs, run, names, values⟩ | ⟨e, run, q, mem, type⟩
      · refine .inl ⟨spec :: specs, ?_, ?_, ?_⟩
        · simp only [run]
          rfl
        · rw [List.map_cons, List.map_cons, name, names]
        · rw [List.map_cons, List.map_cons, value, values]
      · refine .inr ⟨e, ?_, q, List.mem_cons_of_mem p mem, type⟩
        simp only [run]
        rfl
    · exact .inr ⟨e, rfl, p, by simp, type⟩

/-- The signature of a method. -/
theorem signature_run (r : Resolver) (scope : Scope) (m : Method) :
    (∃ sig, (r.signature scope m).1 = .ok sig ∧ sig.params.map ParamSpec.name = m.paramNames ∧
      sig.params.map ParamSpec.value = m.params.map Param.value ∧
      ∀ u ∈ sig.result, ∀ member ∈ u.members, member.Written) ∨
    (∃ e, (r.signature scope m).1 = .error e ∧ ¬ m.IsNamed) := by
  have params := params_run r scope (m.doc.map DocBlock.ofText) m.params
  unfold Resolver.signature
  dsimp only
  rcases hp : r.params scope (m.doc.map DocBlock.ofText) m.params with ⟨result, notes⟩
  rw [hp] at params
  rcases params with ⟨specs, rfl, names, values⟩ | ⟨e, rfl, p, mem, t, type, unnamed⟩
  · refine .inl ?_
    dsimp only
    split_ifs
    · exact ⟨_, rfl, names, values, by simp⟩
    · exact ⟨_, rfl, names, values, result_written r scope _ _⟩
  · refine .inr ⟨e, rfl, fun named => unnamed fun name hn => named name ?_⟩
    rw [Method.classNames, List.mem_flatMap]
    exact ⟨t, List.mem_append_left _ (List.mem_filterMap.2 ⟨p, mem, type⟩), hn⟩

theorem documentedResult_eq_ok {sig : Signature}
    (h : ∀ u ∈ sig.result, ∀ member ∈ u.members, member.Written) :
    ∃ text, documentedResult sig = .ok text := by
  unfold documentedResult
  cases result : sig.result with
  | none => exact ⟨none, rfl⟩
  | some u => exact UnionType.render_eq_ok (h u result)

theorem declaredResult_eq_ok {m : Method} {sig : Signature} {hint : TypeExpr}
    (h : ∀ u ∈ sig.result, ∀ member ∈ u.members, member.Written) (named : hint.IsNamed) :
    ∃ text, declaredResult m sig hint = .ok text := by
  have documented : ∃ text, (if anyOfKind ((m.body.getD []).map .stmt) .ret then
      documentedResult sig else .ok none) = .ok text := by
    split_ifs
    · exact documentedResult_eq_ok h
    · exact ⟨none, rfl⟩
  unfold declaredResult
  cases hint with
  | builtin name => exact ⟨_, rfl⟩
  | ofClass name =>
    have parts : name.parts ≠ [] := named name (by simp [TypeExpr.classNames])
    dsimp only
    rw [if_neg (by simpa using parts)]
    exact ⟨_, rfl⟩
  | nullable inner => exact documented
  | union types => exact documented

/-- The type of a result can be written unless it is a class name without parts. -/
theorem resultType_eq_ok {m : Method} {sig : Signature}
    (h : ∀ u ∈ sig.result, ∀ member ∈ u.members, member.Written) (named : m.IsNamed) :
    ∃ text, resultType m sig = .ok text := by
  have hint : ∀ t, m.returnType = some t → t.IsNamed := by
    intro t ht name hn
    refine named name ?_
    rw [Method.classNames, List.mem_flatMap]
    exact ⟨t, List.mem_append_right _ (by simp [ht]), hn⟩
  unfold resultType
  split_ifs
  · exact ⟨none, rfl⟩
  · split
    · exact documentedResult_eq_ok h
    · rename_i inner declared
      obtain ⟨text, run⟩ := @declaredResult_eq_ok m sig inner h
        (TypeExpr.isNamed_nullable.1 (hint _ declared))
      rw [run]
      exact ⟨_, rfl⟩
    · rename_i t _ declared
      exact declaredResult_eq_ok h (hint t declared)

end Zephirize
