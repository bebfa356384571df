import Zephirize.Proofs.Program.Visible
import Zephirize.Proofs.Typing.Resolution

/-!
# Documented unions are clean

A documented type is split at its bars, and what the parts name is normalized, checked against the
types without a counterpart, and classified. Whatever the text says, the union that comes out can be
written without further checks (`resolve_clean`): its members are distinct, they have names unless
nothing is left of the type, and none of them is a primitive type that should have been replaced or
left out. The notes name exactly what was left out.
-/

namespace Zephirize

/-- The parts of a documented union without the white space around them. Blank parts do not count. -/
def typeParts (raw : String) : List String :=
  ((Text.splitOn '|' raw).map Text.trim).filter (!·.isEmpty)

theorem mem_namedTypes {raw name : String} :
    name ∈ namedTypes raw ↔ ∃ part ∈ typeParts raw, normalizeType part = name := by
  show name ∈ firstOccurrences ((typeParts raw).map normalizeType) ↔ _
  rw [mem_firstOccurrences, List.mem_map]

/-! ### Names and members -/

/-- The spellings that are replaced do not come back, in any case. -/
theorem asciiLower_normalizeType (part : String) :
    Text.asciiLower (normalizeType part) ≠ "integer" ∧
      Text.asciiLower (normalizeType part) ≠ "mixed" := by
  unfold normalizeType
  split
  · decide +kernel
  · decide +kernel
  · rename_i integer mixed
    exact ⟨integer, mixed⟩

/-- A member that is no class is an array, or a primitive type that the name spells in some case. -/
theorem Resolver.value_memberFor {r : Resolver} {scope : Scope} {raw : String}
    (h : (r.memberFor scope raw).isClass = false) :
    (r.memberFor scope raw).value = "array" ∨
      (r.memberFor scope raw).value = Text.asciiLower raw ∧
        Text.asciiLower raw ∈ primitiveTypes := by
  revert h
  unfold Resolver.memberFor
  dsimp only
  split
  · exact fun h => nomatch h
  · split
    · exact fun h => nomatch h
    · split
      · rename_i m found
        obtain ⟨name, -, hm⟩ := List.exists_of_findSome?_eq_some found
        split_ifs at hm <;> cases hm <;> exact fun h => nomatch h
      · split_ifs with _ primitive
        · exact fun _ => .inl rfl
        · exact fun _ => .inr ⟨rfl, List.contains_iff_mem.1 primitive⟩
        · exact fun h => nomatch h

/-- The documented types that no primitive member may stand for: they are replaced or left out. -/
def retiredTypes : List String := "mixed" :: "integer" :: typesWithoutCounterpart

/-- A member that is no class has a name that needs neither replacing nor leaving out. -/
theorem Resolver.memberFor_not_retired {r : Resolver} {scope : Scope} {part : String}
    (kept : lacksCounterpart (normalizeType part) = false)
    (h : (r.memberFor scope (normalizeType part)).isClass = false) :
    ∀ name ∈ retiredTypes,
      Text.asciiLower (r.memberFor scope (normalizeType part)).value ≠ Text.asciiLower name := by
  have lowered : ∀ name ∈ "array" :: primitiveTypes ++ retiredTypes, Text.asciiLower name = name := by
    decide +kernel
  have retired : ∀ name ∈ retiredTypes, Text.asciiLower name = name := fun name mem =>
    lowered name (List.mem_append_right _ mem)
  intro name mem
  rw [retired name mem]
  rcases value_memberFor h with array | ⟨value, primitive⟩
  · rw [array, lowered "array" (by decide)]
    rintro rfl
    revert mem
    decide
  · rw [value, lowered _ (by simp [primitive])]
    rintro rfl
    obtain ⟨integer, mixed⟩ := asciiLower_normalizeType part
    simp only [retiredTypes, List.mem_cons, integer, mixed, false_or] at mem
    rw [lacksCounterpart, List.contains_iff_mem.2 mem] at kept
    cases kept

theorem Resolver.value_memberFor_ne {r : Resolver} {scope : Scope} {raw : String} (h : raw ≠ "") :
    (r.memberFor scope raw).value ≠ "" := by
  cases isClass : (r.memberFor scope raw).isClass with
  | true =>
    have written := memberFor_written r scope h
    cases member : r.memberFor scope raw with
    | ofClass name =>
      rintro rfl
      exact written member
    | primitive name =>
      rw [member] at isClass
      cases isClass
  | false =>
    rcases value_memberFor isClass with array | ⟨value, primitive⟩
    · rw [array]
      decide
    · rw [value]
      intro empty
      rw [empty] at primitive
      revert primitive
      decide

/-! ### The union and its text -/

namespace UnionType

theorem mapM_render {members : List TypeMember} (h : ∀ m ∈ members, m.value ≠ "") :
    members.mapM TypeMember.render = .ok (members.map fun m => some m.text) := by
  induction members with
  | nil => rfl
  | cons m rest ih =>
    have first : m.render = .ok (some m.text) := by
      have named : m.isEmpty = false := by simpa [TypeMember.isEmpty] using h m (by simp)
      simp [TypeMember.render, named]
    rw [List.mapM_cons, first, ih fun n hn => h n (List.mem_cons_of_mem m hn)]
    rfl

/-- A union whose members have names is written, unless it has no member. -/
theorem render_eq_some {u : UnionType} (h : ∀ m ∈ u.members, m.value ≠ "") (ne : u.members ≠ []) :
    ∃ text, u.render = .ok (some text) := by
  have texts : firstOccurrences (u.members.map TypeMember.text) ≠ [] := by
    obtain ⟨m, hm⟩ := List.exists_mem_of_ne_nil _ ne
    have mem : m.text ∈ firstOccurrences (u.members.map TypeMember.text) :=
      mem_firstOccurrences.2 (List.mem_map_of_mem hm)
    exact List.ne_nil_of_mem mem
  refine ⟨" | ".intercalate (firstOccurrences (u.members.map TypeMember.text)), ?_⟩
  rw [render, mapM_render h]
  show Except.ok _ = _
  simp [List.filterMap_map, texts]

end UnionType

namespace Resolver

theorem lookedUp_eq_nil {raw : String} :
    lookedUp raw = [] ↔ ∀ part ∈ typeParts raw, lacksCounterpart (normalizeType part) = true := by
  rw [lookedUp, List.filter_eq_nil_iff]
  constructor
  · intro h part hp
    simpa using h _ (mem_namedTypes.2 ⟨part, hp, rfl⟩)
  · intro h name hn
    obtain ⟨part, hp, rfl⟩ := mem_namedTypes.1 hn
    simpa using h part hp

/-- The marker stands for a type of which nothing is looked up. -/
theorem resolve_union (r : Resolver) (scope : Scope) (node raw : String) :
    (r.resolve scope node raw).1 =
      if lookedUp raw = [] then .single .noType
      else .ofList ((lookedUp raw).map (r.memberFor scope)) := by
  have empty : (UnionType.ofList ((lookedUp raw).map (r.memberFor scope))).isEmpty = true ↔
      lookedUp raw = [] := by
    rw [UnionType.isEmpty, UnionType.ofList, List.isEmpty_iff, List.eq_nil_iff_forall_not_mem]
    simp [mem_firstOccurrences, ← List.eq_nil_iff_forall_not_mem]
  have same : (r.resolve scope node raw).1 =
      if (UnionType.ofList ((lookedUp raw).map (r.memberFor scope))).isEmpty then .single .noType
      else .ofList ((lookedUp raw).map (r.memberFor scope)) := rfl
  rw [same]
  simp only [empty]

/-- A member of a union of which something is left comes from a part that is kept. -/
theorem exists_part {r : Resolver} {scope : Scope} {raw : String} {m : TypeMember}
    (h : m ∈ (UnionType.ofList ((lookedUp raw).map (r.memberFor scope))).members) :
    ∃ part ∈ typeParts raw, lacksCounterpart (normalizeType part) = false ∧
      r.memberFor scope (normalizeType part) = m := by
  rw [UnionType.ofList, mem_firstOccurrences, List.mem_map] at h
  obtain ⟨name, mem, rfl⟩ := h
  obtain ⟨named, kept⟩ := List.mem_filter.1 mem
  obtain ⟨part, hp, rfl⟩ := mem_namedTypes.1 named
  exact ⟨part, hp, by simpa using kept, rfl⟩

/-- A documented type gives a clean union. The members are distinct; they have names unless the union
is the marker for "no type", which it is exactly when every part was left out; a primitive member is
none of the types that are replaced or left out, in any case. There is one note for each different
name that was left out, and no other. The union can be written, and its text is missing only for the
marker. -/
theorem resolve_clean (r : Resolver) (scope : Scope) (node raw : String) :
    ∃ (union : UnionType) (names : List String),
      r.resolve scope node raw = (union, names.map (exclusionNote scope node raw)) ∧
      union.members.Nodup ∧
      (union = .single .noType ∨ ∀ m ∈ union.members, m.value ≠ "") ∧
      (∀ m ∈ union.members, m.isClass = false →
        ∀ name ∈ retiredTypes, Text.asciiLower m.value ≠ Text.asciiLower name) ∧
      (union = .single .noType ↔
        ∀ part ∈ typeParts raw, lacksCounterpart (normalizeType part) = true) ∧
      names.Nodup ∧
      (∀ name, name ∈ names ↔
        lacksCounterpart name = true ∧ ∃ part ∈ typeParts raw, normalizeType part = name) ∧
      (∀ name ∈ names, (exclusionNote scope node raw name).severity = .informational) ∧
      ∃ text, union.render = .ok text ∧ (text = none ↔ union = .single .noType) := by
  have notes : ∀ name, name ∈ (namedTypes raw).filter lacksCounterpart ↔
      lacksCounterpart name = true ∧ ∃ part ∈ typeParts raw, normalizeType part = name := by
    intro name
    rw [List.mem_filter, mem_namedTypes, and_comm]
  refine ⟨(r.resolve scope node raw).1, (namedTypes raw).filter lacksCounterpart, rfl, ?_⟩
  have distinct : ((namedTypes raw).filter lacksCounterpart).Nodup :=
    (nodup_firstOccurrences _).filter _
  rw [resolve_union, ← lookedUp_eq_nil]
  split_ifs with none
  · -- Nothing is left: the union is the marker.
    refine ⟨List.nodup_singleton _, .inl rfl, ?_, by simp [none], distinct, notes, fun _ _ => rfl,
      Option.none, rfl, by simp⟩
    intro m hm _ name mem
    obtain rfl := List.mem_singleton.1 hm
    revert mem
    revert name
    decide +kernel
  · have named : ∀ m ∈ (UnionType.ofList ((lookedUp raw).map (r.memberFor scope))).members,
        m.value ≠ "" := by
      intro m hm
      obtain ⟨part, hp, -, rfl⟩ := exists_part hm
      exact value_memberFor_ne (ne_empty_of_mem_namedTypes (mem_namedTypes.2 ⟨part, hp, rfl⟩))
    have some : (UnionType.ofList ((lookedUp raw).map (r.memberFor scope))).members ≠ [] := by
      obtain ⟨name, mem⟩ := List.exists_mem_of_ne_nil _ none
      exact List.ne_nil_of_mem (mem_firstOccurrences.2 (List.mem_map_of_mem mem))
    have marker : UnionType.ofList ((lookedUp raw).map (r.memberFor scope)) ≠ .single .noType := by
      intro same
      rw [same] at named
      exact named .noType (List.mem_singleton.2 rfl) rfl
    obtain ⟨text, written⟩ := UnionType.render_eq_some named some
    refine ⟨nodup_firstOccurrences _, .inr named, ?_, by simp [none, marker], distinct, notes,
      fun _ _ => rfl, _, written, by simp [marker]⟩
    intro m hm
    obtain ⟨part, hp, kept, rfl⟩ := exists_part hm
    exact memberFor_not_retired kept

end Resolver

end Zephirize
