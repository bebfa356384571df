import Zephirize.Proofs.Typing.Unions

/-!
# Order and repetition in documented unions

Repetitions are dropped twice on the way from the parts of a documented type to its members: first
among the names that the parts spell, then among the members that the names stand for. Both passes
together keep the first occurrence of every member that a part gives (`members_resolve`). So the
members depend, up to their order, only on the set of parts, and with them all that a parameter takes
from the type; the order is that of the first parts that give them (`resolve_same_parts`).
-/

namespace Zephirize

/-! ### Lists without repetition -/

section

variable {α β : Type} [BEq β] [LawfulBEq β]

theorem firstOccurrences_concat [BEq α] (items : List α) (x : α) :
    firstOccurrences (items ++ [x]) = addDistinct (firstOccurrences items) x := by
  unfold firstOccurrences
  rw [List.foldl_append]
  rfl

theorem addDistinct_of_mem {x : β} {seen : List β} (h : x ∈ seen) : addDistinct seen x = seen := by
  unfold addDistinct
  rw [if_pos (List.contains_iff_mem.2 h)]

theorem addDistinct_of_notMem {x : β} {seen : List β} (h : x ∉ seen) :
    addDistinct seen x = seen ++ [x] := by
  unfold addDistinct
  rw [if_neg (by simpa using h)]

/-- A repeated item gives nothing new, so dropping it before or after makes no difference. -/
theorem firstOccurrences_filterMap_firstOccurrences [BEq α] [LawfulBEq α] (f : α → Option β)
    (items : List α) :
    firstOccurrences ((firstOccurrences items).filterMap f) =
      firstOccurrences (items.filterMap f) := by
  induction items using List.reverseRecOn with
  | nil => rfl
  | append_singleton items x ih =>
    have given : ∀ y, x ∈ items → f x = some y → y ∈ firstOccurrences (items.filterMap f) :=
      fun y mem fx => mem_firstOccurrences.2 (List.mem_filterMap.2 ⟨x, mem, fx⟩)
    rw [firstOccurrences_concat, List.filterMap_append]
    by_cases mem : x ∈ items
    · rw [addDistinct_of_mem (mem_firstOccurrences.2 mem), ih]
      cases fx : f x with
      | none => simp [fx]
      | some y =>
        rw [List.filterMap_cons_some fx, List.filterMap_nil, firstOccurrences_concat,
          addDistinct_of_mem (given y mem fx)]
    · rw [addDistinct_of_notMem (by rwa [mem_firstOccurrences]), List.filterMap_append]
      cases fx : f x with
      | none => simpa [fx] using ih
      | some y =>
        rw [List.filterMap_cons_some fx, List.filterMap_nil, firstOccurrences_concat,
          firstOccurrences_concat, ih]

/-- The results come in the order of the first items that give them. -/
theorem pairwise_firstOccurrences_filterMap (f : α → Option β) (items : List α) :
    (firstOccurrences (items.filterMap f)).Pairwise fun a b =>
      items.findIdx (fun x => f x == some a) < items.findIdx (fun x => f x == some b) := by
  induction items using List.reverseRecOn with
  | nil => exact List.Pairwise.nil
  | append_singleton items x ih =>
    have early : ∀ a ∈ firstOccurrences (items.filterMap f),
        items.findIdx (fun y => f y == some a) < items.length := by
      intro a ha
      obtain ⟨y, mem, fy⟩ := List.mem_filterMap.1 (mem_firstOccurrences.1 ha)
      exact List.findIdx_lt_length_of_exists ⟨y, mem, by simp [fy]⟩
    have kept : (firstOccurrences (items.filterMap f)).Pairwise fun a b =>
        (items ++ [x]).findIdx (fun y => f y == some a) <
          (items ++ [x]).findIdx (fun y => f y == some b) := by
      refine ih.imp_of_mem fun {a b} ha hb before => ?_
      rwa [List.findIdx_append, List.findIdx_append, if_pos (early a ha), if_pos (early b hb)]
    rw [List.filterMap_append]
    cases fx : f x with
    | none => simpa [fx] using kept
    | some y =>
      rw [List.filterMap_cons_some fx, List.filterMap_nil, firstOccurrences_concat]
      by_cases mem : y ∈ firstOccurrences (items.filterMap f)
      · rwa [addDistinct_of_mem mem]
      · rw [addDistinct_of_notMem mem, List.pairwise_append]
        refine ⟨kept, List.pairwise_singleton _ _, ?_⟩
        intro a ha b hb
        obtain rfl := List.mem_singleton.1 hb
        -- No earlier item gives the new result, so it is found behind all of them.
        have late : ¬ items.findIdx (fun z => f z == some b) < items.length := by
          rw [List.findIdx_lt_length]
          rintro ⟨z, hz, fz⟩
          exact mem (mem_firstOccurrences.2 (List.mem_filterMap.2 ⟨z, hz, by simpa using fz⟩))
        rw [List.findIdx_append, List.findIdx_append, if_pos (early a ha), if_neg late]
        have := early a ha
        omega

/-- Without repetitions, only the order can differ between lists with the same items. -/
theorem firstOccurrences_perm {items items' : List β} (h : ∀ x, x ∈ items ↔ x ∈ items') :
    (firstOccurrences items).Perm (firstOccurrences items') := by
  refine (List.perm_ext_iff_of_nodup (nodup_firstOccurrences _) (nodup_firstOccurrences _)).2 ?_
  intro x
  rw [mem_firstOccurrences, mem_firstOccurrences]
  exact h x

end

/-! ### Members and the parts that give them -/

theorem namedTypes_eq (raw : String) :
    namedTypes raw = firstOccurrences ((typeParts raw).map normalizeType) := rfl

namespace Resolver

variable (r : Resolver) (scope : Scope)

/-- The member that a part of a documented union gives, unless the part is left out. -/
def partMember? (part : String) : Option TypeMember :=
  if lacksCounterpart (normalizeType part) then none
  else some (r.memberFor scope (normalizeType part))

/-- The members that the parts of a documented union give, with repetitions. -/
def givenMembers (raw : String) : List TypeMember :=
  (typeParts raw).filterMap (r.partMember? scope)

/-- The position of the first part that gives the member; the number of parts when there is none. -/
def firstPart (raw : String) (m : TypeMember) : ℕ :=
  (typeParts raw).findIdx fun part => r.partMember? scope part == some m

variable {r scope}

theorem firstPart_lt_iff {raw : String} {m : TypeMember} :
    r.firstPart scope raw m < (typeParts raw).length ↔ m ∈ r.givenMembers scope raw := by
  rw [firstPart, givenMembers, List.findIdx_lt_length, List.mem_filterMap]
  simp

theorem givenMembers_eq (raw : String) :
    firstOccurrences ((lookedUp raw).map (r.memberFor scope)) =
      firstOccurrences (r.givenMembers scope raw) := by
  -- What a name stands for, as one step from the names without repetition.
  have looked : (lookedUp raw).map (r.memberFor scope) = (namedTypes raw).filterMap fun name =>
      if lacksCounterpart name then none else some (r.memberFor scope name) := by
    rw [lookedUp, ← List.filterMap_eq_map, List.filterMap_filter]
    congr 1
    funext name
    cases lacksCounterpart name with
    | true => rfl
    | false => rfl
  rw [looked, namedTypes_eq, firstOccurrences_filterMap_firstOccurrences, List.filterMap_map]
  rfl

theorem lookedUp_eq_nil_iff {raw : String} : lookedUp raw = [] ↔ r.givenMembers scope raw = [] := by
  rw [lookedUp_eq_nil, givenMembers, List.filterMap_eq_nil_iff]
  simp [partMember?]

/-- The members of a resolved union: each one that a part gives, where it comes first. -/
theorem members_resolve (r : Resolver) (scope : Scope) (node raw : String) :
    (r.resolve scope node raw).1.members =
      if r.givenMembers scope raw = [] then [.noType]
      else firstOccurrences (r.givenMembers scope raw) := by
  rw [resolve_union]
  by_cases none : lookedUp raw = []
  · rw [if_pos none, if_pos (lookedUp_eq_nil_iff.1 none)]
    rfl
  · rw [if_neg none, if_neg (by rwa [← lookedUp_eq_nil_iff]), UnionType.ofList, givenMembers_eq]

end Resolver

/-! ### The same parts -/

/-- What a parameter takes from a type does not depend on the order of the members. -/
theorem UnionType.soleType_perm {u v : UnionType} (h : u.members.Perm v.members) :
    u.soleType = v.soleType := by
  unfold soleType
  have typed := h.filter fun m => !m.isEmpty && !m.isNull
  revert typed
  generalize (u.members.filter fun m => !m.isEmpty && !m.isNull) = typed
  generalize (v.members.filter fun m => !m.isEmpty && !m.isNull) = typed'
  intro perm
  rcases typed with _ | ⟨m, _ | ⟨n, more⟩⟩
  · rw [List.nil_perm.1 perm]
  · rw [List.singleton_perm.1 perm]
  · -- Two members stay two members.
    have count := perm.length_eq
    rcases typed' with _ | ⟨m', _ | ⟨n', more'⟩⟩
    · simp at count
    · simp at count
    · rfl

namespace Resolver

variable {r : Resolver} {scope : Scope} {raw raw' : String}

theorem mem_givenMembers_iff (same : ∀ part, part ∈ typeParts raw ↔ part ∈ typeParts raw')
    (m : TypeMember) : m ∈ r.givenMembers scope raw ↔ m ∈ r.givenMembers scope raw' := by
  unfold givenMembers
  rw [List.mem_filterMap, List.mem_filterMap]
  simp only [same]

theorem members_perm (r : Resolver) (scope : Scope)
    (same : ∀ part, part ∈ typeParts raw ↔ part ∈ typeParts raw') (node node' : String) :
    (r.resolve scope node raw).1.members.Perm (r.resolve scope node' raw').1.members := by
  have given : ∀ m, m ∈ r.givenMembers scope raw ↔ m ∈ r.givenMembers scope raw' :=
    mem_givenMembers_iff same
  have none : r.givenMembers scope raw = [] ↔ r.givenMembers scope raw' = [] := by
    simp only [List.eq_nil_iff_forall_not_mem, given]
  rw [members_resolve, members_resolve]
  by_cases empty : r.givenMembers scope raw = []
  · rw [if_pos empty, if_pos (none.1 empty)]
  · rw [if_neg empty, if_neg (by rwa [← none])]
    exact firstOccurrences_perm given

theorem notes_resolve (r : Resolver) (scope : Scope) (node raw : String) :
    (r.resolve scope node raw).2 =
      ((namedTypes raw).filter lacksCounterpart).map (exclusionNote scope node raw) := rfl

theorem length_notes_eq (same : ∀ part, part ∈ typeParts raw ↔ part ∈ typeParts raw')
    (node node' : String) :
    (r.resolve scope node raw).2.length = (r.resolve scope node' raw').2.length := by
  have names : (namedTypes raw).Perm (namedTypes raw') := by
    rw [namedTypes_eq, namedTypes_eq]
    refine firstOccurrences_perm fun name => ?_
    simp only [List.mem_map, same]
  rw [notes_resolve, notes_resolve, List.length_map, List.length_map]
  exact (names.filter lacksCounterpart).length_eq

/-- Order and repetition of the parts of a documented type only affect the order of its members. Two
types with the same set of parts have the same members, give the same number of notes and say the
same about a parameter. In the union of a type, the members are what its parts give, unless they give
nothing, in the order of the first parts that give them. -/
theorem resolve_same_parts (r : Resolver) (scope : Scope) (node node' : String) {raw raw' : String}
    (same : ∀ part, part ∈ typeParts raw ↔ part ∈ typeParts raw') :
    (∀ m, m ∈ (r.resolve scope node raw).1.members ↔ m ∈ (r.resolve scope node' raw').1.members) ∧
      (r.resolve scope node raw).2.length = (r.resolve scope node' raw').2.length ∧
      (r.resolve scope node raw).1.soleType = (r.resolve scope node' raw').1.soleType ∧
      ((r.resolve scope node raw).1 = .single .noType ∨
        ∀ m, m ∈ (r.resolve scope node raw).1.members ↔
          r.firstPart scope raw m < (typeParts raw).length) ∧
      (r.resolve scope node raw).1.members.Pairwise fun m n =>
        r.firstPart scope raw m < r.firstPart scope raw n := by
  have perm := members_perm r scope same node node'
  refine ⟨fun m => perm.mem_iff, length_notes_eq same node node', UnionType.soleType_perm perm, ?_⟩
  have members := members_resolve r scope node raw
  by_cases empty : r.givenMembers scope raw = []
  · rw [if_pos empty] at members
    constructor
    · left
      rw [resolve_union, if_pos (lookedUp_eq_nil_iff.2 empty)]
    · rw [members]
      exact List.pairwise_singleton _ _
  · rw [if_neg empty] at members
    rw [members]
    refine ⟨.inr fun m => ?_, pairwise_firstOccurrences_filterMap _ _⟩
    rw [mem_firstOccurrences, firstPart_lt_iff]

/-- A repeated part, blank parts and another order: the members are the same, and so is the type of a
parameter. -/
theorem resolve_same_parts_nullable :
    let r : Resolver := ⟨{}, {}⟩
    let scope : Scope := .of {} { name := "A" }
    (∀ part, part ∈ typeParts "self|\\Exception|null" ↔
        part ∈ typeParts "null | \\Exception||self|null") ∧
      (r.resolve scope "method m" "self|\\Exception|null").1.members =
        [.ofClass "\\Exception", .primitive "null"] ∧
      (r.resolve scope "method m" "null | \\Exception||self|null").1.members =
        [.primitive "null", .ofClass "\\Exception"] ∧
      (r.resolve scope "method m" "null | \\Exception||self|null").2.length = 1 ∧
      (r.resolve scope "method m" "null | \\Exception||self|null").1.soleType =
        .single (.ofClass "\\Exception") := by
  intro r scope
  have same : ∀ part, part ∈ typeParts "self|\\Exception|null" ↔
      part ∈ typeParts "null | \\Exception||self|null" := by
    have first : typeParts "self|\\Exception|null" = ["self", "\\Exception", "null"] := by
      decide
    have second : typeParts "null | \\Exception||self|null" =
        ["null", "\\Exception", "self", "null"] := by
      decide
    intro part
    rw [first, second]
    simp only [List.mem_cons, List.not_mem_nil, or_false]
    tauto
  obtain ⟨-, notes, sole, -⟩ := resolve_same_parts r scope "method m" "method m" same
  obtain ⟨first, second⟩ : (r.resolve scope "method m" "self|\\Exception|null").1 =
        ⟨[.ofClass "\\Exception", .primitive "null"]⟩ ∧
      (r.resolve scope "method m" "null | \\Exception||self|null").1 =
        ⟨[.primitive "null", .ofClass "\\Exception"]⟩ := by
    simp only [resolve_union]
    unfold lookedUp namedTypes normalizeType lacksCounterpart memberFor
    rw [Text.asciiLower_eq]
    decide
  refine ⟨same, by rw [first], by rw [second], ?_, ?_⟩
  · rw [← notes, notes_resolve, List.length_map]
    unfold namedTypes normalizeType lacksCounterpart
    rw [Text.asciiLower_eq]
    decide
  · rw [← sole, first]
    decide

end Resolver

end Zephirize
