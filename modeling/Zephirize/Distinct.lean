/-!
# Lists without repetition

`firstOccurrences` keeps the first occurrence of every item, in order. The result has the same items
(`mem_firstOccurrences`), each once (`nodup_firstOccurrences`).
-/

namespace Zephirize

/-- Adds an item at the end unless it is there. -/
def addDistinct {α : Type} [BEq α] (seen : List α) (x : α) : List α :=
  if seen.contains x then seen else seen ++ [x]

/-- The first occurrences of the items, in order. -/
def firstOccurrences {α : Type} [BEq α] (items : List α) : List α := items.foldl addDistinct []

section

variable {α : Type} [BEq α] [LawfulBEq α]

theorem mem_addDistinct {x y : α} {seen : List α} : x ∈ addDistinct seen y ↔ x ∈ seen ∨ x = y := by
  unfold addDistinct
  split
  · rename_i h
    rw [List.contains_iff_mem] at h
    constructor
    · exact .inl
    · rintro (hx | rfl)
      · exact hx
      · exact h
  · simp

theorem nodup_addDistinct {y : α} {seen : List α} (h : seen.Nodup) : (addDistinct seen y).Nodup := by
  unfold addDistinct
  split
  · exact h
  · rename_i hy
    rw [List.contains_iff_mem] at hy
    rw [List.nodup_append]
    refine ⟨h, by simp, fun a ha b hb => ?_⟩
    rw [List.mem_singleton] at hb
    rintro rfl
    exact hy (hb ▸ ha)

/-- Items that come later do not change the items that were seen. -/
theorem foldl_addDistinct (items : List α) : ∀ seen : List α, seen.Nodup →
    (items.foldl addDistinct seen).Nodup ∧
      ∀ x, x ∈ items.foldl addDistinct seen ↔ x ∈ seen ∨ x ∈ items := by
  induction items with
  | nil => exact fun seen h => ⟨h, by simp⟩
  | cons item rest ih =>
    intro seen h
    obtain ⟨nodup, mem⟩ := ih (addDistinct seen item) (nodup_addDistinct h)
    refine ⟨nodup, fun x => ?_⟩
    rw [List.foldl_cons, mem, mem_addDistinct, List.mem_cons, or_assoc]

theorem nodup_firstOccurrences (items : List α) : (firstOccurrences items).Nodup :=
  (foldl_addDistinct items [] List.nodup_nil).1

theorem mem_firstOccurrences {x : α} {items : List α} : x ∈ firstOccurrences items ↔ x ∈ items := by
  rw [firstOccurrences, (foldl_addDistinct items [] List.nodup_nil).2]
  simp

end

end Zephirize
