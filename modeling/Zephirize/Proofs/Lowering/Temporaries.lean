import Zephirize.Proofs.Lowering.Tally

/-!
# The names of temporaries

All temporaries start with `tmp` and a letter for their kind. So temporaries of different kinds are
different, and none of them is a reserved word or a variable that exists without a declaration.
-/

namespace Zephirize

/-- The name has the form of a temporary whose kind has this letter. -/
def HasTempForm (letter : Char) (name : String) : Prop := ['t', 'm', 'p', letter] <+: name.toList

theorem arrayTemp_form (items : List Item) : HasTempForm 'A' (arrayTemp items) := by
  unfold HasTempForm arrayTemp
  rw [String.toList_append]
  exact .trans (by decide) (List.prefix_append _ _)

theorem listTemp_form (items : List (Option Item)) : HasTempForm 'L' (listTemp items) := by
  unfold HasTempForm listTemp
  rw [String.toList_append]
  exact .trans (by decide) (List.prefix_append _ _)

theorem dimTemp_form (n : ℕ) : HasTempForm 'D' (dimTemp n) := by
  unfold HasTempForm dimTemp
  rw [String.toList_append]
  exact .trans (by decide) (List.prefix_append _ _)

/-- A name has the form of at most one kind. -/
theorem HasTempForm.letter_eq {a b : Char} {name : String} (ha : HasTempForm a name)
    (hb : HasTempForm b name) : a = b := by
  obtain ⟨rest, ha⟩ := ha
  obtain ⟨rest', hb⟩ := hb
  have same := ha.trans hb.symm
  simp only [List.cons_append, List.cons.injEq] at same
  exact same.2.2.2.1

theorem dimTemp_injective : Function.Injective dimTemp := by
  intro m n h
  have digits : Nat.toDigits 10 m = Nat.toDigits 10 n := by
    simpa [dimTemp, Nat.toString_eq_ofList_toDigits] using congrArg String.toList h
  calc
    m = Nat.ofDigitChars 10 (Nat.toDigits 10 m) 0 := (Nat.ofDigitChars_ten_toDigits).symm
    _ = Nat.ofDigitChars 10 (Nat.toDigits 10 n) 0 := by rw [digits]
    _ = n := Nat.ofDigitChars_ten_toDigits

/-- A word that does not start as a temporary does. -/
theorem HasTempForm.not_mem {letter : Char} {name : String} {words : List String}
    (form : HasTempForm letter name) (other : ∀ w ∈ words, ¬ ['t', 'm', 'p'] <+: w.toList) :
    name ∉ words := by
  intro mem
  exact other name mem (.trans ⟨[letter], rfl⟩ form)

theorem HasTempForm.isAmbient_eq_false {letter : Char} {name : String}
    (form : HasTempForm letter name) : isAmbient name = false := by
  have := @HasTempForm.not_mem _ _ ambientNames form (by decide)
  simpa [isAmbient] using this

theorem HasTempForm.safeName_eq {letter : Char} {name : String} (form : HasTempForm letter name) :
    safeName name = name := by
  obtain ⟨rest, h⟩ := form
  have lowered : HasTempForm letter.toLower (Text.asciiLower name) := by
    refine ⟨rest.map Char.toLower, ?_⟩
    rw [Text.asciiLower, String.toList_map, ← h]
    rfl
  have := @HasTempForm.not_mem _ _ reservedWords lowered (by decide)
  simp [safeName, isReserved, this]

theorem HasTempForm.ne_empty {letter : Char} {name : String} (form : HasTempForm letter name) :
    name ≠ "" := by
  rintro rfl
  obtain ⟨rest, h⟩ := form
  simp at h

mutual

theorem innerTemps_form {x : String} : ∀ items : List (Option Item), x ∈ innerTemps items →
    HasTempForm 'L' x
  | [], h => by simp [innerTemps] at h
  | none :: rest, h => by
    rw [innerTemps] at h
    exact innerTemps_form rest h
  | some item :: rest, h => by
    rw [innerTemps, List.mem_append] at h
    exact h.elim (slotTemps_form item) (innerTemps_form rest)

theorem slotTemps_form {x : String} : ∀ item : Item, x ∈ slotTemps item → HasTempForm 'L' x
  | ⟨_, .list nested, _, _⟩, h => by
    rw [slotTemps, List.mem_cons] at h
    rcases h with rfl | h
    · exact listTemp_form nested
    · exact innerTemps_form nested h

end

theorem Node.temps_form {x : String} {n : Node} {arrays : Bool} (h : x ∈ n.tally.temps arrays) :
    HasTempForm 'A' x ∨ HasTempForm 'L' x := by
  unfold Node.tally at h
  split at h
  case h_1 => split at h <;> exact h.elim
  case h_2 items _ _ =>
    rcases List.mem_cons.1 h with rfl | h
    · exact .inr (listTemp_form items)
    · exact .inr (innerTemps_form items h)
  case h_3 items => exact .inl (h.2 ▸ arrayTemp_form items)
  case h_6 items _ _ => exact .inl (Set.mem_singleton_iff.1 h ▸ arrayTemp_form items)
  case h_7 items => exact .inl (Set.mem_singleton_iff.1 h ▸ arrayTemp_form items)
  case h_8 test _ _ _ =>
    obtain ⟨items, -, rfl⟩ := mem_arrayTemps.1 h
    exact .inl (arrayTemp_form items)
  all_goals exact h.elim

theorem Tally.temps_form {x : String} {roots : List Node} {arrays : Bool}
    (h : x ∈ (Tally.of roots).temps arrays) : HasTempForm 'A' x ∨ HasTempForm 'L' x := by
  obtain ⟨n, -, hn⟩ := Tally.mem_of_temps.1 h
  exact Node.temps_form hn

/-- The temporaries of array literals and of destructurings are none of indexed fetches. -/
theorem dimTemp_notMem_temps (i : ℕ) (roots : List Node) (arrays : Bool) :
    dimTemp i ∉ (Tally.of roots).temps arrays := by
  intro temp
  rcases Tally.temps_form temp with form | form
  · exact absurd ((dimTemp_form i).letter_eq form) (by decide)
  · exact absurd ((dimTemp_form i).letter_eq form) (by decide)

end Zephirize
