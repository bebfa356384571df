import Zephirize.Lowering.Expr
import Zephirize.Proofs.Text.Brackets

/-!
# The spelling of names, numbers and temporaries

The conversion makes up the names of temporaries and the texts of operators and numbers, and all of
them are plain: they stand on one line and have no bracket and no quote. The names of the source are
written as they are, at most with a suffix, so what holds of their parts holds of them if it is
compositional.
-/

namespace Zephirize

open Text (Compositional Consists Plain consists_append consists_ofList isPlain_of)

/-! ### Names -/

section Names

variable {P : String → Prop} (composed : Compositional P)

include composed

theorem Name.spelled_text {name : Name} (h : ∀ x ∈ name.parts, P x) : P name.text := by
  have joined : P name.joined := composed.intercalate (composed.plain (by decide)) h
  unfold Name.text
  split_ifs
  · exact composed.after (by decide) joined
  · exact joined

theorem spelled_safeName {name : String} (h : P name) : P (safeName name) := by
  unfold safeName
  split_ifs
  · exact composed.before h (by decide)
  · exact h

theorem Expr.spelled_operand (e : Expr) {text : String} (h : P text) : P (e.operand text) := by
  unfold Expr.operand
  split_ifs
  · exact composed.parens h
  · exact h

end Names

/-! ### Operators -/

theorem BinaryOp.plain_symbol (op : BinaryOp) : Plain op.symbol := by
  cases op <;> decide

theorem UnaryOp.plain_symbol (op : UnaryOp) : Plain op.symbol := by
  cases op <;> decide

theorem CastTarget.plain_keyword (type : CastTarget) : Plain type.keyword := by
  cases type <;> decide

/-! ### Numbers -/

/-- A character of the texts of numbers. -/
def isNumeral (c : Char) : Bool := c.isDigit || ['-', '.', 'e', 'i', 'n', 'f', 'N', 'a'].contains c

/-- The text of a number. -/
abbrev Numeral : String → Prop := Consists isNumeral

theorem Numeral.plain {text : String} (h : Numeral text) : Plain text :=
  Consists.plain h (by decide)

theorem numeral_toString_nat (n : ℕ) : Numeral (toString n) := by
  rw [Nat.toString_eq_ofList_toDigits, Numeral, consists_ofList]
  intro c mem
  rw [isNumeral, Nat.isDigit_of_mem_toDigits (by decide) (by decide) mem, Bool.true_or]

theorem numeral_toString_int (n : ℤ) : Numeral (toString n) := by
  cases n with
  | ofNat n => exact numeral_toString_nat n
  | negSucc n =>
    have split : toString (Int.negSucc n) = "-" ++ toString (n + 1) := rfl
    rw [split]
    exact consists_append.2 ⟨by decide, numeral_toString_nat _⟩

section Doubles

variable {digits : String}

theorem Layout.numeral_plain (h : Numeral digits) (exponent : ℤ) :
    Numeral (Layout.plain digits exponent) := by
  have zeros (n : ℕ) : ∀ c ∈ List.replicate n '0', isNumeral c = true := by
    intro c mem
    rw [List.eq_of_mem_replicate mem]
    rfl
  have fraction (n : ℕ) := consists_ofList.2 (h.sublist (List.drop_sublist n _))
  refine .ite (consists_append.2 ⟨by decide, consists_ofList.2 (List.forall_mem_append.2 ?_)⟩)
    (consists_append.2 ⟨consists_append.2
      ⟨consists_ofList.2 (List.forall_mem_append.2 ?_), by decide⟩, .ite (by decide) (fraction _)⟩)
  · exact ⟨zeros _, h.sublist (.refl _)⟩
  · exact ⟨h.sublist (List.take_sublist _ _), zeros _⟩

theorem numeral_scientific (h : Numeral digits) (exponent : ℤ) :
    Numeral (codeLayout.scientific digits exponent) := by
  have first := consists_ofList.2 (h.sublist (List.take_sublist 1 _))
  have others := consists_ofList.2 (h.sublist (List.drop_sublist 1 _))
  have mantissa : Numeral (if (String.ofList (digits.toList.drop 1)).isEmpty then _ else _) :=
    .ite first (consists_append.2 ⟨consists_append.2 ⟨first, (by decide : Numeral ".")⟩, others⟩)
  have mark : Numeral (if exponent < 0 then "-" else codeLayout.positiveMark) :=
    .ite (by decide) (by decide)
  exact consists_append.2 ⟨consists_append.2 ⟨consists_append.2
    ⟨mantissa, (by decide : Numeral "e")⟩, mark⟩, numeral_toString_nat _⟩

theorem numeral_write (x : Float) : Numeral (codeLayout.write x) := by
  have sign : Numeral (if Nat.pow 2 63 ≤ x.toBits.toNat then "-" else "") :=
    .ite (by decide) (by decide)
  unfold Layout.write
  split
  · exact consists_append.2 ⟨sign, .ite (Layout.numeral_plain (numeral_toString_nat _) _)
      (numeral_scientific (numeral_toString_nat _) _)⟩
  · exact .ite (consists_append.2 ⟨sign, by decide⟩)
      (.ite (by decide) (.ite (by decide) (by decide)))

end Doubles

/-! ### Temporaries -/

theorem plain_dimTemp (n : ℕ) : Plain (dimTemp n) :=
  consists_append.2 ⟨by decide, (numeral_toString_nat n).plain⟩

theorem plain_listTemp (items : List (Option Item)) : Plain (listTemp items) := by
  refine consists_append.2 ⟨by decide, consists_ofList.2 fun c mem => ?_⟩
  exact isPlain_of (by decide) (List.mem_filter.1 mem).2

theorem plain_arrayTemp (items : List Item) : Plain (arrayTemp items) := by
  have digits : ∀ d < 16, Text.isPlain (Nat.digitChar d) = true := by decide
  refine consists_append.2 ⟨by decide, consists_ofList.2 fun c mem => ?_⟩
  obtain ⟨b, -, mem⟩ := List.mem_flatMap.1 mem
  rcases List.mem_cons.1 mem with rfl | mem
  · exact digits (b.toNat / 16) (by have := b.toNat_lt; omega)
  · rw [List.mem_singleton.1 mem]
    exact digits (b.toNat % 16) (by omega)

end Zephirize
