import Mathlib.Tactic
import Zephirize.Lowering.Stmt

/-!
# The parts of code

Statements hold other statements. `Code.partsOf` lists them all, and `Code.tempsOf` the temporaries
that are assigned anywhere in the code. `Code.Carries` compares two pieces of code up to where their
statements stand.
-/

namespace Zephirize

mutual

/-- A statement and the statements inside it. -/
def Code.parts : Code → List Code
  | .branch test body rest => .branch test body rest :: (Code.partsOf body ++ rest.parts)
  | .whileLoop test body => .whileLoop test body :: Code.partsOf body
  | .loop body => .loop body :: Code.partsOf body
  | .doWhile body test => .doWhile body test :: Code.partsOf body
  | .forIn binding subject body => .forIn binding subject body :: Code.partsOf body
  | .switch subject cases => .switch subject cases :: Clause.partsOf cases
  | .tryCatch body handlers =>
    .tryCatch body handlers :: (Code.partsOf body ++ Clause.partsOf handlers)
  | c => [c]

/-- The statements at and below some code. -/
def Code.partsOf : List Code → List Code
  | [] => []
  | c :: rest => c.parts ++ Code.partsOf rest

/-- The statements after the first block of an `if`. -/
def Chain.parts : Chain → List Code
  | .done => []
  | .elseIf _ body rest => Code.partsOf body ++ rest.parts
  | .otherwise body => Code.partsOf body

/-- The statements in the blocks of clauses. -/
def Clause.partsOf : List Clause → List Code
  | [] => []
  | .mk _ body :: rest => Code.partsOf body ++ Clause.partsOf rest

end

namespace Code

/-- The temporary that a statement assigns. -/
def temp? : Code → Option String
  | .keep temp _ => some temp
  | _ => none

/-- The temporaries that the statements at and below some code assign. -/
def tempsOf (code : List Code) : List String := (partsOf code).filterMap temp?

@[simp]
theorem partsOf_nil : partsOf [] = [] := by rw [partsOf]

@[simp]
theorem partsOf_cons (c : Code) (rest : List Code) :
    partsOf (c :: rest) = c.parts ++ partsOf rest := by rw [partsOf]

@[simp]
theorem partsOf_append (xs ys : List Code) : partsOf (xs ++ ys) = partsOf xs ++ partsOf ys := by
  induction xs with
  | nil => simp
  | cons c rest ih => simp [ih]

@[simp]
theorem tempsOf_nil : tempsOf [] = [] := by simp [tempsOf]

@[simp]
theorem tempsOf_append (xs ys : List Code) : tempsOf (xs ++ ys) = tempsOf xs ++ tempsOf ys := by
  simp [tempsOf]

@[simp]
theorem tempsOf_keep (temp value : String) (rest : List Code) :
    tempsOf (.keep temp value :: rest) = temp :: tempsOf rest := by
  simp [tempsOf, parts, temp?]

/-- A statement is one of its parts. -/
theorem mem_parts (c : Code) : c ∈ c.parts := by
  cases c <;> simp [parts]

theorem mem_partsOf {c : Code} {code : List Code} (h : c ∈ code) : c ∈ partsOf code := by
  induction code with
  | nil => cases h
  | cons d rest ih =>
    rw [partsOf_cons, List.mem_append]
    rcases List.mem_cons.1 h with rfl | h
    · exact .inl c.mem_parts
    · exact .inr (ih h)

theorem mem_tempsOf {x : String} {code : List Code} :
    x ∈ tempsOf code ↔ ∃ q ∈ partsOf code, q.temp? = some x := by simp [tempsOf]

/-- The code `out` has all statements of `held`, and assigns no temporary beside theirs. -/
structure Carries (held out : List Code) : Prop where
  parts : ∀ q ∈ partsOf held, q ∈ partsOf out
  fresh : ∀ q ∈ partsOf out, q ∈ partsOf held ∨ q.temp? = none

theorem Carries.refl (code : List Code) : Carries code code := ⟨fun _ h => h, fun _ h => .inl h⟩

theorem Carries.trans {a b c : List Code} (h : Carries a b) (h' : Carries b c) : Carries a c where
  parts q hq := h'.parts q (h.parts q hq)
  fresh q hq := by
    rcases h'.fresh q hq with hq | none
    · exact h.fresh q hq
    · exact .inr none

theorem Carries.append_left {a b : List Code} (h : Carries a b) (c : List Code) :
    Carries (c ++ a) (c ++ b) where
  parts q hq := by
    rw [partsOf_append, List.mem_append] at hq ⊢
    exact hq.imp_right (h.parts q)
  fresh q hq := by
    rw [partsOf_append, List.mem_append] at hq ⊢
    rcases hq with hq | hq
    · exact .inl (.inl hq)
    · exact (h.fresh q hq).imp_left .inr

/-- The order of statements does not matter. -/
theorem Carries.ofMem {a b : List Code} (h : ∀ q, q ∈ partsOf a ↔ q ∈ partsOf b) : Carries a b :=
  ⟨fun q hq => (h q).1 hq, fun q hq => .inl ((h q).2 hq)⟩

/-- A statement around some code carries that code. -/
theorem Carries.wrap {c : Code} {inner : List Code} (hc : c.parts = c :: partsOf inner)
    (none : c.temp? = none) : Carries inner [c] where
  parts q hq := by simp [hc, hq]
  fresh q hq := by
    simp only [partsOf_cons, partsOf_nil, hc, List.append_nil, List.mem_cons] at hq
    rcases hq with rfl | hq
    · exact .inr none
    · exact .inl hq

/-- A statement that holds no other one and assigns no temporary. -/
theorem Carries.single {c : Code} (hc : c.parts = [c]) (none : c.temp? = none) : Carries [] [c] :=
  .wrap (by rw [hc, partsOf_nil]) none

theorem Carries.assign (target : String) (update : Update) : Carries [] [.assign target update] :=
  .single (by simp [Code.parts]) rfl

theorem Carries.temps {held out : List Code} (h : Carries held out) {x : String}
    (hx : x ∈ tempsOf out) : x ∈ tempsOf held := by
  obtain ⟨q, hq, hx⟩ := mem_tempsOf.1 hx
  rcases h.fresh q hq with hq | none
  · exact mem_tempsOf.2 ⟨q, hq, hx⟩
  · rw [none] at hx
    cases hx

end Code

/-- The lines of a further test: those that it hoists, and its body. -/
def Arm.lines (arm : Arm) : List Code := arm.hoisted ++ arm.body

/-- The lines after the first block of an `if`. -/
def Chain.lines : Chain → List Code
  | .done => []
  | .elseIf _ body rest => body ++ rest.lines
  | .otherwise body => body

/-- The lines in the block of a clause. -/
def Clause.lines : Clause → List Code
  | .mk _ body => body

@[simp]
theorem Chain.partsOf_lines : ∀ chain : Chain, Code.partsOf chain.lines = chain.parts
  | .done => by simp [lines, parts]
  | .elseIf _ body rest => by simp [lines, parts, partsOf_lines rest]
  | .otherwise body => by simp [lines, parts]

@[simp]
theorem Clause.partsOf_lines (clauses : List Clause) :
    Code.partsOf (clauses.flatMap Clause.lines) = Clause.partsOf clauses := by
  induction clauses with
  | nil => simp [partsOf]
  | cons clause rest ih =>
    obtain ⟨head, body⟩ := clause
    simp [partsOf, lines, ih]

/-- A further test carries its own lines and those of what follows it, whether it stands in an
`else` of its own or not. -/
theorem Arm.carries_attach (arm : Arm) (rest : Chain) :
    Code.Carries (arm.lines ++ rest.lines) (arm.attach rest).lines := by
  unfold attach
  split_ifs with empty
  · rw [List.isEmpty_iff] at empty
    simpa [lines, Chain.lines, empty] using Code.Carries.refl (arm.body ++ rest.lines)
  · constructor
    · intro q hq
      simp only [lines, Chain.lines, Code.partsOf_append, Code.partsOf_cons, Code.parts,
        Code.partsOf_nil, Chain.partsOf_lines, List.mem_append, List.mem_cons] at hq ⊢
      tauto
    · intro q hq
      simp only [lines, Chain.lines, Code.partsOf_append, Code.partsOf_cons, Code.parts,
        Code.partsOf_nil, Chain.partsOf_lines, List.mem_append, List.mem_cons] at hq ⊢
      rcases hq with hq | (rfl | hq) | hq
      · tauto
      · exact .inr rfl
      · tauto
      · cases hq

/-- The further tests of an `if` stand, with all their lines, in front of what follows them. -/
theorem Chain.carries_ofArms (arms : List Arm) (last : Chain) :
    Code.Carries (arms.flatMap Arm.lines ++ last.lines) (ofArms arms last).lines := by
  induction arms with
  | nil => exact .refl _
  | cons arm rest ih =>
    rw [List.flatMap_cons, List.append_assoc]
    exact (ih.append_left arm.lines).trans (arm.carries_attach (ofArms rest last))

end Zephirize
