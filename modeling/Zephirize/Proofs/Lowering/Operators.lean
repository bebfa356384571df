import Zephirize.Lowering.Expr
import Zephirize.Proofs.Tree.Names
import Zephirize.Proofs.Tree.Walk

/-!
# Texts of operators

Expressions that are made of operators are converted to texts alone (`Expr.IsOperation`,
`lower_operation`). Such a text is put together from pieces: words, and the texts of the parts, with
parentheses around them or without (`Expr.pieces`, `Expr.spell`).

* `Position.wraps` — where the conversion puts parentheses.
* `Position.needs` — where parentheses are needed, so that the text falls into its parts in one way
  only.
* `Expr.Grouped` — no part of the expression lacks parentheses.

`Expr.written_eq_spelled_iff` says that the conversion writes all parentheses that are needed exactly
if the expression is grouped.
-/

namespace Zephirize

/-! ### Expressions -/

/-- A character that may stand in an identifier. -/
def isWordChar (c : Char) : Bool := c.isAlphanum || c == '_' || 128 ≤ c.toNat

/-- The text is an identifier. -/
def isIdentifier (text : String) : Bool :=
  text.toList.all isWordChar && text.toList.head?.any (!·.isDigit)

namespace Expr

/-- The expression is made of operators, variables, numbers and properties. -/
inductive IsOperation : Expr → Prop where
  | var {name : String} (word : isIdentifier name = true) : IsOperation (.var (.literal name))
  | int {value : Int64} (natural : 0 ≤ value.toInt) : IsOperation (.int value)
  | property {object : Expr} {name : String} (word : isIdentifier name = true)
      (h : IsOperation object) : IsOperation (.property object name)
  | binary {op : BinaryOp} {left right : Expr} (spelled : op ≠ .logicalXor)
      (hl : IsOperation left) (hr : IsOperation right) : IsOperation (.binary op left right)
  | unary {op : UnaryOp} {operand : Expr} (h : IsOperation operand) :
      IsOperation (.unary op operand)
  | ternary {test yes no : Expr} (ht : IsOperation test) (hy : IsOperation yes)
      (hn : IsOperation no) : IsOperation (.ternary test (some yes) no)
  | isset {vars : List Expr} (nonempty : vars ≠ []) (h : ∀ v ∈ vars, IsOperation v) :
      IsOperation (.isset vars)
  | empty {value : Expr} (h : IsOperation value) : IsOperation (.empty value)
  | instanceOf {value : Expr} {owner : Name}
      (words : ∀ p ∈ owner.parts, isIdentifier p = true) (h : IsOperation value) :
      IsOperation (.instanceOf value owner)
  | cast {type : CastTarget} {value : Expr} (h : IsOperation value) : IsOperation (.cast type value)

/-- An `isset` of several variables, which is written with an operator between them. -/
def isChain : Expr → Bool
  | .isset (_ :: _ :: _) => true
  | _ => false

/-- A property can be fetched from the expression as it is written. -/
def isObject : Expr → Bool
  | .var _ => true
  | .int _ => true
  | .property .. => true
  | _ => false

end Expr

/-- How an expression stands in another one. -/
inductive Position where
  | operand
  /-- A property is fetched from it. -/
  | object
  /-- It is one of the variables of an `isset`. -/
  | tested
deriving DecidableEq

namespace Position

/-- The conversion puts parentheses around the expression there. -/
def wraps : Position → Expr → Bool
  | .operand, e => e.isLoose
  | .object, _ => false
  | .tested, _ => false

/-- Without parentheses, the text of the expression could be mixed up with what stands around it. -/
def needs : Position → Expr → Bool
  | .object, e => !e.isObject
  | .operand, e => e.isLoose || e.isChain
  | .tested, e => e.isLoose || e.isChain

theorem needs_of_wraps {position : Position} {e : Expr} (h : position.wraps e = true) :
    position.needs e = true := by
  cases position <;> simp_all [wraps, needs]

end Position

/-! ### Texts -/

/-- A piece of the text of an expression. -/
inductive Piece where
  | text (text : String)
  | part (position : Position) (e : Expr)

namespace Expr

/-- The pieces of the further variables of an `isset`. -/
def furtherIssets : List Expr → List Piece
  | [] => []
  | v :: rest => .text " && " :: .text "isset " :: .part .tested v :: furtherIssets rest

/-- The pieces of an `isset`. -/
def issetPieces : List Expr → List Piece
  | [] => []
  | v :: rest => .text "isset " :: .part .tested v :: furtherIssets rest

/-- The pieces of the text of an operation. -/
def pieces : Expr → List Piece
  | .var (.literal name) => [.text (safeName name)]
  | .int value => [.text (toString value.toInt)]
  | .property object name => [.part .object object, .text "->", .text name]
  | .binary op left right =>
    [.part .operand left, .text " ", .text op.symbol, .text " ", .part .operand right]
  | .unary op operand => [.text op.symbol, .part .operand operand]
  | .ternary test (some yes) no =>
    [.part .operand test, .text " ? ", .part .operand yes, .text " : ", .part .operand no]
  | .isset vars => issetPieces vars
  | .empty value => [.text "empty ", .part .operand value]
  | .instanceOf value owner => [.part .operand value, .text " instanceof ", .text owner.text]
  | .cast type value => [.text "(", .text type.keyword, .text ") ", .part .operand value]
  | _ => []

end Expr

namespace Piece

/-- The expressions among the pieces. -/
def parts (pieces : List Piece) : List Expr :=
  pieces.filterMap fun
    | .text _ => none
    | .part _ e => some e

theorem mem_parts {pieces : List Piece} {position : Position} {e : Expr}
    (h : .part position e ∈ pieces) : e ∈ parts pieces := List.mem_filterMap.2 ⟨_, h, rfl⟩

theorem parts_furtherIssets (vars : List Expr) : parts (Expr.furtherIssets vars) = vars := by
  induction vars with
  | nil => rfl
  | cons v rest ih => exact congrArg (v :: ·) ih

end Piece

namespace Expr

/-- The pieces of an operation have all its parts, in source order. -/
theorem parts_pieces (e : Expr) :
    e.pieces = [] ∨ (Piece.parts e.pieces).map Node.expr = Node.ofExpr e := by
  cases e with
  | var name =>
    cases name with
    | literal name => exact .inr rfl
    | dynamic name => exact .inl rfl
  | ternary test yes no =>
    cases yes with
    | none => exact .inl rfl
    | some yes => exact .inr rfl
  | isset vars =>
    cases vars with
    | nil => exact .inl rfl
    | cons v rest =>
      exact .inr (congrArg (fun es => List.map Node.expr (v :: es)) (Piece.parts_furtherIssets rest))
  | property | binary | unary | empty | instanceOf | cast | int => exact .inr rfl
  | _ => exact .inl rfl

theorem mem_ofExpr_of_pieces {e c : Expr} {position : Position} (h : .part position c ∈ e.pieces) :
    .expr c ∈ Node.ofExpr e := by
  rcases e.parts_pieces with none | all
  · rw [none] at h
    cases h
  · rw [← all]
    exact List.mem_map_of_mem (Piece.mem_parts h)

theorem sizeOf_lt_of_pieces {e c : Expr} {position : Position} (h : .part position c ∈ e.pieces) :
    sizeOf c < sizeOf e :=
  Node.size_lt_of_mem_children (n := .expr e) (mem_ofExpr_of_pieces h)

end Expr

/-- A text, with parentheses around it where asked. -/
def enclose (wrapped : Bool) (cs : List Char) : List Char :=
  if wrapped then '(' :: (cs ++ [')']) else cs

/-- The text of an operation, with parentheses where `wraps` asks for them. -/
def Expr.spell (wraps : Position → Expr → Bool) (e : Expr) : List Char :=
  e.pieces.attach.flatMap fun
    | ⟨.text word, _⟩ => word.toList
    | ⟨.part position c, _⟩ => enclose (wraps position c) (c.spell wraps)
termination_by sizeOf e
decreasing_by exact sizeOf_lt_of_pieces ‹_›

/-- The text of an expression at a position. -/
def Position.spell (wraps : Position → Expr → Bool) (position : Position) (e : Expr) : List Char :=
  enclose (wraps position e) (e.spell wraps)

/-- The text of a piece. -/
def Piece.chars (wraps : Position → Expr → Bool) : Piece → List Char
  | .text word => word.toList
  | .part position e => position.spell wraps e

theorem Expr.spell_eq (wraps : Position → Expr → Bool) (e : Expr) :
    e.spell wraps = e.pieces.flatMap (Piece.chars wraps) := by
  rw [spell]
  conv_rhs => rw [← List.attach_map_subtype_val e.pieces, List.flatMap_map]
  congr 1
  funext ⟨piece, mem⟩
  cases piece <;> rfl

/-! ### Conversion -/

/-- The text of an operation, as the conversion writes it. -/
def Expr.written (e : Expr) : String := String.ofList (e.spell Position.wraps)

theorem Expr.toList_operand (e : Expr) :
    (e.operand e.written).toList = Position.operand.spell Position.wraps e := by
  rw [operand, Position.spell, enclose, Position.wraps, written]
  split <;> simp

theorem Expr.toList_written (e : Expr) (position : Position) (bare : position.wraps e = false) :
    e.written.toList = position.spell Position.wraps e := by
  rw [Position.spell, bare, enclose, if_neg Bool.false_ne_true, written, String.toList_ofList]

/-- A text that is put together from the pieces of an operation is its text. -/
theorem pure_written {e : Expr} {text : String}
    (h : text.toList = e.pieces.flatMap (Piece.chars Position.wraps)) :
    (pure (.value text) : Lowering Lowered) = pure (.value e.written) := by
  rw [Expr.written, Expr.spell_eq, ← h, String.ofList_toList]

theorem lowerAll_operations {cls : String} {vars : List Expr}
    (h : ∀ v ∈ vars, lower cls v = pure (.value v.written)) :
    lowerAll cls vars = pure (vars.map Expr.written) := by
  induction vars with
  | nil => rw [lowerAll, List.map_nil]
  | cons v rest ih =>
    have first := h v List.mem_cons_self
    have others := ih fun w mem => h w (List.mem_cons_of_mem v mem)
    rw [lowerAll, first, others]
    simp only [pure_bind, Lowered.asValue, List.map_cons]

/-- The text of an `isset` is written for its variables one by one. -/
theorem Expr.toList_issets (v : Expr) (rest : List Expr) :
    (" && ".intercalate (((v :: rest).map written).map ("isset " ++ ·))).toList =
      (issetPieces (v :: rest)).flatMap (Piece.chars Position.wraps) := by
  induction rest generalizing v with
  | nil => simp [issetPieces, furtherIssets, Piece.chars, v.toList_written .tested rfl]
  | cons w rest ih =>
    have others := ih w
    simp only [List.map_cons] at others ⊢
    rw [String.intercalate_cons_cons]
    simp only [String.toList_append, others]
    simp [issetPieces, furtherIssets, Piece.chars, v.toList_written .tested rfl]

/-- An operation is converted to its text, and the state stays as it is. -/
theorem lower_operation {cls : String} {e : Expr} (h : e.IsOperation) :
    lower cls e = pure (.value e.written) := by
  induction h with
  | var word | int natural =>
    rw [lower]
    refine pure_written ?_
    simp [Expr.pieces, Piece.chars]
  | property word _ ih =>
    rw [lower, ih]
    simp only [pure_bind, Lowered.asValue]
    refine pure_written ?_
    simp [Expr.pieces, Piece.chars, Expr.toList_written _ .object rfl]
  | binary spelled _ _ ihl ihr =>
    rw [lower, ihl, ihr]
    simp only [pure_bind, Lowered.asValue]
    refine pure_written ?_
    simp [Expr.pieces, Piece.chars, Expr.toList_operand]
  | ternary _ _ _ iht ihy ihn =>
    rw [lower, iht, ihy, ihn]
    simp only [pure_bind, Lowered.asValue]
    refine pure_written ?_
    simp [Expr.pieces, Piece.chars, Expr.toList_operand]
  | @isset vars nonempty _ ih =>
    obtain ⟨v, rest, rfl⟩ := List.exists_cons_of_ne_nil nonempty
    rw [lower, lowerAll_operations ih, pure_bind]
    exact pure_written (Expr.toList_issets v rest)
  | unary _ ih | empty _ ih | instanceOf words _ ih | cast _ ih =>
    rw [lower, ih]
    simp only [pure_bind, Lowered.asValue]
    refine pure_written ?_
    simp [Expr.pieces, Piece.chars, Expr.toList_operand]

theorem run_operation {cls : String} {e : Expr} (h : e.IsOperation) (s : State) :
    (exprText cls e).run.run s = (.ok e.written, s) := by
  rw [exprText, lower_operation h, pure_bind]
  rfl

/-! ### Missing parentheses -/

namespace Expr

/-- The text of an operation with all parentheses that are needed. -/
def spelled (e : Expr) : String := String.ofList (e.spell Position.needs)

/-- The conversion puts parentheses around all parts of the expression that need them. -/
inductive Grouped : Expr → Prop where
  | mk {e : Expr} (here : ∀ position c, .part position c ∈ e.pieces → position.needs c = true →
      position.wraps c = true)
    (below : ∀ position c, .part position c ∈ e.pieces → c.Grouped) : Grouped e

/-- What holds of an expression whenever it holds of the parts of its text holds of every one. -/
theorem pieces_induction {P : Expr → Prop}
    (step : ∀ e : Expr, (∀ position c, .part position c ∈ e.pieces → P c) → P e) (e : Expr) :
    P e := by
  induction h : sizeOf e using Nat.strongRecOn generalizing e with
  | _ size ih =>
    refine step e fun position c mem => ih (sizeOf c) ?_ c rfl
    rw [← h]
    exact sizeOf_lt_of_pieces mem

theorem Grouped.spell_eq {e : Expr} (h : e.Grouped) :
    e.spell Position.wraps = e.spell Position.needs := by
  induction h with
  | @mk e here below ih =>
    rw [Expr.spell_eq, Expr.spell_eq]
    refine List.flatMap_congr fun piece mem => ?_
    cases piece with
    | text word => rfl
    | part position c =>
      have wrapped : position.wraps c = position.needs c := by
        rw [Bool.eq_iff_iff]
        exact ⟨Position.needs_of_wraps, here position c mem⟩
      rw [Piece.chars, Piece.chars, Position.spell, Position.spell, wrapped, ih position c mem]

end Expr

/-- Of two lists of texts, the second with longer texts: if they are equally long together, they are
so one by one. -/
theorem length_flatMap_le {α : Type} {f g : α → List Char} {Q : α → Prop} {items : List α}
    (h : ∀ a ∈ items, (f a).length ≤ (g a).length ∧ ((g a).length ≤ (f a).length → Q a)) :
    (items.flatMap f).length ≤ (items.flatMap g).length ∧
      ((items.flatMap g).length ≤ (items.flatMap f).length → ∀ a ∈ items, Q a) := by
  induction items with
  | nil => simp
  | cons a rest ih =>
    obtain ⟨le, equal⟩ := h a List.mem_cons_self
    obtain ⟨les, equals⟩ := ih fun b mem => h b (List.mem_cons_of_mem a mem)
    simp only [List.flatMap_cons, List.length_append]
    refine ⟨by omega, fun total b mem => ?_⟩
    rcases List.mem_cons.1 mem with rfl | mem
    · exact equal (by omega)
    · exact equals (by omega) b mem

/-- Needed parentheses make a text longer. -/
theorem length_enclose_le {wrapped needed : Bool} {cs ds : List Char}
    (h : wrapped = true → needed = true) (le : cs.length ≤ ds.length) :
    (enclose wrapped cs).length ≤ (enclose needed ds).length ∧
      ((enclose needed ds).length ≤ (enclose wrapped cs).length →
        (needed = true → wrapped = true) ∧ ds.length ≤ cs.length) := by
  cases wrapped <;> cases needed
  · simp [enclose, le]
  · simp [enclose]
    omega
  · simp at h
  · simp [enclose, le]

namespace Expr

/-- The text with all parentheses is longer, unless the expression is grouped. -/
theorem grouped_of_length (e : Expr) :
    (e.spell Position.wraps).length ≤ (e.spell Position.needs).length ∧
      ((e.spell Position.needs).length ≤ (e.spell Position.wraps).length → e.Grouped) := by
  induction e using pieces_induction with
  | step e ih =>
    have each : ∀ piece ∈ e.pieces,
        (piece.chars Position.wraps).length ≤ (piece.chars Position.needs).length ∧
          ((piece.chars Position.needs).length ≤ (piece.chars Position.wraps).length →
            ∀ position c, piece = .part position c →
              (position.needs c = true → position.wraps c = true) ∧ c.Grouped) := by
      intro piece mem
      cases piece with
      | text word => exact ⟨le_rfl, fun _ _ _ h => nomatch h⟩
      | part position c =>
        obtain ⟨le, grouped⟩ := ih position c mem
        obtain ⟨le', equal⟩ := length_enclose_le Position.needs_of_wraps le
        refine ⟨le', ?_⟩
        rintro total _ _ ⟨⟩
        obtain ⟨wrapped, le⟩ := equal total
        exact ⟨wrapped, grouped le⟩
    obtain ⟨le, equal⟩ := length_flatMap_le each
    rw [spell_eq, spell_eq]
    refine ⟨le, fun total => ⟨fun position c mem => ?_, fun position c mem => ?_⟩⟩
    · exact (equal total _ mem position c rfl).1
    · exact (equal total _ mem position c rfl).2

/-- The conversion writes all parentheses that are needed exactly if the expression is grouped. -/
theorem written_eq_spelled_iff (e : Expr) : e.written = e.spelled ↔ e.Grouped := by
  constructor
  · intro same
    have chars : e.spell Position.wraps = e.spell Position.needs := String.ofList_injective same
    exact e.grouped_of_length.2 (by rw [chars])
  · intro grouped
    rw [written, spelled, grouped.spell_eq]

end Expr

end Zephirize
