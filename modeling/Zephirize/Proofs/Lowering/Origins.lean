import Mathlib.Tactic
import Zephirize.Lowering.Expr
import Zephirize.Proofs.Tree.Walk

/-!
# Where hoisted lines come from

A hoisted line runs before its statement whatever happens there. The source, on the other hand, runs
some operands only if another operand asks for them: the right side of a lazy operator, the branches
of a conditional, the later variables of an `isset` and the later tests of a `switch`.

* `Node.turns` — what the conversion of a node does, one thing after the other.
* `Node.origins` — the expressions that lines are hoisted for, in the order of the lines, and whether
  the source always runs them; `Node.sources` has the expressions only.
* `Node.Defers` — the operands inside a node that run only if another one asks for them.

`Node.origins_always_iff` says that all origins always run exactly if no such operand is the source
of a line.
-/

namespace Zephirize

/-- The operator decides by its left side whether the right side runs. -/
def BinaryOp.isLazy : BinaryOp → Bool
  | .booleanAnd => true
  | .booleanOr => true
  | .coalesce => true
  | _ => false

/-- One thing that the conversion of a node does. -/
inductive Turn where
  /-- It converts a part that runs whenever the node does. -/
  | part (node : Node)
  /-- It converts an operand that runs only if another one asks for it. -/
  | deferred (e : Expr)
  /-- It hoists lines for an expression. -/
  | lines (e : Expr)

namespace Turn

/-- The right side of an operator. -/
def rightOf (op : BinaryOp) (e : Expr) : Turn := if op.isLazy then .deferred e else .part (.expr e)

/-- Expressions of which each runs only if those before it ask for it. -/
def oneByOne : List Expr → List Turn
  | [] => []
  | e :: rest => .part (.expr e) :: rest.map .deferred

/-- What the turn converts. -/
def node? : Turn → Option Node
  | .part n => some n
  | .deferred e => some (.expr e)
  | .lines _ => none

end Turn

/-- What the conversion of an expression does, where array literals are kept or not. -/
def Expr.turns (arrays : Bool) : Expr → List Turn
  | .assign target value byRef =>
    [.part (.expr value), .part (.expr target), .lines (.assign target value byRef)]
  | .assignOp op target value =>
    [.rightOf op value, .part (.expr target), .lines (.assignOp op target value)]
  | .incDec op target => [.part (.expr target), .lines (.incDec op target)]
  | .dim base index =>
    .part (.expr base) :: ((if base.takesIndex then [] else [.lines (.dim base index)]) ++
      index.toList.map fun e => .part (.expr e))
  | .array items =>
    (items.map fun item => .part (.item item)) ++ if arrays then [.lines (.array items)] else []
  | .binary op left right => [.part (.expr left), .rightOf op right]
  | .ternary test yes no => .part (.expr test) :: (yes.toList.map .deferred ++ [.deferred no])
  | .isset vars => Turn.oneByOne vars
  | e => (Node.ofExpr e).map .part

namespace Node

/-- What the conversion of a node does that may hoist lines before the statement around it. Of the
statements only `switch` is looked at; the blocks inside it keep their lines. -/
def turns (arrays : Bool) : Node → List Turn
  | .expr e => e.turns arrays
  | .item i => (i.key.toList ++ [i.value]).map fun e => .part (.expr e)
  -- As an argument, an array literal is kept whatever else is done with array literals.
  | .argument ⟨.array items, _, _⟩ =>
    (items.map fun item => .part (.item item)) ++ [.lines (.array items)]
  | .argument arg => [.part (.expr arg.value)]
  | .stmt (.switch subject cases) =>
    .part (.expr subject) :: Turn.oneByOne (cases.filterMap Case.test)
  | _ => []

end Node

/-! ### Turns go down the tree -/

namespace Turn

/-- What these turns convert. -/
def nodes (turns : List Turn) : List Node := turns.filterMap node?

theorem mem_nodes {turns : List Turn} {t : Turn} {n : Node} (mem : t ∈ turns)
    (h : t.node? = some n) : n ∈ nodes turns := List.mem_filterMap.2 ⟨t, mem, h⟩

@[simp]
theorem nodes_nil : nodes [] = [] := rfl

@[simp]
theorem nodes_part (n : Node) (rest : List Turn) : nodes (.part n :: rest) = n :: nodes rest := rfl

@[simp]
theorem nodes_deferred (e : Expr) (rest : List Turn) :
    nodes (.deferred e :: rest) = .expr e :: nodes rest := rfl

@[simp]
theorem nodes_lines (e : Expr) (rest : List Turn) : nodes (.lines e :: rest) = nodes rest := rfl

@[simp]
theorem nodes_rightOf (op : BinaryOp) (e : Expr) (rest : List Turn) :
    nodes (rightOf op e :: rest) = .expr e :: nodes rest := by
  unfold rightOf
  split <;> rfl

@[simp]
theorem nodes_append (turns more : List Turn) : nodes (turns ++ more) = nodes turns ++ nodes more :=
  List.filterMap_append

@[simp]
theorem nodes_map_part {α : Type} (wrap : α → Node) (items : List α) :
    nodes (items.map fun item => part (wrap item)) = items.map wrap := by
  simp [nodes, List.filterMap_map, Function.comp_def, node?]

@[simp]
theorem nodes_map_deferred (es : List Expr) : nodes (es.map deferred) = es.map .expr := by
  simp [nodes, List.filterMap_map, Function.comp_def, node?]

@[simp]
theorem nodes_oneByOne (es : List Expr) : nodes (oneByOne es) = es.map .expr := by
  cases es with
  | nil => rfl
  | cons e rest => simp [oneByOne]

end Turn

namespace Node

/-- The conversion of an expression converts each of its parts once. -/
theorem nodes_turns_perm (arrays : Bool) (e : Expr) :
    (Turn.nodes (e.turns arrays)).Perm (ofExpr e) := by
  cases e with
  | assign | assignOp =>
    simp only [Expr.turns, Turn.nodes_part, Turn.nodes_rightOf, Turn.nodes_lines, Turn.nodes_nil]
    exact .swap _ _ _
  | dim base index =>
    rw [Expr.turns]
    split <;> simp [ofExpr]
  | array items =>
    rw [Expr.turns]
    split <;> simp [ofExpr]
  | binary | ternary | isset | incDec => simp [Expr.turns, ofExpr]
  | _ => exact .of_eq ((Turn.nodes_map_part id _).trans (List.map_id _))

/-- What a turn converts lies one or two levels down. -/
theorem mem_children_of_turns {arrays : Bool} {n c : Node}
    (h : c ∈ Turn.nodes (n.turns arrays)) : c ∈ n.children ∨ ∃ m ∈ n.children, c ∈ m.children := by
  cases n with
  | expr e => exact .inl ((nodes_turns_perm arrays e).mem_iff.1 h)
  | item i =>
    refine .inl ?_
    simpa [turns, children] using h
  | argument arg =>
    rcases arg with ⟨value, byRef, unpack⟩
    by_cases array : ∃ items, value = .array items
    · obtain ⟨items, rfl⟩ := array
      refine .inr ⟨.expr (.array items), by simp [children], ?_⟩
      simpa [turns, children, ofExpr] using h
    · rw [turns] at h
      · exact .inl (by simpa [children] using h)
      · rintro items _ _ ⟨⟩
        exact array ⟨items, rfl⟩
  | stmt s =>
    cases s with
    | switch subject cases =>
      simp only [turns, Turn.nodes_part, Turn.nodes_oneByOne, List.mem_cons, List.mem_map,
        List.mem_filterMap] at h
      rcases h with rfl | ⟨test, ⟨clause, mem, tested⟩, rfl⟩
      · exact .inl (by simp [children, ofStmt])
      · exact .inr ⟨.case clause, by simp [children, ofStmt, mem], by simp [children, tested]⟩
    | _ => simp [turns] at h
  | elseIf | case | handler | staticLocal => simp [turns] at h

theorem size_lt_of_turns {arrays : Bool} {n c : Node} (h : c ∈ Turn.nodes (n.turns arrays)) :
    c.size < n.size := by
  rcases mem_children_of_turns h with h | ⟨m, h, h'⟩
  · exact size_lt_of_mem_children h
  · exact (size_lt_of_mem_children h').trans (size_lt_of_mem_children h)

theorem within_of_turns {arrays : Bool} {n c : Node} (h : c ∈ Turn.nodes (n.turns arrays)) :
    c.Within n := by
  rcases mem_children_of_turns h with h | ⟨m, h, h'⟩
  · exact .inside h (.self c)
  · exact .inside h (.inside h' (.self c))

/-- What holds of a node whenever it holds of all that its turns convert holds of every node. -/
theorem turnsInduction (arrays : Bool) {P : Node → Prop}
    (step : ∀ n : Node, (∀ c ∈ Turn.nodes (n.turns arrays), P c) → P n) (n : Node) : P n := by
  induction h : n.size using Nat.strongRecOn generalizing n with
  | _ size ih =>
    refine step n fun c hc => ih c.size ?_ c rfl
    rw [← h]
    exact size_lt_of_turns hc

end Node

/-! ### Origins -/

/-- An expression for which lines are hoisted. -/
structure Origin where
  expr : Expr
  /-- The source runs the expression whatever its operands are. -/
  always : Bool

namespace Node

/-- The origins of the lines that the conversion of a node hoists, in their order. -/
def origins (arrays always : Bool) (n : Node) : List Origin :=
  (n.turns arrays).attach.flatMap fun
    | ⟨.part c, _⟩ => c.origins arrays always
    | ⟨.deferred e, _⟩ => (Node.expr e).origins arrays false
    | ⟨.lines e, _⟩ => [⟨e, always⟩]
termination_by n.size
decreasing_by
  all_goals exact size_lt_of_turns (Turn.mem_nodes ‹_› rfl)

end Node

/-- The origins of the lines that one turn hoists. -/
def Turn.origins (arrays always : Bool) : Turn → List Origin
  | .part c => c.origins arrays always
  | .deferred e => (Node.expr e).origins arrays false
  | .lines e => [⟨e, always⟩]

namespace Node

theorem origins_eq (arrays always : Bool) (n : Node) :
    n.origins arrays always = (n.turns arrays).flatMap (Turn.origins arrays always) := by
  rw [origins]
  conv_rhs => rw [← List.attach_map_subtype_val (n.turns arrays), List.flatMap_map]
  congr 1
  funext ⟨t, mem⟩
  cases t <;> rfl

/-- The expressions that the conversion of a node hoists lines for. -/
def sources (arrays : Bool) (n : Node) : List Expr := (n.origins arrays true).map Origin.expr

/-- Whether the node itself always runs does not matter for the expressions. -/
theorem map_expr_origins (arrays always : Bool) (n : Node) :
    (n.origins arrays always).map Origin.expr = n.sources arrays := by
  rw [sources]
  induction n using turnsInduction arrays with
  | step n ih =>
    simp only [origins_eq, List.map_flatMap]
    refine List.flatMap_congr fun t mem => ?_
    cases t with
    | part c => exact ih c (Turn.mem_nodes mem rfl)
    | deferred e => rfl
    | lines e => rfl

end Node

/-- The expressions that one turn hoists lines for. -/
def Turn.sources (arrays : Bool) : Turn → List Expr
  | .part c => c.sources arrays
  | .deferred e => (Node.expr e).sources arrays
  | .lines e => [e]

@[simp]
theorem Turn.sources_part (arrays : Bool) (c : Node) :
    (Turn.part c).sources arrays = c.sources arrays := rfl

@[simp]
theorem Turn.sources_deferred (arrays : Bool) (e : Expr) :
    (Turn.deferred e).sources arrays = (Node.expr e).sources arrays := rfl

@[simp]
theorem Turn.sources_lines (arrays : Bool) (e : Expr) : (Turn.lines e).sources arrays = [e] := rfl

@[simp]
theorem Turn.sources_rightOf (arrays : Bool) (op : BinaryOp) (e : Expr) :
    (rightOf op e).sources arrays = (Node.expr e).sources arrays := by
  unfold rightOf
  split <;> rfl

@[simp]
theorem Turn.flatMap_sources_oneByOne (arrays : Bool) (es : List Expr) :
    (oneByOne es).flatMap (Turn.sources arrays) =
      es.flatMap fun e => (Node.expr e).sources arrays := by
  cases es with
  | nil => rfl
  | cons e rest => simp [oneByOne, List.flatMap_map]

namespace Node

theorem sources_eq (arrays : Bool) (n : Node) :
    n.sources arrays = (n.turns arrays).flatMap (Turn.sources arrays) := by
  rw [sources, origins_eq, List.map_flatMap]
  refine List.flatMap_congr fun t _ => ?_
  cases t with
  | part c => exact map_expr_origins arrays true c
  | deferred e => exact map_expr_origins arrays false (.expr e)
  | lines e => rfl

theorem origins_eq_nil_iff {arrays always : Bool} {n : Node} :
    n.origins arrays always = [] ↔ n.sources arrays = [] := by
  rw [← map_expr_origins arrays always, List.map_eq_nil_iff]

/-- In what runs only if asked for, nothing runs always. -/
theorem origins_false (arrays : Bool) (n : Node) :
    ∀ o ∈ n.origins arrays false, o.always = false := by
  induction n using turnsInduction arrays with
  | step n ih =>
    intro o mem
    rw [origins_eq, List.mem_flatMap] at mem
    obtain ⟨t, turn, mem⟩ := mem
    cases t with
    | part c => exact ih c (Turn.mem_nodes turn rfl) o mem
    | deferred e => exact ih (.expr e) (Turn.mem_nodes turn rfl) o mem
    | lines e =>
      obtain rfl := List.mem_singleton.1 mem
      rfl

/-- A node has the lines of all that its turns convert. -/
theorem sources_nil_of_turns {arrays : Bool} {n c : Node} (empty : n.sources arrays = [])
    (mem : c ∈ Turn.nodes (n.turns arrays)) : c.sources arrays = [] := by
  obtain ⟨t, turn, found⟩ := List.mem_filterMap.1 mem
  have none : t.sources arrays = [] := by
    rw [sources_eq] at empty
    exact List.flatMap_eq_nil_iff.1 empty t turn
  cases t with
  | part d =>
    cases found
    exact none
  | deferred e =>
    cases found
    exact none
  | lines e => cases found

/-- The node has this operand somewhere inside, and the operand runs only if another one asks for
it. -/
inductive Defers (arrays : Bool) : Node → Expr → Prop where
  | here {n : Node} {e : Expr} (mem : .deferred e ∈ n.turns arrays) : Defers arrays n e
  | inside {n c : Node} {e : Expr} (mem : c ∈ Turn.nodes (n.turns arrays))
      (h : Defers arrays c e) : Defers arrays n e

theorem Defers.within {arrays : Bool} {n : Node} {e : Expr} (h : n.Defers arrays e) :
    (Node.expr e).Within n := by
  induction h with
  | here mem => exact within_of_turns (Turn.mem_nodes mem rfl)
  | inside mem _ ih => exact ih.trans (within_of_turns mem)

theorem Defers.sources_nil {arrays : Bool} {n : Node} {e : Expr} (h : n.Defers arrays e)
    (empty : n.sources arrays = []) : (Node.expr e).sources arrays = [] := by
  induction h with
  | here mem => exact sources_nil_of_turns empty (Turn.mem_nodes mem rfl)
  | inside mem _ ih => exact ih (sources_nil_of_turns empty mem)

/-- The lines come from what always runs exactly if no operand that may not run has any. -/
theorem origins_always_iff (arrays : Bool) (n : Node) :
    (∀ o ∈ n.origins arrays true, o.always = true) ↔
      ∀ e, n.Defers arrays e → (Node.expr e).sources arrays = [] := by
  induction n using turnsInduction arrays with
  | step n ih =>
    have flagged : ∀ t ∈ n.turns arrays, ∀ o ∈ t.origins arrays true, o ∈ n.origins arrays true := by
      intro t turn o mem
      rw [origins_eq]
      exact List.mem_flatMap.2 ⟨t, turn, mem⟩
    constructor
    · intro all e defers
      -- An operand that may not run gives no line that comes from what always runs.
      have none : ∀ e, .deferred e ∈ n.turns arrays → (Node.expr e).sources arrays = [] := by
        intro e turn
        rw [← origins_eq_nil_iff, List.eq_nil_iff_forall_not_mem]
        intro o mem
        have runs := all o (flagged _ turn o mem)
        rw [origins_false arrays _ o mem] at runs
        cases runs
      cases defers with
      | here mem => exact none e mem
      | inside mem defers =>
        obtain ⟨t, turn, found⟩ := List.mem_filterMap.1 mem
        cases t with
        | part c =>
          cases found
          exact (ih _ mem).1 (fun o inside => all o (flagged _ turn o inside)) e defers
        | deferred r =>
          cases found
          exact defers.sources_nil (none r turn)
        | lines r => cases found
    · intro none o mem
      rw [origins_eq, List.mem_flatMap] at mem
      obtain ⟨t, turn, mem⟩ := mem
      cases t with
      | part c =>
        have below := Turn.mem_nodes turn rfl
        exact (ih c below).2 (fun e defers => none e (.inside below defers)) o mem
      | deferred e =>
        have empty : (Node.expr e).origins arrays false = [] :=
          origins_eq_nil_iff.2 (none e (.here turn))
        rw [Turn.origins, empty] at mem
        cases mem
      | lines e =>
        obtain rfl := List.mem_singleton.1 mem
        rfl

end Node

end Zephirize
