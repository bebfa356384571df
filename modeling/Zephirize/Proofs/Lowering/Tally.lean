import Mathlib.Tactic
import Mathlib.Algebra.BigOperators.Group.List.Basic
import Mathlib.Data.Set.Basic
import Zephirize.Lowering.Locals
import Zephirize.Proofs.Tree.Walk

/-!
# What a conversion will do

A `Tally` says what the conversion of a tree will do: how many temporaries for indexed fetches it
creates, which other temporaries it assigns, and which kinds of nodes it refuses. Each node adds its
own share (`Node.tally`), and the tally of a tree is the sum over all its nodes (`Tally.of`), in
whatever order they are converted. Whether array literals are kept in temporaries is decided by what
lies around a tree, so `Tally.temps` takes that as an argument.
-/

namespace Zephirize

/-- What a conversion will do. -/
@[ext]
structure Tally where
  /-- The number of temporaries for indexed fetches. -/
  dims : ℕ
  /-- The other temporaries, given whether array literals are kept. -/
  temps : Bool → Set String
  /-- The kinds of the nodes that are refused. -/
  refused : Set Kind

namespace Tally

instance : Zero Tally := ⟨⟨0, fun _ => ∅, ∅⟩⟩

instance : Add Tally :=
  ⟨fun a b => ⟨a.dims + b.dims, fun arrays => a.temps arrays ∪ b.temps arrays,
    a.refused ∪ b.refused⟩⟩

@[simp] theorem zero_dims : (0 : Tally).dims = 0 := rfl
@[simp] theorem zero_temps (arrays : Bool) : (0 : Tally).temps arrays = ∅ := rfl
@[simp] theorem zero_refused : (0 : Tally).refused = ∅ := rfl
@[simp] theorem add_dims (a b : Tally) : (a + b).dims = a.dims + b.dims := rfl
@[simp] theorem add_temps (a b : Tally) (arrays : Bool) :
    (a + b).temps arrays = a.temps arrays ∪ b.temps arrays := rfl
@[simp] theorem add_refused (a b : Tally) : (a + b).refused = a.refused ∪ b.refused := rfl

instance : AddCommMonoid Tally where
  add_assoc a b c := by ext <;> simp [add_assoc, or_assoc]
  zero_add a := by ext <;> simp
  add_zero a := by ext <;> simp
  add_comm a b := by ext <;> simp [add_comm, or_comm]
  nsmul := nsmulRec

/-- One temporary for an indexed fetch. -/
def dim : Tally := ⟨1, fun _ => ∅, ∅⟩

/-- Temporaries that are assigned in any case. -/
def named (names : Set String) : Tally := ⟨0, fun _ => names, ∅⟩

@[simp]
theorem named_empty : named ∅ = 0 := rfl

theorem named_singleton (name : String) : named {x | x ∈ [name]} = named {name} := by
  ext <;> simp [named]

theorem named_cons (name : String) (names : List String) :
    named {x | x ∈ name :: names} = named {name} + named {x | x ∈ names} := by
  ext <;> simp [named]

theorem named_append (xs ys : List String) :
    named {x | x ∈ xs ++ ys} = named {x | x ∈ xs} + named {x | x ∈ ys} := by
  ext <;> simp [named]

/-- A temporary that is assigned where array literals are kept. -/
def array (name : String) : Tally := ⟨0, fun arrays => {x | arrays = true ∧ x = name}, ∅⟩

/-- An array literal is kept once, also where two reasons ask for it. -/
theorem named_add_array (name : String) : named {name} + array name = named {name} := by
  ext <;> simp [named, array]

/-- A node that is refused. -/
def refusal (kind : Kind) : Tally := ⟨0, fun _ => ∅, {kind}⟩

/-- The tally where array literals are kept. -/
def keepingArrays (t : Tally) : Tally := { t with temps := fun _ => t.temps true }

end Tally

mutual

/-- The temporaries of the targets inside a destructuring target. -/
def innerTemps : List (Option Item) → List String
  | [] => []
  | none :: rest => innerTemps rest
  | some item :: rest => slotTemps item ++ innerTemps rest

/-- The temporaries of the targets in one slot. -/
def slotTemps : Item → List String
  | ⟨_, .list nested, _, _⟩ => listTemp nested :: innerTemps nested
  | _ => []

end

/-- What a node itself adds to a tally. -/
def Node.tally : Node → Tally
  | .expr (.dim base _) => if base.takesIndex then 0 else .dim
  | .expr (.assign (.list items) _ _) => .named {x | x ∈ listTemp items :: innerTemps items}
  | .expr (.array items) => .array (arrayTemp items)
  | .expr (.eval _) => .refusal .eval
  | .expr (.shell _) => .refusal .shell
  | .argument ⟨.array items, _, _⟩ => .named {arrayTemp items}
  | .stmt (.ret (some (.array items))) => .named {arrayTemp items}
  | .stmt (.ifElse test _ _ _) => .named {x | x ∈ arrayTemps test}
  | .stmt (.goto _) => .refusal .goto
  | .stmt (.label _) => .refusal .label
  | .stmt (.html _) => .refusal .html
  | _ => 0

/-- The temporaries that an assignment to a target needs. -/
def Expr.targetTemps : Expr → List String
  | .list items => listTemp items :: innerTemps items
  | _ => []

theorem slotTemps_eq (key : Option Expr) (value : Expr) (byRef unpack : Bool) :
    slotTemps ⟨key, value, byRef, unpack⟩ = value.targetTemps := by
  unfold slotTemps Expr.targetTemps
  cases value <;> rfl

theorem Node.tally_assign (target value : Expr) (byRef : Bool) :
    (Node.expr (.assign target value byRef)).tally = .named {x | x ∈ target.targetTemps} := by
  cases target <;> simp [tally, Expr.targetTemps]

/-- The temporary of a value that is passed on, if it is an array literal. -/
def Expr.passedTemps : Expr → List String
  | .array items => [arrayTemp items]
  | _ => []

theorem Node.tally_argument (value : Expr) (byRef unpack : Bool) :
    (Node.argument ⟨value, byRef, unpack⟩).tally = .named {x | x ∈ value.passedTemps} := by
  cases value <;> simp [tally, Expr.passedTemps]

theorem Node.tally_ret (value : Expr) :
    (Node.stmt (.ret (some value))).tally = .named {x | x ∈ value.passedTemps} := by
  cases value <;> simp [tally, Expr.passedTemps]

namespace Tally

/-- The tally of the nodes at and below the roots. -/
def of (roots : List Node) : Tally := ((nodesOf roots).map Node.tally).sum

@[simp]
theorem of_nil : of [] = 0 := by simp [of]

@[simp]
theorem of_append (xs ys : List Node) : of (xs ++ ys) = of xs + of ys := by simp [of]

end Tally

/-- The tally of a node and of all that it holds. -/
def Node.fullTally (n : Node) : Tally := Tally.of [n]

/-- A node adds its own share to what it holds. -/
theorem Node.fullTally_eq (n : Node) : n.fullTally = n.tally + Tally.of n.children := by
  simp [fullTally, Tally.of, nodesOf_singleton]

namespace Tally

@[simp]
theorem of_cons (n : Node) (rest : List Node) : of (n :: rest) = n.fullTally + of rest := by
  rw [← List.singleton_append, of_append, Node.fullTally]

theorem of_dims (nodes : List Node) : (of nodes).dims = (nodes.map (·.fullTally.dims)).sum := by
  induction nodes with
  | nil => simp
  | cons n rest ih => simp [ih]

theorem mem_sum_temps {x : String} {arrays : Bool} (nodes : List Node) :
    x ∈ (nodes.map Node.tally).sum.temps arrays ↔ ∃ n ∈ nodes, x ∈ n.tally.temps arrays := by
  induction nodes with
  | nil => simp
  | cons n rest ih => simp [ih]

theorem mem_sum_refused {k : Kind} (nodes : List Node) :
    k ∈ (nodes.map Node.tally).sum.refused ↔ ∃ n ∈ nodes, k ∈ n.tally.refused := by
  induction nodes with
  | nil => simp
  | cons n rest ih => simp [ih]

theorem mem_of_temps {x : String} {arrays : Bool} {roots : List Node} :
    x ∈ (of roots).temps arrays ↔ ∃ n ∈ nodesOf roots, x ∈ n.tally.temps arrays :=
  mem_sum_temps _

theorem mem_of_refused {k : Kind} {roots : List Node} :
    k ∈ (of roots).refused ↔ ∃ n ∈ nodesOf roots, k ∈ n.tally.refused :=
  mem_sum_refused _

/-- Where nothing is refused in a tree, nothing is refused at or below a node of it. -/
theorem refused_eq_empty_of_mem {n : Node} {roots : List Node} (clean : (of roots).refused = ∅)
    (mem : n ∈ nodesOf roots) : n.fullTally.refused = ∅ := by
  rw [Set.eq_empty_iff_forall_notMem] at clean ⊢
  intro k refused
  obtain ⟨inner, below, hk⟩ := mem_of_refused.1 refused
  exact clean k (mem_of_refused.2 ⟨inner, nodesOf_subset mem below, hk⟩)

end Tally

/-- An indexed fetch whose base is kept in a temporary, because no index can be applied to it. -/
def Node.isHeldFetch : Node → Bool
  | .expr (.dim base _) => !base.takesIndex
  | _ => false

/-- The number of indexed fetches at and below the roots whose bases are kept in temporaries. -/
def heldFetches (roots : List Node) : ℕ := (nodesOf roots).countP Node.isHeldFetch

theorem Node.tally_dims (n : Node) : n.tally.dims = if n.isHeldFetch then 1 else 0 := by
  by_cases fetch : ∃ base index, n = .expr (.dim base index)
  · obtain ⟨base, index, rfl⟩ := fetch
    cases h : base.takesIndex <;> simp [Node.tally, isHeldFetch, h, Tally.dim]
  · have other : n.isHeldFetch = false := by
      unfold isHeldFetch
      split
      · exact absurd ⟨_, _, rfl⟩ fetch
      · rfl
    rw [other]
    unfold Node.tally
    split
    case h_1 => exact absurd ⟨_, _, rfl⟩ fetch
    all_goals rfl

theorem Tally.of_dims_eq (roots : List Node) : (of roots).dims = heldFetches roots := by
  unfold of heldFetches
  induction nodesOf roots with
  | nil => rfl
  | cons n rest ih =>
    rw [List.map_cons, List.sum_cons, add_dims, ih, n.tally_dims, List.countP_cons, add_comm]

theorem mem_arrayTemps {x : String} {e : Expr} :
    x ∈ arrayTemps e ↔ ∃ items, .expr (.array items) ∈ nodesOf [.expr e] ∧ x = arrayTemp items := by
  simp only [arrayTemps, nodesOf, List.mem_filterMap, List.mem_map]
  constructor
  · rintro ⟨v, hv, hx⟩
    split at hx
    · rename_i items hnode
      exact ⟨items, ⟨v, hv, hnode⟩, by simpa using hx.symm⟩
    · cases hx
  · rintro ⟨items, ⟨v, hv, hnode⟩, rfl⟩
    exact ⟨v, hv, by simp [hnode]⟩

/-- Keeping array literals only adds the temporaries of array literals. -/
theorem Node.mem_temps_true {x : String} (n : Node) (arrays : Bool) :
    x ∈ n.tally.temps true ↔
      x ∈ n.tally.temps arrays ∨ ∃ items, n = .expr (.array items) ∧ x = arrayTemp items := by
  unfold Node.tally
  split <;> simp [Tally.named, Tally.array, Tally.refusal]
  · split <;> simp [Tally.dim]
  · tauto

/-- Where array literals are kept, a test has the temporaries of its array literals on top of its
own. -/
theorem Tally.keepingArrays_expr (e : Expr) :
    (Node.expr e).fullTally.keepingArrays =
      .named {x | x ∈ arrayTemps e} + (Node.expr e).fullTally := by
  unfold Node.fullTally
  ext arrays x
  · simp [keepingArrays, named]
  · simp only [keepingArrays, named, add_temps, Set.mem_union, Set.mem_ofPred_eq, mem_of_temps,
      mem_arrayTemps]
    constructor
    · rintro ⟨n, hn, hx⟩
      rcases (n.mem_temps_true arrays).1 hx with hx | ⟨items, rfl, rfl⟩
      · exact .inr ⟨n, hn, hx⟩
      · exact .inl ⟨items, hn, rfl⟩
    · rintro (⟨items, hn, rfl⟩ | ⟨n, hn, hx⟩)
      · exact ⟨_, hn, by simp [Node.tally, array]⟩
      · exact ⟨n, hn, (n.mem_temps_true arrays).2 (.inl hx)⟩
  · simp [keepingArrays, named]

end Zephirize
