import Zephirize.Tree.Node

/-!
# The walk visits a tree

`walk` keeps a stack of nodes. What it visits is the plain listing of the tree: a node, then what
lies below its children.

* `walk_append` — the stack is visited from the top down.
* `nodesOf` — the visited nodes without the kinds around them, with its equation `nodesOf_cons`.
* `Node.Within` — a node lies at or below another one; `mem_nodesOf` says that exactly these are
  visited.
-/

namespace Zephirize

theorem walk_append (xs ys : List Visit) : walk (xs ++ ys) = walk xs ++ walk ys := by
  fun_induction walk xs with
  | case1 => rfl
  | case2 v stack ih => rw [List.cons_append, walk, ← List.append_assoc, ih, List.cons_append]

/-- A node comes before what it holds, and that before what follows on the stack. -/
theorem walk_cons (v : Visit) (stack : List Visit) :
    walk (v :: stack) = v :: (walk v.children ++ walk stack) := by
  rw [walk, walk_append]

theorem Visit.map_node_children (v : Visit) : v.children.map Visit.node = v.node.children := by
  simp [Visit.children, Function.comp_def]

/-- The visited nodes do not depend on what lies around the roots. -/
theorem map_node_walk {xs ys : List Visit} (h : xs.map Visit.node = ys.map Visit.node) :
    (walk xs).map Visit.node = (walk ys).map Visit.node := by
  fun_induction walk xs generalizing ys with
  | case1 =>
    obtain rfl : ys = [] := by simpa using h.symm
    simp [walk]
  | case2 v stack ih =>
    cases ys with
    | nil => simp at h
    | cons w rest =>
      simp only [List.map_cons, List.cons.injEq] at h
      have below : (v.children ++ stack).map Visit.node = (w.children ++ rest).map Visit.node := by
        simp only [List.map_append, Visit.map_node_children, h.1, h.2]
      rw [walk, List.map_cons, List.map_cons, ih below, h.1]

/-- The nodes at and below the roots, a node before what it holds. -/
def nodesOf (roots : List Node) : List Node := (descendants roots).map Visit.node

theorem nodesOf_visits (vs : List Visit) :
    (walk vs).map Visit.node = nodesOf (vs.map Visit.node) := by
  refine map_node_walk ?_
  simp [Function.comp_def]

@[simp]
theorem nodesOf_nil : nodesOf [] = [] := by simp [nodesOf, descendants, walk]

@[simp]
theorem nodesOf_append (xs ys : List Node) : nodesOf (xs ++ ys) = nodesOf xs ++ nodesOf ys := by
  simp [nodesOf, descendants, walk_append]

theorem nodesOf_cons (n : Node) (rest : List Node) :
    nodesOf (n :: rest) = n :: (nodesOf n.children ++ nodesOf rest) := by
  rw [nodesOf, descendants, List.map_cons, walk_cons, List.map_cons, List.map_append,
    nodesOf_visits, Visit.map_node_children]
  rfl

theorem nodesOf_singleton (n : Node) : nodesOf [n] = n :: nodesOf n.children := by
  rw [nodesOf_cons, nodesOf_nil, List.append_nil]

namespace Node

/-- The node lies at or below a root. -/
inductive Within : Node → Node → Prop where
  | self (n : Node) : Within n n
  | inside {n child root : Node} (mem : child ∈ root.children) (h : Within n child) : Within n root

theorem Within.trans {a b c : Node} (h : a.Within b) (h' : b.Within c) : a.Within c := by
  induction h' with
  | self => exact h
  | inside mem _ ih => exact .inside mem ih

/-- A child is smaller than its parent. -/
theorem size_lt_of_mem_children {child n : Node} (h : child ∈ n.children) :
    child.size < n.size := by
  have sum : child.size ≤ total n.children := by
    generalize n.children = nodes at h
    induction nodes with
    | nil => simp at h
    | cons m rest ih =>
      rcases List.mem_cons.1 h with rfl | h
      · simp
      · have := ih h
        simp only [total_cons]
        omega
  have := n.total_children_lt
  omega

/-- What holds of a node whenever it holds of its children holds of every node. -/
theorem induction {P : Node → Prop} (step : ∀ n : Node, (∀ c ∈ n.children, P c) → P n) (n : Node) :
    P n := by
  induction h : n.size using Nat.strongRecOn generalizing n with
  | _ size ih =>
    refine step n fun c hc => ih c.size ?_ c rfl
    rw [← h]
    exact size_lt_of_mem_children hc

end Node

/-- The walk visits the nodes that lie at or below the roots. -/
theorem mem_nodesOf {n : Node} {roots : List Node} :
    n ∈ nodesOf roots ↔ ∃ root ∈ roots, n.Within root := by
  -- The walk is by lists of nodes, the relation by single ones, so one root comes first.
  have single : ∀ root : Node, n ∈ nodesOf [root] ↔ n.Within root := by
    intro root
    induction root using Node.induction with
    | step root ih =>
      have children : n ∈ nodesOf root.children ↔ ∃ c ∈ root.children, n ∈ nodesOf [c] := by
        generalize root.children = nodes
        induction nodes with
        | nil => simp
        | cons c rest ihr =>
          rw [← List.singleton_append, nodesOf_append, List.mem_append, ihr]
          simp
      rw [nodesOf_singleton, List.mem_cons, children]
      constructor
      · rintro (rfl | ⟨c, hc, h⟩)
        · exact .self n
        · exact .inside hc ((ih c hc).1 h)
      · intro h
        cases h with
        | self => exact .inl rfl
        | inside hc h => exact .inr ⟨_, hc, (ih _ hc).2 h⟩
  induction roots with
  | nil => simp
  | cons root rest ih =>
    rw [← List.singleton_append, nodesOf_append, List.mem_append, single]
    simp [ih]

/-- What lies below a visited node is visited. -/
theorem nodesOf_subset {m n : Node} {roots : List Node} (hm : m ∈ nodesOf roots)
    (hn : n ∈ nodesOf [m]) : n ∈ nodesOf roots := by
  obtain ⟨root, mem, within⟩ := mem_nodesOf.1 hm
  obtain ⟨_, single, below⟩ := mem_nodesOf.1 hn
  obtain rfl := List.mem_singleton.1 single
  exact mem_nodesOf.2 ⟨root, mem, below.trans within⟩

end Zephirize
