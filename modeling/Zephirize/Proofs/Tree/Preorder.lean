import Mathlib.Tactic
import Zephirize.Proofs.Tree.Nodes

/-!
# The walk lists every node of a tree once

`descendants` works off a stack. What it gives is compared with three descriptions of the tree that
know of no stack (`descendants_preorder`).

* `Node.preorder` — the plain recursion: a node, then the listings of what its fields hold.
* `visitAt?` — a node looked up by its address, with the kinds of the nodes that the address passes.
  The walk visits the addresses of the tree in their order, each of them once.
* `Json.nodes` — the objects in the JSON of the tree. The reader gets every field of the tree from
  them, so a field that the walk left out would show here.

The stack itself is worked off by `nextVisit`, one node at a time; `Drains` says that this comes to
an end.
-/

namespace Zephirize

/-! ### Fields -/

/-- What the fields of an expression hold, one list for each field in the order of declaration. -/
def Expr.fields : Expr → List (List Node)
  | .var (.literal _) => [[]]
  | .var (.dynamic name) => [[.expr name]]
  | .assign target value _ => [[.expr target], [.expr value], []]
  | .assignOp _ target value => [[], [.expr target], [.expr value]]
  | .incDec _ target => [[], [.expr target]]
  | .property object _ => [[.expr object], []]
  | .staticProperty _ _ => [[], []]
  | .dim base index => [[.expr base], index.toList.map .expr]
  | .list items => [items.reduceOption.map .item]
  | .array items => [items.map .item]
  | .call _ args => [[], args.map .argument]
  | .methodCall object _ args => [[.expr object], [], args.map .argument]
  | .staticCall _ _ args => [[], [], args.map .argument]
  | .new _ args => [[], args.map .argument]
  | .classConst _ _ => [[], []]
  | .const _ => [[]]
  | .string _ => [[]]
  | .int _ => [[]]
  | .float _ => [[]]
  | .binary _ left right => [[], [.expr left], [.expr right]]
  | .unary _ operand => [[], [.expr operand]]
  | .ternary test yes no => [[.expr test], yes.toList.map .expr, [.expr no]]
  | .isset vars => [vars.map .expr]
  | .empty value => [[.expr value]]
  | .instanceOf value _ => [[.expr value], []]
  | .cast _ value => [[], [.expr value]]
  | .eval code => [[.expr code]]
  | .shell parts => [parts.map .expr]

/-- What the fields of a statement hold, one list for each field in the order of declaration. -/
def Stmt.fields : Stmt → List (List Node)
  | .expression value => [[.expr value]]
  | .ret value => [value.toList.map .expr]
  | .ifElse test body elseIfs otherwise =>
    [[.expr test], body.map .stmt, elseIfs.map .elseIf, (otherwise.getD []).map .stmt]
  | .whileLoop test body => [[.expr test], body.map .stmt]
  | .doWhile body test => [body.map .stmt, [.expr test]]
  | .forLoop init tests steps body =>
    [init.map .expr, tests.map .expr, steps.map .expr, body.map .stmt]
  | .foreach subject key value _ body =>
    [[.expr subject], key.toList.map .expr, [.expr value], [], body.map .stmt]
  | .switch subject cases => [[.expr subject], cases.map .case]
  | .static vars => [vars.map .staticLocal]
  | .tryCatch body catches cleanup =>
    [body.map .stmt, catches.map .handler, (cleanup.getD []).map .stmt]
  | .raise value => [[.expr value]]
  | .breakLoop => []
  | .continueLoop => []
  | .echo values => [values.map .expr]
  | .unset vars => [vars.map .expr]
  | .goto _ => [[]]
  | .label _ => [[]]
  | .html _ => [[]]
  | .nop => []

/-- What the fields of a node hold, one list for each field in the order of declaration. -/
def Node.fields : Node → List (List Node)
  | .stmt s => s.fields
  | .expr e => e.fields
  | .argument ⟨value, _, _⟩ => [[.expr value], [], []]
  | .item ⟨key, value, _, _⟩ => [key.toList.map .expr, [.expr value], [], []]
  | .elseIf ⟨test, body⟩ => [[.expr test], body.map .stmt]
  | .case ⟨test, body⟩ => [test.toList.map .expr, body.map .stmt]
  | .handler ⟨_, _, body⟩ => [[], [], body.map .stmt]
  | .staticLocal ⟨_, value⟩ => [[], value.toList.map .expr]

theorem Expr.flatten_fields (e : Expr) : e.fields.flatten = Node.ofExpr e := by
  cases e with
  | var name => cases name <;> rfl
  | list items => exact List.flatten_singleton
  | _ => simp [fields, Node.ofExpr]

theorem Stmt.flatten_fields (s : Stmt) : s.fields.flatten = Node.ofStmt s := by
  cases s <;> simp [fields, Node.ofStmt]

/-- The walk goes through all fields in order. -/
theorem Node.flatten_fields (n : Node) : n.fields.flatten = n.children := by
  cases n with
  | stmt s => exact s.flatten_fields
  | expr e => exact e.flatten_fields
  | argument c | item c | elseIf c | case c | handler c | staticLocal c =>
    cases c
    simp [fields, children]

/-! ### The recursive listing -/

/-- A node, then the listings of what its fields hold, each visit with the kinds around it. -/
def Node.preorder (around : List Kind) (n : Node) : List Visit :=
  ⟨n, around⟩ :: n.fields.flatten.attach.flatMap fun c => c.1.preorder (around ++ [n.kind])
termination_by n.size
decreasing_by
  exact Node.size_lt_of_mem_children (n.flatten_fields ▸ c.2)

theorem Node.preorder_eq (around : List Kind) (n : Node) :
    n.preorder around = ⟨n, around⟩ :: n.children.flatMap (Node.preorder (around ++ [n.kind])) := by
  rw [Node.preorder, ← n.flatten_fields]
  simp [List.flatMap_subtype]

/-- The stack is worked off as the recursion says. -/
theorem walk_eq_flatMap (stack : List Visit) :
    walk stack = stack.flatMap fun v => v.node.preorder v.ancestors := by
  fun_induction walk stack with
  | case1 => rfl
  | case2 v stack ih =>
    rw [ih, List.flatMap_append, List.flatMap_cons, Node.preorder_eq, Visit.children,
      List.flatMap_map]
    rfl

theorem descendants_eq_flatMap (roots : List Node) :
    descendants roots = roots.flatMap (Node.preorder []) := by
  rw [descendants, walk_eq_flatMap, List.flatMap_map]

/-! ### The stack one node at a time -/

/-- The node on the top of the stack, and the stack after it. The top of the stack stands last; what
the node holds is put on it in reverse, so that its first child is on the top. -/
def nextVisit (stack : List Visit) : Option (Visit × List Visit) :=
  stack.getLast?.map fun v => (v, stack.dropLast ++ v.children.reverse)

/-- From this stack these nodes come one after the other, and then none is left. -/
inductive Drains : List Visit → List Visit → Prop where
  | done {stack : List Visit} (h : nextVisit stack = none) : Drains stack []
  | next {stack rest visits : List Visit} {v : Visit} (h : nextVisit stack = some (v, rest))
      (more : Drains rest visits) : Drains stack (v :: visits)

theorem drains_walk (stack : List Visit) : Drains stack.reverse (walk stack) := by
  fun_induction walk stack with
  | case1 => exact .done rfl
  | case2 v stack ih =>
    have top : nextVisit (v :: stack).reverse = some (v, (v.children ++ stack).reverse) := by
      simp [nextVisit]
    exact .next top ih

/-- The stack decides which nodes come. -/
theorem Drains.unique {stack visits others : List Visit} (h : Drains stack visits)
    (h' : Drains stack others) : visits = others := by
  induction h generalizing others with
  | done empty =>
    cases h' with
    | done => rfl
    | next top => rw [empty] at top; cases top
  | next top more ih =>
    cases h' with
    | done empty => rw [empty] at top; cases top
    | next top' more' =>
      rw [top] at top'
      cases top'
      rw [ih more']

/-! ### Addresses -/

/-- Where a node lies: the number of its root, then for every step inwards the number of a field and
the number of a node in that field. -/
abbrev Address := List ℕ

/-- Looks the first number of an address up in a list, and the others in the item found there. -/
def lookAt? {α β : Type} (items : List α) (find : α → Address → Option β) : Address → Option β
  | [] => none
  | i :: rest => items[i]?.bind fun a => find a rest

/-- The node at an address inside a node, with the kinds of the nodes around it. -/
def Node.visitAt? (around : List Kind) (n : Node) : Address → Option Visit
  | [] => some ⟨n, around⟩
  | [_] => none
  | i :: j :: rest => do
    let field ← n.fields[i]?
    let child ← field[j]?
    child.visitAt? (around ++ [n.kind]) rest

/-- The node at an address, with the kinds of the nodes around it. -/
def visitAt? (roots : List Node) : Address → Option Visit := lookAt? roots (Node.visitAt? [])

/-- These visits are what is found at all addresses, in the order of the addresses. -/
def ListsAll (find : Address → Option Visit) (visits : List Visit) : Prop :=
  ∃ places : List Address, places.Pairwise (· < ·) ∧ (∀ p, p ∈ places ↔ (find p).isSome) ∧
    places.map find = visits.map some

/-- The address one item further on in a list. -/
def Address.shift : Address → Address
  | [] => []
  | i :: rest => (i + 1) :: rest

theorem lookAt?_shift {α β : Type} (a : α) (items : List α) (find : α → Address → Option β)
    (p : Address) : lookAt? (a :: items) find p.shift = lookAt? items find p := by
  cases p <;> rfl

theorem Address.shift_lt_shift {p q : Address} (h : p < q) : p.shift < q.shift := by
  cases p with
  | nil =>
    cases q with
    | nil => exact absurd h (List.lt_irrefl _)
    | cons j rest => exact List.nil_lt_cons _ _
  | cons i rest =>
    cases q with
    | nil => exact absurd h (List.not_lt_nil _)
    | cons j others =>
      apply List.cons_lt_cons_iff.2
      rcases List.cons_lt_cons_iff.1 h with lt | ⟨rfl, lt⟩
      · exact .inl (by omega)
      · exact .inr ⟨rfl, lt⟩

/-- Items one after the other: their addresses follow each other too. -/
theorem ListsAll.lookAt {α : Type} {find : α → Address → Option Visit} {visits : α → List Visit}
    {items : List α} (h : ∀ a ∈ items, ListsAll (find a) (visits a)) :
    ListsAll (lookAt? items find) (items.flatMap visits) := by
  induction items with
  | nil => exact ⟨[], .nil, fun p => by cases p <;> simp [lookAt?], rfl⟩
  | cons a items ih =>
    obtain ⟨first, sorted, mem, found⟩ := h a (by simp)
    obtain ⟨later, sorted', mem', found'⟩ := ih fun b hb => h b (List.mem_cons_of_mem a hb)
    have nonempty : [] ∉ later := fun hq => by simpa [lookAt?] using (mem' []).1 hq
    refine ⟨first.map (0 :: ·) ++ later.map Address.shift, ?_, ?_, ?_⟩
    · rw [List.pairwise_append, List.pairwise_map, List.pairwise_map]
      refine ⟨sorted.imp fun lt => ?_, sorted'.imp Address.shift_lt_shift, ?_⟩
      · exact List.cons_lt_cons_iff.2 (.inr ⟨rfl, lt⟩)
      · intro p hp q hq
        obtain ⟨p, -, rfl⟩ := List.mem_map.1 hp
        obtain ⟨q, mem, rfl⟩ := List.mem_map.1 hq
        cases q with
        | nil => exact absurd mem nonempty
        | cons j rest => exact List.cons_lt_cons_iff.2 (.inl (Nat.succ_pos j))
    · intro p
      rw [List.mem_append, List.mem_map, List.mem_map]
      constructor
      · rintro (⟨q, hq, rfl⟩ | ⟨q, hq, rfl⟩)
        · exact (mem q).1 hq
        · rw [lookAt?_shift]
          exact (mem' q).1 hq
      · intro some
        rcases p with _ | ⟨_ | i, rest⟩
        · cases some
        · exact .inl ⟨rest, (mem rest).2 some, rfl⟩
        · exact .inr ⟨i :: rest, (mem' (i :: rest)).2 some, rfl⟩
    · have shifted : (later.map Address.shift).map (lookAt? (a :: items) find) =
          later.map (lookAt? items find) := by
        simp only [List.map_map, Function.comp_def, lookAt?_shift]
      have start : (first.map (0 :: ·)).map (lookAt? (a :: items) find) = first.map (find a) := by
        rw [List.map_map]
        rfl
      rw [List.map_append, start, shifted, found, found', List.flatMap_cons, List.map_append]

theorem Node.visitAt?_cons (around : List Kind) (n : Node) (i : ℕ) (rest : Address) :
    n.visitAt? around (i :: rest) = lookAt? n.fields (fun field =>
      lookAt? field (Node.visitAt? (around ++ [n.kind]))) (i :: rest) := by
  cases rest with
  | nil => simp [visitAt?, lookAt?]
  | cons j rest => rfl

/-- What lies at and below a node stands at its addresses. -/
theorem Node.listsAll_preorder (n : Node) (around : List Kind) :
    ListsAll (n.visitAt? around) (n.preorder around) := by
  induction n using Node.induction generalizing around with
  | step n ih =>
    have below : ListsAll (lookAt? n.fields fun field =>
        lookAt? field (Node.visitAt? (around ++ [n.kind])))
        (n.fields.flatMap fun field => field.flatMap (Node.preorder (around ++ [n.kind]))) := by
      apply ListsAll.lookAt
      intro field hf
      apply ListsAll.lookAt
      intro c hc
      apply ih c
      rw [← n.flatten_fields]
      exact List.mem_flatten.2 ⟨field, hf, hc⟩
    obtain ⟨places, sorted, mem, found⟩ := below
    have nonempty : [] ∉ places := fun h => by simpa [lookAt?] using (mem []).1 h
    refine ⟨[] :: places, ?_, ?_, ?_⟩
    · refine List.pairwise_cons.2 ⟨fun p hp => ?_, sorted⟩
      cases p with
      | nil => exact absurd hp nonempty
      | cons i rest => exact List.nil_lt_cons _ _
    · intro p
      cases p with
      | nil => simp [visitAt?]
      | cons i rest => simp [visitAt?_cons, mem]
    · have inner : places.map (n.visitAt? around) = places.map (lookAt? n.fields fun field =>
          lookAt? field (Node.visitAt? (around ++ [n.kind]))) := by
        apply List.map_congr_left
        intro p hp
        cases p with
        | nil => exact absurd hp nonempty
        | cons i rest => exact n.visitAt?_cons around i rest
      rw [List.map_cons, inner, found, n.preorder_eq, List.map_cons, ← n.flatten_fields,
        List.flatten_eq_flatMap, List.flatMap_assoc]
      rfl

/-! ### The written tree -/

namespace Json

mutual

/-- The objects in a value, from the outside in and in the order of the text. -/
def objects : Json → List Json
  | .obj fields => .obj fields :: objectsInFields fields
  | .arr items => objectsInItems items
  | _ => []

/-- The objects in the items of a list. -/
def objectsInItems : List Json → List Json
  | [] => []
  | v :: rest => objects v ++ objectsInItems rest

/-- The objects in the fields of an object. -/
def objectsInFields : List (String × Json) → List Json
  | [] => []
  | (_, v) :: rest => objects v ++ objectsInFields rest

end

/-- The object is a name. -/
def isName : Json → Bool
  | .obj (("parts", _) :: _) => true
  | _ => false

/-- The objects in a value that are no names. -/
def nodes (v : Json) : List Json := v.objects.filter (!·.isName)

@[simp] theorem nodes_null : nodes .null = [] := rfl
@[simp] theorem nodes_bool (b : Bool) : nodes (.bool b) = [] := rfl
@[simp] theorem nodes_num (n : Number) : nodes (.num n) = [] := rfl
@[simp] theorem nodes_str (s : String) : nodes (.str s) = [] := rfl

theorem nodes_obj {fields : List (String × Json)} (h : (Json.obj fields).isName = false) :
    nodes (.obj fields) = .obj fields :: fields.flatMap fun f => f.2.nodes := by
  have each : (objectsInFields fields).filter (!·.isName) = fields.flatMap fun f => f.2.nodes := by
    clear h
    induction fields with
    | nil => rfl
    | cons f rest ih => rw [objectsInFields, List.filter_append, ih]; rfl
  rw [nodes, objects, List.filter_cons_of_pos (by simp [h]), each]

@[simp]
theorem nodes_node (kind : String) (fields : List (String × Json)) :
    nodes (node kind fields) = node kind fields :: fields.flatMap fun f => f.2.nodes := by
  rw [node, nodes_obj rfl]
  simp

@[simp]
theorem nodes_ofList {α : Type} (write : α → Json) (items : List α) :
    nodes (ofList write items) = items.flatMap fun a => (write a).nodes := by
  unfold ofList nodes
  rw [objects]
  induction items with
  | nil => rfl
  | cons a rest ih => rw [List.map_cons, objectsInItems, List.filter_append, ih]; rfl

@[simp]
theorem nodes_ofOption {α : Type} (write : α → Json) (item : Option α) :
    nodes (ofOption write item) = item.toList.flatMap fun a => (write a).nodes := by
  cases item <;> simp [ofOption]

@[simp]
theorem nodes_name (n : Name) : nodes n.toJson = [] := by
  have parts : objectsInItems (n.parts.map .str) = [] := by
    induction n.parts with
    | nil => rfl
    | cons part rest ih => rw [List.map_cons, objectsInItems, ih]; rfl
  simp [nodes, Name.toJson, objects, objectsInFields, ofList, parts, isName]

@[simp]
theorem nodes_ofFloat (x : Float) : nodes (ofFloat x) = [] := by
  unfold ofFloat
  split <;> rfl

end Json

open Json

theorem Expr.nodes_toJson (e : Expr) :
    e.toJson.nodes = e.toJson :: (Node.ofExpr e).flatMap fun c => c.toJson.nodes := by
  cases e with
  | var name => cases name <;> simp [Expr.toJson, VarRef.toJson, Node.ofExpr, Node.toJson]
  | list items =>
    have slots : items.flatMap (fun slot => slot.toList.flatMap fun item => item.toJson.nodes) =
        (items.filterMap id).flatMap fun item => item.toJson.nodes := by
      rw [List.filterMap_eq_flatMap_toList, List.flatMap_assoc]
      rfl
    simp [Expr.toJson, Node.ofExpr, Node.toJson, List.flatMap_map, slots]
  | _ => simp [Expr.toJson, Node.ofExpr, Node.toJson, List.flatMap_map]

theorem Stmt.nodes_toJson (s : Stmt) :
    s.toJson.nodes = s.toJson :: (Node.ofStmt s).flatMap fun c => c.toJson.nodes := by
  cases s with
  | ifElse test body elseIfs otherwise =>
    cases otherwise <;> simp [Stmt.toJson, Node.ofStmt, Node.toJson, List.flatMap_map]
  | tryCatch body catches cleanup =>
    cases cleanup <;> simp [Stmt.toJson, Node.ofStmt, Node.toJson, List.flatMap_map]
  | _ => simp [Stmt.toJson, Node.ofStmt, Node.toJson, List.flatMap_map]

/-- The JSON of a node has one object for the node, and then those of what the node holds. -/
theorem Node.nodes_toJson (n : Node) :
    n.toJson.nodes = n.toJson :: n.children.flatMap fun c => c.toJson.nodes := by
  cases n with
  | expr e => exact e.nodes_toJson
  | stmt s => exact s.nodes_toJson
  | handler c =>
    -- The types and the variable of a handler are no nodes.
    have types : c.types.flatMap (fun n => n.toJson.nodes) = [] :=
      List.flatMap_eq_nil_iff.2 fun n _ => nodes_name n
    have var : c.var.toList.flatMap (fun s => (Json.str s).nodes) = [] :=
      List.flatMap_eq_nil_iff.2 fun s _ => nodes_str s
    rw [Node.toJson, Handler.toJson, nodes_obj rfl]
    simp only [List.flatMap_cons, List.flatMap_nil, nodes_ofList, nodes_ofOption, types, var,
      List.nil_append, List.append_nil, Node.children, List.flatMap_map, Node.toJson]
  | argument c | item c | elseIf c | case c | staticLocal c =>
    cases c
    simp [Node.toJson, Node.children, Argument.toJson, Item.toJson, ElseIf.toJson, Case.toJson,
      StaticLocal.toJson, nodes_obj, isName, List.flatMap_map]

theorem Node.map_toJson_preorder (n : Node) (around : List Kind) :
    (n.preorder around).map (fun v => v.node.toJson) = n.toJson.nodes := by
  induction n using Node.induction generalizing around with
  | step n ih =>
    rw [n.preorder_eq, n.nodes_toJson, List.map_cons, List.map_flatMap]
    congr 1
    apply List.flatMap_congr
    intro c hc
    exact ih c hc _

/-! ### The walk -/

/-- Working off the stack comes to an end and gives the recursive listing of the tree. The addresses
of the tree are visited in their order, each of them once and with the kinds of the nodes around it;
the visited nodes are the objects of the written tree. So the walk knows of every kind of node in the
tree. -/
theorem descendants_preorder (roots : List Node) :
    (∀ visits, Drains (roots.reverse.map (⟨·, []⟩)) visits ↔ visits = descendants roots) ∧
    descendants roots = roots.flatMap (Node.preorder []) ∧
    (∃ places : List Address, places.Pairwise (· < ·) ∧
      (∀ p, p ∈ places ↔ (visitAt? roots p).isSome) ∧
      places.map (visitAt? roots) = (descendants roots).map some) ∧
    (descendants roots).map (fun v => v.node.toJson) = roots.flatMap (fun n => n.toJson.nodes) ∧
    ∀ k, anyOfKind roots k = true ↔ ∃ p v, visitAt? roots p = some v ∧ v.node.kind = k := by
  have listed : ListsAll (visitAt? roots) (descendants roots) := by
    rw [descendants_eq_flatMap]
    apply ListsAll.lookAt
    intro n _
    exact n.listsAll_preorder []
  refine ⟨?_, descendants_eq_flatMap roots, listed, ?_, ?_⟩
  · have drained : Drains (roots.reverse.map (⟨·, []⟩)) (descendants roots) := by
      rw [List.map_reverse]
      exact drains_walk _
    intro visits
    constructor
    · exact fun h => h.unique drained
    · rintro rfl
      exact drained
  · rw [descendants_eq_flatMap, List.map_flatMap]
    simp only [Node.map_toJson_preorder]
  · intro k
    obtain ⟨places, -, mem, found⟩ := listed
    have visited : ∀ v, v ∈ descendants roots ↔ ∃ p, visitAt? roots p = some v := by
      intro v
      rw [← List.mem_map_of_injective (Option.some_injective _), ← found, List.mem_map]
      constructor
      · rintro ⟨p, -, h⟩
        exact ⟨p, h⟩
      · rintro ⟨p, h⟩
        exact ⟨p, (mem p).2 (by rw [h]; rfl), h⟩
    rw [anyOfKind, List.any_eq_true]
    simp only [visited, beq_iff_eq]
    constructor
    · rintro ⟨v, ⟨p, h⟩, kind⟩
      exact ⟨p, v, h, kind⟩
    · rintro ⟨p, v, h, kind⟩
      exact ⟨v, ⟨p, h⟩, kind⟩

end Zephirize
