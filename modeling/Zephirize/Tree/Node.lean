import Zephirize.Tree.Kind

/-!
# Walking a tree

* `Node` — any node that can hold others.
* `Node.children` — the nodes directly inside, in source order.
* `descendants` — all nodes below some roots, a node before what it holds, each with the kinds of
  the nodes around it. The walk keeps the nodes that are still to be visited on a stack.
* `anyOfKind` — some node below the roots has a given kind.

The walk ends because the children of a node are together smaller than the node
(`total_children_lt`).
-/

namespace Zephirize

/-- A node of the tree of a method body. -/
inductive Node where
  | stmt (stmt : Stmt)
  | expr (expr : Expr)
  | argument (arg : Argument)
  | item (item : Item)
  | elseIf (clause : ElseIf)
  | case (clause : Case)
  | handler (clause : Handler)
  | staticLocal (var : StaticLocal)

namespace Node

/-- The kind of a node. -/
def kind : Node → Kind
  | .stmt s => s.kind
  | .expr e => e.kind
  | .argument _ => .argument
  | .item _ => .item
  | .elseIf _ => .elseIf
  | .case _ => .case
  | .handler _ => .handler
  | .staticLocal _ => .staticLocal

/-- The nodes directly inside an expression. -/
def ofExpr : Expr → List Node
  | .var (.literal _) => []
  | .var (.dynamic name) => [.expr name]
  | .assign target value _ => [.expr target, .expr value]
  | .assignOp _ target value => [.expr target, .expr value]
  | .incDec _ target => [.expr target]
  | .property object _ => [.expr object]
  | .dim base index => .expr base :: index.toList.map .expr
  | .list items => (items.filterMap id).map .item
  | .array items => items.map .item
  | .call _ args => args.map .argument
  | .methodCall object _ args => .expr object :: args.map .argument
  | .staticCall _ _ args => args.map .argument
  | .new _ args => args.map .argument
  | .binary _ left right => [.expr left, .expr right]
  | .unary _ operand => [.expr operand]
  | .ternary test yes no => .expr test :: (yes.toList.map .expr ++ [.expr no])
  | .isset vars => vars.map .expr
  | .empty value => [.expr value]
  | .instanceOf value _ => [.expr value]
  | .cast _ value => [.expr value]
  | .eval code => [.expr code]
  | .shell parts => parts.map .expr
  | .staticProperty .. => []
  | .classConst .. => []
  | .const _ => []
  | .string _ => []
  | .int _ => []
  | .float _ => []

/-- The nodes directly inside a statement. -/
def ofStmt : Stmt → List Node
  | .expression value => [.expr value]
  | .ret value => value.toList.map .expr
  | .ifElse test body elseIfs otherwise =>
    .expr test :: (body.map .stmt ++ elseIfs.map .elseIf ++ (otherwise.getD []).map .stmt)
  | .whileLoop test body => .expr test :: body.map .stmt
  | .doWhile body test => body.map .stmt ++ [.expr test]
  | .forLoop init tests steps body =>
    init.map .expr ++ tests.map .expr ++ steps.map .expr ++ body.map .stmt
  | .foreach subject key value _ body =>
    .expr subject :: (key.toList.map .expr ++ .expr value :: body.map .stmt)
  | .switch subject cases => .expr subject :: cases.map .case
  | .static vars => vars.map .staticLocal
  | .tryCatch body catches cleanup =>
    body.map .stmt ++ catches.map .handler ++ (cleanup.getD []).map .stmt
  | .raise value => [.expr value]
  | .echo values => values.map .expr
  | .unset vars => vars.map .expr
  | .breakLoop => []
  | .continueLoop => []
  | .goto _ => []
  | .label _ => []
  | .html _ => []
  | .nop => []

/-- The nodes directly inside a node, in source order. -/
def children : Node → List Node
  | .stmt s => ofStmt s
  | .expr e => ofExpr e
  | .argument a => [.expr a.value]
  | .item i => i.key.toList.map .expr ++ [.expr i.value]
  | .elseIf c => .expr c.test :: c.body.map .stmt
  | .case c => c.test.toList.map .expr ++ c.body.map .stmt
  | .handler c => c.body.map .stmt
  | .staticLocal v => v.value.toList.map .expr

/-! ### The size of a node -/

/-- A measure of what a node holds. -/
noncomputable def size : Node → Nat
  | .stmt s => sizeOf s
  | .expr e => sizeOf e
  | .argument a => sizeOf a
  | .item i => sizeOf i
  | .elseIf c => sizeOf c
  | .case c => sizeOf c
  | .handler c => sizeOf c
  | .staticLocal v => sizeOf v

/-- The sum of the sizes of nodes. -/
noncomputable def total : List Node → Nat
  | [] => 0
  | n :: rest => n.size + total rest

@[simp]
theorem total_nil : total [] = 0 := rfl

@[simp]
theorem total_cons (n : Node) (rest : List Node) : total (n :: rest) = n.size + total rest := rfl

@[simp]
theorem total_append (xs ys : List Node) : total (xs ++ ys) = total xs + total ys := by
  induction xs with
  | nil => simp
  | cons n rest ih => simp only [List.cons_append, total_cons, ih]; omega

/-- Wrapped items are together smaller than their list. -/
theorem total_map_lt {α : Type} [SizeOf α] (wrap : α → Node) (h : ∀ a, (wrap a).size = sizeOf a)
    (items : List α) : total (items.map wrap) < sizeOf items := by
  induction items with
  | nil => simp
  | cons a rest ih => simp only [List.map_cons, total_cons, h, List.cons.sizeOf_spec]; omega

/-- A wrapped option is smaller than the option. -/
theorem total_option_lt {α : Type} [SizeOf α] (wrap : α → Node) (h : ∀ a, (wrap a).size = sizeOf a)
    (item : Option α) : total (item.toList.map wrap) < sizeOf item := by
  cases item with
  | none => simp
  | some a => simp only [Option.toList_some, List.map_cons, List.map_nil, total_cons, total_nil, h,
      Option.some.sizeOf_spec]; omega

/-- The items of an optional list are together smaller than the option. -/
theorem total_getD_lt {α : Type} [SizeOf α] (wrap : α → Node) (h : ∀ a, (wrap a).size = sizeOf a)
    (items : Option (List α)) : total ((items.getD []).map wrap) < sizeOf items := by
  cases items with
  | none => simp
  | some items =>
    have := total_map_lt wrap h items
    simp only [Option.getD_some, Option.some.sizeOf_spec]; omega

/-- The items that are not missing are together smaller than the list. -/
theorem total_slots_lt (items : List (Option Item)) :
    total ((items.filterMap id).map .item) < sizeOf items := by
  induction items with
  | nil => simp
  | cons slot rest ih =>
    cases slot with
    | none =>
      rw [List.filterMap_cons_none rfl]
      simp only [List.cons.sizeOf_spec]
      omega
    | some item =>
      rw [List.filterMap_cons_some (id_eq (some item))]
      simp only [List.map_cons, total_cons, size, List.cons.sizeOf_spec, Option.some.sizeOf_spec]
      omega

/-- What an expression holds is smaller than the expression. -/
theorem total_ofExpr_lt (e : Expr) : total (ofExpr e) < sizeOf e := by
  have exprs := total_map_lt Node.expr (fun _ => rfl)
  have args := total_map_lt Node.argument (fun _ => rfl)
  have option := total_option_lt Node.expr (fun _ => rfl)
  cases e with
  | var name =>
    cases name with
    | literal name =>
      simp only [ofExpr, total_nil, Expr.var.sizeOf_spec]
      omega
    | dynamic name =>
      simp only [ofExpr, total_cons, total_nil, size, Expr.var.sizeOf_spec,
        VarRef.dynamic.sizeOf_spec]
      omega
  | dim base index => have := option index; simp [ofExpr, size]; omega
  | list items =>
    have := total_slots_lt items
    simp only [ofExpr, Expr.list.sizeOf_spec]
    omega
  | array items => have := total_map_lt Node.item (fun _ => rfl) items; simp [ofExpr]; omega
  | call name as => have := args as; simp [ofExpr]; omega
  | methodCall object method as => have := args as; simp [ofExpr, size]; omega
  | staticCall cls method as => have := args as; simp [ofExpr]; omega
  | new cls as => have := args as; simp [ofExpr]; omega
  | ternary test yes no => have := option yes; simp [ofExpr, size]; omega
  | isset vars => have := exprs vars; simp [ofExpr]; omega
  | shell parts => have := exprs parts; simp [ofExpr]; omega
  | _ => simp [ofExpr, size] <;> omega

/-- What a statement holds is smaller than the statement. -/
theorem total_ofStmt_lt (s : Stmt) : total (ofStmt s) < sizeOf s := by
  have exprs := total_map_lt Node.expr (fun _ => rfl)
  have stmts := total_map_lt Node.stmt (fun _ => rfl)
  have option := total_option_lt Node.expr (fun _ => rfl)
  have block := total_getD_lt Node.stmt (fun _ => rfl)
  cases s with
  | ret value => have := option value; simp [ofStmt]; omega
  | ifElse test body elseIfs otherwise =>
    have := stmts body
    have := total_map_lt Node.elseIf (fun _ => rfl) elseIfs
    have := block otherwise
    simp [ofStmt, size]; omega
  | whileLoop test body => have := stmts body; simp [ofStmt, size]; omega
  | doWhile body test => have := stmts body; simp [ofStmt, size]; omega
  | forLoop init tests steps body =>
    have := exprs init
    have := exprs tests
    have := exprs steps
    have := stmts body
    simp [ofStmt]; omega
  | foreach subject key value byRef body =>
    have := option key
    have := stmts body
    simp [ofStmt, size]; omega
  | switch subject cases =>
    have := total_map_lt Node.case (fun _ => rfl) cases
    simp [ofStmt, size]; omega
  | static vars => have := total_map_lt Node.staticLocal (fun _ => rfl) vars; simp [ofStmt]; omega
  | tryCatch body catches cleanup =>
    have := stmts body
    have := total_map_lt Node.handler (fun _ => rfl) catches
    have := block cleanup
    simp [ofStmt]; omega
  | echo values => have := exprs values; simp [ofStmt]; omega
  | unset vars => have := exprs vars; simp [ofStmt]; omega
  | goto _ | label _ | html _ =>
    simp only [ofStmt, total_nil, Stmt.goto.sizeOf_spec, Stmt.label.sizeOf_spec,
      Stmt.html.sizeOf_spec]
    omega
  | _ => simp [ofStmt, size]

/-- The children of a node are together smaller than the node. -/
theorem total_children_lt (n : Node) : total n.children < n.size := by
  have stmts := total_map_lt Node.stmt (fun _ => rfl)
  have option := total_option_lt Node.expr (fun _ => rfl)
  cases n with
  | stmt s => exact total_ofStmt_lt s
  | expr e => exact total_ofExpr_lt e
  | argument a => cases a; simp [children, size]; omega
  | item i => cases i with | mk key value => have := option key; simp [children, size]; omega
  | elseIf c => cases c with | mk test body => have := stmts body; simp [children, size]; omega
  | case c =>
    cases c with
    | mk test body =>
      have := option test
      have := stmts body
      simp [children, size]; omega
  | handler c =>
    cases c with | mk types var body => have := stmts body; simp [children, size]; omega
  | staticLocal v =>
    cases v with | mk name value => have := option value; simp [children, size]; omega

end Node

/-- A node reached by the walk. -/
structure Visit where
  node : Node
  /-- The kinds of the nodes around it, the outermost first. -/
  ancestors : List Kind

/-- A node of this kind lies around the visited one. -/
def Visit.isWithin (v : Visit) (k : Kind) : Bool := v.ancestors.contains k

/-- The children of a visited node, as visits. -/
def Visit.children (v : Visit) : List Visit :=
  v.node.children.map fun node => ⟨node, v.ancestors ++ [v.node.kind]⟩

/-- Visits the nodes on the stack and all that they hold; the top of the stack stands first. -/
def walk : List Visit → List Visit
  | [] => []
  | v :: stack => v :: walk (v.children ++ stack)
termination_by stack => Node.total (stack.map Visit.node)
decreasing_by
  have := v.node.total_children_lt
  have same : v.children.map Visit.node = v.node.children := by
    simp [Visit.children, Function.comp_def]
  simp only [List.map_append, List.map_cons, Node.total_append, Node.total_cons, same]
  omega

/-- All nodes at and below the roots, a node before what it holds. -/
def descendants (roots : List Node) : List Visit := walk (roots.map (⟨·, []⟩))

/-- Some node at or below the roots has this kind. -/
def anyOfKind (roots : List Node) (k : Kind) : Bool :=
  (descendants roots).any fun v => v.node.kind == k

end Zephirize
