import Zephirize.Proofs.Json.Records
import Zephirize.Proofs.Tree.Walk
import Zephirize.Tree.Reader

/-!
# Expressions and statements are read back

The JSON of a node is made of plain values and of the JSON of what the node holds. Three facts
follow from this for one constructor after the other, and then for every node by induction.

* `Node.depth_children` — what a node holds nests less deep than the node, so that a reader with a
  bounded number of levels comes to the end of it.
* `Node.lossless_toJson` — the JSON of a node is lossless if its floats read back.
* `Node.reads` — readers that go deep enough read a node back if its floats are numbers.
-/

namespace Zephirize

open Json (node ofOption ofList)

/-! ### Lists and clauses as JSON -/

namespace Json

@[simp]
theorem arr_exprs (items : List Expr) :
    Json.arr (Expr.listToJson items) = ofList Expr.toJson items :=
  congrArg Json.arr (eq_map_of_cons rfl (fun _ _ => rfl) items)

@[simp]
theorem arr_items (items : List Item) :
    Json.arr (Item.listToJson items) = ofList Item.toJson items :=
  congrArg Json.arr (eq_map_of_cons rfl (fun _ _ => rfl) items)

@[simp]
theorem arr_slots (items : List (Option Item)) :
    Json.arr (Item.slotsToJson items) = ofList (ofOption Item.toJson) items :=
  congrArg Json.arr (eq_map_of_cons rfl (fun slot _ => by cases slot <;> rfl) items)

@[simp]
theorem arr_arguments (items : List Argument) :
    Json.arr (Argument.listToJson items) = ofList Argument.toJson items :=
  congrArg Json.arr (eq_map_of_cons rfl (fun _ _ => rfl) items)

@[simp]
theorem arr_stmts (items : List Stmt) :
    Json.arr (Stmt.listToJson items) = ofList Stmt.toJson items :=
  congrArg Json.arr (eq_map_of_cons rfl (fun _ _ => rfl) items)

end Json

/-- A further test of an `if` as JSON. -/
def ElseIf.toJson (c : ElseIf) : Json :=
  .obj [("cond", c.test.toJson), ("body", ofList Stmt.toJson c.body)]

/-- A case as JSON. -/
def Case.toJson (c : Case) : Json :=
  .obj [("test", ofOption Expr.toJson c.test), ("body", ofList Stmt.toJson c.body)]

/-- A handler as JSON. -/
def Handler.toJson (c : Handler) : Json :=
  .obj [("types", ofList Name.toJson c.types), ("var", ofOption .str c.var),
    ("body", ofList Stmt.toJson c.body)]

namespace Json

@[simp]
theorem arr_elseIfs (items : List ElseIf) :
    Json.arr (ElseIf.listToJson items) = ofList ElseIf.toJson items :=
  congrArg Json.arr (eq_map_of_cons rfl
    (fun c _ => by cases c; rw [ElseIf.listToJson, ElseIf.toJson, arr_stmts]) items)

@[simp]
theorem arr_cases (items : List Case) :
    Json.arr (Case.listToJson items) = ofList Case.toJson items :=
  congrArg Json.arr (eq_map_of_cons rfl
    (fun c _ => by cases c; rw [Case.listToJson, Case.toJson, arr_stmts]) items)

@[simp]
theorem arr_handlers (items : List Handler) :
    Json.arr (Handler.listToJson items) = ofList Handler.toJson items :=
  congrArg Json.arr (eq_map_of_cons rfl
    (fun c _ => by cases c; rw [Handler.listToJson, Handler.toJson, arr_stmts]) items)

end Json

@[simp]
theorem Expr.optionToJson_eq (e : Option Expr) : Expr.optionToJson e = ofOption Expr.toJson e := by
  cases e <;> rfl

@[simp]
theorem Stmt.optionToJson_eq (body : Option (List Stmt)) :
    Stmt.optionToJson body = ofOption (ofList Stmt.toJson) body := by
  cases body with
  | none => rfl
  | some body => rw [Stmt.optionToJson, Json.arr_stmts, ofOption]

/-- A node as JSON. -/
def Node.toJson : Node → Json
  | .stmt s => s.toJson
  | .expr e => e.toJson
  | .argument a => a.toJson
  | .item i => i.toJson
  | .elseIf c => c.toJson
  | .case c => c.toJson
  | .handler c => c.toJson
  | .staticLocal v => v.toJson

/-! ### What a node holds -/

theorem Expr.isTagged_toJson (e : Expr) : e.toJson.IsTagged := by
  cases e <;> exact ⟨_, _, rfl, by simp⟩

theorem Stmt.isTagged_toJson (s : Stmt) : s.toJson.IsTagged := by
  cases s <;> exact ⟨_, _, rfl, by simp⟩

theorem forall_mem_getD {α : Type} {items : Option (List α)} {P : α → Prop} :
    (∀ a ∈ items.getD [], P a) ↔ ∀ list ∈ items, ∀ a ∈ list, P a := by
  cases items <;> simp

theorem forall_mem_slots {α : Type} {items : List (Option α)} {P : α → Prop} :
    (∀ a ∈ items.filterMap id, P a) ↔ ∀ slot ∈ items, ∀ a ∈ slot, P a := by
  constructor
  · exact fun h slot mem a eq => h a (List.mem_filterMap.2 ⟨slot, mem, eq⟩)
  · intro h a mem
    obtain ⟨slot, mem, eq⟩ := List.mem_filterMap.1 mem
    exact h slot mem a eq

/-! ### Depth -/

section

open Json

variable {n : Nat}

/-- What an expression holds nests less deep. -/
theorem Expr.depth_children {e : Expr} (h : e.toJson.depth ≤ n + 1) :
    ∀ c ∈ Node.ofExpr e, c.toJson.depth ≤ n := by
  cases e
  case var name =>
    cases name with
    | literal => simp [Node.ofExpr]
    | dynamic => simpa [Expr.toJson, VarRef.toJson, depth_node_le, Node.ofExpr, Node.toJson] using h
  -- The other kinds write each child as a field, as an item of a list or as an optional value.
  all_goals
    simp only [Expr.toJson, arr_exprs, arr_items, arr_slots, arr_arguments, Expr.optionToJson_eq,
      depth_node_le, List.forall_mem_cons, depth_ofList_le, depth_ofOption_le] at h
    simp only [Node.ofExpr, List.forall_mem_cons, List.forall_mem_append, List.forall_mem_map,
      Option.mem_toList, forall_mem_slots, Node.toJson]
    grind

/-- What a statement holds nests less deep. -/
theorem Stmt.depth_children {s : Stmt} (h : s.toJson.depth ≤ n + 1) :
    ∀ c ∈ Node.ofStmt s, c.toJson.depth ≤ n := by
  cases s
  all_goals
    simp only [Stmt.toJson, arr_stmts, arr_elseIfs, arr_cases, arr_handlers, Stmt.optionToJson_eq,
      depth_node_le, List.forall_mem_cons, depth_ofList_le, depth_ofOption_le] at h
    simp only [Node.ofStmt, List.forall_mem_cons, List.forall_mem_append, List.forall_mem_map,
      Option.mem_toList, forall_mem_getD, Node.toJson]
    grind

theorem Node.depth_children {m : Node} (h : m.toJson.depth ≤ n + 1) :
    ∀ c ∈ m.children, c.toJson.depth ≤ n := by
  cases m with
  | expr e => exact Expr.depth_children h
  | stmt s => exact Stmt.depth_children h
  | argument c | item c | elseIf c | case c | handler c | staticLocal c =>
    cases c
    simp only [Node.toJson, Argument.toJson, Item.toJson, ElseIf.toJson, Case.toJson,
      Handler.toJson, StaticLocal.toJson, Expr.optionToJson_eq, depth_obj_le, List.forall_mem_cons,
      depth_ofList_le, depth_ofOption_le] at h
    simp only [Node.children, List.forall_mem_cons, List.forall_mem_append, List.forall_mem_map,
      Option.mem_toList, Node.toJson]
    grind

end

/-! ### Floats -/

/-- The double is neither infinite nor undefined. -/
def IsNumber (x : Float) : Prop := x.isFinite = true

/-- Every float among the nodes at and below the roots has the property. -/
def EveryFloat (P : Float → Prop) (roots : List Node) : Prop :=
  ∀ x, .expr (.float x) ∈ nodesOf roots → P x

namespace EveryFloat

variable {P : Float → Prop} {roots : List Node}

theorem subset {others : List Node} (h : EveryFloat P roots) (sub : ∀ m ∈ others, m ∈ roots) :
    EveryFloat P others := by
  intro x mem
  obtain ⟨root, inside, within⟩ := mem_nodesOf.1 mem
  exact h x (mem_nodesOf.2 ⟨root, sub root inside, within⟩)

theorem of_mem (h : EveryFloat P roots) {m : Node} (mem : m ∈ roots) : EveryFloat P [m] :=
  h.subset (by simpa using mem)

/-- What a part of a declaration holds is held by the declaration. -/
theorem of_flatMap {α : Type} {nodes : α → List Node} {parts : List α}
    (h : EveryFloat P (parts.flatMap nodes)) {part : α} (mem : part ∈ parts) :
    EveryFloat P (nodes part) :=
  h.subset fun _ inside => List.mem_flatMap.2 ⟨part, mem, inside⟩

theorem child {m c : Node} (h : EveryFloat P [m]) (mem : c ∈ m.children) : EveryFloat P [c] := by
  intro x inside
  refine h x (nodesOf_subset ?_ inside)
  exact mem_nodesOf.2 ⟨m, List.mem_singleton_self m, .inside mem (.self c)⟩

end EveryFloat

/-! ### Losing nothing -/

@[simp]
theorem Name.lossless_toJson (n : Name) : n.toJson.Lossless := by
  simp [Name.toJson]

theorem Expr.lossless_toJson {e : Expr} (h : ∀ c ∈ Node.ofExpr e, c.toJson.Lossless)
    (float : ∀ x, e = .float x → Json.ReadsBack x) : e.toJson.Lossless := by
  cases e
  case var name =>
    cases name with
    | literal => simp [Expr.toJson, VarRef.toJson]
    | dynamic => simpa [Expr.toJson, VarRef.toJson, Node.ofExpr, Node.toJson] using h
  case float x => simpa [Expr.toJson] using Json.lossless_ofFloat (float x rfl)
  case list items =>
    simp only [Node.ofExpr, List.forall_mem_map, forall_mem_slots, Node.toJson] at h
    simpa [Expr.toJson] using h
  all_goals
    simp only [Node.ofExpr, List.forall_mem_cons, List.forall_mem_append, List.forall_mem_map,
      Option.mem_toList, Node.toJson] at h
    simp +contextual [Expr.toJson, h]

theorem Stmt.lossless_toJson {s : Stmt} (h : ∀ c ∈ Node.ofStmt s, c.toJson.Lossless) :
    s.toJson.Lossless := by
  cases s
  all_goals
    simp only [Node.ofStmt, List.forall_mem_cons, List.forall_mem_append, List.forall_mem_map,
      Option.mem_toList, forall_mem_getD, Node.toJson] at h
    simp +contextual [Stmt.toJson, h]

/-- The JSON of a node is lossless if its floats read back. -/
theorem Node.lossless_toJson {m : Node} (float : EveryFloat Json.ReadsBack [m]) :
    m.toJson.Lossless := by
  induction m using Node.induction with
  | step m ih =>
    have children : ∀ c ∈ m.children, c.toJson.Lossless := fun c mem => ih c mem (float.child mem)
    cases m with
    | expr e =>
      exact Expr.lossless_toJson children fun x eq => float x (by simp [eq, nodesOf_singleton])
    | stmt s => exact Stmt.lossless_toJson children
    | argument c | item c | elseIf c | case c | handler c | staticLocal c =>
      cases c
      simp only [Node.children, List.forall_mem_cons, List.forall_mem_append, List.forall_mem_map,
        Option.mem_toList, Node.toJson] at children
      simp +contextual [Node.toJson, Argument.toJson, Item.toJson, ElseIf.toJson, Case.toJson,
        Handler.toJson, StaticLocal.toJson, children]

/-! ### Reading -/

/-- Readers of expressions and statements read the node back from its JSON. -/
def Node.Reads (expr : Json → Option Expr) (stmt : Json → Option Stmt) : Node → Prop
  | .expr e => expr e.toJson = some e
  | .stmt s => stmt s.toJson = some s
  | .argument a => Argument.read? expr a.toJson = some a
  | .item i => Item.read? expr i.toJson = some i
  | .elseIf c => ElseIf.read? expr stmt c.toJson = some c
  | .case c => Case.read? expr stmt c.toJson = some c
  | .handler c => Handler.read? stmt c.toJson = some c
  | .staticLocal v => StaticLocal.read? expr v.toJson = some v

@[simp]
theorem Name.ofJson?_toJson (n : Name) : Name.ofJson? n.toJson = some n := by
  rw [toJson, ofJson?, Json.record?_obj (by simp)]
  simp

@[simp]
theorem Name.ofJson?_null : Name.ofJson? .null = none := by rfl

@[simp]
theorem BinaryOp.ofName?_name (op : BinaryOp) : ofName? op.name = some op := by
  cases op <;> decide +kernel

@[simp]
theorem UnaryOp.ofName?_name (op : UnaryOp) : ofName? op.name = some op := by
  cases op <;> decide +kernel

@[simp]
theorem StepOp.ofName?_name (op : StepOp) : ofName? op.name = some op := by
  cases op <;> decide +kernel

@[simp]
theorem CastTarget.ofName?_name (type : CastTarget) : ofName? type.name = some type := by
  cases type <;> decide +kernel

section

variable {n : Nat} {kind : String} {fields : List (String × Json)}

@[simp]
theorem Expr.read?_null : Expr.read? n .null = none := by
  cases n <;> rfl

@[simp]
theorem Expr.inner?_null : Expr.inner? .null = none := Expr.read?_null

theorem Expr.read?_str (s : String) : Expr.read? n (.str s) = none := by
  cases n <;> rfl

theorem Expr.read?_node (h : ∀ field ∈ fields, field.1 ≠ "kind") :
    Expr.read? (n + 1) (node kind fields) = Expr.ofFields? (Expr.read? n) kind (.obj fields) := by
  rw [Expr.read?, Json.tagged?_node h]
  rfl

theorem Stmt.read?_node (h : ∀ field ∈ fields, field.1 ≠ "kind") :
    Stmt.read? (n + 1) (node kind fields) = Stmt.ofFields? (Stmt.read? n) kind (.obj fields) := by
  rw [Stmt.read?, Json.tagged?_node h]
  rfl

end

section

variable {n : Nat} {stmt : Json → Option Stmt}

/-- The name of a variable is read back; an expression is not mistaken for a string. -/
theorem VarRef.read?_toJson (name : VarRef)
    (h : ∀ e, name = .dynamic e → Expr.read? n e.toJson = some e) :
    VarRef.read? (Expr.read? n) name.toJson = some name := by
  cases name with
  | literal => rfl
  | dynamic e =>
    have reads := h e rfl
    rw [toJson]
    cases eq : e.toJson with
    | str s => simp [eq, Expr.read?_str] at reads
    | _ => simp [VarRef.read?, ← eq, reads]

/-- An expression is read back when what it holds is. -/
theorem Expr.read?_toJson {e : Expr} (h : ∀ c ∈ Node.ofExpr e, c.Reads (Expr.read? n) stmt)
    (float : ∀ x, e = .float x → IsNumber x) : Expr.read? (n + 1) e.toJson = some e := by
  cases e
  case var name =>
    have reads := VarRef.read?_toJson name fun e eq => h (.expr e) (by simp [eq, Node.ofExpr])
    rw [Expr.toJson, Expr.read?_node (by simp), Expr.ofFields?, Json.record?_obj (by simp)]
    simp [reads]
  case list items =>
    simp only [Node.ofExpr, List.forall_mem_map, forall_mem_slots, Node.Reads] at h
    have reads : Json.list? (Json.nullable? (Item.read? (Expr.read? n)))
        (ofList (ofOption Item.toJson) items) = some items :=
      Json.list?_ofList fun slot mem => Json.nullable?_ofOption rfl (h slot mem)
    rw [Expr.toJson, Expr.read?_node (by simp), Expr.ofFields?, Json.record?_obj (by simp)]
    simp [reads]
  case float x =>
    have finite : x.isFinite = true := float x rfl
    rw [Expr.toJson, Expr.read?_node (by simp), Expr.ofFields?, Json.record?_obj (by simp)]
    simp [Json.ofFloat, finite, Json.float?]
  all_goals
    simp only [Node.ofExpr, List.forall_mem_cons, List.forall_mem_append, List.forall_mem_map,
      Option.mem_toList, Node.Reads] at h
    rw [Expr.toJson, Expr.read?_node (by simp), Expr.ofFields?, Json.record?_obj (by simp)]
    simp +contextual [h]

/-- A statement is read back when what it holds is. -/
theorem Stmt.read?_toJson {s : Stmt}
    (h : ∀ c ∈ Node.ofStmt s, c.Reads Expr.inner? (Stmt.read? n)) :
    Stmt.read? (n + 1) s.toJson = some s := by
  cases s
  case breakLoop | continueLoop | nop =>
    rw [Stmt.toJson, Stmt.read?_node (by simp), Stmt.ofFields?]
    rfl
  case ifElse test body elseIfs otherwise =>
    simp only [Node.ofStmt, List.forall_mem_cons, List.forall_mem_append, List.forall_mem_map,
      forall_mem_getD, Node.Reads] at h
    have last := Json.nullable?_ofList h.2.2
    rw [Stmt.toJson, Stmt.read?_node (by simp), Stmt.ofFields?, Json.record?_obj (by simp)]
    simp +contextual [h, last]
  case tryCatch body catches cleanup =>
    simp only [Node.ofStmt, List.forall_mem_append, List.forall_mem_map, forall_mem_getD,
      Node.Reads] at h
    have last := Json.nullable?_ofList h.2
    rw [Stmt.toJson, Stmt.read?_node (by simp), Stmt.ofFields?, Json.record?_obj (by simp)]
    simp +contextual [h, last]
  all_goals
    simp only [Node.ofStmt, List.forall_mem_cons, List.forall_mem_append, List.forall_mem_map,
      Option.mem_toList, Node.Reads] at h
    rw [Stmt.toJson, Stmt.read?_node (by simp), Stmt.ofFields?, Json.record?_obj (by simp)]
    simp +contextual [h]

end

/-- A clause is read back when what it holds is. -/
theorem Node.reads_of_children {expr : Json → Option Expr} {stmt : Json → Option Stmt}
    (null : expr .null = none) {m : Node} (h : ∀ c ∈ m.children, c.Reads expr stmt)
    (notExpr : ∀ e, m ≠ .expr e) (notStmt : ∀ s, m ≠ .stmt s) : m.Reads expr stmt := by
  cases m with
  | expr e => exact absurd rfl (notExpr e)
  | stmt s => exact absurd rfl (notStmt s)
  | argument c | item c | elseIf c | case c | handler c | staticLocal c =>
    cases c
    simp only [Node.children, List.forall_mem_cons, List.forall_mem_append, List.forall_mem_map,
      Option.mem_toList, Node.Reads] at h
    simp only [Node.Reads, Argument.toJson, Item.toJson, ElseIf.toJson, Case.toJson,
      Handler.toJson, StaticLocal.toJson, Argument.read?, Item.read?, ElseIf.read?, Case.read?,
      Handler.read?, StaticLocal.read?]
    rw [Json.record?_obj (by simp)]
    simp +contextual [h, null]

/-- Readers that go deep enough read a node back from its JSON. A statement reads its expressions by
`Expr.inner?`, an expression those inside with one level less, so both readers are needed. -/
theorem Node.reads {m : Node} (float : EveryFloat IsNumber [m]) {n : Nat}
    (room : m.toJson.depth ≤ n) :
    m.Reads (Expr.read? n) (Stmt.read? n) ∧ m.Reads Expr.inner? (Stmt.read? n) := by
  induction m using Node.induction generalizing n with
  | step m ih =>
    have below {k : Nat} (room : m.toJson.depth ≤ k + 1) (c : Node) (mem : c ∈ m.children) :=
      ih c mem (float.child mem) (depth_children room c mem)
    cases m with
    | expr e =>
      have reads : ∀ {k : Nat}, e.toJson.depth ≤ k → Expr.read? k e.toJson = some e := by
        intro k room
        have positive := e.isTagged_toJson.depth_pos
        cases k with
        | zero => omega
        | succ k =>
          exact Expr.read?_toJson (fun c mem => (below room c mem).1) fun x eq =>
            float x (by simp [eq, nodesOf_singleton])
      exact ⟨reads room, reads le_rfl⟩
    | stmt s =>
      have reads : Stmt.read? n s.toJson = some s := by
        have positive := s.isTagged_toJson.depth_pos
        cases n with
        | zero => exact absurd room (Nat.not_le_of_gt positive)
        | succ n => exact Stmt.read?_toJson fun c mem => (below room c mem).2
      exact ⟨reads, reads⟩
    | argument | item | elseIf | case | handler | staticLocal =>
      have children := below (Nat.le_succ_of_le room)
      constructor
      · exact reads_of_children Expr.read?_null (fun c mem => (children c mem).1) (by simp)
          (by simp)
      · exact reads_of_children Expr.inner?_null (fun c mem => (children c mem).2) (by simp)
          (by simp)

end Zephirize
