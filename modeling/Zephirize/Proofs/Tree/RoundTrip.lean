import Zephirize.Proofs.Tree.Nodes

/-!
# Trees are read back from their texts

Types, declarations and whole files are made of records, of names and modifiers, and of the
expressions and statements of `Node.reads`. Each is lossless and read back if this holds of its
parts.

* `nodes` — the expressions and statements that a declaration holds.
* `TreeType` — the seven types of trees that have a text of their own, with their writers and
  readers.
* `TreeType.tree_read_back` — a tree of any of these types is read back from its text.
-/

namespace Zephirize

open Json (node ofOption ofList)

/-! ### Types -/

namespace TypeExpr

/-- What holds of a type whenever it holds of the types inside holds of every type. -/
theorem induction {P : TypeExpr → Prop} (builtin : ∀ name, P (.builtin name))
    (ofClass : ∀ name, P (.ofClass name)) (nullable : ∀ inner, P inner → P (.nullable inner))
    (union : ∀ types, (∀ t ∈ types, P t) → P (.union types)) : ∀ t, P t
  | .builtin name => builtin name
  | .ofClass name => ofClass name
  | .nullable inner => nullable inner (induction builtin ofClass nullable union inner)
  | .union types => union types fun t _ => induction builtin ofClass nullable union t

@[simp]
theorem arr_listToJson (types : List TypeExpr) :
    Json.arr (listToJson types) = ofList toJson types :=
  congrArg Json.arr (Json.eq_map_of_cons rfl (fun _ _ => rfl) types)

theorem isTagged_toJson (t : TypeExpr) : t.toJson.IsTagged := by
  cases t <;> exact ⟨_, _, rfl, by simp⟩

@[simp]
theorem lossless_toJson (t : TypeExpr) : t.toJson.Lossless := by
  induction t using TypeExpr.induction with
  | builtin | ofClass => simp [toJson]
  | nullable inner ih => simp [toJson, ih]
  | union types ih => simpa [toJson] using ih

theorem read?_node {n : Nat} {kind : String} {fields : List (String × Json)}
    (h : ∀ field ∈ fields, field.1 ≠ "kind") :
    read? (n + 1) (node kind fields) = ofFields? (read? n) kind (.obj fields) := by
  rw [read?, Json.tagged?_node h]
  rfl

theorem read?_toJson (t : TypeExpr) {n : Nat} (room : t.toJson.depth ≤ n) :
    read? n t.toJson = some t := by
  induction t using TypeExpr.induction generalizing n
  all_goals
    have positive := (isTagged_toJson _).depth_pos.trans_le room
    obtain ⟨n, rfl⟩ := Nat.exists_eq_succ_of_ne_zero positive.ne'
    rw [toJson, Json.depth_node_le] at room
    rw [toJson, read?_node (by simp), ofFields?, Json.record?_obj (by simp)]
  case builtin | ofClass => simp
  case nullable inner ih =>
    have inside : inner.toJson.depth ≤ n := by simpa using room
    simp [ih inside]
  case union types ih =>
    have inside : ∀ t ∈ types, t.toJson.depth ≤ n := by
      simp only [arr_listToJson, List.forall_mem_cons, Json.depth_ofList_le] at room
      exact fun t mem => (room.1.2 t mem).trans (Nat.sub_le n 1)
    have reads := Json.list?_ofList fun t mem => ih t mem (inside t mem)
    simp [reads]

@[simp]
theorem inner?_toJson (t : TypeExpr) : inner? t.toJson = some t := read?_toJson t le_rfl

@[simp]
theorem inner?_null : inner? .null = none := by rfl

end TypeExpr

/-! ### Declarations -/

/-- The expressions that a parameter holds. -/
def Param.nodes (p : Param) : List Node := p.value.toList.map .expr

/-- The expressions and statements that a method holds. -/
def Method.nodes (m : Method) : List Node :=
  m.params.flatMap Param.nodes ++ (m.body.getD []).map .stmt

/-- The expressions and statements that a member holds. -/
def Member.nodes : Member → List Node
  | .method m => m.nodes
  | .property p => p.value.toList.map .expr
  | .constant c => [.expr c.value]

/-- The expressions and statements that a class holds. -/
def ClassDecl.nodes (c : ClassDecl) : List Node := c.members.flatMap Member.nodes

/-- The expressions and statements that a file holds. -/
def SourceFile.nodes (f : SourceFile) : List Node := f.classes.flatMap ClassDecl.nodes

section

variable {roots : List Node}

theorem Expr.inner?_of_mem (h : EveryFloat IsNumber roots) {e : Expr} (mem : .expr e ∈ roots) :
    Expr.inner? e.toJson = some e :=
  (Node.reads (h.of_mem mem) le_rfl).2

theorem Stmt.inner?_of_mem (h : EveryFloat IsNumber roots) {s : Stmt} (mem : .stmt s ∈ roots) :
    Stmt.inner? s.toJson = some s :=
  (Node.reads (h.of_mem mem) le_rfl).2

end

namespace NodeReaders

@[simp] theorem inner_expr : inner.expr = Expr.inner? := rfl
@[simp] theorem inner_stmt : inner.stmt = Stmt.inner? := rfl
@[simp] theorem inner_hint : inner.hint = TypeExpr.inner? := rfl

end NodeReaders

theorem Param.read?_toJson {p : Param} (float : EveryFloat IsNumber p.nodes) :
    Param.read? .inner p.toJson = some p := by
  have value : ∀ e ∈ p.value, Expr.inner? e.toJson = some e := fun e mem =>
    Expr.inner?_of_mem float (by simpa [nodes] using mem)
  rw [toJson, read?, Json.record?_obj (by simp)]
  simp +contextual [value]

theorem Param.lossless_toJson {p : Param} (float : EveryFloat Json.ReadsBack p.nodes) :
    p.toJson.Lossless := by
  have value : ∀ e ∈ p.value, e.toJson.Lossless := fun e mem =>
    Node.lossless_toJson (m := .expr e) (float.of_mem (by simpa [nodes] using mem))
  simp +contextual [toJson, value]

@[simp]
theorem Modifiers.ofJson?_toJson (m : Modifiers) : Modifiers.ofJson? m.toJson = some m := by
  rw [toJson, ofJson?, Json.str?_str, Option.bind_eq_bind, Option.bind_some, ofText?_text]

@[simp]
theorem Modifiers.lossless_toJson (m : Modifiers) : m.toJson.Lossless := .str m.text

theorem Method.read?_fields {m : Method} (float : EveryFloat IsNumber m.nodes) :
    Method.read? .inner (.obj m.fields) = some m := by
  have params : Json.list? (Param.read? .inner) (ofList Param.toJson m.params) = some m.params :=
    Json.list?_ofList fun p mem => Param.read?_toJson <| EveryFloat.of_flatMap
      (float.subset fun _ => List.mem_append_left _) mem
  have body : Json.nullable? (Json.list? Stmt.inner?) (ofOption (ofList Stmt.toJson) m.body) =
      some m.body := by
    refine Json.nullable?_ofList fun list given s mem => Stmt.inner?_of_mem float ?_
    refine List.mem_append_right _ (List.mem_map_of_mem ?_)
    rwa [Option.mem_def.1 given]
  rw [fields, read?, Json.record?_obj (by simp)]
  simp [params, body]

theorem Method.lossless_fields {m : Method} (float : EveryFloat Json.ReadsBack m.nodes) :
    (Json.obj m.fields).Lossless := by
  have params : ∀ p ∈ m.params, p.toJson.Lossless := fun p mem =>
    Param.lossless_toJson <| EveryFloat.of_flatMap
      (float.subset fun _ => List.mem_append_left _) mem
  have body : ∀ list ∈ m.body, ∀ s ∈ list, s.toJson.Lossless := by
    intro list given s mem
    refine Node.lossless_toJson (m := .stmt s) (float.of_mem ?_)
    refine List.mem_append_right _ (List.mem_map_of_mem ?_)
    rwa [Option.mem_def.1 given]
  simpa [fields] using ⟨params, body⟩

theorem Member.isTagged_toJson (m : Member) : m.toJson.IsTagged := by
  cases m <;> exact ⟨_, _, rfl, by simp [Method.fields]⟩

theorem Member.lossless_toJson {m : Member} (float : EveryFloat Json.ReadsBack m.nodes) :
    m.toJson.Lossless := by
  cases m with
  | method m => simpa [toJson] using Method.lossless_fields float
  | property p =>
    have value : ∀ e ∈ p.value, e.toJson.Lossless := fun e mem =>
      Node.lossless_toJson (m := .expr e) (float.of_mem (by simpa [nodes] using mem))
    simp +contextual [toJson, value]
  | constant c =>
    have value : c.value.toJson.Lossless := Node.lossless_toJson (m := .expr c.value) float
    simp [toJson, value]

theorem Member.ofJson?_of_readable {m : Member} (finite : EveryFloat IsNumber m.nodes)
    (readable : m.toJson.readable = true) : Member.ofJson? m.toJson = some m := by
  rw [ofJson?, if_pos (Json.isNode_of_readable m.isTagged_toJson readable)]
  cases m with
  | method m =>
    rw [toJson, Json.tagged?_node (by simp [Method.fields])]
    simp [ofFields?, Method.read?_fields finite]
  | property p =>
    have value : ∀ e ∈ p.value, Expr.inner? e.toJson = some e := fun e mem =>
      Expr.inner?_of_mem finite (by simpa [nodes] using mem)
    rw [toJson, Json.tagged?_node (by simp)]
    simp +contextual [ofFields?, Json.record?_obj, value]
  | constant c =>
    have value : Expr.inner? c.value.toJson = some c.value :=
      Expr.inner?_of_mem finite (by simp [nodes])
    rw [toJson, Json.tagged?_node (by simp)]
    simp [ofFields?, Json.record?_obj, value]

@[simp]
theorem ClassForm.ofName?_name (kind : ClassForm) : ofName? kind.name = some kind := by
  cases kind <;> decide +kernel

theorem ClassDecl.lossless_toJson {c : ClassDecl} (float : EveryFloat Json.ReadsBack c.nodes) :
    c.toJson.Lossless := by
  have members : ∀ m ∈ c.members, m.toJson.Lossless := fun m mem =>
    Member.lossless_toJson (EveryFloat.of_flatMap float mem)
  simpa [toJson] using members

theorem ClassDecl.ofJson?_of_readable {c : ClassDecl} (finite : EveryFloat IsNumber c.nodes)
    (readable : c.toJson.readable = true) : ClassDecl.ofJson? c.toJson = some c := by
  have inside : (ofList Member.toJson c.members).readable = true :=
    Json.readable_obj.1 readable ("members", ofList Member.toJson c.members) (by simp)
  have members : Json.list? Member.ofJson? (ofList Member.toJson c.members) = some c.members :=
    Json.list?_ofList fun m mem =>
      Member.ofJson?_of_readable (EveryFloat.of_flatMap finite mem)
        (Json.readable_ofList.1 inside m mem)
  rw [toJson, ofJson?, Json.record?_obj (by simp)]
  simp [members]

@[simp]
theorem Import.lossless_toJson (u : Import) : u.toJson.Lossless := by
  simp [toJson]

@[simp]
theorem Import.ofJson?_toJson (u : Import) : Import.ofJson? u.toJson = some u := by
  rw [toJson, ofJson?, Json.record?_obj (by simp)]
  simp

theorem SourceFile.lossless_toJson {f : SourceFile} (float : EveryFloat Json.ReadsBack f.nodes) :
    f.toJson.Lossless := by
  have classes : ∀ c ∈ f.classes, c.toJson.Lossless := fun c mem =>
    ClassDecl.lossless_toJson (EveryFloat.of_flatMap float mem)
  simpa [toJson] using classes

theorem SourceFile.ofJson?_of_readable {f : SourceFile} (finite : EveryFloat IsNumber f.nodes)
    (readable : f.toJson.readable = true) : SourceFile.ofJson? f.toJson = some f := by
  have inside : (ofList ClassDecl.toJson f.classes).readable = true :=
    Json.readable_obj.1 readable ("classes", ofList ClassDecl.toJson f.classes) (by simp)
  have classes : Json.list? ClassDecl.ofJson? (ofList ClassDecl.toJson f.classes) =
      some f.classes :=
    Json.list?_ofList fun c mem =>
      ClassDecl.ofJson?_of_readable (EveryFloat.of_flatMap finite mem)
        (Json.readable_ofList.1 inside c mem)
  rw [toJson, ofJson?, Json.record?_obj (by simp)]
  simp [classes]

theorem SourceFile.ofJson?_toJson {f : SourceFile} (finite : EveryFloat IsNumber f.nodes)
    (printed : EveryFloat Json.ReadsBack f.nodes) : SourceFile.ofJson? f.toJson = some f :=
  ofJson?_of_readable finite (lossless_toJson printed).readable

/-! ### Trees of every type -/

/-- The types of trees that have a text of their own. -/
inductive TreeType where
  | file
  | cls
  | member
  | stmt
  | expr
  | hint
  | name

namespace TreeType

/-- The trees of a type. -/
def Tree : TreeType → Type
  | .file => SourceFile
  | .cls => ClassDecl
  | .member => Member
  | .stmt => Stmt
  | .expr => Expr
  | .hint => TypeExpr
  | .name => Name

/-- A tree as JSON. -/
def toJson : (type : TreeType) → type.Tree → Json
  | .file => SourceFile.toJson
  | .cls => ClassDecl.toJson
  | .member => Member.toJson
  | .stmt => Stmt.toJson
  | .expr => Expr.toJson
  | .hint => TypeExpr.toJson
  | .name => Name.toJson

/-- A tree from JSON. -/
def ofJson? : (type : TreeType) → Json → Option type.Tree
  | .file => SourceFile.ofJson?
  | .cls => ClassDecl.ofJson?
  | .member => Member.ofJson?
  | .stmt => Stmt.ofJson?
  | .expr => Expr.ofJson?
  | .hint => TypeExpr.ofJson?
  | .name => Name.ofJson?

/-- The expressions and statements that a tree holds. -/
def nodes : (type : TreeType) → type.Tree → List Node
  | .file, f => SourceFile.nodes f
  | .cls, c => ClassDecl.nodes c
  | .member, m => Member.nodes m
  | .stmt, s => [.stmt s]
  | .expr, e => [.expr e]
  | .hint, _ => []
  | .name, _ => []

/-- The text of a tree. -/
def text (type : TreeType) (t : type.Tree) : String := (type.toJson t).compact

/-- A tree from its text. -/
def ofText? (type : TreeType) (text : String) : Option type.Tree :=
  (Json.read? Json.nestingLimit text).bind type.ofJson?

variable {type : TreeType} {t : type.Tree}

theorem lossless_toJson (printed : EveryFloat Json.ReadsBack (type.nodes t)) :
    (type.toJson t).Lossless := by
  cases type with
  | file => exact SourceFile.lossless_toJson printed
  | cls => exact ClassDecl.lossless_toJson printed
  | member => exact Member.lossless_toJson printed
  | stmt => exact Node.lossless_toJson (m := .stmt t) printed
  | expr => exact Node.lossless_toJson (m := .expr t) printed
  | hint => exact TypeExpr.lossless_toJson t
  | name => exact Name.lossless_toJson t

theorem ofJson?_of_readable (finite : EveryFloat IsNumber (type.nodes t))
    (readable : (type.toJson t).readable = true) : type.ofJson? (type.toJson t) = some t := by
  cases type with
  | file => exact SourceFile.ofJson?_of_readable finite readable
  | cls => exact ClassDecl.ofJson?_of_readable finite readable
  | member => exact Member.ofJson?_of_readable finite readable
  | stmt =>
    exact (if_pos (Json.isNode_of_readable (Stmt.isTagged_toJson t) readable)).trans
      (Stmt.inner?_of_mem finite List.mem_cons_self)
  | expr =>
    exact (if_pos (Json.isNode_of_readable (Expr.isTagged_toJson t) readable)).trans
      (Expr.inner?_of_mem finite List.mem_cons_self)
  | hint =>
    exact (if_pos (Json.isNode_of_readable (TypeExpr.isTagged_toJson t) readable)).trans
      (TypeExpr.inner?_toJson t)
  | name => exact Name.ofJson?_toJson t

theorem ofJson?_toJson (finite : EveryFloat IsNumber (type.nodes t))
    (printed : EveryFloat Json.ReadsBack (type.nodes t)) :
    type.ofJson? (type.toJson t) = some t :=
  ofJson?_of_readable finite (lossless_toJson printed).readable

/-- A tree of any type is read back from its text, if its floats are numbers whose texts stand for
them and the text does not nest too deep. -/
theorem tree_read_back (type : TreeType) (t : type.Tree)
    (finite : EveryFloat IsNumber (type.nodes t))
    (printed : EveryFloat Json.ReadsBack (type.nodes t))
    (room : (type.toJson t).depth ≤ Json.nestingLimit) : type.ofText? (type.text t) = some t := by
  rw [ofText?, text, Json.read?_compact (lossless_toJson printed) room, Option.bind_some,
    ofJson?_toJson finite printed]

/-- A method with bits that no flag names, a control character in its comment, a computed variable
name, a gap in a destructuring target, the least integer and a float. -/
def sampleMember : Member :=
  .method {
    name := "größe"
    flags := ⟨0xFF⟩
    params := [
      { name := "p", type := some (.nullable (.builtin "int")), value := some (.float 1.5) }]
    body := some [
      .expression (.assign (.list [none, some (.ofValue (.var (.dynamic (.named "a"))))])
        (.int Int64.minValue) true),
      .ret none]
    doc := some "/** \"\\\x01\n */" }

theorem tree_read_back_sample :
    EveryFloat IsNumber (nodes .member sampleMember) ∧
      EveryFloat Json.ReadsBack (nodes .member sampleMember) ∧
      (toJson .member sampleMember).depth ≤ Json.nestingLimit ∧
      ofText? .member (text .member sampleMember) = some sampleMember := by
  have floats : ∀ x, .expr (.float x) ∈ nodesOf (nodes .member sampleMember) → x = 1.5 := by
    intro x
    simp [nodes, sampleMember, Member.nodes, Method.nodes, Param.nodes, nodesOf_cons, Node.children,
      Node.ofExpr, Node.ofStmt, Expr.named, Item.ofValue]
  have finite : EveryFloat IsNumber (nodes .member sampleMember) := by
    intro x mem
    rw [floats x mem, IsNumber]
    decide +kernel
  have printed : EveryFloat Json.ReadsBack (nodes .member sampleMember) := by
    intro x mem
    have text : Json.numberText (.float 1.5) = "1.5" := by decide +kernel
    have literal : Literal.ofChars? "1.5".toList = some ⟨false, ['1'], ['5'], none⟩ := rfl
    have value : Literal.float? ⟨false, ['1'], ['5'], none⟩ = some 1.5 := by decide +kernel
    rw [floats x mem, Json.ReadsBack, text, literal]
    simp [Literal.value, Literal.int?, Literal.isInteger, value]
  have room : (toJson .member sampleMember).depth ≤ Json.nestingLimit := by decide +kernel
  exact ⟨finite, printed, room, tree_read_back .member sampleMember finite printed room⟩

end TreeType

end Zephirize
