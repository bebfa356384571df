import Mathlib.Tactic
import Zephirize.Proofs.Tree.RoundTrip
import Zephirize.Proofs.Tree.Schema

/-!
# Trees are written as declared

The JSON of every tree has the fields that are declared for it, in the order of their declarations.
So it is one of its own layouts (`TreeType.conforms_toJson`), and whatever holds of the layouts of a
tree holds of something.
-/

namespace Zephirize

open Json (node ofOption ofList)

/-- The value is laid out anew, and all of its nodes can be read throughout. -/
abbrev Legible : Shape → Json → Json → Prop := Relaid fun v => v.readable = true

/-- The value is one of its own layouts. -/
def Conforms (shape : Shape) (v : Json) : Prop := Legible shape v v

/-- The fields are the declared ones, in the order of their declarations. -/
def ConformingFields (decl : List FieldDecl) (ws : List (String × Json)) : Prop :=
  List.Forall₂ (fun field w => w.1 = field.name ∧ Conforms field.shape w.2) decl ws

section

variable {α : Type} {shape : Shape} {v : Json} {write : α → Json} {decl : List FieldDecl}
  {field : FieldDecl} {name : String} {ws : List (String × Json)}

@[simp]
theorem conformingFields_nil : ConformingFields [] [] := .nil

@[simp]
theorem conformingFields_cons :
    ConformingFields (field :: decl) ((name, v) :: ws) ↔
      (name = field.name ∧ Conforms field.shape v) ∧ ConformingFields decl ws :=
  List.forall₂_cons

theorem ConformingFields.relaid (h : ConformingFields decl ws) :
    RelaidFields (fun v => v.readable = true) decl ws ws := by
  induction h with
  | nil => exact .nil
  | @cons field w _ _ first _ ih =>
    obtain ⟨name, v⟩ := w
    obtain ⟨rfl, h⟩ := first
    exact .keep h ih

theorem ConformingFields.readable (h : ConformingFields decl ws) :
    Json.readableFields ws = true := by
  induction h with
  | nil => rfl
  | cons first _ ih => rw [Json.readableFields, Relaid.readable first.2, ih, Bool.true_and]

namespace Conforms

@[simp]
theorem str (text : String) : Conforms .plain (.str text) := Relaid.plain rfl

@[simp]
theorem bool (b : Bool) : Conforms .plain (.bool b) := Relaid.plain rfl

@[simp]
theorem int (i : ℤ) : Conforms .plain (.num (.int i)) := Relaid.plain rfl

@[simp]
theorem float (x : Float) : Conforms .plain (.ofFloat x) := by
  refine Relaid.plain ?_
  unfold Json.ofFloat
  split_ifs
  · rfl
  · rfl

@[simp]
theorem list {items : List α} (h : ∀ a ∈ items, Conforms shape (write a)) :
    Conforms (.list shape) (ofList write items) := by
  refine Relaid.list ?_
  induction items with
  | nil => exact .nil
  | cons a rest ih =>
    rw [List.forall_mem_cons] at h
    exact .cons h.1 (ih h.2)

@[simp]
theorem nullable {item : Option α} (h : ∀ a ∈ item, Conforms shape (write a)) :
    Conforms (.nullable shape) (ofOption write item) := by
  cases item with
  | none => exact .null
  | some a => exact .given (h a rfl)

@[simp]
theorem nullableList {items : Option (List α)}
    (h : ∀ list ∈ items, ∀ a ∈ list, Conforms shape (write a)) :
    Conforms (.nullable (.list shape)) (ofOption (ofList write) items) :=
  nullable fun list mem => .list (h list mem)

theorem record {type : RecordType} (h : ConformingFields type.fields ws) :
    Conforms (.record type) (.obj ws) :=
  Relaid.record h.relaid (List.forall_mem_nil _) (by rw [List.append_nil])

theorem node {family : Family} {kind : String} (form : family.forms.lookup kind = some decl)
    (h : ConformingFields decl ws) : Conforms (.node family) (Json.node kind ws) := by
  obtain ⟨before, after, forms, _⟩ := List.lookup_eq_some_iff.1 form
  have mem : (kind, decl) ∈ family.forms := by
    rw [forms]
    exact List.mem_append_right _ List.mem_cons_self
  exact Relaid.node mem h.relaid (List.forall_mem_nil _) (by rw [List.append_nil]) h.readable

end Conforms

end

/-! ### Nodes -/

@[simp]
theorem Name.conforms_toJson (n : Name) : Conforms (.record .name) n.toJson := by
  refine .record ?_
  simp [RecordType.fields]

/-- What the JSON of a node is. -/
def Node.shape : Node → Shape
  | .stmt _ => .node .stmt
  | .expr _ => .node .expr
  | .argument _ => .record .argument
  | .item _ => .record .item
  | .elseIf _ => .record .elseIf
  | .case _ => .record .case
  | .handler _ => .record .handler
  | .staticLocal _ => .record .staticLocal

theorem Expr.conforms_of_children {e : Expr} (h : ∀ c ∈ Node.ofExpr e, Conforms c.shape c.toJson) :
    Conforms (.node .expr) e.toJson := by
  cases e
  case var name =>
    refine .node rfl ?_
    cases name with
    | literal name => exact .cons ⟨rfl, .literal name⟩ .nil
    | dynamic e => exact .cons ⟨rfl, .computed (h (.expr e) List.mem_cons_self)⟩ .nil
  case list items =>
    simp only [Node.ofExpr, List.forall_mem_map, forall_mem_slots, Node.toJson, Node.shape] at h
    have slots : ∀ slot ∈ items, Conforms (.nullable (.record .item)) (ofOption Item.toJson slot) :=
      fun slot mem => .nullable (h slot mem)
    refine .node rfl ?_
    simpa using Conforms.list slots
  all_goals
    simp only [Node.ofExpr, List.forall_mem_cons, List.forall_mem_append, List.forall_mem_map,
      Option.mem_toList, Node.toJson, Node.shape] at h
    refine .node rfl ?_
    simp +contextual [h]

theorem Stmt.conforms_of_children {s : Stmt} (h : ∀ c ∈ Node.ofStmt s, Conforms c.shape c.toJson) :
    Conforms (.node .stmt) s.toJson := by
  cases s
  all_goals
    simp only [Node.ofStmt, List.forall_mem_cons, List.forall_mem_append, List.forall_mem_map,
      Option.mem_toList, forall_mem_getD, Node.toJson, Node.shape] at h
    refine .node rfl ?_
    simp +contextual [h]

theorem Node.conforms_toJson (m : Node) : Conforms m.shape m.toJson := by
  induction m using Node.induction with
  | step m ih =>
    cases m with
    | expr e => exact Expr.conforms_of_children ih
    | stmt s => exact Stmt.conforms_of_children ih
    | argument c | item c | elseIf c | case c | handler c | staticLocal c =>
      cases c
      simp only [Node.children, List.forall_mem_cons, List.forall_mem_append, List.forall_mem_map,
        Option.mem_toList, Node.toJson, Node.shape] at ih
      refine .record ?_
      simp +contextual [RecordType.fields, ih]

@[simp]
theorem TypeExpr.conforms_toJson (t : TypeExpr) : Conforms (.node .hint) t.toJson := by
  induction t using TypeExpr.induction with
  | builtin | ofClass => exact .node rfl (by simp)
  | nullable inner ih => exact .node rfl (by simp [ih])
  | union types ih => exact .node rfl (by simp +contextual [ih])

/-! ### Declarations -/

@[simp]
theorem Expr.conforms_toJson (e : Expr) : Conforms (.node .expr) e.toJson :=
  Node.conforms_toJson (.expr e)

@[simp]
theorem Stmt.conforms_toJson (s : Stmt) : Conforms (.node .stmt) s.toJson :=
  Node.conforms_toJson (.stmt s)

@[simp]
theorem Modifiers.conforms_toJson (m : Modifiers) : Conforms .plain m.toJson := .str m.text

@[simp]
theorem Param.conforms_toJson (p : Param) : Conforms (.record .param) p.toJson := by
  refine .record ?_
  simp [RecordType.fields]

@[simp]
theorem Member.conforms_toJson (m : Member) : Conforms (.node .member) m.toJson := by
  cases m with
  | method m => exact .node rfl (by simp [Method.fields])
  | property p => exact .node rfl (by simp)
  | constant c => exact .node rfl (by simp)

@[simp]
theorem ClassDecl.conforms_toJson (c : ClassDecl) : Conforms (.record .cls) c.toJson := by
  refine .record ?_
  simp [RecordType.fields]

@[simp]
theorem Import.conforms_toJson (u : Import) : Conforms (.record .imported) u.toJson := by
  refine .record ?_
  simp [RecordType.fields]

theorem SourceFile.conforms_toJson (f : SourceFile) : Conforms (.record .file) f.toJson := by
  refine .record ?_
  simp [RecordType.fields]

namespace TreeType

/-- What the JSON of a tree is. -/
def shape : TreeType → Shape
  | .file => .record .file
  | .cls => .record .cls
  | .member => .node .member
  | .stmt => .node .stmt
  | .expr => .node .expr
  | .hint => .node .hint
  | .name => .record .name

/-- The JSON of a tree is one of its own layouts. -/
theorem conforms_toJson (type : TreeType) (t : type.Tree) :
    Conforms type.shape (type.toJson t) := by
  cases type with
  | file => exact SourceFile.conforms_toJson t
  | cls => exact ClassDecl.conforms_toJson t
  | member => exact Member.conforms_toJson t
  | stmt => exact Stmt.conforms_toJson t
  | expr => exact Expr.conforms_toJson t
  | hint => exact TypeExpr.conforms_toJson t
  | name => exact Name.conforms_toJson t

end TreeType

end Zephirize
