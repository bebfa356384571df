import Mathlib.Data.List.Nodup
import Mathlib.Tactic
import Zephirize.Proofs.Json.Records

/-!
# The declared fields of trees

The objects in the JSON of a tree are plain records and nodes with a kind, and both have declared
fields. A declaration says when a field may be missing and what its value is, so that one relation
describes how the JSON of any tree can be laid out.

* `FieldDecl`, `Shape` — a declared field, and what a value is.
* `RecordType.fields`, `Family.forms` — the declarations.
* `Relaid` — a value whose objects are laid out anew: their fields in any order, unknown ones added,
  and those left out that hold what stands for a missing field.
* `Relaid.readable` — what is laid out anew could be read.
* `FieldDecl.Matches` — what two such objects say about a declared field.
-/

namespace Zephirize

/-! ### Declarations -/

/-- When a field may be missing. -/
inductive Presence where
  | required
  | optional
  | defaulted (value : Json)

/-- What a missing field stands for. -/
def Presence.standIn? : Presence → Option Json
  | .required => none
  | .optional => some .null
  | .defaulted v => some v

/-- The types of nodes with a kind. -/
inductive Family where
  | expr
  | stmt
  | hint
  | member

/-- The types of plain records. -/
inductive RecordType where
  | name
  | item
  | argument
  | staticLocal
  | elseIf
  | case
  | handler
  | param
  | cls
  | imported
  | file

/-- What a value is. -/
inductive Shape where
  /-- A value without declared fields. -/
  | plain
  | list (item : Shape)
  | nullable (value : Shape)
  | record (type : RecordType)
  | node (family : Family)
  /-- The name of a variable: a string, or else an expression. -/
  | varRef

/-- A declared field. -/
structure FieldDecl where
  name : String
  presence : Presence
  shape : Shape

namespace FieldDecl

/-- A field that has to be given. -/
abbrev required (name : String) (shape : Shape) : FieldDecl := ⟨name, .required, shape⟩

/-- A field that may be missing or `null`. -/
abbrev optional (name : String) (shape : Shape) : FieldDecl := ⟨name, .optional, .nullable shape⟩

/-- A field with a default. -/
abbrev defaulted (name : String) (value : Json) (shape : Shape) : FieldDecl :=
  ⟨name, .defaulted value, shape⟩

/-- A truth value that is false by default. -/
abbrev flag (name : String) : FieldDecl := defaulted name (.bool false) .plain

/-- A list that is empty by default. -/
abbrev many (name : String) (item : Shape) : FieldDecl := defaulted name (.arr []) (.list item)

end FieldDecl

open FieldDecl (required optional defaulted flag many)

/-- The fields of plain records. -/
def RecordType.fields : RecordType → List FieldDecl
  | .name => [required "parts" (.list .plain), flag "fully_qualified"]
  | .item =>
    [optional "key" (.node .expr), required "value" (.node .expr), flag "by_ref", flag "unpack"]
  | .argument => [required "value" (.node .expr), flag "by_ref", flag "unpack"]
  | .staticLocal => [required "name" .plain, optional "default" (.node .expr)]
  | .elseIf => [required "cond" (.node .expr), required "body" (.list (.node .stmt))]
  | .case => [optional "test" (.node .expr), required "body" (.list (.node .stmt))]
  | .handler =>
    [required "types" (.list (.record .name)), optional "var" .plain,
      required "body" (.list (.node .stmt))]
  | .param =>
    [required "name" .plain, optional "type_hint" (.node .hint), optional "default" (.node .expr),
      flag "by_ref", flag "variadic"]
  | .cls =>
    [defaulted "kind" (.str "Class") .plain, required "name" .plain,
      defaulted "flags" (.str "") .plain, many "extends" (.record .name),
      many "implements" (.record .name), many "members" (.node .member), optional "doc" .plain]
  | .imported => [required "name" (.record .name), optional "alias" .plain]
  | .file =>
    [defaulted "path" .null (.nullable .plain), optional "namespace" (.record .name),
      many "uses" (.record .imported), many "classes" (.record .cls)]

/-- The kinds of expressions with their fields. -/
def Expr.forms : List (String × List FieldDecl) :=
  [("Variable", [required "name" .varRef]),
    ("Assign", [required "target" (.node .expr), required "value" (.node .expr), flag "by_ref"]),
    ("AssignOp",
      [required "op" .plain, required "target" (.node .expr), required "value" (.node .expr)]),
    ("IncDec", [required "op" .plain, required "target" (.node .expr)]),
    ("PropertyFetch", [required "object" (.node .expr), required "property" .plain]),
    ("StaticPropertyFetch", [required "class" (.record .name), required "property" .plain]),
    ("ArrayDimFetch", [required "base" (.node .expr), optional "dim" (.node .expr)]),
    ("List", [required "items" (.list (.nullable (.record .item)))]),
    ("Array", [required "items" (.list (.record .item))]),
    ("FuncCall", [required "name" (.record .name), many "args" (.record .argument)]),
    ("MethodCall",
      [required "object" (.node .expr), required "method" .plain,
        many "args" (.record .argument)]),
    ("StaticCall",
      [required "class" (.record .name), required "method" .plain,
        many "args" (.record .argument)]),
    ("New", [required "class" (.record .name), many "args" (.record .argument)]),
    ("ClassConstFetch", [required "class" (.record .name), required "constant" .plain]),
    ("ConstFetch", [required "name" (.record .name)]),
    ("String", [required "value" .plain]),
    ("Int", [required "value" .plain]),
    ("Float", [required "value" .plain]),
    ("BinaryOp",
      [required "op" .plain, required "left" (.node .expr), required "right" (.node .expr)]),
    ("UnaryOp", [required "op" .plain, required "operand" (.node .expr)]),
    ("Ternary",
      [required "cond" (.node .expr), optional "then" (.node .expr),
        required "otherwise" (.node .expr)]),
    ("Isset", [required "vars" (.list (.node .expr))]),
    ("Empty", [required "expr" (.node .expr)]),
    ("Instanceof", [required "expr" (.node .expr), required "class" (.record .name)]),
    ("Cast", [required "to" .plain, required "expr" (.node .expr)]),
    ("Eval", [required "expr" (.node .expr)]),
    ("ShellExec", [required "parts" (.list (.node .expr))])]

/-- The kinds of statements with their fields. -/
def Stmt.forms : List (String × List FieldDecl) :=
  [("Expression", [required "expr" (.node .expr)]),
    ("Return", [optional "expr" (.node .expr)]),
    ("If",
      [required "cond" (.node .expr), required "then" (.list (.node .stmt)),
        many "elseifs" (.record .elseIf), optional "otherwise" (.list (.node .stmt))]),
    ("While", [required "cond" (.node .expr), required "body" (.list (.node .stmt))]),
    ("DoWhile", [required "body" (.list (.node .stmt)), required "cond" (.node .expr)]),
    ("For",
      [many "init" (.node .expr), many "cond" (.node .expr), many "step" (.node .expr),
        required "body" (.list (.node .stmt))]),
    ("Foreach",
      [required "expr" (.node .expr), optional "key" (.node .expr), required "value" (.node .expr),
        flag "by_ref", required "body" (.list (.node .stmt))]),
    ("Switch", [required "subject" (.node .expr), required "cases" (.list (.record .case))]),
    ("Static", [required "vars" (.list (.record .staticLocal))]),
    ("TryCatch",
      [required "body" (.list (.node .stmt)), many "catches" (.record .handler),
        optional "finally" (.list (.node .stmt))]),
    ("Throw", [required "expr" (.node .expr)]),
    ("Break", []),
    ("Continue", []),
    ("Echo", [required "exprs" (.list (.node .expr))]),
    ("Unset", [required "vars" (.list (.node .expr))]),
    ("Goto", [required "label" .plain]),
    ("Label", [required "name" .plain]),
    ("InlineHtml", [required "value" .plain]),
    ("Nop", [])]

/-- The kinds of types with their fields. -/
def TypeExpr.forms : List (String × List FieldDecl) :=
  [("Identifier", [required "name" .plain]),
    ("Name", [required "name" (.record .name)]),
    ("Nullable", [required "inner" (.node .hint)]),
    ("Union", [required "types" (.list (.node .hint))])]

/-- The kinds of class members with their fields. -/
def Member.forms : List (String × List FieldDecl) :=
  [("Method",
      [required "name" .plain, defaulted "flags" (.str "") .plain, flag "by_ref",
        many "params" (.record .param), optional "return_type" (.node .hint),
        optional "body" (.list (.node .stmt)), optional "doc" .plain]),
    ("Property",
      [required "name" .plain, defaulted "flags" (.str "") .plain, optional "default" (.node .expr),
        optional "doc" .plain]),
    ("Constant", [required "name" .plain, required "value" (.node .expr)])]

/-- The kinds of a family with their fields. -/
def Family.forms : Family → List (String × List FieldDecl)
  | .expr => Expr.forms
  | .stmt => Stmt.forms
  | .hint => TypeExpr.forms
  | .member => Member.forms

/-- The names of declared fields. -/
def fieldNames (fields : List FieldDecl) : List String := fields.map FieldDecl.name

/-! ### Values laid out anew -/

mutual

/-- The second value is the first one with its objects laid out anew, and its nodes satisfy `ok`. -/
inductive Relaid (ok : Json → Prop) : Shape → Json → Json → Prop where
  | plain {v : Json} (readable : v.readable = true) : Relaid ok .plain v v
  | list {shape : Shape} {ws vs : List Json} (items : RelaidItems ok shape ws vs) :
      Relaid ok (.list shape) (.arr ws) (.arr vs)
  | null {shape : Shape} : Relaid ok (.nullable shape) .null .null
  | given {shape : Shape} {w v : Json} (h : Relaid ok shape w v) : Relaid ok (.nullable shape) w v
  | literal (name : String) : Relaid ok .varRef (.str name) (.str name)
  | computed {w v : Json} (h : Relaid ok (.node .expr) w v) : Relaid ok .varRef w v
  | record {type : RecordType} {ws kept added vs : List (String × Json)}
      (fields : RelaidFields ok type.fields ws kept)
      (unknown : ∀ field ∈ added, field.1 ∉ fieldNames type.fields)
      (order : vs.Perm (kept ++ added)) : Relaid ok (.record type) (.obj ws) (.obj vs)
  | node {family : Family} {kind : String} {decl : List FieldDecl}
      {ws kept added vs : List (String × Json)} (form : (kind, decl) ∈ family.forms)
      (fields : RelaidFields ok decl ws kept)
      (unknown : ∀ field ∈ added, field.1 ∉ "kind" :: fieldNames decl)
      (order : vs.Perm (("kind", .str kind) :: (kept ++ added))) (holds : ok (.obj vs)) :
      Relaid ok (.node family) (.node kind ws) (.obj vs)

/-- The items of the second list are those of the first one, laid out anew. -/
inductive RelaidItems (ok : Json → Prop) : Shape → List Json → List Json → Prop where
  | nil {shape : Shape} : RelaidItems ok shape [] []
  | cons {shape : Shape} {w v : Json} {ws vs : List Json} (h : Relaid ok shape w v)
      (rest : RelaidItems ok shape ws vs) : RelaidItems ok shape (w :: ws) (v :: vs)

/-- The second list has the declared fields of the first one, laid out anew, but for some that hold
what stands for a missing field. -/
inductive RelaidFields (ok : Json → Prop) :
    List FieldDecl → List (String × Json) → List (String × Json) → Prop where
  | nil : RelaidFields ok [] [] []
  | keep {field : FieldDecl} {decl : List FieldDecl} {w v : Json} {ws vs : List (String × Json)}
      (h : Relaid ok field.shape w v) (rest : RelaidFields ok decl ws vs) :
      RelaidFields ok (field :: decl) ((field.name, w) :: ws) ((field.name, v) :: vs)
  | leave {field : FieldDecl} {decl : List FieldDecl} {w : Json} {ws vs : List (String × Json)}
      (h : field.presence.standIn? = some w) (rest : RelaidFields ok decl ws vs) :
      RelaidFields ok (field :: decl) ((field.name, w) :: ws) vs

end

/-! ### Sound declarations -/

/-- The declared fields have different names, and what stands for a missing one can be read. -/
def Sound (decl : List FieldDecl) : Prop :=
  (fieldNames decl).Nodup ∧ ∀ field ∈ decl, ∀ v ∈ field.presence.standIn?, v.readable = true

theorem RecordType.sound_fields (type : RecordType) : Sound type.fields := by
  cases type <;>
    simp [Sound, fields, fieldNames, Presence.standIn?, Json.readable, Json.readableItems]

theorem Family.sound_form {family : Family} :
    ∀ form ∈ family.forms, Sound form.2 ∧ "kind" ∉ fieldNames form.2 := by
  cases family <;>
    simp [Sound, forms, Expr.forms, Stmt.forms, TypeExpr.forms, Member.forms, fieldNames,
      Presence.standIn?, Json.readable, Json.readableItems]

section Readable

variable {ok : Json → Prop}

/-- What is laid out anew could be read. -/
theorem Relaid.readable {shape : Shape} {w v : Json} (h : Relaid ok shape w v) :
    w.readable = true := by
  refine @Relaid.rec ok (fun _ w _ _ => w.readable = true)
    (fun _ ws _ _ => Json.readableItems ws = true)
    (fun decl ws _ _ => (∀ field ∈ decl, ∀ v ∈ field.presence.standIn?, v.readable = true) →
      Json.readableFields ws = true)
    ?plain ?list ?null ?given ?literal ?computed ?record ?node ?nil ?cons ?noFields ?keep ?leave
    shape w v h
  case plain => exact fun readable => readable
  case list => exact fun _ items => items
  case null => exact rfl
  case given => exact fun _ readable => readable
  case literal => exact fun _ => rfl
  case computed => exact fun _ readable => readable
  case record =>
    intro type ws kept added vs _ _ _ fields
    exact fields type.sound_fields.2
  case node =>
    intro family kind decl ws kept added vs form _ _ _ _ fields
    exact fields (Family.sound_form _ form).1.2
  case nil => exact rfl
  case cons =>
    intro shape w v ws vs _ _ first rest
    rw [Json.readableItems, first, rest, Bool.true_and]
  case noFields => exact fun _ => rfl
  case keep =>
    intro field decl w v ws vs _ _ first rest standIns
    rw [Json.readableFields, first, Bool.true_and]
    exact rest (List.forall_mem_cons.1 standIns).2
  case leave =>
    intro field decl w ws vs stands _ rest standIns
    rw [List.forall_mem_cons] at standIns
    rw [Json.readableFields, standIns.1 w stands, Bool.true_and]
    exact rest standIns.2

end Readable

/-! ### What two objects say about a field -/

theorem lookup_eq_some {name : String} {v : Json} {fields : List (String × Json)}
    (mem : (name, v) ∈ fields) (only : ∀ u, (name, u) ∈ fields → u = v) :
    fields.lookup name = some v := by
  induction fields with
  | nil => cases mem
  | cons field rest ih =>
    obtain ⟨other, u⟩ := field
    by_cases same : name = other
    · subst same
      rw [List.lookup_cons_self, only u List.mem_cons_self]
    · have differ : (name == other) = false := by simpa using same
      have later : (name, v) ∈ rest := by simpa [same] using mem
      rw [List.lookup_cons, differ]
      exact ih later fun u hu => only u (List.mem_cons_of_mem _ hu)

theorem lookup_eq_none {name : String} {fields : List (String × Json)}
    (h : name ∉ fields.map Prod.fst) : fields.lookup name = none := by
  rw [List.lookup_eq_none_iff]
  intro field mem
  have differ : name ≠ field.1 := fun same => h (same ▸ List.mem_map_of_mem mem)
  simpa using differ

section Fields

variable {ok : Json → Prop} {decl : List FieldDecl} {ws kept added vs : List (String × Json)}

namespace RelaidFields

theorem names_written (h : RelaidFields ok decl ws kept) : ws.map Prod.fst = fieldNames decl := by
  induction decl generalizing ws kept with
  | nil =>
    cases h
    rfl
  | cons field decl ih =>
    cases h with
    | keep _ rest => exact congrArg (field.name :: ·) (ih rest)
    | leave _ rest => exact congrArg (field.name :: ·) (ih rest)

theorem names_kept (h : RelaidFields ok decl ws kept) :
    (kept.map Prod.fst).Sublist (fieldNames decl) := by
  induction decl generalizing ws kept with
  | nil =>
    cases h
    exact .slnil
  | cons field decl ih =>
    cases h with
    | keep _ rest => exact (ih rest).cons_cons field.name
    | leave _ rest => exact (ih rest).cons field.name

/-- A declared field is written, and kept or left out. -/
theorem field (h : RelaidFields ok decl ws kept) (names : (fieldNames decl).Nodup)
    {field : FieldDecl} (mem : field ∈ decl) :
    ∃ w, (field.name, w) ∈ ws ∧
      ((∃ v, (field.name, v) ∈ kept ∧ Relaid ok field.shape w v) ∨
        field.name ∉ kept.map Prod.fst ∧ field.presence.standIn? = some w) := by
  induction decl generalizing ws kept with
  | nil => cases mem
  | cons first decl ih =>
    have distinct := List.nodup_cons.1 names
    rcases List.mem_cons.1 mem with rfl | mem
    · cases h with
      | @keep _ _ w v _ _ h rest =>
        exact ⟨w, List.mem_cons_self, .inl ⟨v, List.mem_cons_self, h⟩⟩
      | @leave _ _ w _ _ stands rest =>
        refine ⟨w, List.mem_cons_self, .inr ⟨fun again => ?_, stands⟩⟩
        exact distinct.1 (rest.names_kept.subset again)
    · have other : field.name ≠ first.name := fun same =>
        distinct.1 (same ▸ List.mem_map_of_mem mem)
      cases h with
      | keep _ rest =>
        obtain ⟨w, written, laid⟩ := ih rest distinct.2 mem
        refine ⟨w, List.mem_cons_of_mem _ written, laid.imp ?_ ?_⟩
        · rintro ⟨v, inside, h⟩
          exact ⟨v, List.mem_cons_of_mem _ inside, h⟩
        · rintro ⟨absent, stands⟩
          exact ⟨List.not_mem_cons_of_ne_of_not_mem other absent, stands⟩
      | leave _ rest =>
        obtain ⟨w, written, laid⟩ := ih rest distinct.2 mem
        exact ⟨w, List.mem_cons_of_mem _ written, laid⟩

end RelaidFields

/-- What two objects say about a declared field: the second one gives it, and so does the first one
unless it holds what stands for a missing field. Values of the objects nest at most `n` and `m`
levels. -/
def FieldDecl.Matches (ok : Json → Prop) (n m : ℕ) (vs ws : List (String × Json))
    (field : FieldDecl) : Prop :=
  ∃ w, (Record.named ws).slot field.name = .given w ∧ w.depth ≤ m ∧
    ((∃ v, (Record.named vs).slot field.name = .given v ∧ v.depth ≤ n ∧
        Relaid ok field.shape w v) ∨
      (Record.named vs).slot field.name = .absent ∧ field.presence.standIn? = some w)

/-- Two objects match in the declared fields. -/
def Matched (ok : Json → Prop) (n m : ℕ) (vs ws : List (String × Json)) (decl : List FieldDecl) :
    Prop :=
  ∀ field ∈ decl, field.Matches ok n m vs ws

/-- Two objects are records that match in the declared fields. -/
structure Matching (ok : Json → Prop) (n m : ℕ) (decl : List FieldDecl)
    (vs ws : List (String × Json)) : Prop where
  record : (Json.obj vs).record? (fieldNames decl) = some (.named vs)
  written : (Json.obj ws).record? (fieldNames decl) = some (.named ws)
  fields : Matched ok n m vs ws decl

theorem slot_given {name : String} {v : Json} (h : vs.lookup name = some v) :
    (Record.named vs).slot name = .given v := by
  rw [Record.slot, h]

theorem slot_absent {name : String} (h : vs.lookup name = none) :
    (Record.named vs).slot name = .absent := by
  rw [Record.slot, h]

/-- Fields that are laid out anew, in any order and with unknown ones among them, match those that
are written. -/
theorem RelaidFields.matching (h : RelaidFields ok decl ws kept) (names : (fieldNames decl).Nodup)
    (unknown : ∀ field ∈ added, field.1 ∉ fieldNames decl) (order : vs.Perm (kept ++ added))
    {n m : ℕ} (room : ∀ field ∈ vs, field.2.depth ≤ n) (room' : ∀ field ∈ ws, field.2.depth ≤ m) :
    Matching ok n m decl vs ws := by
  have distinctKept : (kept.map Prod.fst).Nodup := h.names_kept.nodup names
  have distinctWritten : (ws.map Prod.fst).Nodup := h.names_written ▸ names
  refine ⟨?_, Json.record?_obj distinctWritten, fun field mem => ?_⟩
  · -- Only the fields that are kept can have a declared name.
    rw [Json.record?, if_neg]
    simp only [List.any_eq_true, decide_eq_true_eq, not_exists, not_and, not_lt]
    intro name declared
    have none : added.countP (fun field => field.1 == name) = 0 := by
      rw [List.countP_eq_zero]
      intro field mem same
      exact unknown field mem (by rwa [eq_of_beq same])
    have once := List.nodup_iff_count_le_one.1 distinctKept name
    rw [List.count, List.countP_map] at once
    rw [order.countP_eq, List.countP_append, none, Nat.add_zero]
    exact once
  · obtain ⟨w, written, laid⟩ := h.field names mem
    have given : ws.lookup field.name = some w :=
      lookup_eq_some written fun u hu =>
        congrArg Prod.snd (List.inj_on_of_nodup_map distinctWritten hu written rfl)
    refine ⟨w, slot_given given, room' _ written, ?_⟩
    have declared : field.name ∈ fieldNames decl := List.mem_map_of_mem mem
    rcases laid with ⟨v, inside, h⟩ | ⟨absent, stands⟩
    · have here : (field.name, v) ∈ vs := order.mem_iff.2 (List.mem_append_left _ inside)
      refine .inl ⟨v, slot_given (lookup_eq_some here fun u hu => ?_), room _ here, h⟩
      rcases List.mem_append.1 (order.mem_iff.1 hu) with hu | hu
      · exact congrArg Prod.snd (List.inj_on_of_nodup_map distinctKept hu inside rfl)
      · exact absurd declared (unknown _ hu)
    · refine .inr ⟨slot_absent (lookup_eq_none fun again => ?_), stands⟩
      obtain ⟨other, hu, same⟩ := List.mem_map.1 again
      rcases List.mem_append.1 (order.mem_iff.1 hu) with hu | hu
      · exact absent (same ▸ List.mem_map_of_mem hu)
      · exact unknown other hu (same ▸ declared)

/-- A record that is laid out anew. -/
theorem Relaid.matching_record {type : RecordType} {w v : Json}
    (h : Relaid ok (.record type) w v) :
    ∃ vs ws, v = .obj vs ∧ w = .obj ws ∧
      ∀ n m, v.depth ≤ n → w.depth ≤ m → Matching ok n m type.fields vs ws := by
  cases h with
  | @record _ ws kept added vs fields unknown order =>
    refine ⟨vs, ws, rfl, rfl, fun n m room room' => ?_⟩
    refine fields.matching type.sound_fields.1 unknown order ?_ ?_
    · exact Json.depth_obj_le.1 (Nat.le_succ_of_le room)
    · exact Json.depth_obj_le.1 (Nat.le_succ_of_le room')

/-- The kind of a node is found wherever it stands. -/
theorem tagged?_of_perm {kind : String} {fields : List (String × Json)}
    (order : vs.Perm (("kind", .str kind) :: fields))
    (others : ∀ field ∈ fields, field.1 ≠ "kind") :
    (Json.obj vs).tagged? =
        some ⟨.str kind, .obj (vs.filter fun field => field.1 != "kind")⟩ ∧
      (vs.filter fun field => field.1 != "kind").Perm fields := by
  have none : fields.filter (fun field => field.1 == "kind") = [] := by
    simpa using fun name v mem => others (name, v) mem
  have all : fields.filter (fun field => field.1 != "kind") = fields := by
    simpa using fun name v mem => others (name, v) mem
  have kinds := order.filter fun field => field.1 == "kind"
  have rest := order.filter fun field => field.1 != "kind"
  rw [List.filter_cons_of_pos rfl, none] at kinds
  rw [List.filter_cons_of_neg (by simp), all] at rest
  exact ⟨by rw [Json.tagged?, List.perm_singleton.1 kinds], rest⟩

/-- A node that is laid out anew. -/
theorem Relaid.matching_node {family : Family} {w v : Json} (h : Relaid ok (.node family) w v) :
    ok v ∧ ∃ kind decl vs ws, (kind, decl) ∈ family.forms ∧
      v.tagged? = some ⟨.str kind, .obj vs⟩ ∧ w.tagged? = some ⟨.str kind, .obj ws⟩ ∧
      0 < v.depth ∧ 0 < w.depth ∧
      ∀ n m, v.depth ≤ n + 1 → w.depth ≤ m + 1 → Matching ok n m decl vs ws := by
  cases h with
  | @node _ kind decl ws kept added vs form fields unknown order holds =>
    obtain ⟨sound, tag⟩ := Family.sound_form _ form
    have others : ∀ field ∈ kept ++ added, field.1 ≠ "kind" := by
      intro field mem same
      rcases List.mem_append.1 mem with mem | mem
      · exact tag (same ▸ fields.names_kept.subset (List.mem_map_of_mem mem))
      · exact unknown field mem (same ▸ List.mem_cons_self)
    have writtenOthers : ∀ field ∈ ws, field.1 ≠ "kind" := fun field mem same =>
      tag (fields.names_written ▸ same ▸ List.mem_map_of_mem mem)
    obtain ⟨tagged, rest⟩ := tagged?_of_perm order others
    refine ⟨holds, kind, decl, _, ws, form, tagged, Json.tagged?_node writtenOthers,
      by rw [Json.depth]; omega, by rw [Json.node, Json.depth]; omega, fun n m room room' => ?_⟩
    refine fields.matching sound.1 (fun field mem declared => ?_) rest ?_ ?_
    · exact unknown field mem (List.mem_cons_of_mem _ declared)
    · exact fun field mem => Json.depth_obj_le.1 room field (List.mem_of_mem_filter mem)
    · exact fun field mem => Json.depth_node_le.1 room' field mem

end Fields

end Zephirize
