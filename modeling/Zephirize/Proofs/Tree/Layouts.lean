import Zephirize.Proofs.Tree.Conformity

/-!
# Reading does not depend on the layout

Two readers agree on a shape if they give the same for a value that is laid out anew and for the
value as it is written. Readers of fields agree if those of their values do, and so do the readers
of records and nodes, one declaration after the other. A reader of nodes takes a bound on the number
of levels, and the two values need not have the same depth; so agreement is between readers with any
two bounds that leave room (`Agree`).

`TreeType.reads_every_layout`: a tree is read from every layout of its JSON whose nodes can be read
throughout, and so from the text of each layout whose floats read back. Without the former this fails
(`TreeType.unreadable_addition_refused`).
-/

namespace Zephirize

open Json (str? bool? list? nullable?)

/-- The readers give the same for what is laid out anew and for what is written, as long as the
values nest at most `n` and `m` levels. -/
def Agree {α : Type} (ok : Json → Prop) (n m : ℕ) (shape : Shape) (f g : Json → Option α) : Prop :=
  ∀ w v, Relaid ok shape w v → v.depth ≤ n → w.depth ≤ m → f v = g w

section Fields

variable {α β : Type} {ok : Json → Prop} {n m : ℕ} {shape : Shape} {f g : Json → Option α}
  {k k' : α → Option β} {name : String} {decl : List FieldDecl} {vs ws : List (String × Json)}

theorem Relaid.eq_null_iff {w v : Json} (h : Relaid ok shape w v) : v = .null ↔ w = .null := by
  induction shape generalizing w v with
  | plain =>
    cases h
    rfl
  | list | record =>
    cases h
    simp
  | node =>
    cases h
    simp [Json.node]
  | nullable shape ih =>
    cases h with
    | null => rfl
    | given h => exact ih h
  | varRef =>
    cases h with
    | literal => simp
    | computed h =>
      cases h
      simp [Json.node]

theorem nullable?_of_ne {v : Json} (h : v ≠ .null) : nullable? f v = (f v).map some := by
  cases v <;> first | exact absurd rfl h | rfl

theorem optional_of_given {v : Json} (h : (Record.named vs).slot name = .given v) :
    (Record.named vs).optional name f = nullable? f v := by
  rw [Record.optional, h]
  cases v <;> rfl

namespace Agree

theorem plain (f : Json → Option α) : Agree ok n m .plain f f := by
  intro w v h _ _
  cases h
  rfl

theorem list (h : Agree ok n m shape f g) : Agree ok n m (.list shape) (list? f) (list? g) := by
  intro w v laid room room'
  cases laid with
  | @list _ ws vs items =>
    rw [Json.depth] at room room'
    have inside : ∀ v ∈ vs, v.depth ≤ n := Json.depthItems_le_iff.1 (by omega)
    have inside' : ∀ w ∈ ws, w.depth ≤ m := Json.depthItems_le_iff.1 (by omega)
    clear room room'
    rw [list?, list?]
    induction ws generalizing vs with
    | nil =>
      cases items
      rfl
    | cons w ws ih =>
      cases items with
      | cons first rest =>
        rw [List.forall_mem_cons] at inside inside'
        rw [List.mapM_cons, List.mapM_cons, h _ _ first inside.1 inside'.1,
          ih rest inside.2 inside'.2]

theorem nullable (h : Agree ok n m shape f g) :
    Agree ok n m (.nullable shape) (nullable? f) (nullable? g) := by
  intro w v laid room room'
  cases laid with
  | null => rfl
  | given laid =>
    by_cases null : v = .null
    · rw [null, laid.eq_null_iff.1 null]
      rfl
    · rw [nullable?_of_ne null, nullable?_of_ne (mt laid.eq_null_iff.2 null), h w v laid room room']

/-- The name of a variable; neither of the two values is taken for a string if it is a node. -/
theorem varRef {f g : Json → Option Expr} (h : Agree ok n m (.node .expr) f g) :
    Agree ok n m .varRef (VarRef.read? f) (VarRef.read? g) := by
  intro w v laid room room'
  cases laid with
  | literal => rfl
  | computed laid =>
    have same := h w v laid room room'
    cases laid with
    | node => exact congrArg (Option.map VarRef.dynamic) same

/-- A record, given what is known of its fields. -/
theorem record {type : RecordType} {f g : Json → Option α}
    (h : ∀ vs ws, Matching ok n m type.fields vs ws → f (.obj vs) = g (.obj ws)) :
    Agree ok n m (.record type) f g := by
  intro w v laid room room'
  obtain ⟨vs, ws, rfl, rfl, matching⟩ := laid.matching_record
  exact h vs ws (matching n m room room')

end Agree

theorem bind_eq_bind {x y : Option α} (same : x = y) (next : ∀ a, k a = k' a) :
    (x >>= k) = (y >>= k') := by
  rw [same]
  exact bind_congr next

/-- A step that uses the record of an object. -/
theorem Matching.read {names : List String} {k k' : Record → Option β}
    (h : Matching ok n m decl vs ws) (declared : fieldNames decl = names)
    (next : Matched ok n m vs ws decl → k (.named vs) = k' (.named ws)) :
    ((Json.obj vs).record? names >>= k) = ((Json.obj ws).record? names >>= k') := by
  rw [← declared, h.record, h.written]
  exact next h.fields

/-- A node without fields. -/
theorem Matching.bare {a : α} (h : Matching ok n m [] vs ws) :
    ((Json.obj vs).bare?.map fun _ => a) = (Json.obj ws).bare?.map fun _ => a := by
  have declared : fieldNames [] = [] := rfl
  rw [Json.bare?, Json.bare?, ← declared, h.record, h.written]
  rfl

namespace Matched

theorem required (h : Matched ok n m vs ws (.required name shape :: decl))
    (read : Agree ok n m shape f g) (next : Matched ok n m vs ws decl → ∀ a, k a = k' a) :
    ((Record.named vs).required name f >>= k) = ((Record.named ws).required name g >>= k') := by
  obtain ⟨first, rest⟩ := List.forall_mem_cons.1 h
  obtain ⟨w, written, room', ⟨v, given, room, laid⟩ | ⟨_, stands⟩⟩ := first
  · refine bind_eq_bind ?_ (next rest)
    rw [Record.required, given, Record.required, written]
    exact read w v laid room room'
  · cases stands

theorem optional (h : Matched ok n m vs ws (.optional name shape :: decl))
    (read : Agree ok n m shape f g)
    {k k' : Option α → Option β} (next : Matched ok n m vs ws decl → ∀ a, k a = k' a) :
    ((Record.named vs).optional name f >>= k) = ((Record.named ws).optional name g >>= k') := by
  obtain ⟨first, rest⟩ := List.forall_mem_cons.1 h
  obtain ⟨w, written, room', ⟨v, given, room, laid⟩ | ⟨absent, stands⟩⟩ := first
  · refine bind_eq_bind ?_ (next rest)
    rw [optional_of_given given, optional_of_given written]
    exact read.nullable w v laid room room'
  · refine bind_eq_bind ?_ (next rest)
    cases stands
    rw [optional_of_given written, Record.optional, absent]
    rfl

theorem defaulted {value : Json} {dflt : α}
    (h : Matched ok n m vs ws (.defaulted name value shape :: decl))
    (read : Agree ok n m shape f g) (stands : g value = some dflt)
    (next : Matched ok n m vs ws decl → ∀ a, k a = k' a) :
    ((Record.named vs).defaulted name dflt f >>= k) =
      ((Record.named ws).defaulted name dflt g >>= k') := by
  obtain ⟨first, rest⟩ := List.forall_mem_cons.1 h
  obtain ⟨w, written, room', ⟨v, given, room, laid⟩ | ⟨absent, standIn⟩⟩ := first
  · refine bind_eq_bind ?_ (next rest)
    rw [Record.defaulted, given, Record.defaulted, written]
    exact read w v laid room room'
  · refine bind_eq_bind ?_ (next rest)
    cases standIn
    rw [Record.defaulted, absent, Record.defaulted, written]
    exact stands.symm

end Matched

end Fields

/-! ### Records -/

section Records

variable {ok : Json → Prop} {n m : ℕ} {f g : Json → Option Expr} {s s' : Json → Option Stmt}

theorem Name.agree : Agree ok n m (.record .name) Name.ofJson? Name.ofJson? :=
  .record fun _ _ h => h.read rfl fun h => h.required (.list (.plain _)) fun h _ =>
    h.defaulted (.plain _) rfl fun _ _ => rfl

theorem Item.agree (expr : Agree ok n m (.node .expr) f g) :
    Agree ok n m (.record .item) (Item.read? f) (Item.read? g) :=
  .record fun _ _ h => h.read rfl fun h => h.optional expr fun h _ => h.required expr fun h _ =>
    h.defaulted (.plain _) rfl fun h _ => h.defaulted (.plain _) rfl fun _ _ => rfl

theorem Argument.agree (expr : Agree ok n m (.node .expr) f g) :
    Agree ok n m (.record .argument) (Argument.read? f) (Argument.read? g) :=
  .record fun _ _ h => h.read rfl fun h => h.required expr fun h _ =>
    h.defaulted (.plain _) rfl fun h _ => h.defaulted (.plain _) rfl fun _ _ => rfl

theorem StaticLocal.agree (expr : Agree ok n m (.node .expr) f g) :
    Agree ok n m (.record .staticLocal) (StaticLocal.read? f) (StaticLocal.read? g) :=
  .record fun _ _ h => h.read rfl fun h => h.required (.plain _) fun h _ =>
    h.optional expr fun _ _ => rfl

theorem ElseIf.agree (expr : Agree ok n m (.node .expr) f g)
    (stmt : Agree ok n m (.node .stmt) s s') :
    Agree ok n m (.record .elseIf) (ElseIf.read? f s) (ElseIf.read? g s') :=
  .record fun _ _ h => h.read rfl fun h => h.required expr fun h _ =>
    h.required stmt.list fun _ _ => rfl

theorem Case.agree (expr : Agree ok n m (.node .expr) f g)
    (stmt : Agree ok n m (.node .stmt) s s') :
    Agree ok n m (.record .case) (Case.read? f s) (Case.read? g s') :=
  .record fun _ _ h => h.read rfl fun h => h.optional expr fun h _ =>
    h.required stmt.list fun _ _ => rfl

theorem Handler.agree (stmt : Agree ok n m (.node .stmt) s s') :
    Agree ok n m (.record .handler) (Handler.read? s) (Handler.read? s') :=
  .record fun _ _ h => h.read rfl fun h => h.required Name.agree.list fun h _ =>
    h.optional (.plain _) fun h _ => h.required stmt.list fun _ _ => rfl

end Records

/-! ### Nodes -/

section Nodes

variable {ok : Json → Prop} {n m : ℕ}

/-- The kinds of expressions, one after the other. -/
theorem Expr.agree_fields {f g : Json → Option Expr} (expr : Agree ok n m (.node .expr) f g) :
    ∀ form ∈ Expr.forms, ∀ vs ws, Matching ok n m form.2 vs ws →
      Expr.ofFields? f form.1 (.obj vs) = Expr.ofFields? g form.1 (.obj ws) := by
  have args := (Argument.agree expr).list
  have name : Agree ok n m (.record .name) Name.ofJson? Name.ofJson? := Name.agree
  simp only [Expr.forms, List.forall_mem_cons]
  refine ⟨?_, ?_, ?_, ?_, ?_, ?_, ?_, ?_, ?_, ?_, ?_, ?_, ?_, ?_, ?_, ?_, ?_, ?_, ?_, ?_, ?_, ?_,
    ?_, ?_, ?_, ?_, ?_, List.forall_mem_nil _⟩
  all_goals
    intro vs ws h
    rw [Expr.ofFields?, Expr.ofFields?]
  · exact h.read rfl fun h => h.required expr.varRef fun _ _ => rfl
  · exact h.read rfl fun h => h.required expr fun h _ => h.required expr fun h _ =>
      h.defaulted (.plain _) rfl fun _ _ => rfl
  · exact h.read rfl fun h => h.required (.plain _) fun h _ => h.required expr fun h _ =>
      h.required expr fun _ _ => rfl
  · exact h.read rfl fun h => h.required (.plain _) fun h _ => h.required expr fun _ _ => rfl
  · exact h.read rfl fun h => h.required expr fun h _ => h.required (.plain _) fun _ _ => rfl
  · exact h.read rfl fun h => h.required name fun h _ => h.required (.plain _) fun _ _ => rfl
  · exact h.read rfl fun h => h.required expr fun h _ => h.optional expr fun _ _ => rfl
  · exact h.read rfl fun h => h.required (Item.agree expr).nullable.list fun _ _ => rfl
  · exact h.read rfl fun h => h.required (Item.agree expr).list fun _ _ => rfl
  · exact h.read rfl fun h => h.required name fun h _ => h.defaulted args rfl fun _ _ => rfl
  · exact h.read rfl fun h => h.required expr fun h _ => h.required (.plain _) fun h _ =>
      h.defaulted args rfl fun _ _ => rfl
  · exact h.read rfl fun h => h.required name fun h _ => h.required (.plain _) fun h _ =>
      h.defaulted args rfl fun _ _ => rfl
  · exact h.read rfl fun h => h.required name fun h _ => h.defaulted args rfl fun _ _ => rfl
  · exact h.read rfl fun h => h.required name fun h _ => h.required (.plain _) fun _ _ => rfl
  · exact h.read rfl fun h => h.required name fun _ _ => rfl
  · exact h.read rfl fun h => h.required (.plain _) fun _ _ => rfl
  · exact h.read rfl fun h => h.required (.plain _) fun _ _ => rfl
  · exact h.read rfl fun h => h.required (.plain _) fun _ _ => rfl
  · exact h.read rfl fun h => h.required (.plain _) fun h _ => h.required expr fun h _ =>
      h.required expr fun _ _ => rfl
  · exact h.read rfl fun h => h.required (.plain _) fun h _ => h.required expr fun _ _ => rfl
  · exact h.read rfl fun h => h.required expr fun h _ => h.optional expr fun h _ =>
      h.required expr fun _ _ => rfl
  · exact h.read rfl fun h => h.required expr.list fun _ _ => rfl
  · exact h.read rfl fun h => h.required expr fun _ _ => rfl
  · exact h.read rfl fun h => h.required expr fun h _ => h.required name fun _ _ => rfl
  · exact h.read rfl fun h => h.required (.plain _) fun h _ => h.required expr fun _ _ => rfl
  · exact h.read rfl fun h => h.required expr fun _ _ => rfl
  · exact h.read rfl fun h => h.required expr.list fun _ _ => rfl

/-- Readers of nodes with a bounded number of levels agree if they go deep enough, given what is
known of the fields of each kind. -/
theorem Agree.ofLevels {α : Type} {family : Family} {kinds : List String}
    {read : ℕ → Json → Option α} {ofFields : (Json → Option α) → String → Json → Option α}
    (step : ∀ n v, read (n + 1) v = do
      let t ← v.tagged?
      ofFields (read n) (← Json.kindName? kinds t.kind) t.body)
    (fields : ∀ n m, Agree ok n m (.node family) (read n) (read m) →
      ∀ form ∈ family.forms, ∀ vs ws, Matching ok n m form.2 vs ws →
        ofFields (read n) form.1 (.obj vs) = ofFields (read m) form.1 (.obj ws))
    (n m : ℕ) : Agree ok n m (.node family) (read n) (read m) := by
  induction n generalizing m with
  | zero =>
    intro w v laid room _
    obtain ⟨_, kind, decl, vs, ws, _, _, _, deep, _⟩ := laid.matching_node
    omega
  | succ n ih =>
    intro w v laid room room'
    obtain ⟨_, kind, decl, vs, ws, form, tagged, written, _, deep, matching⟩ := laid.matching_node
    cases m with
    | zero => omega
    | succ m =>
      rw [step, tagged, step, written]
      exact fields n m (ih m) _ form vs ws (matching n m room room')

theorem Expr.agree_inner : Agree ok n m (.node .expr) Expr.inner? Expr.inner? :=
  fun w v laid _ _ => Agree.ofLevels (fun _ _ => rfl) (fun _ _ => Expr.agree_fields) v.depth w.depth
    w v laid le_rfl le_rfl

/-- The kinds of statements, one after the other. -/
theorem Stmt.agree_fields {f g : Json → Option Stmt} (stmt : Agree ok n m (.node .stmt) f g) :
    ∀ form ∈ Stmt.forms, ∀ vs ws, Matching ok n m form.2 vs ws →
      Stmt.ofFields? f form.1 (.obj vs) = Stmt.ofFields? g form.1 (.obj ws) := by
  have expr : Agree ok n m (.node .expr) Expr.inner? Expr.inner? := Expr.agree_inner
  simp only [Stmt.forms, List.forall_mem_cons]
  refine ⟨?_, ?_, ?_, ?_, ?_, ?_, ?_, ?_, ?_, ?_, ?_, ?_, ?_, ?_, ?_, ?_, ?_, ?_, ?_,
    List.forall_mem_nil _⟩
  all_goals
    intro vs ws h
    rw [Stmt.ofFields?, Stmt.ofFields?]
  · exact h.read rfl fun h => h.required expr fun _ _ => rfl
  · exact h.read rfl fun h => h.optional expr fun _ _ => rfl
  · exact h.read rfl fun h => h.required expr fun h _ => h.required stmt.list fun h _ =>
      h.defaulted (ElseIf.agree expr stmt).list rfl fun h _ => h.optional stmt.list fun _ _ => rfl
  · exact h.read rfl fun h => h.required expr fun h _ => h.required stmt.list fun _ _ => rfl
  · exact h.read rfl fun h => h.required stmt.list fun h _ => h.required expr fun _ _ => rfl
  · exact h.read rfl fun h => h.defaulted expr.list rfl fun h _ =>
      h.defaulted expr.list rfl fun h _ => h.defaulted expr.list rfl fun h _ =>
        h.required stmt.list fun _ _ => rfl
  · exact h.read rfl fun h => h.required expr fun h _ => h.optional expr fun h _ =>
      h.required expr fun h _ => h.defaulted (.plain _) rfl fun h _ =>
        h.required stmt.list fun _ _ => rfl
  · exact h.read rfl fun h => h.required expr fun h _ =>
      h.required (Case.agree expr stmt).list fun _ _ => rfl
  · exact h.read rfl fun h => h.required (StaticLocal.agree expr).list fun _ _ => rfl
  · exact h.read rfl fun h => h.required stmt.list fun h _ =>
      h.defaulted (Handler.agree stmt).list rfl fun h _ => h.optional stmt.list fun _ _ => rfl
  · exact h.read rfl fun h => h.required expr fun _ _ => rfl
  · exact h.bare
  · exact h.bare
  · exact h.read rfl fun h => h.required expr.list fun _ _ => rfl
  · exact h.read rfl fun h => h.required expr.list fun _ _ => rfl
  · exact h.read rfl fun h => h.required (.plain _) fun _ _ => rfl
  · exact h.read rfl fun h => h.required (.plain _) fun _ _ => rfl
  · exact h.read rfl fun h => h.required (.plain _) fun _ _ => rfl
  · exact h.bare

theorem Stmt.agree_inner : Agree ok n m (.node .stmt) Stmt.inner? Stmt.inner? :=
  fun w v laid _ _ => Agree.ofLevels (fun _ _ => rfl) (fun _ _ => Stmt.agree_fields) v.depth w.depth
    w v laid le_rfl le_rfl

/-- The kinds of types, one after the other. -/
theorem TypeExpr.agree_fields {f g : Json → Option TypeExpr}
    (hint : Agree ok n m (.node .hint) f g) :
    ∀ form ∈ TypeExpr.forms, ∀ vs ws, Matching ok n m form.2 vs ws →
      TypeExpr.ofFields? f form.1 (.obj vs) = TypeExpr.ofFields? g form.1 (.obj ws) := by
  simp only [TypeExpr.forms, List.forall_mem_cons]
  refine ⟨?_, ?_, ?_, ?_, List.forall_mem_nil _⟩
  all_goals
    intro vs ws h
    rw [TypeExpr.ofFields?, TypeExpr.ofFields?]
  · exact h.read rfl fun h => h.required (.plain _) fun _ _ => rfl
  · exact h.read rfl fun h => h.required Name.agree fun _ _ => rfl
  · exact h.read rfl fun h => h.required hint fun _ _ => rfl
  · exact h.read rfl fun h => h.required hint.list fun _ _ => rfl

theorem TypeExpr.agree_inner : Agree ok n m (.node .hint) TypeExpr.inner? TypeExpr.inner? :=
  fun w v laid _ _ => Agree.ofLevels (fun _ _ => rfl) (fun _ _ => TypeExpr.agree_fields) v.depth
    w.depth w v laid le_rfl le_rfl

theorem Param.agree : Agree ok n m (.record .param) (Param.read? .inner) (Param.read? .inner) :=
  .record fun _ _ h => h.read rfl fun h => h.required (.plain _) fun h _ =>
    h.optional TypeExpr.agree_inner fun h _ => h.optional Expr.agree_inner fun h _ =>
      h.defaulted (.plain _) rfl fun h _ => h.defaulted (.plain _) rfl fun _ _ => rfl

/-- The kinds of class members, one after the other. -/
theorem Member.agree_fields :
    ∀ form ∈ Member.forms, ∀ vs ws, Matching ok n m form.2 vs ws →
      Member.ofFields? form.1 (.obj vs) = Member.ofFields? form.1 (.obj ws) := by
  have flags : Modifiers.ofJson? (.str "") = some Modifiers.empty :=
    Modifiers.ofJson?_toJson Modifiers.empty
  simp only [Member.forms, List.forall_mem_cons]
  refine ⟨?_, ?_, ?_, List.forall_mem_nil _⟩
  all_goals
    intro vs ws h
    rw [Member.ofFields?, Member.ofFields?]
  · refine congrArg (Option.map Member.method) ?_
    exact h.read rfl fun h => h.required (.plain _) fun h _ =>
      h.defaulted (.plain _) flags fun h _ => h.defaulted (.plain _) rfl fun h _ =>
        h.defaulted Param.agree.list rfl fun h _ => h.optional TypeExpr.agree_inner fun h _ =>
          h.optional Stmt.agree_inner.list fun h _ => h.optional (.plain _) fun _ _ => rfl
  · exact h.read rfl fun h => h.required (.plain _) fun h _ =>
      h.defaulted (.plain _) flags fun h _ => h.optional Expr.agree_inner fun h _ =>
        h.optional (.plain _) fun _ _ => rfl
  · exact h.read rfl fun h => h.required (.plain _) fun h _ =>
      h.required Expr.agree_inner fun _ _ => rfl

end Nodes

/-! ### Trees of every type -/

/-- The readers agree on what is legible. -/
abbrev AgreeLegibly {α : Type} (shape : Shape) (f : Json → Option α) : Prop :=
  ∀ n m, Agree (fun v => v.readable = true) n m shape f f

theorem Relaid.isNode {family : Family} {w v : Json} (h : Legible (.node family) w v) :
    v.isNode = true ∧ w.isNode = true := by
  obtain ⟨readable, kind, decl, vs, ws, _, tagged, written, _⟩ := h.matching_node
  exact ⟨by simp [Json.isNode, readable, tagged], by simp [Json.isNode, h.readable, written]⟩

/-- A node on its own is read as one inside a node. -/
theorem Agree.alone {α : Type} {family : Family} {inner : Json → Option α}
    (h : AgreeLegibly (.node family) inner) :
    AgreeLegibly (.node family) fun v => if v.isNode then inner v else none := by
  intro n m w v laid room room'
  obtain ⟨left, right⟩ := laid.isNode
  exact (if_pos left).trans ((h n m w v laid room room').trans (if_pos right).symm)

theorem Member.agree : AgreeLegibly (.node .member) Member.ofJson? := by
  intro n m w v laid room room'
  obtain ⟨left, right⟩ := laid.isNode
  obtain ⟨_, kind, decl, vs, ws, form, tagged, written, _, _, matching⟩ := laid.matching_node
  rw [Member.ofJson?, if_pos left, tagged, Member.ofJson?, if_pos right, written]
  exact Member.agree_fields _ form vs ws
    (matching n m (Nat.le_succ_of_le room) (Nat.le_succ_of_le room'))

theorem ClassDecl.agree : AgreeLegibly (.record .cls) ClassDecl.ofJson? := by
  intro n m
  have kind : (do ClassForm.ofName? (← Json.choice? (.str "Class"))) = some ClassForm.plain :=
    ClassForm.ofName?_name .plain
  have flags : Modifiers.ofJson? (.str "") = some Modifiers.empty :=
    Modifiers.ofJson?_toJson Modifiers.empty
  exact .record fun _ _ h => h.read rfl fun h => h.defaulted (.plain _) kind fun h _ =>
    h.required (.plain _) fun h _ => h.defaulted (.plain _) flags fun h _ =>
      h.defaulted Name.agree.list rfl fun h _ => h.defaulted Name.agree.list rfl fun h _ =>
        h.defaulted (Member.agree n m).list rfl fun h _ => h.optional (.plain _) fun _ _ => rfl

theorem Import.agree : AgreeLegibly (.record .imported) Import.ofJson? :=
  fun _ _ => .record fun _ _ h => h.read rfl fun h => h.required Name.agree fun h _ =>
    h.optional (.plain _) fun _ _ => rfl

theorem SourceFile.agree : AgreeLegibly (.record .file) SourceFile.ofJson? := by
  intro n m
  exact .record fun _ _ h => h.read rfl fun h => h.defaulted (.nullable (.plain _)) rfl fun h _ =>
    h.optional Name.agree fun h _ => h.defaulted (Import.agree n m).list rfl fun h _ =>
      h.defaulted (ClassDecl.agree n m).list rfl fun _ _ => rfl

namespace TreeType

theorem agree (type : TreeType) : AgreeLegibly type.shape type.ofJson? := by
  cases type with
  | file => exact SourceFile.agree
  | cls => exact ClassDecl.agree
  | member => exact Member.agree
  | stmt => exact Agree.alone fun _ _ => Stmt.agree_inner
  | expr => exact Agree.alone fun _ _ => Expr.agree_inner
  | hint => exact Agree.alone fun _ _ => TypeExpr.agree_inner
  | name => exact fun _ _ => Name.agree

/-- A tree whose floats are numbers is read from every layout of its JSON whose nodes can be read
throughout: from each text that is read as the layout, and so from the text that is written for the
layout if it is lossless (its integers fit 64 bits, and the text of each float is read as that float)
and nests at most as deep as a text may. The JSON itself is one of these layouts. -/
theorem reads_every_layout (type : TreeType) (t : type.Tree)
    (finite : EveryFloat IsNumber (type.nodes t)) :
    Legible type.shape (type.toJson t) (type.toJson t) ∧
      ∀ v, Legible type.shape (type.toJson t) v →
        (∀ text, Json.read? Json.nestingLimit text = some v → type.ofText? text = some t) ∧
          (v.Lossless → v.depth ≤ Json.nestingLimit → type.ofText? v.compact = some t) := by
  refine ⟨type.conforms_toJson t, fun v laid => ?_⟩
  have value : type.ofJson? v = some t :=
    (type.agree v.depth (type.toJson t).depth _ v laid le_rfl le_rfl).trans
      (ofJson?_of_readable finite laid.readable)
  have reads : ∀ text, Json.read? Json.nestingLimit text = some v → type.ofText? text = some t := by
    intro text read
    rw [ofText?, read, Option.bind_some, value]
  exact ⟨reads, fun lossless room => reads _ (Json.read?_compact lossless room)⟩

/-- The sum of a variable with a computed name and a float. -/
def sampleSum : Expr := .binary .add (.var (.dynamic (.named "a"))) (.float 1.5)

/-- A class with a sum as a constant. -/
def sampleClass : ClassDecl where
  name := "A"
  members := [.constant ⟨"c", sampleSum⟩]

/-- The sum with all objects back to front and with an unknown field. -/
def sampleSumLayout : Json :=
  .obj [("z", .null),
    ("right", .obj [("value", .num (.float 1.5)), ("kind", .str "Float")]),
    ("left", .obj [
      ("name", .obj [("name", .str "a"), ("kind", .str "Variable")]),
      ("kind", .str "Variable")]),
    ("op", .str "Add"),
    ("kind", .str "BinaryOp")]

/-- The class with all objects back to front, with an unknown field and without the fields that hold
what stands for them. -/
def sampleLayout : Json :=
  .obj [("x", .arr [.obj []]),
    ("members", .arr [
      .obj [("value", sampleSumLayout), ("name", .str "c"), ("kind", .str "Constant")]]),
    ("name", .str "A")]

theorem reads_every_layout_sample :
    EveryFloat IsNumber (nodes .cls sampleClass) ∧
      Legible (shape .cls) (toJson .cls sampleClass) sampleLayout ∧
      sampleLayout.Lossless ∧ sampleLayout.depth ≤ Json.nestingLimit ∧
      ofText? .cls sampleLayout.compact = some sampleClass := by
  have finite : EveryFloat IsNumber (nodes .cls sampleClass) := by
    intro x mem
    have only : x = 1.5 := by
      simpa [nodes, sampleClass, sampleSum, ClassDecl.nodes, Member.nodes, nodesOf_cons,
        Node.children, Node.ofExpr, Expr.named] using mem
    rw [only, IsNumber]
    decide
  have back {xs ys : List (String × Json)} (h : xs = ys.reverse) : xs.Perm ys :=
    h ▸ List.reverse_perm ys
  have number : Json.ofFloat 1.5 = .num (.float 1.5) := if_pos (by decide)
  have float : Legible (.node .expr) (Expr.float 1.5).toJson
      (.obj [("value", .num (.float 1.5)), ("kind", .str "Float")]) := by
    have form : ("Float", [FieldDecl.required "value" .plain]) ∈ Family.forms .expr := by
      simp [Family.forms, Expr.forms]
    rw [Expr.toJson, number]
    exact .node form (.keep (.plain rfl) .nil) (List.forall_mem_nil _) (back rfl) rfl
  have inner : Legible (.node .expr) (Expr.named "a").toJson
      (.obj [("name", .str "a"), ("kind", .str "Variable")]) :=
    .node List.mem_cons_self (.keep (.literal "a") .nil) (List.forall_mem_nil _) (back rfl) rfl
  have outer : Legible (.node .expr) (Expr.var (.dynamic (.named "a"))).toJson
      (.obj [("name", .obj [("name", .str "a"), ("kind", .str "Variable")]),
        ("kind", .str "Variable")]) :=
    .node List.mem_cons_self (.keep (.computed inner) .nil) (List.forall_mem_nil _) (back rfl) rfl
  have sum : Legible (.node .expr) sampleSum.toJson sampleSumLayout := by
    have form : ("BinaryOp", [FieldDecl.required "op" .plain, .required "left" (.node .expr),
        .required "right" (.node .expr)]) ∈ Family.forms .expr := by
      simp [Family.forms, Expr.forms]
    have unknown : ∀ field ∈ [("z", Json.null)], field.1 ∉ ["kind", "op", "left", "right"] :=
      List.forall_mem_singleton.2 (by decide)
    exact .node form (.keep (.plain rfl) (.keep outer (.keep float .nil))) unknown (back rfl) rfl
  have member : Legible (.node .member) (Member.constant ⟨"c", sampleSum⟩).toJson
      (.obj [("value", sampleSumLayout), ("name", .str "c"), ("kind", .str "Constant")]) := by
    have form : ("Constant", [FieldDecl.required "name" .plain,
        .required "value" (.node .expr)]) ∈ Family.forms .member := by
      simp [Family.forms, Member.forms]
    exact .node form (.keep (.plain rfl) (.keep sum .nil)) (List.forall_mem_nil _) (back rfl) rfl
  have laid : Legible (shape .cls) (toJson .cls sampleClass) sampleLayout := by
    have unknown : ∀ field ∈ [("x", Json.arr [.obj []])],
        field.1 ∉ fieldNames (RecordType.fields .cls) :=
      List.forall_mem_singleton.2 (by decide)
    exact .record (.leave rfl (.keep (.plain rfl) (.leave rfl (.leave rfl (.leave rfl
      (.keep (.list (.cons member .nil)) (.leave rfl .nil))))))) unknown (back rfl)
  have printed : Json.ReadsBack 1.5 := by
    have text : Json.numberText (.float 1.5) = "1.5" := by decide
    have literal : Literal.ofChars? "1.5".toList = some ⟨false, ['1'], ['5'], none⟩ := rfl
    have value : Literal.float? ⟨false, ['1'], ['5'], none⟩ = some 1.5 := by decide
    rw [Json.ReadsBack, text, literal]
    simp [Literal.value, Literal.int?, Literal.isInteger, value]
  have lossless : sampleLayout.Lossless := by
    have list {items : List Json} : (Json.arr items).Lossless ↔ ∀ v ∈ items, v.Lossless :=
      ⟨fun h => by cases h; assumption, .arr⟩
    simp [sampleLayout, sampleSumLayout, list, Json.Lossless.float printed]
  have room : sampleLayout.depth ≤ Json.nestingLimit := by decide
  exact ⟨finite, laid, lossless, room,
    ((reads_every_layout .cls sampleClass finite).2 _ laid).2 lossless room⟩

/-- A statement with an unknown field that holds a number beyond the doubles. -/
def excessiveText : String := "\x7b\"kind\":\"Nop\",\"x\":1e999\x7d"

/-- An unknown field of a node does matter if its value cannot be read. -/
theorem unreadable_addition_refused :
    ∃ v, Relaid (fun _ => True) (shape .stmt) (toJson .stmt .nop) v ∧
      Json.read? Json.nestingLimit excessiveText = some v ∧ v.depth ≤ Json.nestingLimit ∧
      ofText? .stmt excessiveText = none := by
  have number : Json.Lexes "1e999".toList [.leaf .unreadable] := by
    have literal : Literal.ofChars? "1e999".toList = some ⟨false, ['1'], [], some 999⟩ := rfl
    have beyond : Literal.float? ⟨false, ['1'], [], some 999⟩ = none := by decide
    have value : Literal.value ⟨false, ['1'], [], some 999⟩ = .unreadable := by
      simp [Literal.value, Literal.int?, Literal.isInteger, beyond]
    rw [← value]
    exact Json.lexes_literal literal
  have fields := ((Json.lexes_quoted "kind").mark (c := ':') rfl (Json.lexes_quoted "Nop")).mark
    (c := ',') rfl ((Json.lexes_quoted "x").mark (c := ':') rfl number)
  have tokens : Json.tokens? excessiveText.toList =
      some [.openObject, .text (some "kind"), .colon, .text (some "Nop"), .comma, .text (some "x"),
        .colon, .leaf .unreadable, .closeObject] :=
    Json.tokens?_of_lexes (Json.Lexes.between (c := '\x7b') (d := '\x7d') rfl fields rfl)
  have read : Json.read? Json.nestingLimit excessiveText =
      some (.obj [("kind", .str "Nop"), ("x", .unreadable)]) := by
    rw [Json.read?, tokens]
    rfl
  have form : ("Nop", []) ∈ Family.forms .stmt := by
    simp [Family.forms, Stmt.forms]
  have unknown : ∀ field ∈ [("x", Json.unreadable)], field.1 ∉ ["kind"] :=
    List.forall_mem_singleton.2 (by decide)
  refine ⟨_, .node form .nil unknown (.refl _) trivial, read, by decide, ?_⟩
  rw [ofText?, read]
  rfl

end TreeType

end Zephirize
