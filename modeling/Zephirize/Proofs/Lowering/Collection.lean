import Zephirize.Proofs.Lowering.Statements
import Zephirize.Proofs.Lowering.Temporaries

/-!
# What the search for variables finds

The search visits every node of a body and runs the conversion of each outermost indexed fetch. It
finds the names that the source gives to variables (`sourceNames`), and exactly the temporaries that
the tally of the body announces (`locals_run`).
-/

namespace Zephirize

/-! ### Names of the source -/

/-- The names that the source gives to variables at a node: literal variables, bound exceptions and
static variables. -/
def Node.sourceNames : Node → List String
  | .expr (.var (.literal name)) => [name]
  | .handler c => c.var.toList
  | .staticLocal v => [v.name]
  | _ => []

/-- The names that the source gives to variables at or below some nodes. -/
def sourceNames (roots : List Node) : List String := (nodesOf roots).flatMap Node.sourceNames

@[simp]
theorem sourceNames_nil : sourceNames [] = [] := by simp [sourceNames]

theorem sourceNames_cons (n : Node) (rest : List Node) :
    sourceNames (n :: rest) = n.sourceNames ++ (sourceNames n.children ++ sourceNames rest) := by
  simp [sourceNames, nodesOf_cons]

@[simp]
theorem sourceNames_append (xs ys : List Node) :
    sourceNames (xs ++ ys) = sourceNames xs ++ sourceNames ys := by
  simp [sourceNames]

theorem mem_sourceNames {x : String} {roots : List Node} :
    x ∈ sourceNames roots ↔ ∃ n ∈ nodesOf roots, x ∈ n.sourceNames := by
  simp [sourceNames]

theorem mem_sourceNames_literal {x : String} {e : Expr} (h : e.literalName? = some x) :
    x ∈ sourceNames [.expr e] := by
  unfold Expr.literalName? at h
  split at h
  · cases h
    simp [sourceNames_cons, Node.sourceNames]
  · cases h

/-- A slot whose value is not a list brings its variable only. -/
theorem itemNames_of_not_list {item : Item} (h : ∀ nested, item.value ≠ .list nested) :
    itemNames item = item.value.literalName?.toList ∧ slotTemps item = [] := by
  obtain ⟨key, value, byRef, unpack⟩ := item
  constructor
  · rw [itemNames]
    exact h
  · rw [slotTemps]
    intro _ nested _ _ same
    exact h nested (congrArg Item.value same)

mutual

/-- A name in a destructuring target is a temporary or stands in the source. -/
theorem mem_listNames {x : String} : ∀ items : List (Option Item), x ∈ listNames items →
    x ∈ innerTemps items ∨ x ∈ sourceNames ((items.filterMap id).map .item)
  | [], h => by simp [listNames] at h
  | none :: rest, h => by
    rw [listNames] at h
    rw [innerTemps]
    exact mem_listNames rest h
  | some ⟨key, value, byRef, unpack⟩ :: rest, h => by
    rw [listNames, List.mem_append] at h
    rw [innerTemps, List.filterMap_cons_some (id_eq _), List.map_cons, sourceNames_cons]
    simp only [List.mem_append, Node.children, sourceNames_append]
    have inner := mem_nestedNames value (x := x)
    -- The name is in the first slot, whose target may be a list itself, or further on.
    rcases h with h | h
    · by_cases list : ∃ nested, value = .list nested
      · obtain ⟨nested, rfl⟩ := list
        have inner := inner nested rfl
        simp only [itemNames, slotTemps, List.mem_append, List.mem_cons, List.not_mem_nil,
          or_false] at h ⊢
        tauto
      · have other := @itemNames_of_not_list ⟨key, value, byRef, unpack⟩
          fun nested h => list ⟨nested, h⟩
        rw [other.1, Option.mem_toList] at h
        have := mem_sourceNames_literal h
        tauto
    · have := mem_listNames rest h
      tauto

/-- The names in a nested target. -/
theorem mem_nestedNames {x : String} : ∀ (value : Expr) (nested : List (Option Item)),
    value = .list nested → x ∈ listNames nested →
    x ∈ innerTemps nested ∨ x ∈ sourceNames [.expr value]
  | .list nested, _, rfl, h => by
    rw [sourceNames_cons]
    have := mem_listNames nested h
    simp only [List.mem_append]
    exact this.imp_right fun h => .inr (.inl h)

end

mutual

/-- The temporaries of a destructuring target are among its names. -/
theorem innerTemps_subset {x : String} : ∀ items : List (Option Item), x ∈ innerTemps items →
    x ∈ listNames items
  | [], h => by simp [innerTemps] at h
  | none :: rest, h => by
    rw [innerTemps] at h
    rw [listNames]
    exact innerTemps_subset rest h
  | some item :: rest, h => by
    rw [innerTemps, List.mem_append] at h
    rw [listNames, List.mem_append]
    exact h.imp (slotTemps_subset item) (innerTemps_subset rest)

theorem slotTemps_subset {x : String} : ∀ item : Item, x ∈ slotTemps item → x ∈ itemNames item
  | ⟨_, .list nested, _, _⟩, h => by
    rw [slotTemps, List.mem_cons] at h
    rw [itemNames, List.mem_append, List.mem_singleton]
    exact h.symm.imp_left (innerTemps_subset nested)

end

/-- A child's names are among those of its parent. -/
theorem mem_sourceNames_child {x : String} {n c : Node} (mem : c ∈ n.children)
    (h : x ∈ sourceNames [c]) : x ∈ sourceNames [n] := by
  obtain ⟨m, hm, hx⟩ := mem_sourceNames.1 h
  obtain ⟨root, hroot, within⟩ := mem_nodesOf.1 hm
  obtain rfl := List.mem_singleton.1 hroot
  exact mem_sourceNames.2 ⟨m, mem_nodesOf.2 ⟨n, by simp, .inside mem within⟩, hx⟩

/-- A name that a node brings is a temporary of the node, or stands in the source. -/
theorem mem_names {x : String} (n : Node) (h : x ∈ n.names) :
    x ∈ n.tally.temps false ∨ x ∈ sourceNames [n] := by
  have literal : ∀ {e : Expr}, .expr e ∈ n.children → e.literalName? = some x →
      x ∈ sourceNames [n] := fun mem he =>
    mem_sourceNames_child mem (mem_sourceNames_literal he)
  unfold Node.names at h
  split at h
  case h_1 target value byRef =>
    unfold targetNames at h
    split at h
    case h_1 items =>
      rw [List.mem_append, List.mem_singleton] at h
      rcases h with h | rfl
      · rcases mem_listNames items h with h | h
        · exact .inl (List.mem_cons_of_mem _ h)
        · have below : x ∈ sourceNames (Node.expr (.list items)).children := h
          refine .inr (mem_sourceNames_child (c := .expr (.list items))
            (by simp [Node.children, Node.ofExpr]) ?_)
          rw [sourceNames_cons]
          simp [below]
      · exact .inl List.mem_cons_self
    case h_2 =>
      exact .inr (literal (by simp [Node.children, Node.ofExpr]) (Option.mem_toList.1 h))
  case h_2 name => exact .inr (mem_sourceNames_literal (Option.mem_toList.1 h))
  case h_3 subject key value byRef body =>
    rw [List.mem_append, Option.mem_toList, Option.mem_toList] at h
    rcases h with h | h
    · obtain ⟨key, rfl, h⟩ := Option.bind_eq_some_iff.1 h
      exact .inr (literal (by simp [Node.children, Node.ofStmt]) h)
    · exact .inr (literal (by simp [Node.children, Node.ofStmt]) h)
  case h_4 init tests steps body =>
    obtain ⟨e, he, h⟩ := List.mem_filterMap.1 h
    split at h
    case h_1 target value byRef =>
      refine .inr (mem_sourceNames_child (c := .expr (.assign target value byRef))
        (by simp [Node.children, Node.ofStmt, he]) ?_)
      exact mem_sourceNames_child (c := .expr target) (by simp [Node.children, Node.ofExpr])
        (mem_sourceNames_literal h)
    case h_2 => cases h
  case h_5 => exact .inl h
  case h_6 => exact .inl (List.mem_singleton.1 h)
  case h_7 =>
    rw [sourceNames_cons]
    simp [Node.sourceNames, Option.mem_toList.1 h]
  case h_8 =>
    rw [sourceNames_cons]
    simp [Node.sourceNames, List.mem_singleton.1 h]
  case h_9 => exact .inl (List.mem_singleton.1 h)
  case h_10 => cases h

/-- The source names of a node and its temporaries are among the names that it brings. -/
theorem mem_names_of_mem {x : String} (n : Node)
    (h : x ∈ n.sourceNames ∨ x ∈ n.tally.temps false) : x ∈ n.names := by
  rcases h with h | h
  · unfold Node.sourceNames at h
    split at h
    · simpa [Node.names, Expr.literalName?] using h
    · simpa [Node.names] using h
    · simpa [Node.names] using h
    · cases h
  · unfold Node.tally at h
    split at h
    case h_1 => split at h <;> exact h.elim
    case h_2 items _ _ =>
      rw [Node.names, targetNames, List.mem_append, List.mem_singleton]
      exact (List.mem_cons.1 h).symm.imp_left (innerTemps_subset items)
    case h_3 => exact absurd h.1 (by decide)
    case h_6 => exact List.mem_singleton.2 h
    case h_7 => exact List.mem_singleton.2 h
    case h_8 => exact h
    all_goals exact h.elim

/-! ### Temporaries of indexed fetches -/

variable (cls : String)

/-- The trial conversion of an expression has records of its own, and keeps the count. -/
theorem dimTemps_eq (e : Expr) (s : State) :
    (dimTemps cls e).run s =
      (fun t : State => (t.created.drop s.created.length,
        { t with
          hoisted := s.hoisted, queued := s.queued, diagnostics := s.diagnostics,
          hoistArrays := s.hoistArrays, created := t.created.take s.created.length }))
        ((exprText cls e).run.run
          { s with hoisted := [], diagnostics := [], hoistArrays := false }).2 := rfl

/-- Where nothing is refused, the trial conversion of an expression gives the temporaries for its
indexed fetches, and only counts on. -/
theorem dimTemps_run {e : Expr} (clean : (Node.expr e).fullTally.refused = ∅) (s : State) :
    (dimTemps cls e).run s =
      (dimRange s.dims (Node.expr e).fullTally.dims,
        { s with dims := s.dims + (Node.expr e).fullTally.dims }) := by
  have conversion : Converts cls (exprText cls e) [] _ _ := converts_exprText e
  rcases conversion.outcome { s with hoisted := [], diagnostics := [], hoistArrays := false } with
    ⟨text, t, run, alike, -, dims, created, -⟩ | ⟨k, t, -, -, hk⟩
  · rw [dimTemps_eq, run]
    -- What was created before is cut off again.
    obtain ⟨method, -, loops⟩ := alike
    simp only [created, List.drop_left, List.take_left, dims, method, loops]
  · rw [clean] at hk
    exact hk.elim

/-- The node is an indexed fetch that lies in no other one. -/
def Visit.IsOuterDim (v : Visit) : Prop := v.node.kind = .dim ∧ v.isWithin .dim = false

instance (v : Visit) : Decidable v.IsOuterDim := inferInstanceAs (Decidable (_ ∧ _))

/-- The number of temporaries for indexed fetches that a visit finds. -/
def Visit.dims (v : Visit) : ℕ := if v.IsOuterDim then v.node.fullTally.dims else 0

theorem Node.eq_dim_of_kind {n : Node} (h : n.kind = .dim) :
    ∃ base index, n = .expr (.dim base index) := by
  cases n with
  | expr e => cases e <;> first | exact ⟨_, _, rfl⟩ | cases h
  | stmt s => cases s <;> cases h
  | _ => cases h

/-- A visit gives the names of its node and the temporaries that it finds. -/
theorem visitNames_run (v : Visit) (s : State) (clean : v.node.fullTally.refused = ∅) :
    ∃ names, (visitNames cls v).run s = (names, { s with dims := s.dims + v.dims }) ∧
      ∀ x, x ∈ names ↔ x ∈ v.node.names ∨ x ∈ dimRange s.dims v.dims := by
  obtain ⟨node, ancestors⟩ := v
  unfold Visit.dims
  by_cases dim : node.kind = .dim
  · obtain ⟨base, index, rfl⟩ := Node.eq_dim_of_kind dim
    have none : (Node.expr (.dim base index)).names = [] := rfl
    unfold visitNames
    split_ifs with within outer outer
    · exact absurd outer.2 (by simp [within])
    · exact ⟨[], rfl, by simp [none]⟩
    · exact ⟨_, dimTemps_run cls clean s, by simp [none]⟩
    · exact absurd ⟨dim, by simpa using within⟩ outer
  · have plain : visitNames cls ⟨node, ancestors⟩ = pure node.names := by
      unfold visitNames
      split
      · rename_i same
        exact absurd (congrArg Node.kind same) dim
      · rfl
    rw [plain, if_neg fun outer => dim outer.1]
    exact ⟨node.names, rfl, by simp⟩

/-- The search gives what each visited node brings, and numbers the temporaries in order. -/
theorem allNames_run (visits : List Visit) (s : State)
    (clean : ∀ v ∈ visits, v.node.fullTally.refused = ∅) :
    ∃ names, (allNames cls visits).run s =
        (names, { s with dims := s.dims + (visits.map Visit.dims).sum }) ∧
      ∀ x, x ∈ names ↔
        (∃ v ∈ visits, x ∈ v.node.names) ∨ x ∈ dimRange s.dims (visits.map Visit.dims).sum := by
  induction visits generalizing s with
  | nil => exact ⟨[], rfl, by simp⟩
  | cons v rest ih =>
    obtain ⟨first, run, hfirst⟩ := visitNames_run cls v s (clean v (by simp))
    obtain ⟨more, run', hmore⟩ := ih { s with dims := s.dims + v.dims }
      fun w hw => clean w (List.mem_cons_of_mem v hw)
    refine ⟨first ++ more, ?_, ?_⟩
    · have start : (allNames cls (v :: rest)).run s =
          (((visitNames cls v).run s).1 ++ ((allNames cls rest).run ((visitNames cls v).run s).2).1,
            ((allNames cls rest).run ((visitNames cls v).run s).2).2) := rfl
      rw [start, run]
      simp only [run', List.map_cons, List.sum_cons, Nat.add_assoc]
    · intro x
      rw [List.mem_append, hfirst, hmore, List.map_cons, List.sum_cons, dimRange_add]
      simp only [List.mem_cons, List.mem_append, exists_eq_or_imp]
      exact or_or_or_comm

/-- Only indexed fetches need temporaries with a number. -/
theorem Node.dims_tally_of_kind_ne {n : Node} (h : n.kind ≠ .dim) : n.tally.dims = 0 := by
  rw [n.tally_dims]
  unfold isHeldFetch
  split
  · exact absurd rfl h
  · rfl

/-- The number of temporaries that a visit finds at and below its node. -/
def Visit.dimsBelow (v : Visit) : ℕ := if v.isWithin .dim then 0 else v.node.fullTally.dims

theorem Visit.isWithin_child {v c : Visit} (h : c ∈ v.children) :
    c.isWithin .dim = true ↔ v.isWithin .dim = true ∨ v.node.kind = .dim := by
  obtain ⟨node, -, rfl⟩ := List.mem_map.1 h
  simp only [Visit.isWithin, List.contains_iff_mem, List.mem_append, List.mem_singleton]
  exact or_congr_right eq_comm

/-- What lies inside an indexed fetch is counted with the outermost one. -/
theorem Visit.dims_add_children (v : Visit) :
    v.dims + (v.children.map Visit.dimsBelow).sum = v.dimsBelow := by
  have children : ∀ f : Node → ℕ, (∀ c ∈ v.children, c.dimsBelow = f c.node) →
      (v.children.map Visit.dimsBelow).sum = (v.node.children.map f).sum := by
    intro f hf
    rw [List.map_congr_left hf, ← v.map_node_children, List.map_map]
    rfl
  -- Inside an indexed fetch, and at one, the children add nothing of their own.
  by_cases inner : v.isWithin .dim = true ∨ v.node.kind = .dim
  · have none : (v.children.map Visit.dimsBelow).sum = 0 := by
      rw [children fun _ => 0]
      · simp
      · intro c hc
        rw [Visit.dimsBelow, if_pos ((Visit.isWithin_child hc).2 inner)]
    rw [none, Nat.add_zero, Visit.dims, Visit.dimsBelow]
    by_cases within : v.isWithin .dim = true
    · simp [Visit.IsOuterDim, within]
    · have outer : v.IsOuterDim := ⟨inner.resolve_left within, by simpa using within⟩
      rw [if_pos outer, if_neg within]
  · obtain ⟨within, kind⟩ := not_or.1 inner
    have all : (v.children.map Visit.dimsBelow).sum = (Tally.of v.node.children).dims := by
      rw [children fun n => n.fullTally.dims]
      · rw [Tally.of_dims]
      · intro c hc
        rw [Visit.dimsBelow, if_neg fun h => inner ((Visit.isWithin_child hc).1 h)]
    rw [all, Visit.dims, Visit.dimsBelow, if_neg within, if_neg fun outer => kind outer.1,
      v.node.fullTally_eq, Tally.add_dims, Node.dims_tally_of_kind_ne kind]

/-- All temporaries of a tree are counted, and each one once. -/
theorem sum_dims_walk (visits : List Visit) :
    ((walk visits).map Visit.dims).sum = (visits.map Visit.dimsBelow).sum := by
  fun_induction walk visits with
  | case1 => rfl
  | case2 v stack ih =>
    rw [List.map_cons, List.sum_cons, ih, List.map_append, List.sum_append, ← Nat.add_assoc,
      v.dims_add_children, List.map_cons, List.sum_cons]

/-! ### The variables to declare -/

/-- The source name is declared under this name. -/
def DeclaredAs (source name : String) : Prop :=
  source ≠ "" ∧ isAmbient source = false ∧ safeName source = name

/-- A temporary is declared under its own name. -/
theorem HasTempForm.declaredAs_iff {letter : Char} {x name : String} (form : HasTempForm letter x) :
    DeclaredAs x name ↔ x = name := by
  rw [DeclaredAs, form.safeName_eq]
  exact ⟨fun h => h.2.2, fun h => ⟨form.ne_empty, form.isAmbient_eq_false, h⟩⟩

theorem declaredAs_iff_of_mem_temps {x name : String} {roots : List Node} {arrays : Bool}
    (h : x ∈ (Tally.of roots).temps arrays) : DeclaredAs x name ↔ x = name := by
  rcases Tally.temps_form h with form | form
  · exact form.declaredAs_iff
  · exact form.declaredAs_iff

theorem declaredAs_iff_of_mem_dimRange {x name : String} {n k : ℕ} (h : x ∈ dimRange n k) :
    DeclaredAs x name ↔ x = name := by
  obtain ⟨i, -, -, rfl⟩ := mem_dimRange.1 h
  exact (dimTemp_form i).declaredAs_iff

theorem nodup_declaredNames (params names : List String) : (declaredNames params names).Nodup :=
  nodup_firstOccurrences _

theorem mem_declaredNames {name : String} {params names : List String} :
    name ∈ declaredNames params names ↔ name ∉ params ∧ ∃ x ∈ names, DeclaredAs x name := by
  rw [declaredNames, mem_firstOccurrences]
  simp [DeclaredAs, and_assoc, and_comm, and_left_comm]

/-- The search for the variables of a body has records of its own, and starts the count again. -/
theorem locals_eq (body : List Stmt) (params : List String) (s : State) :
    (locals cls body params).run s =
      (fun search : List String × State => (declaredNames params search.1,
        { search.2 with
          hoisted := s.hoisted, queued := s.queued, diagnostics := s.diagnostics,
          hoistArrays := s.hoistArrays, dims := 0, created := [] }))
        ((allNames cls (descendants (body.map .stmt))).run
          { s with hoisted := [], diagnostics := [], hoistArrays := false }) := rfl

/-- Where nothing is refused, the search finds the names of the source and the temporaries of the
tally, numbered on from the state, and starts the count again. -/
theorem locals_run_names {body : List Stmt} (clean : (Tally.of (body.map .stmt)).refused = ∅)
    (params : List String) (s : State) :
    ∃ names, (locals cls body params).run s =
        (declaredNames params names, { s with dims := 0, created := [] }) ∧
      ∀ x, x ∈ names ↔ x ∈ sourceNames (body.map .stmt) ∨
        x ∈ (Tally.of (body.map .stmt)).temps false ∨
        x ∈ dimRange s.dims (Tally.of (body.map .stmt)).dims := by
  generalize hroots : body.map Node.stmt = roots at clean ⊢
  have visits : ∀ v ∈ descendants roots, v.node.fullTally.refused = ∅ :=
    fun v hv => Tally.refused_eq_empty_of_mem clean (List.mem_map_of_mem hv)
  have count : ((descendants roots).map Visit.dims).sum = (Tally.of roots).dims := by
    rw [descendants, sum_dims_walk, Tally.of_dims, List.map_map]
    rfl
  obtain ⟨names, run, mem⟩ := allNames_run cls (descendants roots)
    { s with hoisted := [], diagnostics := [], hoistArrays := false } visits
  rw [count] at run mem
  refine ⟨names, ?_, fun x => ?_⟩
  · rw [locals_eq, hroots, run]
  · rw [mem, ← or_assoc]
    -- A node may bring names that stand below it, so the two sides agree only for the whole tree.
    refine or_congr_left ⟨?_, ?_⟩
    · rintro ⟨v, hv, hx⟩
      have hn : v.node ∈ nodesOf roots := List.mem_map_of_mem hv
      rcases mem_names v.node hx with hx | hx
      · exact .inr (Tally.mem_of_temps.2 ⟨v.node, hn, hx⟩)
      · obtain ⟨m, hm, hx⟩ := mem_sourceNames.1 hx
        exact .inl (mem_sourceNames.2 ⟨m, nodesOf_subset hn hm, hx⟩)
    · rw [mem_sourceNames, Tally.mem_of_temps]
      have visited : ∀ n ∈ nodesOf roots, x ∈ n.names →
          ∃ v ∈ descendants roots, x ∈ v.node.names := by
        intro n hn hx
        obtain ⟨v, hv, rfl⟩ := List.mem_map.1 hn
        exact ⟨v, hv, hx⟩
      rintro (⟨n, hn, hx⟩ | ⟨n, hn, hx⟩)
      · exact visited n hn (mem_names_of_mem n (.inl hx))
      · exact visited n hn (mem_names_of_mem n (.inr hx))

/-- The variables to declare: each once, the names of the source as they are declared, and the
temporaries of the tally, but no parameters. -/
theorem locals_run {body : List Stmt} (clean : (Tally.of (body.map .stmt)).refused = ∅)
    (params : List String) (s : State) :
    ∃ vars, (locals cls body params).run s = (vars, { s with dims := 0, created := [] }) ∧
      vars.Nodup ∧ ∀ name, name ∈ vars ↔ name ∉ params ∧
        ((∃ x ∈ sourceNames (body.map .stmt), DeclaredAs x name) ∨
          name ∈ (Tally.of (body.map .stmt)).temps false ∨
          name ∈ dimRange s.dims (Tally.of (body.map .stmt)).dims) := by
  obtain ⟨names, run, mem⟩ := locals_run_names cls clean params s
  refine ⟨_, run, nodup_declaredNames params names, fun name => ?_⟩
  rw [mem_declaredNames]
  refine and_congr_right fun _ => ⟨?_, ?_⟩
  · rintro ⟨x, hx, declared⟩
    rcases (mem x).1 hx with hx | hx | hx
    · exact .inl ⟨x, hx, declared⟩
    · obtain rfl := (declaredAs_iff_of_mem_temps hx).1 declared
      exact .inr (.inl hx)
    · obtain rfl := (declaredAs_iff_of_mem_dimRange hx).1 declared
      exact .inr (.inr hx)
  · rintro (⟨x, hx, declared⟩ | h | h)
    · exact ⟨x, (mem x).2 (.inl hx), declared⟩
    · exact ⟨name, (mem name).2 (.inr (.inl h)), (declaredAs_iff_of_mem_temps h).2 rfl⟩
    · exact ⟨name, (mem name).2 (.inr (.inr h)), (declaredAs_iff_of_mem_dimRange h).2 rfl⟩

end Zephirize
