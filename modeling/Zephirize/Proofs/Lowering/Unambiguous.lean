import Zephirize.Proofs.Lowering.Readback

/-!
# One text for one tree

An operation can be told from its text, when all parentheses that are needed are there and no two
variables are written alike. An `isset` of several variables is then the same as the conjunction of
single ones (`Expr.issetsApart`), because it is written like that.

`operators_survive` says so for what the conversion writes. The conversion leaves out parentheses
around an `isset` of several variables, around what a property is fetched from and around what an
`isset` tests, and then two trees can have one text (`negated_isset_ambiguous`).
-/

namespace Zephirize

namespace Expr

/-- The operation with an `isset` for each variable. -/
def issetsApart (e : Expr) : Expr := e.apartWith id

theorem apartWith_issets (rename : String → String) (vars : List Expr) :
    (issets vars).apartWith rename = issets (vars.map fun v => v.apartWith rename) := by
  have row : ∀ (rest : List Expr) (left : Expr),
      (rest.foldl (fun left v => .binary .booleanAnd left (.isset [v])) left).apartWith rename =
        (rest.map fun v => v.apartWith rename).foldl
          (fun left v => .binary .booleanAnd left (.isset [v])) (left.apartWith rename) := by
    intro rest
    induction rest with
    | nil => exact fun _ => rfl
    | cons v rest ih =>
      intro left
      rw [List.foldl_cons, ih, apartWith, apartWith]
      rfl
  cases vars with
  | nil => rw [issets, apartWith, List.map_nil]
  | cons v rest =>
    rw [issets, row, apartWith]
    rfl

theorem apartWith_apartWith {e : Expr} (h : e.IsOperation) (f g : String → String) :
    (e.apartWith f).apartWith g = e.apartWith (g ∘ f) := by
  induction h with
  | var word => simp only [apartWith, Function.comp_apply]
  | int natural => simp only [apartWith]
  | property word _ ih => simp only [apartWith, ih]
  | binary spelled _ _ ihl ihr => simp only [apartWith, ihl, ihr]
  | unary _ ih => simp only [apartWith, ih]
  | ternary _ _ _ iht ihy ihn => simp only [apartWith, iht, ihy, ihn]
  | isset nonempty _ ih =>
    rw [apartWith, apartWith_issets, List.map_map, apartWith]
    exact congrArg issets (List.map_congr_left ih)
  | empty _ ih => simp only [apartWith, ih]
  | instanceOf words _ ih => simp only [apartWith, ih]
  | cast _ ih => simp only [apartWith, ih]

/-- The variable occurs in the expression. -/
def HasVar (e : Expr) (name : String) : Prop := (Node.expr (.named name)).Within (.expr e)

theorem HasVar.inside {e c : Expr} {name : String} (h : c.HasVar name)
    (mem : .expr c ∈ Node.ofExpr e) : e.HasVar name := Node.Within.inside mem h

theorem agree_inside {e c : Expr} {f g : String → String}
    (same : ∀ name, e.HasVar name → f name = g name) (mem : .expr c ∈ Node.ofExpr e) :
    ∀ name, c.HasVar name → f name = g name := fun name h => same name (h.inside mem)

/-- Only the names of the variables that occur matter. -/
theorem apartWith_congr {e : Expr} (h : e.IsOperation) {f g : String → String}
    (same : ∀ name, e.HasVar name → f name = g name) : e.apartWith f = e.apartWith g := by
  induction h with
  | @var name word => rw [apartWith, apartWith, same name (.self _)]
  | int natural => simp only [apartWith]
  | property word _ ih =>
    rw [apartWith, apartWith, ih (agree_inside same (by simp [Node.ofExpr]))]
  | binary spelled _ _ ihl ihr =>
    rw [apartWith, apartWith, ihl (agree_inside same (by simp [Node.ofExpr])),
      ihr (agree_inside same (by simp [Node.ofExpr]))]
  | unary _ ih =>
    rw [apartWith, apartWith, ih (agree_inside same (by simp [Node.ofExpr]))]
  | ternary _ _ _ iht ihy ihn =>
    rw [apartWith, apartWith, iht (agree_inside same (by simp [Node.ofExpr])),
      ihy (agree_inside same (by simp [Node.ofExpr])),
      ihn (agree_inside same (by simp [Node.ofExpr]))]
  | isset nonempty _ ih =>
    rw [apartWith, apartWith]
    refine congrArg issets (List.map_congr_left fun v mem => ?_)
    exact ih v mem (agree_inside same (by simp [Node.ofExpr, mem]))
  | empty _ ih =>
    rw [apartWith, apartWith, ih (agree_inside same (by simp [Node.ofExpr]))]
  | instanceOf words _ ih =>
    rw [apartWith, apartWith, ih (agree_inside same (by simp [Node.ofExpr]))]
  | cast _ ih =>
    rw [apartWith, apartWith, ih (agree_inside same (by simp [Node.ofExpr]))]

/-- Two operations with one text have one tree, unless two of their variables are written alike. -/
theorem issetsApart_eq_of_spelled {e e' : Expr} (h : e.IsOperation) (h' : e'.IsOperation)
    (apart : Set.InjOn safeName {name | e.HasVar name ∨ e'.HasVar name})
    (same : e.spelled = e'.spelled) : e.issetsApart = e'.issetsApart := by
  have chars : e.spell Position.needs = e'.spell Position.needs := String.ofList_injective same
  have read : e.apartWith safeName = e'.apartWith safeName := by
    have first := Readback.readExpr_spell h (Nat.lt_succ_self _)
    have second := Readback.readExpr_spell h' (Nat.lt_succ_self _)
    rw [chars, second] at first
    exact (congrArg Prod.fst (Option.some_inj.1 first)).symm
  -- The names can be taken back, because they are written apart.
  let source := Function.invFunOn safeName {name | e.HasVar name ∨ e'.HasVar name}
  have back : ∀ name, e.HasVar name ∨ e'.HasVar name → (source ∘ safeName) name = id name :=
    fun name mem => apart.leftInvOn_invFunOn mem
  calc e.issetsApart
    _ = e.apartWith (source ∘ safeName) := (apartWith_congr h fun x hx => back x (.inl hx)).symm
    _ = (e.apartWith safeName).apartWith source := (apartWith_apartWith h _ _).symm
    _ = (e'.apartWith safeName).apartWith source := by rw [read]
    _ = e'.apartWith (source ∘ safeName) := apartWith_apartWith h' _ _
    _ = e'.issetsApart := apartWith_congr h' fun x hx => back x (.inr hx)

end Expr

/-- Operations are converted to texts alone, with all the parentheses that are needed exactly if they
are grouped. With all these parentheses, and with no two variables written alike, the text determines
the tree, in which an `isset` of several variables stands for the conjunction of single ones. -/
theorem operators_survive {e e' : Expr} (h : e.IsOperation) (h' : e'.IsOperation)
    (apart : Set.InjOn safeName {name | e.HasVar name ∨ e'.HasVar name}) (cls : String) (s : State) :
    ∃ text text', (exprText cls e).run.run s = (.ok text, s) ∧
      (exprText cls e').run.run s = (.ok text', s) ∧
      (text = e.spelled ↔ e.Grouped) ∧
      (e.spelled = e'.spelled → e.issetsApart = e'.issetsApart) ∧
      (e.Grouped → e'.Grouped → text = text' → e.issetsApart = e'.issetsApart) := by
  have tree := Expr.issetsApart_eq_of_spelled h h' apart
  refine ⟨e.written, e'.written, run_operation h s, run_operation h' s, e.written_eq_spelled_iff,
    tree, fun grouped grouped' same => tree ?_⟩
  calc e.spelled
    _ = e.written := (e.written_eq_spelled_iff.2 grouped).symm
    _ = e'.written := same
    _ = e'.spelled := e'.written_eq_spelled_iff.2 grouped'

/-- `isset(a->b, c)` and `isset(a->b) && isset(c)` have one text and one tree. -/
theorem operators_survive_isset :
    let e : Expr := .isset [.property (.named "a") "b", .named "c"]
    let e' : Expr :=
      .binary .booleanAnd (.isset [.property (.named "a") "b"]) (.isset [.named "c"])
    e.IsOperation ∧ e'.IsOperation ∧
      Set.InjOn safeName {name | e.HasVar name ∨ e'.HasVar name} ∧ e.Grouped ∧ e'.Grouped ∧
      ((exprText "A" e).run.run {}).1 = .ok "isset a->b && isset c" ∧
      ((exprText "A" e').run.run {}).1 = .ok "isset a->b && isset c" ∧
      e.issetsApart = e'.issetsApart := by
  intro e e'
  have a : (Expr.named "a").IsOperation := .var (by decide)
  have c : (Expr.named "c").IsOperation := .var (by decide)
  have b : (Expr.property (.named "a") "b").IsOperation := .property (by decide) a
  have h : e.IsOperation := .isset (by simp) (by simp [b, c])
  have h' : e'.IsOperation :=
    .binary (by decide) (.isset (by simp) (by simp [b])) (.isset (by simp) (by simp [c]))
  have apart : Set.InjOn safeName {name | e.HasVar name ∨ e'.HasVar name} := by
    have names : ∀ name, e.HasVar name ∨ e'.HasVar name → name = "a" ∨ name = "c" := by
      intro name h
      have visited : .expr (.named name) ∈ nodesOf [.expr e, .expr e'] :=
        mem_nodesOf.2 (by simpa [Expr.HasVar] using h)
      simp [nodesOf_cons, Node.children, Node.ofExpr, e, e', Expr.named] at visited
      tauto
    have distinct : safeName "a" ≠ safeName "c" := by decide +kernel
    intro x hx y hy same
    rcases names x hx with rfl | rfl <;> rcases names y hy with rfl | rfl
    · rfl
    · exact absurd same distinct
    · exact absurd same.symm distinct
    · rfl
  obtain ⟨grouped, grouped'⟩ : e.Grouped ∧ e'.Grouped := by
    rw [← Expr.written_eq_spelled_iff, ← Expr.written_eq_spelled_iff]
    constructor <;>
      simp [e, e', Expr.written, Expr.spelled, Expr.spell_eq, Expr.named, Expr.pieces,
        Expr.issetPieces, Expr.furtherIssets, Piece.chars, Position.spell, Position.wraps,
        Position.needs, Expr.isLoose, Expr.isChain, Expr.isObject]
  have printed : ((exprText "A" e).run.run {}).1 = .ok "isset a->b && isset c" := by decide +kernel
  have printed' : ((exprText "A" e').run.run {}).1 = .ok "isset a->b && isset c" := by decide +kernel
  obtain ⟨text, text', run, run', -, -, tree⟩ := operators_survive h h' apart "A" {}
  refine ⟨h, h', apart, grouped, grouped', printed, printed', tree grouped grouped' ?_⟩
  rw [run] at printed
  rw [run'] at printed'
  cases printed
  cases printed'
  rfl

/-- `!isset(a, b)` and `!isset(a) && isset(b)` have one text, because an `isset` of several variables
gets no parentheses as an operand. -/
theorem negated_isset_ambiguous :
    let e : Expr := .unary .not (.isset [.named "a", .named "b"])
    let e' : Expr := .binary .booleanAnd (.unary .not (.isset [.named "a"])) (.isset [.named "b"])
    e.IsOperation ∧ e'.IsOperation ∧
      ((exprText "A" e).run.run {}).1 = .ok "!isset a && isset b" ∧
      ((exprText "A" e').run.run {}).1 = .ok "!isset a && isset b" ∧
      e.issetsApart ≠ e'.issetsApart := by
  intro e e'
  have a : (Expr.named "a").IsOperation := .var (by decide)
  have b : (Expr.named "b").IsOperation := .var (by decide)
  refine ⟨.unary (.isset (by simp) (by simp [a, b])), .binary (by decide)
    (.unary (.isset (by simp) (by simp [a]))) (.isset (by simp) (by simp [b])), by decide +kernel,
    by decide +kernel, ?_⟩
  simp [e, e', Expr.issetsApart, Expr.apartWith]

end Zephirize
