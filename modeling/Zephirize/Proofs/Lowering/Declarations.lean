import Zephirize.Proofs.Code.Equality
import Zephirize.Proofs.Lowering.Methods
import Zephirize.Proofs.Lowering.References

/-!
# Declared variables and assigned temporaries

The search for variables and the conversion are two walks over a body. `locals_exact` says that they
agree: from a state at the start of a method, the declared names are the names of the source that
need a declaration and the temporaries that the code assigns.

In a method the default values of the parameters are converted before the search, and the count of
temporaries goes on from them, but not for the code. `lowerMethod_declares_iff` says which
temporaries stay undeclared for that reason.
-/

namespace Zephirize

/-! ### Bodies -/

/-- The search and the conversion agree. From a state that counts from zero, keeps no array literals
and is in no loop, the variables to declare are, each once and but for the parameters, the names of
the source that need a declaration and the temporaries that the code of the body assigns. -/
theorem locals_exact {cls : String} {body : List Stmt} {params vars : List String}
    {s s₁ t : State} {code : List Code} (dims : s.dims = 0) (arrays : s.hoistArrays = false)
    (loops : s.loops = []) (search : (locals cls body params).run s = (vars, s₁))
    (conversion : (lowerBlock cls body).run.run s₁ = (.ok code, t)) :
    vars.Nodup ∧ ∀ name, name ∈ vars ↔ name ∉ params ∧
      ((∃ x ∈ sourceNames (body.map .stmt), DeclaredAs x name) ∨ name ∈ Code.tempsOf code) := by
  obtain ⟨clean, log, -, accounts⟩ := lowerBlock_ok conversion
  obtain ⟨vars', run, nodup, mem⟩ := locals_run cls clean params s
  rw [search] at run
  cases run
  refine ⟨nodup, fun name => ?_⟩
  have assigned : name ∈ Code.tempsOf code ↔ name ∈ (Tally.of (body.map .stmt)).temps false ∨
      name ∈ dimRange 0 (Tally.of (body.map .stmt)).dims := by
    rw [accounts.mem_temps loops, Tally.names, arrays]
    rfl
  rw [mem, assigned, dims]

/-- The assignment `[x, y] = f()[0]` of a method with the parameter `y`. -/
theorem locals_exact_destructuring :
    let slot (name : String) : Option Item := some ⟨none, .var (.literal name), false, false⟩
    let body : List Stmt := [.expression (.assign (.list [slot "x", slot "y"])
      (.dim (.call ⟨["f"], false⟩ []) (some (.int 0))) false)]
    let vars := ["x", "tmpListXY", "tmpDim1"]
    let code : List Code := [.keep "tmpDim1" "f()", .keep "tmpListXY" "tmpDim1[0]",
      .set "x" "tmpListXY[0]", .set "y" "tmpListXY[1]"]
    (locals "A" body ["y"]).run {} = (vars, {}) ∧
      (lowerBlock "A" body).run.run {} = (.ok code,
        { dims := 1, created := ["tmpDim1"], queued := [.keep "tmpDim1" "f()"] }) ∧
      vars.Nodup ∧ ∀ name, name ∈ vars ↔ name ∉ ["y"] ∧
        ((∃ x ∈ sourceNames (body.map .stmt), DeclaredAs x name) ∨ name ∈ Code.tempsOf code) := by
  intro slot body vars code
  have search : (locals "A" body ["y"]).run {} = (vars, {}) := by decide +kernel
  have conversion : (lowerBlock "A" body).run.run {} = (.ok code,
      { dims := 1, created := ["tmpDim1"], queued := [.keep "tmpDim1" "f()"] }) := by decide +kernel
  exact ⟨search, conversion, locals_exact rfl rfl rfl search conversion⟩

/-- Handlers and static variables without a name, or with the name of a variable that exists anyway,
are not declared. -/
theorem bound_names_not_declared :
    let handler (var : String) : Handler := ⟨[⟨["E"], false⟩], some var, []⟩
    let body : List Stmt := [.tryCatch [] [handler "this", handler ""] none,
      .static [⟨"_GET", none⟩, ⟨"", none⟩]]
    sourceNames (body.map .stmt) = ["this", "", "_GET", ""] ∧
      ((locals "A" body []).run {}).1 = [] ∧ ((lowerBlock "A" body).run.run {}).1.isOk = true := by
  decide +kernel

/-! ### Methods -/

/-- A method declares every temporary that its body assigns, parameters apart, if and only if the
numbers that are given both to default values and to the body belong to parameters or to variables
of the source. -/
theorem lowerMethod_declares_iff {ctx : Context} {m : Method} {body : List Stmt} {s t : State}
    {head : String} {vars : List String} {code : List Code} (hbody : m.body = some body)
    (run : (lowerMethod ctx m).run.run s = (.ok ⟨head, some (vars, code)⟩, t)) :
    (∀ x ∈ Code.tempsOf code, x ∈ vars ∨ x ∈ m.paramNames) ↔
      ∀ i, 0 < i → i ≤ heldFetches (m.defaults.map .expr) → i ≤ heldFetches (body.map .stmt) →
        dimTemp i ∈ m.paramNames ∨ ∃ x ∈ sourceNames (body.map .stmt), DeclaredAs x (dimTemp i) := by
  obtain ⟨vars', code', u, same, dims, arrays, loops, converted⟩ := lowerMethod_body run hbody
  cases same
  have outcome := lowerBody_run ctx.cls body m.paramNames u
  rw [converted] at outcome
  rcases outcome with ⟨_, _, _, log, same, -, -, accounts, mem⟩ | ⟨k, v, fails, -⟩
  · cases same
    simp only [dims, Tally.of_dims_eq] at mem
    have assigned : ∀ x, x ∈ Code.tempsOf code ↔ x ∈ (Tally.of (body.map .stmt)).temps false ∨
        x ∈ dimRange 0 (heldFetches (body.map .stmt)) := by
      intro x
      rw [accounts.mem_temps loops, Tally.names, arrays, Tally.of_dims_eq]
      rfl
    constructor
    · intro declared i pos low high
      have used : dimTemp i ∈ Code.tempsOf code :=
        (assigned _).2 (.inr (mem_dimRange.2 ⟨i, pos, by omega, rfl⟩))
      rcases declared _ used with hvars | hparam
      · rcases ((mem _).1 hvars).2 with source | temp | counted
        · exact .inr source
        · exact absurd temp (dimTemp_notMem_temps i _ _)
        · obtain ⟨j, after, -, same⟩ := mem_dimRange.1 counted
          have := dimTemp_injective same
          omega
      · exact .inl hparam
    · intro shared x hx
      by_cases hparam : x ∈ m.paramNames
      · exact .inr hparam
      refine .inl ((mem x).2 ⟨hparam, ?_⟩)
      rcases (assigned x).1 hx with temp | counted
      · exact .inr (.inl temp)
      · obtain ⟨i, pos, high, rfl⟩ := mem_dimRange.1 counted
        -- Numbers up to those of the default values are not counted again for the body.
        by_cases low : i ≤ heldFetches (m.defaults.map .expr)
        · exact .inl ((shared i pos low (by omega)).resolve_left hparam)
        · exact .inr (.inr (mem_dimRange.2 ⟨i, by omega, by omega, rfl⟩))
  · cases fails

/-- In `m(p = B::C[0])` with the body `return tmpDim1 + f()[0]`, the source itself names the first
temporary. -/
theorem lowerMethod_declares_iff_named :
    let ctx : Context := ⟨Scope.of {} { name := "A" }, ⟨{}, {}⟩⟩
    let fetch (base : Expr) : Expr := .dim base (some (.int 0))
    let body : List Stmt := [.ret (some (.binary .add (.var (.literal "tmpDim1"))
      (fetch (.call ⟨["f"], false⟩ []))))]
    let m : Method :=
      { name := "m", body := some body,
        params := [{ name := "p", value := some (fetch (.classConst ⟨["B"], false⟩ "C")) }] }
    let code : List Code := [.keep "tmpDim1" "f()", .ret (some "tmpDim1 + tmpDim1[0]")]
    (lowerMethod ctx m).run.run {} = (.ok ⟨"public function m(p = tmpDim1[0])",
        some (["tmpDim1", "tmpDim2"], code)⟩,
        { method := some "m", dims := 1, created := ["tmpDim1"],
          queued := [.keep "tmpDim1" "B::C", .keep "tmpDim1" "f()"] }) ∧
      ((∀ x ∈ Code.tempsOf code, x ∈ ["tmpDim1", "tmpDim2"] ∨ x ∈ m.paramNames) ↔
        ∀ i, 0 < i → i ≤ heldFetches (m.defaults.map .expr) → i ≤ heldFetches (body.map .stmt) →
          dimTemp i ∈ m.paramNames ∨
            ∃ x ∈ sourceNames (body.map .stmt), DeclaredAs x (dimTemp i)) := by
  intro ctx fetch body m code
  have run : (lowerMethod ctx m).run.run {} = (.ok ⟨"public function m(p = tmpDim1[0])",
      some (["tmpDim1", "tmpDim2"], code)⟩,
      { method := some "m", dims := 1, created := ["tmpDim1"],
        queued := [.keep "tmpDim1" "B::C", .keep "tmpDim1" "f()"] }) := by decide +kernel
  exact ⟨run, lowerMethod_declares_iff rfl run⟩

/-- In `m(p = B::C[0])` with the body `return f()[0]`, the code assigns the first temporary, but the
second one is declared. -/
theorem temporary_not_declared :
    let ctx : Context := ⟨Scope.of {} { name := "A" }, ⟨{}, {}⟩⟩
    let fetch (base : Expr) : Expr := .dim base (some (.int 0))
    let m : Method :=
      { name := "m",
        params := [{ name := "p", value := some (fetch (.classConst ⟨["B"], false⟩ "C")) }],
        body := some [.ret (some (fetch (.call ⟨["f"], false⟩ [])))] }
    let code : List Code := [.keep "tmpDim1" "f()", .ret (some "tmpDim1[0]")]
    ((lowerMethod ctx m).run.run {}).1 =
        .ok ⟨"public function m(p = tmpDim1[0])", some (["tmpDim2"], code)⟩ ∧
      Code.tempsOf code = ["tmpDim1"] ∧ m.paramNames = ["p"] := by
  intro ctx fetch m code
  exact ⟨by decide +kernel, by decide +kernel, by decide +kernel⟩

end Zephirize
