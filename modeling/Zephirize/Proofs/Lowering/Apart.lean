import Mathlib.Tactic
import Zephirize.Proofs.Code.Equality
import Zephirize.Proofs.Lowering.Methods
import Zephirize.Proofs.Program.Visible

/-!
# Names that stay apart

A name of the source is written as it is, but for a reserved word, which gets a suffix. A temporary
gets a name from a count, from the items of a literal or from the slots of a target. Neither looks
at the names that are in use already, so two names can meet.

* `safeName_eq_iff` — two names are written alike if one of them is the other one with the suffix.
* `PrintedAs` — what a name of a method is written as, at its parameters, variables, handlers and
  static variables.
* `NamesApart` — different names of a method are written differently, and as none of its
  temporaries.
* `lowerMethod_names_apart` — exactly where a method does not use both a reserved word and the word
  with the suffix, and no temporary of its own, its names stay apart.
-/

namespace Zephirize

open Lowering

/-! ### Names in writing -/

theorem asciiLower_append (x y : String) :
    Text.asciiLower (x ++ y) = Text.asciiLower x ++ Text.asciiLower y := by
  simp [Text.asciiLower, ← String.toList_inj, String.toList_map]

theorem asciiLower_append_fixed (x : String) :
    (Text.asciiLower (x ++ "Fixed")).toList = (Text.asciiLower x).toList ++ "fixed".toList := by
  rw [asciiLower_append, String.toList_append]
  congr 1
  rw [Text.asciiLower, String.toList_map]
  decide

/-- A reserved word with the suffix is no reserved word. -/
theorem isReserved_append_fixed (x : String) : isReserved (x ++ "Fixed") = false := by
  have ending : ∀ w ∈ reservedWords, ¬ "fixed".toList <:+ w.toList := by decide
  rw [isReserved, Bool.eq_false_iff]
  intro mem
  refine ending _ (List.contains_iff_mem.1 mem) ?_
  rw [asciiLower_append_fixed]
  exact List.suffix_append _ _

/-- Two names are written alike only if one of them is a reserved word and the other one is that
word with the suffix. -/
theorem safeName_eq_iff {x y : String} :
    safeName x = safeName y ↔ x = y ∨ (isReserved x = true ∧ y = x ++ "Fixed") ∨
      (isReserved y = true ∧ x = y ++ "Fixed") := by
  have free : ∀ z, isReserved (z ++ "Fixed") = true → False := fun z h => by
    rw [isReserved_append_fixed] at h
    cases h
  unfold safeName
  by_cases hx : isReserved x = true
  · by_cases hy : isReserved y = true
    · rw [if_pos hx, if_pos hy, String.append_left_inj]
      constructor
      · exact .inl
      · rintro (same | ⟨-, rfl⟩ | ⟨-, rfl⟩)
        · exact same
        · exact (free x hy).elim
        · exact (free y hx).elim
    · rw [if_pos hx, if_neg hy]
      constructor
      · exact fun same => .inr (.inl ⟨hx, same.symm⟩)
      · rintro (rfl | ⟨-, rfl⟩ | ⟨reserved, -⟩)
        · exact absurd hx hy
        · rfl
        · exact absurd reserved hy
  · by_cases hy : isReserved y = true
    · rw [if_neg hx, if_pos hy]
      constructor
      · exact fun same => .inr (.inr ⟨hy, same⟩)
      · rintro (rfl | ⟨reserved, -⟩ | ⟨-, same⟩)
        · exact absurd hy hx
        · exact absurd reserved hx
        · exact same
    · rw [if_neg hx, if_neg hy]
      constructor
      · exact .inl
      · rintro (same | ⟨reserved, -⟩ | ⟨reserved, -⟩)
        · exact same
        · exact absurd reserved hx
        · exact absurd reserved hy

/-- No reserved word starts as a temporary does, so only the temporary itself is written like it. -/
theorem HasTempForm.safeName_eq_iff {letter : Char} {temp x : String}
    (form : HasTempForm letter temp) : safeName x = temp ↔ x = temp := by
  have start : ∀ w ∈ reservedWords, ¬ ['t', 'm', 'p'] <+: w.toList ++ "fixed".toList := by decide
  constructor
  · intro same
    unfold safeName at same
    split_ifs at same with reserved
    · obtain ⟨rest, h⟩ := form
      have mem : Text.asciiLower x ∈ reservedWords := List.contains_iff_mem.1 reserved
      refine absurd ?_ (start _ mem)
      refine ⟨letter.toLower :: rest.map Char.toLower, ?_⟩
      rw [← asciiLower_append_fixed, same, Text.asciiLower, String.toList_map, ← h]
      rfl
    · exact same
  · rintro rfl
    exact form.safeName_eq

/-! ### The names of a method -/

/-- The names that the source gives to the parameters and variables of a method. -/
def Method.givenNames (m : Method) : List String := m.params.map Param.name ++ sourceNames m.roots

/-- The temporaries that the body of a method needs. -/
def Method.temporaries (m : Method) : Set String :=
  {x | x ∈ (Tally.of m.statements).temps false ∨ x ∈ dimRange 0 (heldFetches m.statements)}

theorem Method.temporaries_form {m : Method} {x : String} (h : x ∈ m.temporaries) :
    ∃ letter, HasTempForm letter x := by
  rcases h with temp | counted
  · rcases Tally.temps_form temp with form | form
    · exact ⟨_, form⟩
    · exact ⟨_, form⟩
  · obtain ⟨i, -, -, rfl⟩ := mem_dimRange.1 counted
    exact ⟨_, dimTemp_form i⟩

/-- In the conversion of the method, the name `x` of the source is written as `text`. -/
inductive PrintedAs (ctx : Context) (m : Method) : String → String → Prop where
  | param {sig : Signature} {p : Param} {spec : ParamSpec}
      (resolved : (ctx.resolver.signature ctx.scope m).1 = .ok sig)
      (mem : (p, spec) ∈ m.params.zip sig.params) : PrintedAs ctx m p.name spec.name
  | var {x text : String} {s t : State} (mem : .expr (.var (.literal x)) ∈ nodesOf m.roots)
      (run : (exprText ctx.cls (.var (.literal x))).run.run s = (.ok text, t)) :
      PrintedAs ctx m x text
  | handler {c : Handler} {x text : String} (mem : .handler c ∈ nodesOf m.roots)
      (bound : c.var = some x)
      (head : handlerHead c.types c.var = handlerHead c.types none ++ ", " ++ text) :
      PrintedAs ctx m x text
  | static {v : StaticLocal} {text value : String} {s t : State}
      (mem : .staticLocal v ∈ nodesOf m.roots)
      (run : (lowerStaticLocal ctx.cls v).run.run s = (.ok (.set text value), t)) :
      PrintedAs ctx m v.name text

/-- Different names of the method are written differently, and none of them as a temporary that the
code assigns. -/
def NamesApart (ctx : Context) (m : Method) (code : MethodCode) : Prop :=
  (∀ x x' text text', PrintedAs ctx m x text → PrintedAs ctx m x' text' → x ≠ x' →
    text ≠ text') ∧
  ∀ body ∈ code.body, ∀ temp ∈ Code.tempsOf body.2, ∀ x text, PrintedAs ctx m x text → temp ≠ text

/-- A parameter is written under its safe name. -/
theorem name_of_mem_zip {params : List Param} {specs : List ParamSpec}
    (h : specs.map ParamSpec.name = params.map fun p => safeName p.name) {q : Param × ParamSpec}
    (mem : q ∈ params.zip specs) : q.2.name = safeName q.1.name := by
  induction params generalizing specs with
  | nil => simp at mem
  | cons p rest ih =>
    cases specs with
    | nil => simp at h
    | cons spec more =>
      simp only [List.map_cons, List.cons.injEq] at h
      rw [List.zip_cons_cons, List.mem_cons] at mem
      rcases mem with rfl | mem
      · exact h.1
      · exact ih h.2 mem

theorem exists_mem_zip {params : List Param} {specs : List ParamSpec}
    (h : specs.map ParamSpec.name = params.map fun p => safeName p.name) {p : Param}
    (mem : p ∈ params) : ∃ spec, (p, spec) ∈ params.zip specs := by
  have length : specs.length = params.length := by simpa using congrArg List.length h
  obtain ⟨i, hi, rfl⟩ := List.mem_iff_getElem.1 mem
  exact ⟨specs[i], List.mem_iff_getElem.2 ⟨i, by simp [length, hi], by simp⟩⟩

/-- The line of a static variable assigns its safe name. -/
theorem lowerStaticLocal_target {cls : String} {v : StaticLocal} {line : Code} {s t : State}
    (run : (lowerStaticLocal cls v).run.run s = (.ok line, t)) :
    ∃ value, line = .set (safeName v.name) value := by
  obtain ⟨name, value⟩ := v
  unfold lowerStaticLocal at run
  cases value with
  | none =>
    cases run
    exact ⟨_, rfl⟩
  | some value =>
    obtain ⟨text, u, -, last⟩ := exists_of_run_bind run
    cases last
    exact ⟨text, rfl⟩

theorem exprText_literal (cls x : String) :
    exprText cls (.var (.literal x)) = pure (safeName x) := by
  rw [exprText, lower]
  rfl

theorem handlerHead_some (types : List Name) (x : String) :
    handlerHead types (some x) = handlerHead types none ++ ", " ++ safeName x := rfl

/-- A method that can be converted has a signature, and nothing in it is refused. -/
theorem lowerMethod_ok {ctx : Context} {m : Method} {s t : State} {code : MethodCode}
    (h : (lowerMethod ctx m).run.run s = (.ok code, t)) :
    (∃ sig, (ctx.resolver.signature ctx.scope m).1 = .ok sig) ∧ (Tally.of m.roots).refused = ∅ := by
  constructor
  · obtain ⟨-, u, -, rest⟩ := exists_of_run_bind h
    obtain ⟨head, v, inside, -⟩ := exists_of_run_bind rest
    obtain ⟨sig, w, resolved, -⟩ := exists_of_run_bind inside
    obtain ⟨notes, run⟩ := run_resolveSignature ctx m
    rw [run] at resolved
    cases signature : (ctx.resolver.signature ctx.scope m).1 with
    | ok sig => exact ⟨sig, rfl⟩
    | error e =>
      rw [signature] at resolved
      cases resolved
  · have outcome := lowerMethod_run ctx m s
    rw [h] at outcome
    rcases outcome with ⟨_, _, _, -, defaults, statements, -⟩ | ⟨_, _, fails, -⟩ | ⟨_, _, fails, -⟩
    · rw [Method.roots, Tally.of_append, Tally.add_refused, defaults, statements, Set.union_self]
    · cases fails
    · cases fails

/-- The body of a method that can be converted assigns the temporaries of the method. -/
theorem lowerMethod_temporaries {ctx : Context} {m : Method} {s t : State} {code : MethodCode}
    (h : (lowerMethod ctx m).run.run s = (.ok code, t)) (x : String) :
    x ∈ m.temporaries ↔ ∃ body ∈ code.body, x ∈ Code.tempsOf body.2 := by
  cases hbody : m.body with
  | none =>
    have none : code.body = none := by
      obtain ⟨-, u, -, rest⟩ := exists_of_run_bind h
      obtain ⟨head, v, -, last⟩ := exists_of_run_bind rest
      rw [hbody] at last
      cases last
      rfl
    simp [Method.temporaries, Method.statements, hbody, none, heldFetches]
  | some body =>
    obtain ⟨vars, lines, u, same, dims, arrays, loops, converted⟩ := lowerMethod_body h hbody
    have outcome := lowerBody_run ctx.cls body m.paramNames u
    rw [converted] at outcome
    rcases outcome with ⟨_, _, _, log, run, -, -, accounts, -⟩ | ⟨k, v, fails, -⟩
    · cases run
      have statements : m.statements = body.map .stmt := by rw [Method.statements, hbody]; rfl
      simp only [same, Option.mem_some, exists_eq_left']
      rw [accounts.mem_temps loops, Tally.names, arrays, Tally.of_dims_eq, ← statements]
      rfl
    · cases fails

/-- What the names of a method that can be converted are written as. -/
theorem printedAs_iff {ctx : Context} {m : Method} {s t : State} {code : MethodCode}
    (h : (lowerMethod ctx m).run.run s = (.ok code, t)) {x text : String} :
    PrintedAs ctx m x text ↔ x ∈ m.givenNames ∧ text = safeName x := by
  obtain ⟨⟨sig, resolved⟩, clean⟩ := lowerMethod_ok h
  have names : sig.params.map ParamSpec.name = m.params.map fun p => safeName p.name := by
    rcases signature_run ctx.resolver ctx.scope m with ⟨sig', hsig, names, -⟩ | ⟨e, fails, -⟩
    · rw [resolved] at hsig
      cases hsig
      exact names
    · rw [resolved] at fails
      cases fails
  unfold Method.givenNames
  rw [List.mem_append, mem_sourceNames]
  constructor
  · intro printed
    cases printed with
    | @param sig' p spec resolved' mem =>
      rw [resolved] at resolved'
      cases resolved'
      exact ⟨.inl (List.mem_map_of_mem (List.of_mem_zip mem).1), name_of_mem_zip names mem⟩
    | var mem run =>
      rw [exprText_literal] at run
      cases run
      exact ⟨.inr ⟨_, mem, by simp [Node.sourceNames]⟩, rfl⟩
    | @handler c _ _ mem bound head =>
      rw [bound, handlerHead_some, String.append_right_inj] at head
      exact ⟨.inr ⟨_, mem, by simp [Node.sourceNames, bound]⟩, head.symm⟩
    | static mem run =>
      obtain ⟨value, line⟩ := lowerStaticLocal_target run
      cases line
      exact ⟨.inr ⟨_, mem, by simp [Node.sourceNames]⟩, rfl⟩
  · rintro ⟨param | ⟨n, mem, name⟩, rfl⟩
    · obtain ⟨p, hp, rfl⟩ := List.mem_map.1 param
      obtain ⟨spec, zipped⟩ := exists_mem_zip names hp
      rw [← name_of_mem_zip names zipped]
      exact .param resolved zipped
    · unfold Node.sourceNames at name
      split at name
      · rename_i y
        obtain rfl := List.mem_singleton.1 name
        exact .var (s := {}) mem (by rw [exprText_literal]; rfl)
      · rename_i c
        have bound : c.var = some x := Option.mem_toList.1 name
        exact .handler mem bound (by rw [bound, handlerHead_some])
      · rename_i v
        obtain rfl := List.mem_singleton.1 name
        -- Nothing in the method is refused, so the first value can be converted.
        have conversion : Converts ctx.cls (lowerStaticLocal ctx.cls v) [] _ _ :=
          converts_staticLocal v
        rcases conversion.outcome {} with ⟨line, u, run, -⟩ | ⟨k, u, -, -, refused⟩
        · obtain ⟨value, rfl⟩ := lowerStaticLocal_target run
          exact .static mem run
        · rw [Tally.refused_eq_empty_of_mem clean mem] at refused
          exact refused.elim
      · cases name

/-- In a method that can be converted, every parameter and variable is written under its safe name.
The names stay apart exactly if no reserved word is used along with the word with the suffix, and no
name is that of a temporary of the method. -/
theorem lowerMethod_names_apart {ctx : Context} {m : Method} {s t : State} {code : MethodCode}
    (h : (lowerMethod ctx m).run.run s = (.ok code, t)) :
    (∀ x text, PrintedAs ctx m x text ↔ x ∈ m.givenNames ∧ text = safeName x) ∧
      (NamesApart ctx m code ↔
        (∀ x ∈ m.givenNames, isReserved x = true → x ++ "Fixed" ∉ m.givenNames) ∧
          ∀ x ∈ m.givenNames, x ∉ m.temporaries) := by
  refine ⟨fun x text => printedAs_iff h, ?_⟩
  have printed : ∀ x ∈ m.givenNames, PrintedAs ctx m x (safeName x) :=
    fun x mem => (printedAs_iff h).2 ⟨mem, rfl⟩
  constructor
  · rintro ⟨different, fresh⟩
    constructor
    · intro x mem reserved suffixed
      have alike : safeName x = safeName (x ++ "Fixed") :=
        safeName_eq_iff.2 (.inr (.inl ⟨reserved, rfl⟩))
      refine different _ _ _ _ (printed x mem) (printed _ suffixed) (fun same => ?_) alike
      rw [same, isReserved_append_fixed] at reserved
      cases reserved
    · intro x mem temp
      obtain ⟨letter, form⟩ := Method.temporaries_form temp
      obtain ⟨body, hbody, assigned⟩ := (lowerMethod_temporaries h x).1 temp
      exact fresh body hbody x assigned _ _ (printed x mem) form.safeName_eq.symm
  · rintro ⟨words, temps⟩
    constructor
    · rintro x x' text text' hx hx' other same
      obtain ⟨mem, rfl⟩ := (printedAs_iff h).1 hx
      obtain ⟨mem', rfl⟩ := (printedAs_iff h).1 hx'
      rcases safeName_eq_iff.1 same with rfl | ⟨reserved, rfl⟩ | ⟨reserved, rfl⟩
      · exact other rfl
      · exact words x mem reserved mem'
      · exact words x' mem' reserved mem
    · rintro body hbody temp assigned x text hx same
      obtain ⟨mem, rfl⟩ := (printedAs_iff h).1 hx
      have needed : temp ∈ m.temporaries :=
        (lowerMethod_temporaries h temp).2 ⟨body, hbody, assigned⟩
      obtain ⟨letter, form⟩ := Method.temporaries_form needed
      obtain rfl := form.safeName_eq_iff.1 same.symm
      exact temps x mem needed

/-- A method with the parameter `class` and the body `[a] = f()[class]; try ... catch (E e); static
Class`: the reserved word is used in two spellings, but never with the suffix. -/
theorem lowerMethod_names_apart_spellings :
    let ctx : Context := ⟨Scope.of {} { name := "A" }, ⟨{}, {}⟩⟩
    let m : Method :=
      { name := "m", params := [{ name := "class" }],
        body := some [
          .expression (.assign (.list [some ⟨none, .var (.literal "a"), false, false⟩])
            (.dim (.call ⟨["f"], false⟩ []) (some (.var (.literal "class")))) false),
          .tryCatch [] [⟨[⟨["E"], false⟩], some "e", []⟩] none, .static [⟨"Class", none⟩]] }
    let code : MethodCode := ⟨"public function m(classFixed)",
      some (["a", "tmpListA", "tmpDim1", "e", "ClassFixed"], [.keep "tmpDim1" "f()",
        .keep "tmpListA" "tmpDim1[classFixed]", .set "a" "tmpListA[0]",
        .tryCatch [] [.mk "catch E, e" []], .set "ClassFixed" "null"])⟩
    let t : State :=
      { method := some "m", dims := 1, queued := [.keep "tmpDim1" "f()"], created := ["tmpDim1"],
        diagnostics := [⟨.incompatibility "static",
          "Static variable(s) $Class converted to locals", "m: static", "A"⟩] }
    (lowerMethod ctx m).run.run {} = (.ok code, t) ∧
      (∀ x text, PrintedAs ctx m x text ↔ x ∈ m.givenNames ∧ text = safeName x) ∧
      (NamesApart ctx m code ↔
        (∀ x ∈ m.givenNames, isReserved x = true → x ++ "Fixed" ∉ m.givenNames) ∧
          ∀ x ∈ m.givenNames, x ∉ m.temporaries) := by
  intro ctx m code t
  have run : (lowerMethod ctx m).run.run {} = (.ok code, t) := by decide +kernel
  exact ⟨run, lowerMethod_names_apart run⟩

/-- In a method with the body `class = 1; classFixed = 2; tmpDim1 = 3; return f()[0]`, the first two
variables are written alike, and the third one as the temporary for the call. -/
theorem names_meet :
    let ctx : Context := ⟨Scope.of {} { name := "A" }, ⟨{}, {}⟩⟩
    let set (name : String) (value : Int64) : Stmt :=
      .expression (.assign (.var (.literal name)) (.int value) false)
    let m : Method :=
      { name := "m",
        body := some [set "class" 1, set "classFixed" 2, set "tmpDim1" 3,
          .ret (some (.dim (.call ⟨["f"], false⟩ []) (some (.int 0))))] }
    let code : List Code := [.set "classFixed" "1", .set "classFixed" "2", .set "tmpDim1" "3",
      .keep "tmpDim1" "f()", .ret (some "tmpDim1[0]")]
    let t : State :=
      { method := some "m", dims := 1, queued := [.keep "tmpDim1" "f()"], created := ["tmpDim1"] }
    (lowerMethod ctx m).run.run {} =
        (.ok ⟨"public function m()", some (["classFixed", "tmpDim1"], code)⟩, t) ∧
      PrintedAs ctx m "class" "classFixed" ∧ PrintedAs ctx m "classFixed" "classFixed" ∧
      PrintedAs ctx m "tmpDim1" "tmpDim1" ∧ "tmpDim1" ∈ Code.tempsOf code := by
  intro ctx set m code t
  have run : (lowerMethod ctx m).run.run {} =
      (.ok ⟨"public function m()", some (["classFixed", "tmpDim1"], code)⟩, t) := by decide +kernel
  have given : m.givenNames = ["class", "classFixed", "tmpDim1"] := by
    simp [m, set, Method.givenNames, Method.roots, Method.defaults, Method.statements,
      sourceNames_cons, Node.sourceNames, Node.children, Node.ofStmt, Node.ofExpr]
  have temps : Code.tempsOf code = ["tmpDim1"] := by
    simp only [code, Code.set, Code.tempsOf, Code.partsOf_cons, Code.partsOf_nil, Code.parts]
    rfl
  have printed : ∀ x text, x ∈ m.givenNames → text = safeName x → PrintedAs ctx m x text :=
    fun x text mem written => (printedAs_iff run).2 ⟨mem, written⟩
  have reserved : isReserved "class" = true := by
    rw [isReserved, Text.asciiLower_eq]
    decide
  have word : "classFixed" = safeName "class" := by
    rw [safeName, if_pos reserved]
    rfl
  have form : HasTempForm 'D' "tmpDim1" := by
    unfold HasTempForm
    decide
  rw [given] at printed
  rw [temps]
  refine ⟨run, printed _ _ (by simp) word, printed _ _ (by simp) ?_,
    printed _ _ (by simp) form.safeName_eq.symm, List.mem_singleton_self _⟩
  exact word.trans (safeName_eq_iff.2 (.inr (.inl ⟨reserved, rfl⟩)))

end Zephirize
