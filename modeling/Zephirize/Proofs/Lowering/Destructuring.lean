import Zephirize.Proofs.Code.Equality
import Zephirize.Proofs.Lowering.Targets
import Zephirize.Proofs.Lowering.Temporaries

/-!
# Taking a value apart

A destructuring target is converted to one assignment for each slot. A slot with a target inside is
first kept in a temporary, which the slots inside are then read from. The temporaries are named after
the variables below them, and so two of them can have one name.

* `Slots` — the slots of a target, `Slots.lines` — their assignments.
* `Slots.leaves` — the variables, with the indices on the way to each.
* `Reading` — a way to read the texts of expressions, in which assignments can be executed.
* `Slots.Intact` — no temporary is lost while there are variables to read from it.

`destructuring_reads_iff`: every variable gets the element at its own indices, in every reading,
exactly if the target is intact. It is if every variable has a letter, a digit or an underscore in its
name, since then the temporaries around a slot have longer names than those inside.
-/

namespace Zephirize

open Lowering

/-! ### Slots -/

/-- A literal that can be a key. -/
inductive KeyLiteral where
  | string (value : String)
  | int (value : Int64)
  | float (value : Float)

namespace KeyLiteral

def toExpr : KeyLiteral → Expr
  | .string value => .string value
  | .int value => .int value
  | .float value => .float value

def text : KeyLiteral → String
  | .string value => Text.Quoted.quote value
  | .int value => toString value.toInt
  | .float value => codeLayout.write value

theorem lower_toExpr (cls : String) (l : KeyLiteral) : lower cls l.toExpr = pure (.value l.text) := by
  cases l <;> rw [toExpr, lower, text]

end KeyLiteral

/-- The slots of a destructuring target. A slot is a gap, or a variable or a target with an optional
key. -/
inductive Slots where
  | done
  | gap (rest : Slots)
  | leaf (key : Option KeyLiteral) (name : String) (byRef unpack : Bool) (rest : Slots)
  | nested (key : Option KeyLiteral) (inner : Slots) (byRef unpack : Bool) (rest : Slots)

/-- The index of a slot: its key, or its position. -/
def slotIndex (position : ℕ) : Option KeyLiteral → String
  | some key => key.text
  | none => toString position

/-- The text of an indexed fetch. -/
def fetchText (source index : String) : String := source ++ "[" ++ index ++ "]"

namespace Slots

/-- The slots as they stand in the tree. -/
def toItems : Slots → List (Option Item)
  | .done => []
  | .gap rest => none :: rest.toItems
  | .leaf key name byRef unpack rest =>
    some ⟨key.map KeyLiteral.toExpr, .named name, byRef, unpack⟩ :: rest.toItems
  | .nested key inner byRef unpack rest =>
    some ⟨key.map KeyLiteral.toExpr, .list inner.toItems, byRef, unpack⟩ :: rest.toItems

/-- The temporary that the slots are read from. -/
def temp (slots : Slots) : String := listTemp slots.toItems

/-- The temporaries of the targets inside. -/
def temps (slots : Slots) : List String := innerTemps slots.toItems

/-- The variables, as they are written. -/
def names : Slots → List String
  | .done => []
  | .gap rest => rest.names
  | .leaf _ name _ _ rest => safeName name :: rest.names
  | .nested _ inner _ _ rest => inner.names ++ rest.names

/-- The variables, as they are written, each with the indices on the way to it. The first slot is at
`position`. -/
def leaves (position : ℕ) : Slots → List (String × List String)
  | .done => []
  | .gap rest => rest.leaves (position + 1)
  | .leaf key name _ _ rest =>
    (safeName name, [slotIndex position key]) :: rest.leaves (position + 1)
  | .nested key inner _ _ rest =>
    (inner.leaves 0).map (fun leaf => (leaf.1, slotIndex position key :: leaf.2)) ++
      rest.leaves (position + 1)

/-- The assignments that take the value in `source` apart. -/
def lines (source : String) (position : ℕ) : Slots → List Code
  | .done => []
  | .gap rest => rest.lines source (position + 1)
  | .leaf key name _ _ rest =>
    .set (safeName name) (fetchText source (slotIndex position key)) ::
      rest.lines source (position + 1)
  | .nested key inner _ _ rest =>
    .keep inner.temp (fetchText source (slotIndex position key)) ::
      (inner.lines inner.temp 0 ++ rest.lines source (position + 1))

@[simp]
theorem temps_done : done.temps = [] := by simp [temps, toItems, innerTemps]

@[simp]
theorem temps_gap (rest : Slots) : (gap rest).temps = rest.temps := by
  simp [temps, toItems, innerTemps]

@[simp]
theorem temps_leaf (key : Option KeyLiteral) (name : String) (byRef unpack : Bool) (rest : Slots) :
    (leaf key name byRef unpack rest).temps = rest.temps := by
  simp [temps, toItems, innerTemps, slotTemps, Expr.named]

@[simp]
theorem temps_nested (key : Option KeyLiteral) (inner : Slots) (byRef unpack : Bool) (rest : Slots) :
    (nested key inner byRef unpack rest).temps = inner.temp :: (inner.temps ++ rest.temps) := by
  simp [temps, temp, toItems, innerTemps, slotTemps]

theorem map_leaves (slots : Slots) (position : ℕ) :
    (slots.leaves position).map Prod.fst = slots.names := by
  induction slots generalizing position with
  | done => rfl
  | gap rest ih => exact ih _
  | leaf key name byRef unpack rest ih => rw [leaves, List.map_cons, ih, names]
  | nested key inner byRef unpack rest ihInner ih =>
    rw [leaves, List.map_append, List.map_map, ih, names, ← ihInner 0]
    rfl

theorem leaves_eq_nil_iff {slots : Slots} {position : ℕ} :
    slots.leaves position = [] ↔ slots.names = [] := by
  rw [← slots.map_leaves position, List.map_eq_nil_iff]

theorem mem_names {slots : Slots} {position : ℕ} {leaf : String × List String}
    (h : leaf ∈ slots.leaves position) : leaf.1 ∈ slots.names := by
  rw [← slots.map_leaves position]
  exact List.mem_map_of_mem h

/-- The index of a literal key needs no line. -/
theorem indexText_key (cls : String) (position : ℕ) (key : Option KeyLiteral) :
    indexText cls position (key.map KeyLiteral.toExpr) = pure (slotIndex position key) := by
  cases key with
  | none => rfl
  | some key => rw [Option.map_some, indexText, exprText, KeyLiteral.lower_toExpr]; rfl

/-- The conversion gives these lines and hoists nothing. -/
theorem destructure_eq (cls source : String) (position : ℕ) (slots : Slots) :
    destructure cls source position slots.toItems = pure (slots.lines source position) := by
  induction slots generalizing source position with
  | done => rw [toItems, destructure, lines]
  | gap rest ih => rw [toItems, destructure, ih, lines]
  | leaf key name byRef unpack rest ih =>
    rw [toItems, destructure_cons, indexText_key, pure_bind, Expr.named, assignInto, exprText, lower,
      ih, lines]
    · rfl
    · rintro items ⟨⟩
  | nested key inner byRef unpack rest ihInner ih =>
    rw [toItems, destructure_cons, indexText_key, pure_bind, assignInto, ihInner, ih, lines]
    rfl

/-- An assignment to a target: the value is kept in the temporary and then taken apart. -/
theorem lower_assign (cls : String) (slots : Slots) (value : Expr) (byRef : Bool) :
    lower cls (.assign (.list slots.toItems) value byRef) = (do
      reportIf byRef cls "reference" "Assignment by reference not supported" "assign"
      let text ← exprText cls value
      return .assigned (.keep slots.temp text :: slots.lines slots.temp 0) slots.temp) := by
  rw [lower]
  refine bind_congr fun _ => ?_
  rw [exprText, bind_assoc]
  refine bind_congr fun lowered => bind_congr fun text => ?_
  rw [← temp, destructure_eq, pure_bind]

/-- An index starts at no place inside the name of a temporary. -/
theorem temp_plain (slots : Slots) : '[' ∉ slots.temp.toList := by
  have front : '[' ∉ "tmpList".toList := by simp
  have back : '[' ∉ (stems slots.toItems).toList.filter isTempChar := by
    rw [List.mem_filter]
    simp [isTempChar]
  rw [temp, listTemp, String.toList_append, List.mem_append]
  exact not_or.2 ⟨front, by rwa [String.toList_ofList]⟩

/-- All that the lines assign. -/
def written : Slots → List String
  | .done => []
  | .gap rest => rest.written
  | .leaf _ name _ _ rest => safeName name :: rest.written
  | .nested _ inner _ _ rest => inner.temp :: (inner.written ++ rest.written)

theorem mem_written {slots : Slots} {x : String} :
    x ∈ slots.written ↔ x ∈ slots.temps ∨ x ∈ slots.names := by
  induction slots with
  | done => simp [written, names]
  | gap rest ih => simp [written, names, ih]
  | leaf key name byRef unpack rest ih => simp [written, names, ih, or_left_comm]
  | nested key inner byRef unpack rest ihInner ih =>
    simp only [written, names, temps_nested, List.mem_cons, List.mem_append, ihInner, ih]
    tauto

theorem mem_cons_written {slots : Slots} {x : String} :
    x ∈ slots.temp :: slots.written ↔ x ∈ slots.temp :: slots.temps ∨ x ∈ slots.names := by
  rw [List.mem_cons, List.mem_cons, mem_written, or_assoc]

end Slots

/-! ### Executing assignments -/

/-- A way to read the texts of expressions, where variables have values: in each value there are
elements at indices, and a fetch from a variable reads one of them. -/
structure Reading (V : Type) where
  element : V → String → V
  eval : (String → V) → String → V
  eval_fetch : ∀ env source index, '[' ∉ source.toList →
    eval env (fetchText source index) = element (env source) index

namespace Reading

variable {V : Type} (r : Reading V)

/-- Executes an assignment. -/
def step (env : String → V) : Code → String → V
  | .keep temp text => Function.update env temp (r.eval env text)
  | .assign target (.set text) => Function.update env target (r.eval env text)
  | _ => env

/-- Executes assignments in order. -/
def run (env : String → V) (lines : List Code) : String → V := lines.foldl r.step env

/-- The element at indices one below the other. -/
def follow (v : V) (path : List String) : V := path.foldl r.element v

theorem run_append (env : String → V) (xs ys : List Code) :
    r.run env (xs ++ ys) = r.run (r.run env xs) ys := List.foldl_append

theorem run_leaf {source : String} (plain : '[' ∉ source.toList) (env : String → V) (position : ℕ)
    (key : Option KeyLiteral) (name : String) (byRef unpack : Bool) (rest : Slots) :
    r.run env ((Slots.leaf key name byRef unpack rest).lines source position) =
      r.run (Function.update env (safeName name) (r.element (env source) (slotIndex position key)))
        (rest.lines source (position + 1)) := by
  rw [← r.eval_fetch env source _ plain]
  rfl

theorem run_nested {source : String} (plain : '[' ∉ source.toList) (env : String → V)
    (position : ℕ) (key : Option KeyLiteral) (inner : Slots) (byRef unpack : Bool) (rest : Slots) :
    r.run env ((Slots.nested key inner byRef unpack rest).lines source position) =
      r.run (r.run (Function.update env inner.temp (r.element (env source) (slotIndex position key)))
        (inner.lines inner.temp 0)) (rest.lines source (position + 1)) := by
  rw [← r.eval_fetch env source _ plain, ← run_append]
  rfl

/-- Nothing else is assigned. -/
theorem run_of_not_mem {slots : Slots} {x source : String} (h : x ∉ slots.written)
    (plain : '[' ∉ source.toList) (position : ℕ) (env : String → V) :
    r.run env (slots.lines source position) x = env x := by
  induction slots generalizing source position env with
  | done => rfl
  | gap rest ih => exact ih h plain _ _
  | leaf key name byRef unpack rest ih =>
    simp only [Slots.written, List.mem_cons, not_or] at h
    rw [r.run_leaf plain, ih h.2 plain, Function.update_of_ne h.1]
  | nested key inner byRef unpack rest ihInner ih =>
    simp only [Slots.written, List.mem_cons, List.mem_append, not_or] at h
    rw [r.run_nested plain, ih h.2.2 plain, ihInner h.2.1 inner.temp_plain,
      Function.update_of_ne h.1]

end Reading

/-! ### Intact targets -/

namespace Slots

/-- Below the temporary `source`, the variables have names of their own. -/
structure Separate (source : String) (slots : Slots) : Prop where
  distinct : slots.names.Nodup
  apart : ∀ x ∈ slots.names, x ≠ source ∧ x ∉ slots.temps

/-- No temporary is assigned while there are variables to read from it. -/
def Intact (source : String) : Slots → Prop
  | .done => True
  | .gap rest => rest.Intact source
  | .leaf _ _ _ _ rest => rest.Intact source
  | .nested _ inner _ _ rest =>
    inner.Intact inner.temp ∧ (source ∈ inner.temp :: inner.temps → rest.names = []) ∧
      rest.Intact source

instance decidableIntact (source : String) : ∀ slots : Slots, Decidable (slots.Intact source)
  | .done => isTrue trivial
  | .gap rest => decidableIntact source rest
  | .leaf _ _ _ _ rest => decidableIntact source rest
  | .nested _ inner _ _ rest =>
    have := decidableIntact inner.temp inner
    have := decidableIntact source rest
    inferInstanceAs (Decidable (_ ∧ _ ∧ _))

theorem intact_of_names_eq_nil {slots : Slots} (h : slots.names = []) (source : String) :
    slots.Intact source := by
  induction slots generalizing source with
  | done => trivial
  | gap rest ih => exact ih h source
  | leaf key name byRef unpack rest ih => exact absurd h (List.cons_ne_nil _ _)
  | nested key inner byRef unpack rest ihInner ih =>
    obtain ⟨none, none'⟩ := List.append_eq_nil_iff.1 h
    exact ⟨ihInner none _, fun _ => none', ih none' source⟩

section Separate

variable {source name : String} {key : Option KeyLiteral} {byRef unpack : Bool} {inner rest : Slots}

theorem Separate.of_gap (h : (gap rest).Separate source) : rest.Separate source :=
  ⟨h.distinct, fun x hx => by simpa using h.apart x hx⟩

theorem Separate.of_leaf (h : (leaf key name byRef unpack rest).Separate source) :
    rest.Separate source ∧ safeName name ∉ rest.written ∧ source ≠ safeName name := by
  obtain ⟨distinct, apart⟩ := h
  rw [names] at distinct apart
  obtain ⟨notMem, distinct⟩ := List.nodup_cons.1 distinct
  obtain ⟨ne, notTemp⟩ := apart (safeName name) List.mem_cons_self
  rw [temps_leaf] at notTemp
  refine ⟨⟨distinct, fun x hx => ?_⟩, ?_, ne.symm⟩
  · simpa using apart x (List.mem_cons_of_mem _ hx)
  · rw [mem_written]
    exact not_or.2 ⟨notTemp, notMem⟩

theorem Separate.of_nested (h : (nested key inner byRef unpack rest).Separate source) :
    inner.Separate inner.temp ∧ rest.Separate source ∧ (∀ x ∈ inner.names, x ∉ rest.written) ∧
      source ∉ inner.names := by
  obtain ⟨distinct, apart⟩ := h
  rw [names] at distinct apart
  obtain ⟨distinct, distinct', disjoint⟩ := List.nodup_append.1 distinct
  have parts : ∀ x ∈ inner.names ++ rest.names,
      x ≠ source ∧ x ≠ inner.temp ∧ x ∉ inner.temps ∧ x ∉ rest.temps := by
    intro x hx
    simpa using apart x hx
  refine ⟨⟨distinct, fun x hx => ?_⟩, ⟨distinct', fun x hx => ?_⟩, fun x hx => ?_, fun hs => ?_⟩
  · obtain ⟨-, ne, notMem, -⟩ := parts x (List.mem_append_left _ hx)
    exact ⟨ne, notMem⟩
  · obtain ⟨ne, -, -, notMem⟩ := parts x (List.mem_append_right _ hx)
    exact ⟨ne, notMem⟩
  · rw [mem_written]
    obtain ⟨-, -, -, notMem⟩ := parts x (List.mem_append_left _ hx)
    exact not_or.2 ⟨notMem, fun hx' => disjoint x hx x hx' rfl⟩
  · exact (parts source (List.mem_append_left _ hs)).1 rfl

end Separate

end Slots

/-! ### Intact targets are read -/

/-- Below an intact temporary, every variable gets the element at its indices. -/
theorem Reading.run_of_intact {V : Type} (r : Reading V) {slots : Slots} {source : String}
    (intact : slots.Intact source) (separate : slots.Separate source)
    (plain : '[' ∉ source.toList) (position : ℕ) (env : String → V) :
    ∀ leaf ∈ slots.leaves position,
      r.run env (slots.lines source position) leaf.1 = r.follow (env source) leaf.2 := by
  induction slots generalizing source position env with
  | done => simp [Slots.leaves]
  | gap rest ih => exact ih intact separate.of_gap plain _ _
  | leaf key name byRef unpack rest ih =>
    obtain ⟨separate', notWritten, ne⟩ := separate.of_leaf
    intro leaf hl
    rw [r.run_leaf plain]
    rcases List.mem_cons.1 hl with rfl | hl
    · rw [r.run_of_not_mem notWritten plain, Function.update_self]
      rfl
    · rw [ih intact separate' plain _ _ leaf hl, Function.update_of_ne ne]
  | nested key inner byRef unpack rest ihInner ih =>
    obtain ⟨intactInner, unread, intactRest⟩ := intact
    obtain ⟨separateInner, separateRest, notWritten, notName⟩ := separate.of_nested
    intro leaf hl
    rw [r.run_nested plain]
    rcases List.mem_append.1 hl with hl | hl
    · obtain ⟨below, hb, rfl⟩ := List.mem_map.1 hl
      rw [r.run_of_not_mem (notWritten below.1 (Slots.mem_names hb)) plain,
        ihInner intactInner separateInner inner.temp_plain _ _ below hb, Function.update_self]
      rfl
    · -- There is a variable to be read from `source`, so nothing inside was kept under that name.
      have kept : source ∉ inner.temp :: inner.temps := by
        intro mem
        exact absurd (Slots.mem_names hl) (by simp [unread mem])
      have other : source ∉ inner.temp :: inner.written :=
        fun mem => (Slots.mem_cons_written.1 mem).elim kept notName
      rw [ih intactRest separateRest plain _ _ leaf hl,
        r.run_of_not_mem (List.not_mem_of_not_mem_cons other) inner.temp_plain,
        Function.update_of_ne (List.ne_of_not_mem_cons other)]

/-! ### Only intact targets are read -/

namespace Reading

/-- The reading in which a value is nothing but the indices on the way to it. A text is read as a
fetch from the variable in front of its first bracket. -/
def trails : Reading (List String) where
  element v index := v ++ [index]
  eval env text := env (.ofList (text.toList.takeWhile (· != '['))) ++
    [.ofList (text.toList.dropWhile (· != '[')).tail.dropLast]
  eval_fetch env source index plain := by
    have shape : (fetchText source index).toList =
        source.toList ++ '[' :: (index.toList ++ [']']) := by simp [fetchText]
    have front : ∀ c ∈ source.toList, (c != '[') = true := by
      intro c hc
      exact bne_iff_ne.2 fun eq => plain (eq ▸ hc)
    rw [shape, List.takeWhile_append_of_pos front, List.dropWhile_append_of_pos front]
    simp

theorem trails_follow (v path : List String) : trails.follow v path = v ++ path := by
  induction path generalizing v with
  | nil => exact (List.append_nil v).symm
  | cons index rest ih =>
    rw [List.append_cons, ← ih]
    rfl

/-- The values of these variables are now longer than `n`, and nothing else has changed. -/
structure Grown (n : ℕ) (xs : List String) (env env' : String → List String) : Prop where
  longer : ∀ x ∈ xs, n < (env' x).length
  others : ∀ x ∉ xs, env' x = env x

namespace Grown

variable {m n : ℕ} {xs ys : List String} {env env' env'' : String → List String}

theorem update {v : List String} (long : n ≤ v.length) (x index : String) :
    Grown n [x] env (Function.update env x (v ++ [index])) where
  longer y hy := by
    rw [List.mem_singleton.1 hy, Function.update_self, List.length_append, List.length_singleton]
    omega
  others y hy := Function.update_of_ne (List.ne_of_not_mem_cons hy) _ _

theorem mono (h : Grown m xs env env') (le : n ≤ m) : Grown n xs env env' where
  longer x hx := le.trans_lt (h.longer x hx)
  others := h.others

theorem trans (h : Grown n xs env env') (h' : Grown n ys env' env'') :
    Grown n (xs ++ ys) env env'' where
  longer x hx := by
    by_cases mem : x ∈ ys
    · exact h'.longer x mem
    · rw [h'.others x mem]
      exact h.longer x ((List.mem_append.1 hx).resolve_right mem)
  others x hx := by
    obtain ⟨notMem, notMem'⟩ := not_or.1 (mt List.mem_append.2 hx)
    rw [h'.others x notMem', h.others x notMem]

/-- No value falls below the bound. -/
theorem le (h : Grown n xs env env') {x : String} (long : n ≤ (env x).length) :
    n ≤ (env' x).length := by
  by_cases mem : x ∈ xs
  · exact (h.longer x mem).le
  · rwa [h.others x mem]

end Grown

variable {source : String} {n : ℕ} {env : String → List String}

/-- Whatever is assigned below a temporary is longer than its value. -/
theorem trails_grown (slots : Slots) (plain : '[' ∉ source.toList) (position : ℕ)
    (long : n ≤ (env source).length) :
    Grown n slots.written env (trails.run env (slots.lines source position)) := by
  induction slots generalizing source position env n with
  | done => exact ⟨by simp [Slots.written], fun _ _ => rfl⟩
  | gap rest ih => exact ih plain _ long
  | leaf key name byRef unpack rest ih =>
    rw [trails.run_leaf plain]
    have first : Grown n [safeName name] env _ := .update long _ (slotIndex position key)
    exact first.trans (ih plain _ (first.le long))
  | nested key inner byRef unpack rest ihInner ih =>
    rw [trails.run_nested plain]
    have first : Grown n [inner.temp] env _ := .update long _ (slotIndex position key)
    have second := first.trans
      ((ihInner inner.temp_plain 0 (first.longer inner.temp List.mem_cons_self)).mono n.le_succ)
    rw [Slots.written, ← List.cons_append]
    exact second.trans (ih plain _ (second.le long))

/-- Every variable is at least as far away as its indices tell. -/
theorem trails_far {slots : Slots} (separate : slots.Separate source) (plain : '[' ∉ source.toList)
    (position : ℕ) (long : n ≤ (env source).length) :
    ∀ leaf ∈ slots.leaves position,
      n + leaf.2.length ≤ (trails.run env (slots.lines source position) leaf.1).length := by
  induction slots generalizing source position env n with
  | done => simp [Slots.leaves]
  | gap rest ih => exact ih separate.of_gap plain _ long
  | leaf key name byRef unpack rest ih =>
    obtain ⟨separate', notWritten, ne⟩ := separate.of_leaf
    have first : Grown n [safeName name] env _ := .update long _ (slotIndex position key)
    intro leaf hl
    rw [trails.run_leaf plain]
    rcases List.mem_cons.1 hl with rfl | hl
    · rw [trails.run_of_not_mem notWritten plain]
      exact first.longer _ List.mem_cons_self
    · exact ih separate' plain _ (first.le long) leaf hl
  | nested key inner byRef unpack rest ihInner ih =>
    obtain ⟨separateInner, separateRest, notWritten, -⟩ := separate.of_nested
    have first : Grown n [inner.temp] env _ := .update long _ (slotIndex position key)
    have reached := first.longer inner.temp List.mem_cons_self
    have second := (trails_grown inner inner.temp_plain 0 reached).mono n.le_succ
    intro leaf hl
    rw [trails.run_nested plain]
    rcases List.mem_append.1 hl with hl | hl
    · obtain ⟨below, hb, rfl⟩ := List.mem_map.1 hl
      have far := ihInner separateInner inner.temp_plain 0 reached below hb
      rw [trails.run_of_not_mem (notWritten below.1 (Slots.mem_names hb)) plain, List.length_cons]
      exact le_trans (by omega) far
    · exact ih separateRest plain _ (second.le (first.le long)) leaf hl

/-- If every variable gets the element at its indices, the target is intact. -/
theorem intact_of_trails {slots : Slots} {v : List String} (separate : slots.Separate source)
    (plain : '[' ∉ source.toList) (position : ℕ) (held : env source = v)
    (right : ∀ leaf ∈ slots.leaves position,
      trails.run env (slots.lines source position) leaf.1 = v ++ leaf.2) :
    slots.Intact source := by
  induction slots generalizing source position env v with
  | done => trivial
  | gap rest ih => exact ih separate.of_gap plain _ held right
  | leaf key name byRef unpack rest ih =>
    obtain ⟨separate', -, ne⟩ := separate.of_leaf
    rw [trails.run_leaf plain] at right
    exact ih separate' plain (position + 1) ((Function.update_of_ne ne _ _).trans held)
      fun leaf hl => right leaf (List.mem_cons_of_mem _ hl)
  | nested key inner byRef unpack rest ihInner ih =>
    obtain ⟨separateInner, separateRest, notWritten, notName⟩ := separate.of_nested
    rw [trails.run_nested plain, held] at right
    have intactInner : inner.Intact inner.temp := by
      refine ihInner separateInner inner.temp_plain 0
        (Function.update_self inner.temp (v ++ [slotIndex position key]) env) fun below hb => ?_
      have final := right _ (List.mem_append_left _ (List.mem_map_of_mem hb))
      rw [trails.run_of_not_mem (notWritten below.1 (Slots.mem_names hb)) plain] at final
      rw [List.append_assoc]
      exact final
    have first : Grown v.length [inner.temp] env _ := .update le_rfl _ (slotIndex position key)
    have second := first.trans ((trails_grown inner inner.temp_plain 0
      (first.longer inner.temp List.mem_cons_self)).mono (Nat.le_succ _))
    have unread : source ∈ inner.temp :: inner.temps → rest.names = [] := by
      intro mem
      -- The temporary now has a longer value, and so would all that is read from it.
      have longer := second.longer source (Slots.mem_cons_written.2 (.inl mem))
      rw [← Slots.leaves_eq_nil_iff]
      refine List.eq_nil_iff_forall_not_mem.2 fun leaf hl => ?_
      have far := trails_far separateRest plain (position + 1) longer leaf hl
      have final := congrArg List.length (right leaf (List.mem_append_right _ hl))
      rw [List.length_append] at final
      exact absurd (far.trans_eq final) (by omega)
    refine ⟨intactInner, unread, ?_⟩
    by_cases mem : source ∈ inner.temp :: inner.temps
    · exact Slots.intact_of_names_eq_nil (unread mem) source
    · have kept := second.others source fun written =>
        (Slots.mem_cons_written.1 written).elim mem notName
      exact ih separateRest plain (position + 1) (kept.trans held)
        fun leaf hl => right leaf (List.mem_append_right _ hl)

end Reading

/-! ### Names that tell temporaries apart -/

/-- The number of characters that enter the name of a temporary. -/
def tempWeight (s : String) : ℕ := s.toList.countP isTempChar

theorem tempWeight_append (s t : String) : tempWeight (s ++ t) = tempWeight s + tempWeight t := by
  rw [tempWeight, String.toList_append, List.countP_append, tempWeight, tempWeight]

theorem isTempChar_lt {c : Char} (h : isTempChar c) : c.toNat < 0x80 := by
  have ranges : (decide (65 ≤ c.val ∧ c.val ≤ 90) || (decide (97 ≤ c.val) && decide (c.val ≤ 122)) ||
      (decide (48 ≤ c.val) && decide (c.val ≤ 57)) || c == '_') = true := h
  simp only [UInt32.le_iff_toNat_le, UInt32.reduceToNat, Char.toNat_val, Bool.or_eq_true,
    Bool.and_eq_true, decide_eq_true_eq, beq_iff_eq] at ranges
  rcases ranges with letterOrDigit | rfl
  · omega
  · decide

theorem isTempChar_toUpper {c : Char} (h : isTempChar c) : isTempChar c.toUpper := by
  have ascii : ∀ n < 0x80, isTempChar (Char.ofNat n) → isTempChar (Char.ofNat n).toUpper := by
    decide +kernel
  have upper := ascii c.toNat (isTempChar_lt h)
  rw [Char.ofNat_toNat] at upper
  exact upper h

/-- The upper-case form of a character that may stand in a name may do so too. -/
theorem countP_capital (c : Char) : [c].countP isTempChar ≤ (Text.capital c).countP isTempChar := by
  by_cases h : isTempChar c
  · rw [Text.capital, if_pos (isTempChar_lt h)]
    simp [h, isTempChar_toUpper h]
  · simp [h]

theorem tempWeight_capitalize (s : String) : tempWeight s ≤ tempWeight (Text.capitalize s) := by
  rw [tempWeight, tempWeight, Text.capitalize]
  cases s.toList with
  | nil => simp
  | cons c rest =>
    rw [String.toList_ofList, List.countP_append, ← List.singleton_append, List.countP_append]
    exact Nat.add_le_add_right (countP_capital c) _

namespace Slots

/-- The number of characters after the common front of the temporary's name. -/
def weight (slots : Slots) : ℕ := tempWeight (stems slots.toItems)

theorem weight_eq_of_temp_eq {a b : Slots} (h : a.temp = b.temp) : a.weight = b.weight := by
  rw [temp, temp, listTemp, listTemp, String.append_right_inj, String.ofList_inj] at h
  rw [weight, weight, tempWeight, tempWeight, List.countP_eq_length_filter, h,
    List.countP_eq_length_filter]

@[simp]
theorem weight_gap (rest : Slots) : (gap rest).weight = rest.weight := by
  rw [weight, toItems, stems, weight]

@[simp]
theorem weight_leaf (key : Option KeyLiteral) (name : String) (byRef unpack : Bool) (rest : Slots) :
    (leaf key name byRef unpack rest).weight =
      tempWeight (Text.capitalize (safeName name)) + rest.weight := by
  rw [weight, toItems, stems, tempWeight_append, Expr.named, stem, weight]

theorem weight_nested (key : Option KeyLiteral) (inner : Slots) (byRef unpack : Bool) (rest : Slots) :
    inner.weight + rest.weight ≤ (nested key inner byRef unpack rest).weight := by
  rw [weight, weight, weight, toItems, stems, tempWeight_append, stem]
  exact Nat.add_le_add_right (tempWeight_capitalize _) _

/-- The temporaries inside have no longer names. -/
theorem exists_of_mem_temps {slots : Slots} {x : String} (h : x ∈ slots.temps) :
    ∃ d : Slots, x = d.temp ∧ d.weight ≤ slots.weight := by
  induction slots with
  | done => simp at h
  | gap rest ih => simpa using ih (by simpa using h)
  | leaf key name byRef unpack rest ih =>
    obtain ⟨d, eq, le⟩ := ih (by simpa using h)
    exact ⟨d, eq, by rw [weight_leaf]; omega⟩
  | nested key inner byRef unpack rest ihInner ih =>
    have sum := weight_nested key inner byRef unpack rest
    rw [temps_nested, List.mem_cons, List.mem_append] at h
    rcases h with rfl | h | h
    · exact ⟨inner, rfl, by omega⟩
    · obtain ⟨d, eq, le⟩ := ihInner h
      exact ⟨d, eq, by omega⟩
    · obtain ⟨d, eq, le⟩ := ih h
      exact ⟨d, eq, by omega⟩

/-- Something of every variable enters the names of temporaries. -/
def Visible (slots : Slots) : Prop := ∀ x ∈ slots.names, 0 < tempWeight (Text.capitalize x)

theorem Visible.names_eq_nil {slots : Slots} (visible : slots.Visible) (h : slots.weight = 0) :
    slots.names = [] := by
  induction slots with
  | done => rfl
  | gap rest ih => exact ih visible (by simpa using h)
  | leaf key name byRef unpack rest ih =>
    have := visible (safeName name) List.mem_cons_self
    rw [weight_leaf] at h
    omega
  | nested key inner byRef unpack rest ihInner ih =>
    have sum := weight_nested key inner byRef unpack rest
    rw [names, ihInner (fun x hx => visible x (List.mem_append_left _ hx)) (by omega),
      ih (fun x hx => visible x (List.mem_append_right _ hx)) (by omega), List.append_nil]

/-- A temporary whose name is as long as those of the slots together is intact: a temporary inside a
slot has the same name only if the other slots add nothing to it. -/
theorem Visible.intact {slots d : Slots} (visible : slots.Visible) (le : slots.weight ≤ d.weight) :
    slots.Intact d.temp := by
  induction slots generalizing d with
  | done => trivial
  | gap rest ih => exact ih visible (by simpa using le)
  | leaf key name byRef unpack rest ih =>
    refine ih (fun x hx => visible x (List.mem_cons_of_mem _ hx)) ?_
    rw [weight_leaf] at le
    omega
  | nested key inner byRef unpack rest ihInner ih =>
    have visibleRest : rest.Visible := fun x hx => visible x (List.mem_append_right _ hx)
    have sum := weight_nested key inner byRef unpack rest
    refine ⟨ihInner (fun x hx => visible x (List.mem_append_left _ hx)) le_rfl, fun mem => ?_,
      ih visibleRest (by omega)⟩
    -- The temporaries inside are no longer than their slot, so nothing is left for the other slots.
    have small : d.weight ≤ inner.weight := by
      rcases List.mem_cons.1 mem with eq | mem
      · exact (weight_eq_of_temp_eq eq).le
      · obtain ⟨e, eq, le'⟩ := exists_of_mem_temps mem
        exact (weight_eq_of_temp_eq eq).trans_le le'
    exact visibleRest.names_eq_nil (by omega)

end Slots

/-! ### Targets as a whole -/

/-- Executing all the assignments, in every reading, gives each variable the element of the
right-hand value at its own indices. -/
def Slots.Reads (slots : Slots) (text : String) : Prop :=
  ∀ (V : Type) (r : Reading V) (env : String → V), ∀ leaf ∈ slots.leaves 0,
    r.run env (.keep slots.temp text :: slots.lines slots.temp 0) leaf.1 =
      r.follow (r.eval env text) leaf.2

/-- Where the variables are written with names of their own, a destructuring assignment is converted
to the assignments of its slots, and these give every variable the right element exactly if the target
is intact. It is intact if something of every variable enters the names of temporaries. -/
theorem destructuring_reads_iff (cls : String) (slots : Slots) (value : Expr) (byRef : Bool)
    (distinct : slots.names.Nodup)
    (apart : ∀ x ∈ slots.names, x ∉ slots.temp :: slots.temps) :
    lower cls (.assign (.list slots.toItems) value byRef) = (do
      reportIf byRef cls "reference" "Assignment by reference not supported" "assign"
      let text ← exprText cls value
      return .assigned (.keep slots.temp text :: slots.lines slots.temp 0) slots.temp) ∧
    (∀ text, slots.Reads text ↔ slots.Intact slots.temp) ∧
    (slots.Visible → slots.Intact slots.temp) := by
  have separate : slots.Separate slots.temp :=
    ⟨distinct, fun x hx => ⟨List.ne_of_not_mem_cons (apart x hx),
      List.not_mem_of_not_mem_cons (apart x hx)⟩⟩
  refine ⟨slots.lower_assign cls value byRef, fun text => ⟨fun reads => ?_, fun intact => ?_⟩,
    fun visible => visible.intact le_rfl⟩
  · refine Reading.intact_of_trails separate slots.temp_plain 0
      (Function.update_self slots.temp (Reading.trails.eval (fun _ => []) text) fun _ => [])
      fun leaf hl => ?_
    rw [← Reading.trails_follow]
    exact reads _ .trails (fun _ => []) leaf hl
  · intro V r env leaf hl
    have right := r.run_of_intact intact separate slots.temp_plain 0
      (Function.update env slots.temp (r.eval env text)) leaf hl
    rw [Function.update_self] at right
    exact right

/-- `["k" => [$a, , $b], $c] = f();`: the temporaries are `tmpListABC` and `tmpListAB`. -/
theorem destructuring_reads_nested :
    let slots : Slots := .nested (some (.string "k")) (.leaf none "a" false false (.gap
      (.leaf none "b" false false .done))) false false (.leaf none "c" false false .done)
    slots.names.Nodup ∧ (∀ x ∈ slots.names, x ∉ slots.temp :: slots.temps) ∧
      slots.leaves 0 = [("a", ["\"k\"", "0"]), ("b", ["\"k\"", "2"]), ("c", ["1"])] ∧
      slots.Reads "f()" := by
  intro slots
  have distinct : slots.names.Nodup := by decide +kernel
  have apart : ∀ x ∈ slots.names, x ∉ slots.temp :: slots.temps := by decide +kernel
  have intact : slots.Intact slots.temp := by decide +kernel
  refine ⟨distinct, apart, by decide +kernel, ?_⟩
  exact ((destructuring_reads_iff "A" slots (.callOf "f" []) false distinct apart).2.1 "f()").2 intact

/-- `[[$a], $é] = $x;`: nothing of `é` enters the name of a temporary, and both are `tmpListA`. So
`é` gets an element of the first element. -/
theorem destructuring_misreads :
    let slots : Slots := .nested none (.leaf none "a" false false .done) false false
      (.leaf none "é" false false .done)
    let lines : List Code := [.keep "tmpListA" "x", .keep "tmpListA" "tmpListA[0]",
      .set "a" "tmpListA[0]", .set "é" "tmpListA[1]"]
    slots.names.Nodup ∧ (∀ x ∈ slots.names, x ∉ slots.temp :: slots.temps) ∧
      ("é", ["1"]) ∈ slots.leaves 0 ∧
      ((lower "A" (.assign (.list slots.toItems) (.named "x") false)).run.run {}).1.map
        Lowered.asStatement = .ok lines ∧
      ∀ (V : Type) (r : Reading V) (env : String → V),
        r.run env lines "é" = r.follow (r.eval env "x") ["0", "1"] := by
  intro slots lines
  refine ⟨by decide +kernel, by decide +kernel, by decide +kernel, by decide +kernel, ?_⟩
  intro V r env
  have fetch (env : String → V) (index : String) :
      r.eval env (fetchText "tmpListA" index) = r.element (env "tmpListA") index :=
    r.eval_fetch env _ index (by simp)
  have zero : "tmpListA[0]" = fetchText "tmpListA" "0" := by decide +kernel
  have one : "tmpListA[1]" = fetchText "tmpListA" "1" := by decide +kernel
  simp [lines, zero, one, Reading.run, Reading.step, Code.set, fetch, Reading.follow]

end Zephirize
