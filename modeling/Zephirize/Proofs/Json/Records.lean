import Mathlib.Data.List.Nodup
import Mathlib.Tactic
import Zephirize.Json.Record
import Zephirize.Proofs.Json.RoundTrip
import Zephirize.Proofs.Tree.Modifiers
import Zephirize.Tree.Writer

/-!
# Records, lists and optional values in JSON

What trees are written with, and how it is read: an object with pairwise different names is a
record in which each field can be found, a node is a record with its kind in front, and a list or an
optional value is read back when its items are.

The last sections say for the same values when they are lossless and how deep they nest.
-/

namespace Zephirize

namespace Record

variable {α : Type} {name other : String} {v : Json} {rest : List (String × Json)}

theorem slot_here : (Record.named ((name, v) :: rest)).slot name = .given v := by
  simp [slot]

theorem slot_later (h : name ≠ other) :
    (Record.named ((other, v) :: rest)).slot name = (Record.named rest).slot name := by
  have differ : (name == other) = false := by simpa using h
  simp only [slot, List.lookup_cons, differ]

@[simp]
theorem required_here (read : Json → Option α) :
    (Record.named ((name, v) :: rest)).required name read = read v := by
  rw [required, slot_here]

@[simp]
theorem required_later (h : name ≠ other) (read : Json → Option α) :
    (Record.named ((other, v) :: rest)).required name read =
      (Record.named rest).required name read := by
  rw [required, slot_later h, required]

@[simp]
theorem optional_here (read : Json → Option α) :
    (Record.named ((name, v) :: rest)).optional name read = Json.nullable? read v := by
  rw [optional, slot_here]
  cases v <;> rfl

@[simp]
theorem optional_later (h : name ≠ other) (read : Json → Option α) :
    (Record.named ((other, v) :: rest)).optional name read =
      (Record.named rest).optional name read := by
  rw [optional, slot_later h, optional]

@[simp]
theorem defaulted_here (dflt : α) (read : Json → Option α) :
    (Record.named ((name, v) :: rest)).defaulted name dflt read = read v := by
  rw [defaulted, slot_here]

@[simp]
theorem defaulted_later (h : name ≠ other) (dflt : α) (read : Json → Option α) :
    (Record.named ((other, v) :: rest)).defaulted name dflt read =
      (Record.named rest).defaulted name dflt read := by
  rw [defaulted, slot_later h, defaulted]

end Record

namespace Json

/-! ### Reading -/

section

variable {α : Type} {read : Json → Option α} {write : α → Json} {kind : String}
  {names : List String} {fields : List (String × Json)}

-- Proved by a tactic: a side condition that holds by unfolding alone is not seen by `simp`.
@[simp] theorem str?_str (s : String) : str? (.str s) = some s := by rfl
@[simp] theorem str?_null : str? .null = none := by rfl
@[simp] theorem bool?_bool (b : Bool) : bool? (.bool b) = some b := by rfl
@[simp] theorem choice?_str (s : String) : choice? (.str s) = some s := by rfl
@[simp] theorem innerChoice?_str (s : String) : innerChoice? (.str s) = some s := by rfl
@[simp] theorem list?_null : list? read .null = none := by rfl

@[simp]
theorem int64?_toInt (i : Int64) : int64? (.num (.int i.toInt)) = some i := by
  have small := i.toInt_lt
  rw [int64?, if_pos (by simpa using small), Int64.ofInt_toInt]

@[simp]
theorem list?_ofList {items : List α} (h : ∀ a ∈ items, read (write a) = some a) :
    list? read (ofList write items) = some items := by
  rw [ofList, list?, List.mapM_map]
  exact (mapM_eq_some h).trans (congrArg some items.map_id)

@[simp]
theorem nullable?_ofOption {item : Option α} (null : read .null = none)
    (h : ∀ a ∈ item, read (write a) = some a) :
    nullable? read (ofOption write item) = some item := by
  cases item with
  | none => rfl
  | some a =>
    have given := h a rfl
    rw [ofOption]
    cases eq : write a with
    | null => simp [eq, null] at given
    | _ => simp [nullable?, ← eq, given]

/-- An optional list is read back when its items are. -/
theorem nullable?_ofList {items : Option (List α)}
    (h : ∀ list ∈ items, ∀ a ∈ list, read (write a) = some a) :
    nullable? (list? read) (ofOption (ofList write) items) = some items :=
  nullable?_ofOption rfl fun list mem => list?_ofList (h list mem)

/-- An object is a record if no name is repeated. -/
theorem record?_obj (h : (fields.map Prod.fst).Nodup) :
    (Json.obj fields).record? names = some (.named fields) := by
  have once : ∀ name, fields.countP (fun field => field.1 == name) ≤ 1 := by
    intro name
    have count := List.nodup_iff_count_le_one.1 h name
    rwa [List.count, List.countP_map] at count
  rw [record?, if_neg]
  simpa using fun name _ => once name

/-- The kind of a node stands apart from its fields. -/
theorem tagged?_node (h : ∀ field ∈ fields, field.1 ≠ "kind") :
    (node kind fields).tagged? = some ⟨.str kind, .obj fields⟩ := by
  have kinds : fields.filter (fun field => field.1 == "kind") = [] := by
    simpa using fun name v mem => h (name, v) mem
  have others : fields.filter (fun field => field.1 != "kind") = fields := by
    simpa using fun name v mem => h (name, v) mem
  simp [node, tagged?, kinds, others]

/-- A value is a node with its kind in front. -/
def IsTagged (v : Json) : Prop :=
  ∃ kind fields, v = node kind fields ∧ ∀ field ∈ fields, field.1 ≠ "kind"

theorem IsTagged.depth_pos {v : Json} (tagged : v.IsTagged) : 0 < v.depth := by
  obtain ⟨kind, fields, rfl, -⟩ := tagged
  rw [node, depth]
  omega

theorem isNode_of_readable {v : Json} (tagged : v.IsTagged) (readable : v.readable = true) :
    v.isNode = true := by
  obtain ⟨kind, fields, rfl, names⟩ := tagged
  simp [isNode, readable, tagged?_node names]

theorem readable_obj :
    (Json.obj fields).readable = true ↔ ∀ field ∈ fields, field.2.readable = true :=
  readableFields_iff

theorem readable_ofList {items : List α} :
    (ofList write items).readable = true ↔ ∀ a ∈ items, (write a).readable = true := by
  rw [ofList, readable, readableItems_iff, List.forall_mem_map]

end

/-! ### Losing nothing -/

section

variable {α : Type} {write : α → Json} {kind : String} {fields : List (String × Json)}

attribute [simp] Lossless.null Lossless.bool Lossless.str

@[simp]
theorem lossless_obj : (Json.obj fields).Lossless ↔ ∀ field ∈ fields, field.2.Lossless :=
  ⟨fun h => by cases h; assumption, .obj⟩

@[simp]
theorem lossless_node : (node kind fields).Lossless ↔ ∀ field ∈ fields, field.2.Lossless := by
  simp [node]

@[simp]
theorem lossless_ofList {items : List α} :
    (ofList write items).Lossless ↔ ∀ a ∈ items, (write a).Lossless := by
  constructor
  · intro h
    cases h with
    | arr h => exact fun a mem => h _ (List.mem_map_of_mem mem)
  · exact fun h => .arr (List.forall_mem_map.2 h)

@[simp]
theorem lossless_ofOption {item : Option α} :
    (ofOption write item).Lossless ↔ ∀ a ∈ item, (write a).Lossless := by
  cases item <;> simp [ofOption]

@[simp]
theorem lossless_int64 (i : Int64) : (Json.num (.int i.toInt)).Lossless := by
  have least := i.le_toInt
  have greatest := i.toInt_lt
  exact .int (by simpa using least) (by simp; omega)

theorem lossless_ofFloat {x : Float} (h : ReadsBack x) : (ofFloat x).Lossless := by
  rw [ofFloat]
  split
  · exact .float h
  · exact .null

end

/-! ### Depth -/

section

variable {α : Type} {write : α → Json} {kind : String} {fields : List (String × Json)} {n : Nat}

theorem depth_obj_le : (Json.obj fields).depth ≤ n + 1 ↔ ∀ field ∈ fields, field.2.depth ≤ n := by
  rw [depth, Nat.add_le_add_iff_right, depthFields_le_iff]

theorem depth_node_le : (node kind fields).depth ≤ n + 1 ↔ ∀ field ∈ fields, field.2.depth ≤ n := by
  rw [node, depth_obj_le]
  simp [depth]

theorem depth_ofList_le {items : List α} :
    (ofList write items).depth ≤ n ↔ 0 < n ∧ ∀ a ∈ items, (write a).depth ≤ n - 1 := by
  cases n with
  | zero => simp [ofList, depth]
  | succ n => simp [ofList, depth, depthItems_le_iff]

theorem depth_ofOption_le {item : Option α} :
    (ofOption write item).depth ≤ n ↔ ∀ a ∈ item, (write a).depth ≤ n := by
  cases item <;> simp [ofOption, depth]

end

end Json

end Zephirize
