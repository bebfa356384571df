import Zephirize.Json.Basic

/-!
# Records in JSON

A record with declared fields is written as an object or as an array of the fields' values in
declaration order. Unknown fields of an object are ignored; a declared field may not be given twice,
and an array may not be longer than the declaration.

* `Json.record?` — the record of a value.
* `Record.required`, `Record.optional`, `Record.defaulted` — the fields of a record. A missing
  optional field is empty and a missing defaulted one has its default; an array may only leave out
  defaulted fields.
* `Json.tagged?` — a node with its kind, which is the field `kind` or the first item.
* `Json.choice?` — one of several names.
-/

namespace Zephirize

/-- What a record says about a declared field. -/
inductive Slot where
  | given (value : Json)
  /-- The object does not name the field. -/
  | absent
  /-- The array ends before the field. -/
  | cut

/-- A record as it is written. -/
inductive Record where
  | named (fields : List (String × Json))
  | positional (names : List String) (values : List Json)

namespace Record

/-- What the record says about a field. -/
def slot (r : Record) (name : String) : Slot :=
  match r with
  | .named fields =>
    match fields.lookup name with
    | some v => .given v
    | none => .absent
  | .positional names values =>
    match values[names.idxOf name]? with
    | some v => .given v
    | none => .cut

/-- A field that has to be given. -/
def required {α : Type} (r : Record) (name : String) (read : Json → Option α) : Option α :=
  match r.slot name with
  | .given v => read v
  | _ => none

/-- A field that may be missing from an object, or `null`. -/
def optional {α : Type} (r : Record) (name : String) (read : Json → Option α) :
    Option (Option α) :=
  match r.slot name with
  | .given .null => some none
  | .given v => (read v).map some
  | .absent => some none
  | .cut => none

/-- A field with a default, which `null` does not stand for. -/
def defaulted {α : Type} (r : Record) (name : String) (dflt : α) (read : Json → Option α) :
    Option α :=
  match r.slot name with
  | .given v => read v
  | _ => some dflt

end Record

namespace Json

/-- The record that a value writes, given the declared fields. -/
def record? (names : List String) : Json → Option Record
  | .obj fields =>
    if names.any fun name => 1 < (fields.countP fun field => field.1 == name) then none
    else some (.named fields)
  | .arr values => if names.length < values.length then none else some (.positional names values)
  | _ => none

/-- The record of a node without fields. -/
def bare? (v : Json) : Option Unit := (v.record? []).map fun _ => ()

/-- A node's kind, and the record of its fields. -/
structure Tagged where
  kind : Json
  body : Json

/-- The kind and the fields of a node. -/
def tagged? : Json → Option Tagged
  | .obj fields =>
    match fields.filter fun field => field.1 == "kind" with
    | [(_, kind)] => some ⟨kind, .obj (fields.filter fun field => field.1 != "kind")⟩
    | _ => none
  | .arr (kind :: values) => some ⟨kind, .arr values⟩
  | _ => none

/-- The name of a kind: the name itself, or its position among the kinds. -/
def kindName? (kinds : List String) : Json → Option String
  | .str name => some name
  | .num (.int i) => if 0 ≤ i then kinds[i.toNat]? else none
  | _ => none

/-- The value names its kind, and all of it can be read. -/
def isNode (v : Json) : Bool :=
  v.readable &&
    match v.tagged? with
    | some ⟨.str _, _⟩ => true
    | _ => false

/-! ### Plain values -/

/-- The text of a string. -/
def str? : Json → Option String
  | .str s => some s
  | _ => none

/-- A truth value. -/
def bool? : Json → Option Bool
  | .bool b => some b
  | _ => none

/-- An integer of 64 bits with a sign. -/
def int64? : Json → Option Int64
  | .num (.int i) => if i < Nat.pow 2 63 then some (Int64.ofInt i) else none
  | _ => none

/-- A double; an integer stands for the nearest one. -/
def float? : Json → Option Float
  | .num (.int i) => some (if i < 0 then -Float.ofNat i.natAbs else Float.ofNat i.natAbs)
  | .num (.float x) => some x
  | _ => none

/-- A natural number of 64 bits. -/
def nat64? : Json → Option Nat
  | .num (.int i) => if 0 ≤ i then some i.toNat else none
  | _ => none

/-- The items of an array, each read. -/
def list? {α : Type} (read : Json → Option α) : Json → Option (List α)
  | .arr items => items.mapM read
  | _ => none

/-- A value that may be `null`. -/
def nullable? {α : Type} (read : Json → Option α) : Json → Option (Option α)
  | .null => some none
  | v => (read v).map some

/-- One of several names: the name itself, or an object whose one field has this name and holds
nothing. -/
def choice? : Json → Option String
  | .str name => some name
  | .obj [(name, .null)] => some name
  | _ => none

/-- One of several names, inside a node: there an empty object holds nothing too. -/
def innerChoice? : Json → Option String
  | .obj [(name, .obj [])] => some name
  | v => v.choice?

end Json

end Zephirize
