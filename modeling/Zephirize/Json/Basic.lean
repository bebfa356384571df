/-!
# JSON values

* `Number` — an integer of 64 bits, signed or unsigned, or a double.
* `Json` — a JSON value; an object keeps its fields in the order of the text, repeated ones
  included.
* `Json.readable` — no part of the value is `unreadable`.
* `Json.depth` — how deep arrays and objects nest.
-/

namespace Zephirize

/-- A JSON number. -/
inductive Number where
  /-- An integer literal from `-2 ^ 63` to `2 ^ 64 - 1`, other than `-0`. -/
  | int (value : Int)
  /-- Any other literal that a double can hold. -/
  | float (value : Float)
deriving DecidableEq

/-- A JSON value. -/
inductive Json where
  | null
  | bool (value : Bool)
  | num (value : Number)
  | str (value : String)
  | arr (items : List Json)
  | obj (fields : List (String × Json))
  /-- A value that is well formed as a text but stands for nothing: a number beyond the doubles, a
  string with half a surrogate pair, or brackets nested too deep. It can be skipped, not used. -/
  | unreadable
deriving Inhabited

namespace Json

mutual

/-- No part of the value is `unreadable`. -/
def readable : Json → Bool
  | .unreadable => false
  | .arr items => readableItems items
  | .obj fields => readableFields fields
  | _ => true

/-- Every item is readable. -/
def readableItems : List Json → Bool
  | [] => true
  | v :: rest => readable v && readableItems rest

/-- The value of every field is readable. -/
def readableFields : List (String × Json) → Bool
  | [] => true
  | (_, v) :: rest => readable v && readableFields rest

end

mutual

/-- How deep arrays and objects nest; a plain value has depth zero. -/
def depth : Json → Nat
  | .arr items => depthItems items + 1
  | .obj fields => depthFields fields + 1
  | _ => 0

/-- The greatest depth of the items. -/
def depthItems : List Json → Nat
  | [] => 0
  | v :: rest => max (depth v) (depthItems rest)

/-- The greatest depth of the fields' values. -/
def depthFields : List (String × Json) → Nat
  | [] => 0
  | (_, v) :: rest => max (depth v) (depthFields rest)

end

end Json

end Zephirize
