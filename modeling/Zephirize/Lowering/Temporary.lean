import Zephirize.Digest
import Zephirize.Identifier
import Zephirize.Text.Case
import Zephirize.Text.Hex
import Zephirize.Tree.Writer

/-!
# Names of temporaries

The conversion keeps values in temporaries that the source does not name.

* `arrayTemp` — for an array literal: a digest of its items, so that equal literals share a name.
* `listTemp` — for a value that is taken apart: the names that its parts are written to.
* `dimTemp` — for the base of an indexed fetch: a number.
-/

namespace Zephirize

/-- The bytes of a digest that enter a name. -/
def digestBytes : Nat := 16

/-- The temporary for an array literal. -/
def arrayTemp (items : List Item) : String :=
  let text := (Json.arr (Item.listToJson items)).compact
  "tmpArray" ++ Text.hex ((Digest.sha256 text.toUTF8.toList).take digestBytes)

mutual

/-- The variables and properties that a slot is written through; indices do not count. -/
def stem : Expr → String
  | .var (.literal name) => safeName name
  | .dim base _ => stem base
  | .property object name => stem object ++ Text.capitalize name
  | .staticProperty _ name => name
  | .list items => stems items
  | _ => ""

/-- The stems of slots, each capitalized. -/
def stems : List (Option Item) → String
  | [] => ""
  | none :: rest => stems rest
  | some ⟨_, value, _, _⟩ :: rest => Text.capitalize (stem value) ++ stems rest

end

/-- The character may stand in the name of a temporary. -/
def isTempChar (c : Char) : Bool := c.isAlphanum || c == '_'

/-- The temporary for a value that is taken apart. -/
def listTemp (items : List (Option Item)) : String :=
  "tmpList" ++ String.ofList ((stems items).toList.filter isTempChar)

/-- The temporary for the base of an indexed fetch. -/
def dimTemp (n : Nat) : String := "tmpDim" ++ toString n

end Zephirize
