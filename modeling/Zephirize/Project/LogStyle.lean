import Zephirize.Text.Case
import Zephirize.Text.Space

/-!
# Log formats
-/

namespace Zephirize

/-- How log events are written. -/
inductive LogStyle where
  | text
  /-- Indented by the steps in progress. -/
  | tree
  /-- One JSON object for each event. -/
  | json
deriving DecidableEq, Repr, Inhabited

namespace LogStyle

/-- The name of a format. -/
def name : LogStyle → String
  | .text => "text"
  | .tree => "tree"
  | .json => "json"

/-- The format of a setting, whose blanks and letter case do not matter. Any other setting is
`text`. -/
def ofSetting (setting : String) : LogStyle :=
  match Text.lower (Text.trim setting) with
  | "tree" => .tree
  | "json" => .json
  | _ => .text

end LogStyle

end Zephirize
