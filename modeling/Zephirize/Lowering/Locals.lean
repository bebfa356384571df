import Zephirize.Distinct
import Zephirize.Lowering.Stmt

/-!
# The variables of a body

The target language wants every local variable declared, so a body is searched for them before it is
converted: the variables that the source names, and the temporaries that the conversion will use.

* `listNames` — the names that a destructuring target brings.
* `Node.names` — the names that a node brings by itself.
* `dimTemps` — the temporaries that an indexed fetch would create.
* `visitNames` — the names that a visited node brings.
* `locals` — the variables to declare.
-/

namespace Zephirize

mutual

/-- The names that the slots of a destructuring target bring: its variables, those of nested
targets, and after them the temporary of each target. -/
def listNames : List (Option Item) → List String
  | [] => []
  | none :: rest => listNames rest
  | some item :: rest => itemNames item ++ listNames rest

/-- The names that one slot brings. -/
def itemNames : Item → List String
  | ⟨_, .list nested, _, _⟩ => listNames nested ++ [listTemp nested]
  | ⟨_, value, _, _⟩ => value.literalName?.toList

end

/-- The names that an assignment's target brings. -/
def targetNames : Expr → List String
  | .list items => listNames items ++ [listTemp items]
  | target => target.literalName?.toList

/-- The temporaries for the array literals at and below an expression. -/
def arrayTemps (e : Expr) : List String :=
  (descendants [.expr e]).filterMap fun v =>
    match v.node with
    | .expr (.array items) => some (arrayTemp items)
    | _ => none

/-- The names that a node brings by itself. -/
def Node.names : Node → List String
  | .expr (.assign target _ _) => targetNames target
  | .expr (.var name) => (Expr.var name).literalName?.toList
  | .stmt (.foreach _ key value _ _) =>
    (key.bind Expr.literalName?).toList ++ value.literalName?.toList
  | .stmt (.forLoop init _ _ _) =>
    init.filterMap fun
      | .assign target _ _ => target.literalName?
      | _ => none
  | .stmt (.ifElse test _ _ _) => arrayTemps test
  | .stmt (.ret (some (.array items))) => [arrayTemp items]
  | .handler c => c.var.toList
  | .staticLocal var => [var.name]
  | .argument ⟨.array items, _, _⟩ => [arrayTemp items]
  | _ => []

/-- The temporaries that converting an expression creates. Nothing else is kept but their count. -/
def dimTemps (cls : String) (e : Expr) : StateM State (List String) := do
  let before := (← get).created.length
  Lowering.dryRun do
    let _ ← (exprText cls e).run
  modifyGet fun s => (s.created.drop before, { s with created := s.created.take before })

/-- The names that a visited node brings. An indexed fetch brings the temporaries of all that it
holds. -/
def visitNames (cls : String) (v : Visit) : StateM State (List String) :=
  match v.node with
  | .expr (.dim base index) =>
    if v.isWithin .dim then return [] else dimTemps cls (.dim base index)
  | node => return node.names

/-- The names that the visited nodes bring, in order. -/
def allNames (cls : String) : List Visit → StateM State (List String)
  | [] => return []
  | v :: rest => do
    let names ← visitNames cls v
    return names ++ (← allNames cls rest)

/-- The names to declare, given all names: those that need a declaration and are no parameters, each
once. -/
def declaredNames (params names : List String) : List String :=
  let written := (names.filter fun name => !name.isEmpty && !isAmbient name).map safeName
  firstOccurrences (written.filter fun name => !params.contains name)

/-- The variables to declare in a body. The count of temporaries starts again afterwards. -/
def locals (cls : String) (body : List Stmt) (params : List String) :
    StateM State (List String) := do
  let names ← Lowering.dryRun (allNames cls (descendants (body.map .stmt)))
  modify fun s => { s with dims := 0, created := [] }
  return declaredNames params names

end Zephirize
