import Zephirize.Code.Basic
import Zephirize.Diagnostic
import Zephirize.Lowering.Temporary
import Zephirize.Tree.Kind
import Zephirize.Typing.Union

/-!
# The state of a conversion

* `Refusal` — why a class cannot be converted.
* `State` — what the conversion of a class keeps: lines waiting to be written, counters, loops, and
  the diagnostics so far.
* `Lowering` — a conversion step. The state stands also after an error.
* `hoist`, `isolate`, `inBlock`, `withinLoop`, `withArrayHoisting`, `dryRun` — how steps use the
  state.
-/

namespace Zephirize

/-- Why a class cannot be converted. -/
inductive Refusal where
  /-- The target language has no form for a node. -/
  | unsupported (kind : Kind) (cls : String)
  /-- Another class has the name. -/
  | duplicateClass (cls : String)
  | malformedType (error : TypeFault)
deriving DecidableEq, Repr

/-- The message of an error. -/
def Refusal.message : Refusal → String
  | .unsupported kind cls =>
    "cannot convert node kind '" ++ kind.text ++ "' in class '" ++ cls ++ "'"
  | .duplicateClass cls =>
    "class '" ++ cls ++ "' is already declared; this declaration was skipped"
  | .malformedType e => e.message

/-- What the conversion of a class keeps. -/
structure State where
  /-- The method that is converted. -/
  method : Option String := none
  /-- The number of the last temporary for an indexed fetch. -/
  dims : Nat := 0
  /-- Lines to be written before the statement that is converted. -/
  hoisted : List Code := []
  /-- All lines that were ever hoisted, in order, whether they were written or not. -/
  queued : List Code := []
  /-- The temporaries for indexed fetches since the last reset. -/
  created : List String := []
  /-- Array literals are kept in temporaries. -/
  hoistArrays : Bool := false
  /-- For each loop around, the innermost first, the lines to run before it continues. -/
  loops : List (List Code) := []
  diagnostics : List Diagnostic := []

/-- The state at the start of a member: only the records of what happened are kept. -/
def State.reset (s : State) (method : Option String) : State :=
  { method := method, queued := s.queued, diagnostics := s.diagnostics }

/-- A step of a conversion. -/
abbrev Lowering (α : Type) : Type := ExceptT Refusal (StateM State) α

namespace Lowering

/-- Refuses a node. -/
def refuse {α : Type} (cls : String) (kind : Kind) : Lowering α := throw (.unsupported kind cls)

/-- How diagnostics call a node: inside a method its name comes first. -/
def label (s : State) (node : String) : String :=
  match s.method with
  | some method => method ++ ": " ++ node
  | none => node

/-- Notes an incompatibility. -/
def report (cls category message node : String) : Lowering Unit :=
  modify fun s => { s with
    diagnostics := s.diagnostics ++ [⟨.incompatibility category, message, label s node, cls⟩] }

/-- Notes an incompatibility where there is one. -/
def reportIf (holds : Bool) (cls category message node : String) : Lowering Unit :=
  if holds then report cls category message node else pure ()

/-- Notes a fact. -/
def inform (cls message node : String) : Lowering Unit :=
  modify fun s => { s with
    diagnostics := s.diagnostics ++ [⟨.informational, message, label s node, cls⟩] }

/-- Keeps lines to be written before the statement that is converted. -/
def hoist (lines : List Code) : Lowering Unit :=
  modify fun s => { s with hoisted := s.hoisted ++ lines, queued := s.queued ++ lines }

/-- Takes the lines that wait. -/
def takeHoisted : Lowering (List Code) :=
  modifyGet fun s => (s.hoisted, { s with hoisted := [] })

/-- A new temporary for an indexed fetch. -/
def newDim : Lowering String :=
  modifyGet fun s =>
    let name := dimTemp (s.dims + 1)
    (name, { s with dims := s.dims + 1, created := s.created ++ [name] })

/-- Runs a step from a changed state and then changes the state it leaves, also after an error. -/
def around {α : Type} (before : State → State) (after : State → State → State) (step : Lowering α) :
    Lowering α :=
  ExceptT.mk fun s =>
    let (result, t) := step.run.run (before s)
    (result, after s t)

/-- Runs a step and gives the lines that it hoists apart from those that wait, which stay also after
an error. -/
def isolate {α : Type} (step : Lowering α) : Lowering (α × List Code) :=
  ExceptT.mk fun s =>
    let (result, t) := step.run.run { s with hoisted := [] }
    (result.map (·, t.hoisted), { t with hoisted := s.hoisted })

/-- Converts a block: the lines that wait are put aside and come back at its end, though not after
an error. -/
def inBlock {α : Type} (step : Lowering α) : Lowering α := do
  let outer ← takeHoisted
  let result ← step
  modify fun s => { s with hoisted := outer }
  return result

/-- Converts the body of a loop that runs the lines `pending` before it continues. -/
def withinLoop {α : Type} (pending : List Code) (step : Lowering α) : Lowering α :=
  around (fun s => { s with loops := pending :: s.loops })
    (fun _ t => { t with loops := t.loops.tail }) step

/-- Converts with array literals kept in temporaries. -/
def withArrayHoisting {α : Type} (step : Lowering α) : Lowering α :=
  around (fun s => { s with hoistArrays := true })
    (fun s t => { t with hoistArrays := s.hoistArrays }) step

/-- Runs a step whose lines and diagnostics are dropped. -/
def dryRun {α : Type} (step : StateM State α) : StateM State α := fun s =>
  let (result, t) := step.run { s with hoisted := [], diagnostics := [], hoistArrays := false }
  (result, { t with
    hoisted := s.hoisted, queued := s.queued, diagnostics := s.diagnostics,
    hoistArrays := s.hoistArrays })

end Lowering

end Zephirize
