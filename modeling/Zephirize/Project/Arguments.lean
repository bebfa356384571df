import Zephirize.Files.Path

/-!
# Command-line arguments

Arguments are read from left to right, and the first that is wrong decides. An option that takes a
value has it after `=` or in the next argument, which may not look like an option. All arguments
after `--` are inputs.

* `Arguments` — what the arguments say.
* `Usage` — why there is nothing to run.
* `Arguments.ofList` — the arguments read.
-/

namespace Zephirize

/-- What the command line says. -/
structure Arguments where
  /-- A project file, or a directory with one. -/
  project : Option Path := none
  outDir : Option Path := none
  knownClasses : List String := []
  indentWidth : Option Nat := none
  diagnosticsFile : Option Path := none
  failFast : Bool := false
  quiet : Bool := false
  inputs : List Path := []
deriving DecidableEq, Repr, Inhabited

/-- Why a command line leads to no run. -/
inductive Usage where
  /-- It asks for help. -/
  | help
  /-- It asks for the version. -/
  | version
  /-- It is wrong. -/
  | misuse
deriving DecidableEq, Repr, Inhabited

namespace Arguments

/-- Options with a value. -/
inductive Setting where
  | project
  | outDir
  | knownClass
  | indentWidth
  | diagnostics
deriving DecidableEq, Repr

/-- Options without a value. -/
inductive Switch where
  | failFast
  | quiet
  | help
  | version
deriving DecidableEq, Repr

/-- The long names of the options with a value. -/
def settings : List (String × Setting) :=
  [("project", .project), ("out-dir", .outDir), ("outDir", .outDir), ("known-class", .knownClass),
    ("knownClass", .knownClass), ("indent-width", .indentWidth), ("indentWidth", .indentWidth),
    ("diagnostics", .diagnostics)]

/-- The long names of the options without a value. -/
def switches : List (String × Switch) :=
  [("fail-fast", .failFast), ("failFast", .failFast), ("quiet", .quiet), ("help", .help),
    ("version", .version)]

/-- A path may not be empty. -/
def pathOf (value : String) : Except Usage Path :=
  if value.isEmpty then throw .misuse else pure (.ofText value)

/-- The largest width. -/
def widthLimit : Nat := Nat.pow 2 64 - 1

/-- A number of blanks: decimal digits, perhaps after a plus sign. -/
def widthOf (value : String) : Except Usage Nat :=
  let digits := match value.toList with
    | '+' :: rest => rest
    | chars => chars
  let width := digits.foldl (fun n c => 10 * n + (c.toNat - '0'.toNat)) 0
  if digits.isEmpty || !digits.all Char.isDigit || widthLimit < width then throw .misuse
  else pure width

/-- A value for what has none yet. -/
def once {α : Type} (old : Option α) (new : α) : Except Usage (Option α) :=
  match old with
  | none => pure (some new)
  | some _ => throw .misuse

/-- Adds an input. -/
def addInput (a : Arguments) (value : String) : Except Usage Arguments := do
  let path ← pathOf value
  return { a with inputs := a.inputs ++ [path] }

/-- Gives an option its value. Only known classes may be given several times. -/
def set (a : Arguments) (value : String) : Setting → Except Usage Arguments
  | .project => do return { a with project := ← once a.project (← pathOf value) }
  | .outDir => do return { a with outDir := ← once a.outDir (← pathOf value) }
  | .knownClass => return { a with knownClasses := a.knownClasses ++ [value] }
  | .indentWidth => do return { a with indentWidth := ← once a.indentWidth (← widthOf value) }
  | .diagnostics => do
    return { a with diagnosticsFile := ← once a.diagnosticsFile (← pathOf value) }

/-- Turns an option on, once. -/
def turnOn (a : Arguments) : Switch → Except Usage Arguments
  | .failFast => if a.failFast then throw .misuse else return { a with failFast := true }
  | .quiet => if a.quiet then throw .misuse else return { a with quiet := true }
  | .help => throw .help
  | .version => throw .version

/-- What the reader of arguments is at. -/
inductive Mode where
  | free
  /-- An option waits for its value. -/
  | awaiting (s : Setting)
  /-- Only inputs follow. -/
  | inputsOnly
deriving DecidableEq, Repr

/-- The arguments so far. -/
structure Progress where
  arguments : Arguments := {}
  mode : Mode := .free

namespace Progress

/-- Goes on with other arguments. -/
def proceed (a : Except Usage Arguments) : Except Usage Progress := a.map fun a => ⟨a, .free⟩

/-- A long option, without its two hyphens. -/
def long (p : Progress) (option : List Char) : Except Usage Progress :=
  let name := String.ofList (option.takeWhile (· ≠ '='))
  let value := match option.dropWhile (· ≠ '=') with
    | _ :: value => some (String.ofList value)
    | [] => none
  match settings.lookup name, switches.lookup name, value with
  | some s, _, some value => proceed (p.arguments.set value s)
  | some s, _, none => return { p with mode := .awaiting s }
  | none, some s, none => proceed (p.arguments.turnOn s)
  | none, _, _ => throw .misuse

/-- Short options in one argument, without its hyphen. -/
def short (p : Progress) : List Char → Except Usage Progress
  | [] => return p
  | 'q' :: rest => do (← proceed (p.arguments.turnOn .quiet)).short rest
  | 'h' :: _ => throw .help
  | 'V' :: _ => throw .version
  | ['p'] => return { p with mode := .awaiting .project }
  | 'p' :: '=' :: value => proceed (p.arguments.set (String.ofList value) .project)
  | 'p' :: value => proceed (p.arguments.set (String.ofList value) .project)
  | _ => throw .misuse

/-- The next argument. -/
def next (p : Progress) (argument : String) : Except Usage Progress :=
  match p.mode, argument.toList with
  | .inputsOnly, _ => do return { p with arguments := ← p.arguments.addInput argument }
  | .awaiting s, chars =>
    match chars with
    | '-' :: _ :: _ => throw .misuse
    | _ => proceed (p.arguments.set argument s)
  | .free, ['-', '-'] => return { p with mode := .inputsOnly }
  | .free, '-' :: '-' :: option => p.long option
  | .free, '-' :: c :: rest => p.short (c :: rest)
  | .free, _ => proceed (p.arguments.addInput argument)

end Progress

/-- Reads the arguments. -/
def ofList (arguments : List String) : Except Usage Arguments := do
  let p : Progress ← arguments.foldlM Progress.next {}
  match p.mode with
  | .awaiting _ => throw .misuse
  | _ => return p.arguments

end Arguments

end Zephirize
