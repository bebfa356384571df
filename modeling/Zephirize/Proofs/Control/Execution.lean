import Mathlib.Tactic
import Zephirize.Lowering.Stmt

/-!
# Executing code

Code is executed without values. An execution goes through the statements, and an oracle decides each
test and each step of a `for`, given all that was executed so far. What can be seen of an execution
is the sequence of its simple lines, tests and steps.

* `Event`, `Oracle` — what is seen, and who decides.
* `Exit`, `Round` — how a piece of code ends, and what follows a round of a loop.
* `Execution` — from what was executed so far to what is executed later. Loops may go on for ever, so
  executions have a bound on the rounds of each loop, and one that comes to the bound is cut off.
* `Code.execute`, `Code.executeAll`, `Chain.execute` — executions of code.
* `Sequential` — a relation between executions that goes from their steps to the whole.

With more rounds an execution goes on where it was cut off, and nothing else changes
(`Code.executeAll_goesOn`), so the bound does not decide what is executed.
-/

namespace Zephirize

/-- What can be seen of an execution. -/
inductive Event where
  /-- A simple line. -/
  | line (code : Code)
  | test (text : String)
  /-- A `for` asks whether there is a further element. -/
  | step (binding subject : String)

/-- Decides a test or a step, given all that was executed up to it. -/
abbrev Oracle : Type := List Event → Bool

/-- How a piece of code ends. -/
inductive Exit where
  | normal
  | breaks
  | continues
  /-- The method is left. -/
  | leaves
deriving DecidableEq

/-- An execution, from the events so far to the result and the events by then. One that is cut off
has the events by then and no result. -/
abbrev Execution (α : Type) : Type := StateT (List Event) (Except (List Event)) α

namespace Execution

/-- The bound is reached. -/
def cutOff {α : Type} : Execution α := fun events => .error events

/-- Simple lines are executed. -/
def emit (lines : List Code) : Execution Unit := fun events =>
  .ok ((), events ++ lines.map .line)

/-- The oracle decides. -/
def consult (o : Oracle) (event : Event) : Execution Bool := fun events =>
  .ok (o (events ++ [event]), events ++ [event])

/-- A test without the negations around it, and whether they turn its answer round. -/
def readTest (text : List Char) : List Char × Bool :=
  match text with
  | '!' :: '(' :: rest =>
    if rest.getLast? = some ')' then ((readTest rest.dropLast).1, !(readTest rest.dropLast).2)
    else (text, false)
  | _ => (text, false)
termination_by text.length

/-- A test is decided: `!(t)` holds when `t` does not, and `true` holds without being asked. -/
def ask (o : Oracle) (text : String) : Execution Bool :=
  if (readTest text.toList).1 = "true".toList then return !(readTest text.toList).2
  else do
    let answer ← consult o (.test (String.ofList (readTest text.toList).1))
    return answer != (readTest text.toList).2

/-- The second piece of code follows if the first one comes to its end. -/
def andThen (x y : Execution Exit) : Execution Exit := do
  match ← x with
  | .normal => y
  | exit => return exit

end Execution

/-- What follows a round of a loop. -/
inductive Round where
  /-- The next round. -/
  | again
  /-- What follows the loop. -/
  | done
  /-- The method is left. -/
  | leaves

/-- What follows a round whose body ends in this way. -/
def Round.ofExit : Exit → Round
  | .normal => .again
  | .continues => .again
  | .breaks => .done
  | .leaves => .leaves

namespace Execution

/-- A round with its test in front. -/
def testedRound (test : Execution Bool) (body : Execution Exit) : Execution Round := do
  if ← test then return .ofExit (← body) else return .done

/-- A round with its test at the end. -/
def roundTested (body : Execution Exit) (test : Execution Bool) : Execution Round := do
  match Round.ofExit (← body) with
  | .again => if ← test then return .again else return .done
  | round => return round

/-- At most `n` rounds of a loop. -/
def rounds (round : Execution Round) : ℕ → Execution Exit
  | 0 => cutOff
  | n + 1 => do
    match ← round with
    | .again => rounds round n
    | .done => return .normal
    | .leaves => return .leaves

end Execution

open Execution

mutual

/-- Executes a statement, with at most `n` rounds of each loop. What happens inside a `switch` or a
`try` is not looked at. -/
def Code.execute (o : Oracle) (n : ℕ) : Code → Execution Exit
  | .breakLoop => return .breaks
  | .continueLoop => return .continues
  | .ret value => do
    emit [.ret value]
    return .leaves
  | .raise value => do
    emit [.raise value]
    return .leaves
  | .branch test body rest => do
    if ← ask o test then Code.executeAll o n body else rest.execute o n
  | .whileLoop test body => rounds (testedRound (ask o test) (Code.executeAll o n body)) n
  | .loop body => rounds (do return .ofExit (← Code.executeAll o n body)) n
  | .doWhile body test => rounds (roundTested (Code.executeAll o n body) (ask o test)) n
  | .forIn binding subject body =>
    rounds (testedRound (consult o (.step binding subject)) (Code.executeAll o n body)) n
  | line => do
    emit [line]
    return .normal

/-- Executes statements one after the other. -/
def Code.executeAll (o : Oracle) (n : ℕ) : List Code → Execution Exit
  | [] => return .normal
  | c :: rest => (c.execute o n).andThen (Code.executeAll o n rest)

/-- Executes what follows the first block of an `if`. -/
def Chain.execute (o : Oracle) (n : ℕ) : Chain → Execution Exit
  | .done => return .normal
  | .elseIf test body rest => do
    if ← ask o test then Code.executeAll o n body else rest.execute o n
  | .otherwise body => Code.executeAll o n body

end

/-! ### Executing in sequence -/

namespace Execution

@[simp]
theorem emit_nil : emit [] = pure () := by
  funext events
  rw [emit, List.map_nil, List.append_nil]
  rfl

theorem emit_append (xs ys : List Code) : emit (xs ++ ys) = (do emit xs; emit ys) := by
  funext events
  rw [emit, List.map_append, ← List.append_assoc]
  rfl

theorem bind_apply {α β : Type} (x : Execution α) (f : α → Execution β) (events : List Event) :
    (x >>= f) events = (x events).bind fun r => f r.1 r.2 :=
  rfl

theorem readTest_negation (text : List Char) :
    readTest ('!' :: '(' :: (text ++ [')'])) = ((readTest text).1, !(readTest text).2) := by
  rw [readTest]
  simp

/-- A negation around a test turns its answer round. -/
theorem ask_negation (o : Oracle) (test : String) :
    ask o ("!(" ++ test ++ ")") = (do return !(← ask o test)) := by
  have read : readTest ("!(" ++ test ++ ")").toList =
      ((readTest test.toList).1, !(readTest test.toList).2) := by
    rw [String.toList_append, String.toList_append]
    exact readTest_negation test.toList
  unfold ask
  rw [read]
  split_ifs
  · rfl
  · simp

/-- Nothing is asked about `true`. -/
theorem ask_true (o : Oracle) : ask o "true" = pure true := by
  have read : readTest "true".toList = ("true".toList, false) := by
    rw [readTest]
    simp
  rw [ask, read, if_pos rfl]
  rfl

@[simp]
theorem andThen_normal (x : Execution Exit) : andThen (pure .normal) x = x := by
  rw [andThen, pure_bind]

theorem andThen_pure {exit : Exit} (h : exit ≠ .normal) (x : Execution Exit) :
    andThen (pure exit) x = pure exit := by
  cases exit with
  | normal => exact absurd rfl h
  | breaks | continues | leaves => rw [andThen, pure_bind]

theorem andThen_bind {α : Type} (x : Execution α) (f : α → Execution Exit) (y : Execution Exit) :
    andThen (x >>= f) y = (do andThen (f (← x)) y) := by
  rw [andThen, bind_assoc]
  rfl

@[simp]
theorem andThen_end (x : Execution Exit) : x.andThen (pure .normal) = x := by
  have same : ∀ exit : Exit, andThen (pure exit) (pure .normal) = pure exit := by
    intro exit
    cases exit <;> simp [andThen_pure]
  calc
    x.andThen (pure .normal) = (x >>= pure).andThen (pure .normal) := by rw [bind_pure]
    _ = x >>= fun exit => andThen (pure exit) (pure .normal) := andThen_bind x pure _
    _ = x := by simp only [same, bind_pure]

theorem andThen_assoc (x y z : Execution Exit) :
    (x.andThen y).andThen z = x.andThen (y.andThen z) := by
  nth_rewrite 2 [andThen]
  nth_rewrite 2 [andThen]
  rw [andThen_bind]
  refine bind_congr fun exit => ?_
  cases exit <;> simp [andThen_pure]

end Execution

namespace Code

variable {o : Oracle} {n : ℕ}

@[simp]
theorem executeAll_nil : executeAll o n [] = pure .normal := by rw [executeAll]

theorem executeAll_cons (c : Code) (rest : List Code) :
    executeAll o n (c :: rest) = (c.execute o n).andThen (executeAll o n rest) := by rw [executeAll]

@[simp]
theorem executeAll_singleton (c : Code) : executeAll o n [c] = c.execute o n := by
  rw [executeAll_cons, executeAll_nil, andThen_end]

theorem executeAll_append (xs ys : List Code) :
    executeAll o n (xs ++ ys) = (executeAll o n xs).andThen (executeAll o n ys) := by
  induction xs with
  | nil => simp
  | cons c rest ih => rw [List.cons_append, executeAll_cons, ih, executeAll_cons, andThen_assoc]

/-- `break` where the test does not hold. -/
theorem execute_leaveUnless (test : String) :
    (Code.leaveUnless test).execute o n = (do
      if ← ask o test then return .normal else return .breaks) := by
  rw [Code.leaveUnless, execute, ask_negation]
  simp only [bind_assoc, pure_bind]
  refine bind_congr fun holds => ?_
  cases holds <;> simp [execute, Chain.execute]

end Code

/-! ### Relations between executions -/

namespace Execution

/-- A relation between executions that is kept in sequence. -/
structure Sequential (R : (α : Type) → Execution α → Execution α → Prop) : Prop where
  pure {α : Type} (a : α) : R α (Pure.pure a) (Pure.pure a)
  bind {α β : Type} {x y : Execution α} {f g : α → Execution β} :
    R α x y → (∀ a, R β (f a) (g a)) → R β (x >>= f) (y >>= g)

namespace Sequential

variable {R : (α : Type) → Execution α → Execution α → Prop} (h : Sequential R)
  {x y x' y' body body' : Execution Exit} {test test' : Execution Bool}

include h

theorem ask {o o' : Oracle}
    (hc : ∀ text, R Bool (consult o (.test text)) (consult o' (.test text))) (text : String) :
    R Bool (ask o text) (ask o' text) := by
  unfold Execution.ask
  split_ifs
  · exact h.pure _
  · exact h.bind (hc _) fun _ => h.pure _

theorem andThen (hx : R Exit x x') (hy : R Exit y y') :
    R Exit (x.andThen y) (x'.andThen y') := by
  refine h.bind hx fun exit => ?_
  cases exit with
  | normal => exact hy
  | breaks | continues | leaves => exact h.pure _

theorem testedRound (ht : R Bool test test') (hb : R Exit body body') :
    R Round (testedRound test body) (testedRound test' body') := by
  refine h.bind ht fun holds => ?_
  cases holds with
  | false => exact h.pure _
  | true => exact h.bind hb fun _ => h.pure _

theorem roundTested (hb : R Exit body body') (ht : R Bool test test') :
    R Round (roundTested body test) (roundTested body' test') := by
  refine h.bind hb fun exit => ?_
  cases exit with
  | normal | continues =>
    refine h.bind ht fun holds => ?_
    cases holds <;> exact h.pure _
  | breaks | leaves => exact h.pure _

end Sequential

end Execution

/-! ### More rounds -/

namespace Execution

variable {α β : Type}

/-- The events by the end of an execution. -/
def eventsOf : Except (List Event) (α × List Event) → List Event
  | .ok (_, events) => events
  | .error events => events

/-- The second execution goes on where the first one is cut off, and is the same otherwise. -/
structure GoesOn (x y : Execution α) : Prop where
  ends : ∀ events r, x events = .ok r → y events = .ok r
  cut : ∀ events seen, x events = .error seen → seen <+: eventsOf (y events)
  grows : ∀ events, events <+: eventsOf (y events)

theorem GoesOn.refl {x : Execution α} (grows : ∀ events, events <+: eventsOf (x events)) :
    GoesOn x x where
  ends _ _ h := h
  cut events seen h := by rw [h]; exact List.prefix_refl _
  grows := grows

theorem GoesOn.pure (a : α) : GoesOn (Pure.pure a) (Pure.pure a) :=
  .refl fun _ => List.prefix_refl _

theorem GoesOn.emit (lines : List Code) : GoesOn (emit lines) (emit lines) :=
  .refl fun events => List.prefix_append events _

theorem GoesOn.consult (o : Oracle) (event : Event) :
    GoesOn (consult o event) (consult o event) :=
  .refl fun events => List.prefix_append events _

theorem GoesOn.bind {x y : Execution α} {f g : α → Execution β} (hx : GoesOn x y)
    (hf : ∀ a, GoesOn (f a) (g a)) : GoesOn (x >>= f) (y >>= g) := by
  -- Whatever follows keeps the events by then.
  have later : ∀ events, eventsOf (y events) <+: eventsOf ((y >>= g) events) := by
    intro events
    rw [bind_apply]
    cases y events with
    | ok r => exact (hf r.1).grows r.2
    | error seen => exact List.prefix_refl _
  constructor
  · intro events r h
    rw [bind_apply] at h ⊢
    cases first : x events with
    | ok a =>
      rw [first] at h
      rw [hx.ends events a first]
      exact (hf a.1).ends a.2 r h
    | error seen =>
      rw [first] at h
      cases h
  · intro events seen h
    rw [bind_apply] at h
    cases first : x events with
    | ok a =>
      rw [first] at h
      rw [bind_apply, hx.ends events a first]
      exact (hf a.1).cut a.2 seen h
    | error cut =>
      rw [first] at h
      cases h
      exact (hx.cut events seen first).trans (later events)
  · exact fun events => (hx.grows events).trans (later events)

theorem GoesOn.sequential : Sequential @GoesOn where
  pure := .pure
  bind := .bind

theorem GoesOn.ask (o : Oracle) (test : String) : GoesOn (ask o test) (ask o test) :=
  GoesOn.sequential.ask (fun _ => .consult o _) test

/-- The induction is on the rounds of the execution that may be cut off. -/
theorem GoesOn.rounds {round round' : Execution Round} (h : GoesOn round round') {m n : ℕ}
    (le : m ≤ n) : GoesOn (rounds round m) (rounds round' n) := by
  have grows : ∀ n, ∀ events, events <+: eventsOf (Execution.rounds round' n events) := by
    intro n
    induction n with
    | zero => exact fun _ => List.prefix_refl _
    | succ n ih =>
      have next : GoesOn (Execution.rounds round' (n + 1)) (Execution.rounds round' (n + 1)) := by
        refine (GoesOn.refl h.grows).bind fun next => ?_
        cases next with
        | again => exact .refl ih
        | done | leaves => exact .pure _
      exact next.grows
  induction m generalizing n with
  | zero =>
    constructor
    · intro events r h
      cases h
    · intro events seen h
      cases h
      exact grows n events
    · exact grows n
  | succ m ih =>
    obtain ⟨n, rfl⟩ := Nat.exists_eq_add_of_lt le
    refine h.bind fun next => ?_
    cases next with
    | again => exact ih (by omega)
    | done | leaves => exact .pure _

end Execution

section Mono

variable {o : Oracle} {m n : ℕ}

mutual

theorem Code.execute_goesOn (le : m ≤ n) : ∀ c : Code, GoesOn (c.execute o m) (c.execute o n)
  | .breakLoop | .continueLoop => by
    rw [Code.execute, Code.execute]
    exact .pure _
  | .branch test body rest => by
    rw [Code.execute, Code.execute]
    refine (GoesOn.ask o test).bind fun holds => ?_
    cases holds with
    | false => exact Chain.execute_goesOn le rest
    | true => exact Code.executeAll_goesOn le body
  | .whileLoop test body => by
    rw [Code.execute, Code.execute]
    exact (GoesOn.sequential.testedRound (.ask o test) (Code.executeAll_goesOn le body)).rounds le
  | .loop body => by
    rw [Code.execute, Code.execute]
    exact ((Code.executeAll_goesOn le body).bind fun _ => .pure _).rounds le
  | .doWhile body test => by
    rw [Code.execute, Code.execute]
    exact (GoesOn.sequential.roundTested (Code.executeAll_goesOn le body) (.ask o test)).rounds le
  | .forIn binding subject body => by
    rw [Code.execute, Code.execute]
    exact (GoesOn.sequential.testedRound (.consult o _) (Code.executeAll_goesOn le body)).rounds le
  | .assign .. | .keep .. | .eval _ | .ret _ | .raise _ | .echo _ | .unset _ | .switch ..
  | .tryCatch .. => by
    simp only [Code.execute]
    exact (GoesOn.emit _).bind fun _ => .pure _

theorem Code.executeAll_goesOn (le : m ≤ n) : ∀ code : List Code,
    GoesOn (Code.executeAll o m code) (Code.executeAll o n code)
  | [] => by
    rw [Code.executeAll, Code.executeAll]
    exact .pure _
  | c :: rest => by
    rw [Code.executeAll, Code.executeAll]
    exact GoesOn.sequential.andThen (Code.execute_goesOn le c) (Code.executeAll_goesOn le rest)

theorem Chain.execute_goesOn (le : m ≤ n) : ∀ chain : Chain,
    GoesOn (chain.execute o m) (chain.execute o n)
  | .done => by
    rw [Chain.execute, Chain.execute]
    exact .pure _
  | .otherwise body => by
    rw [Chain.execute, Chain.execute]
    exact Code.executeAll_goesOn le body
  | .elseIf test body rest => by
    rw [Chain.execute, Chain.execute]
    refine (GoesOn.ask o test).bind fun holds => ?_
    cases holds with
    | false => exact Chain.execute_goesOn le rest
    | true => exact Code.executeAll_goesOn le body

end

end Mono

end Zephirize
