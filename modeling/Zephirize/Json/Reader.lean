import Zephirize.Json.Token

/-!
# Reading JSON texts

The reader takes the tokens of a text one by one. Its state is a stack of the arrays and objects
that are open, and what may come next.

* `Frame` — an open array or object with what it holds so far.
* `Expected` — what the next token may be.
* `Reader.step` — one token.
* `Json.read?` — the value of a text. Arrays and objects nested deeper than `limit` are
  `unreadable`.
-/

namespace Zephirize.Json

/-- An array or object that is still open. What it holds is kept in reverse. -/
inductive Frame where
  | list (items : List Json)
  /-- An object with complete fields; an unreadable name is `none`. -/
  | object (fields : List (Option String × Json))
  /-- An object that waits for the value of a field. -/
  | member (fields : List (Option String × Json)) (name : Option String)

/-- What the next token may be. -/
inductive Expected where
  | value
  /-- The first item of an array, or its end. -/
  | valueOrClose
  /-- The name of a field after a comma. -/
  | name
  /-- The first field of an object, or its end. -/
  | nameOrClose
  | colon
  /-- A comma or the end of what is open. -/
  | more
  /-- The value is complete. -/
  | nothing (result : Json)

/-- A reader between two tokens. -/
structure Reader where
  /-- The innermost open array or object stands first. -/
  stack : List Frame := []
  expected : Expected := .value

/-- The object with these fields, which is unreadable when one of the names is. -/
def ofFields (fields : List (Option String × Json)) : Json :=
  match fields.mapM fun (name, v) => name.map (·, v) with
  | some fields => .obj fields
  | none => .unreadable

namespace Reader

/-- Hands a finished value to what is open around it. -/
def put (stack : List Frame) (v : Json) : Option Reader :=
  match stack with
  | [] => some ⟨[], .nothing v⟩
  | .list items :: rest => some ⟨.list (v :: items) :: rest, .more⟩
  | .member fields name :: rest => some ⟨.object ((name, v) :: fields) :: rest, .more⟩
  | .object _ :: _ => none

/-- Closes the innermost array. -/
def closeList (limit : Nat) (stack : List Frame) : Option Reader :=
  match stack with
  | .list items :: rest =>
    put rest (if limit < stack.length then .unreadable else .arr items.reverse)
  | _ => none

/-- Closes the innermost object. -/
def closeObject (limit : Nat) (stack : List Frame) : Option Reader :=
  match stack with
  | .object fields :: rest =>
    put rest (if limit < stack.length then .unreadable else ofFields fields.reverse)
  | _ => none

/-- Starts a value. -/
def value (stack : List Frame) (t : Token) : Option Reader :=
  match t with
  | .openList => some ⟨.list [] :: stack, .valueOrClose⟩
  | .openObject => some ⟨.object [] :: stack, .nameOrClose⟩
  | .leaf v => put stack v
  | .text (some s) => put stack (.str s)
  | .text none => put stack .unreadable
  | _ => none

/-- Starts a field. -/
def field (stack : List Frame) (t : Token) : Option Reader :=
  match t, stack with
  | .text name, .object fields :: rest => some ⟨.member fields name :: rest, .colon⟩
  | _, _ => none

/-- Reads one token. -/
def step (limit : Nat) (r : Reader) (t : Token) : Option Reader :=
  match r.expected with
  | .value => value r.stack t
  | .valueOrClose =>
    match t with
    | .closeList => closeList limit r.stack
    | t => value r.stack t
  | .name => field r.stack t
  | .nameOrClose =>
    match t with
    | .closeObject => closeObject limit r.stack
    | t => field r.stack t
  | .colon =>
    match t with
    | .colon => some ⟨r.stack, .value⟩
    | _ => none
  | .more =>
    match t, r.stack with
    | .comma, .list _ :: _ => some ⟨r.stack, .value⟩
    | .comma, .object _ :: _ => some ⟨r.stack, .name⟩
    | .closeList, stack => closeList limit stack
    | .closeObject, stack => closeObject limit stack
    | _, _ => none
  | .nothing _ => none

/-- The value, once it is complete. -/
def result? (r : Reader) : Option Json :=
  match r.expected with
  | .nothing v => some v
  | _ => none

end Reader

/-- The value that tokens stand for. -/
def ofTokens? (limit : Nat) (ts : List Token) : Option Json := do
  (← ts.foldlM (Reader.step limit) ({} : Reader)).result?

/-- The value of a JSON text, if it is one. -/
def read? (limit : Nat) (text : String) : Option Json := do
  ofTokens? limit (← tokens? text.toList)

/-- How deep the arrays and objects of a tree's text may nest. -/
def nestingLimit : Nat := 127

end Zephirize.Json
