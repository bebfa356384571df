import Zephirize.Distinct

/-!
# Type unions

* `TypeMember` — a class or a primitive type; the primitive type with the empty name stands for "no
  type".
* `UnionType` — members without repetition, in order of first occurrence.
* `UnionType.render` — the annotation of a result.
* `UnionType.soleType` — what a union says about a parameter, which takes one type at most.
-/

namespace Zephirize

/-- Why a type cannot be written. -/
inductive TypeFault where
  /-- A class type with an empty name. -/
  | unnamedClass
  /-- A declared class type without any part. -/
  | unnamedDeclaration
  /-- A declared class type of a result without any part. -/
  | unnamedResult
deriving DecidableEq, Repr

/-- The message of an error. -/
def TypeFault.message : TypeFault → String
  | .unnamedClass => "malformed type descriptor: class type without a name"
  | .unnamedDeclaration => "malformed type descriptor: class type declaration without a name"
  | .unnamedResult => "malformed type descriptor: class return type without a name"

/-- A member of a type. -/
inductive TypeMember where
  | ofClass (name : String)
  | primitive (name : String)
deriving DecidableEq, Repr, Inhabited

namespace TypeMember

/-- The marker for "no type". -/
def noType : TypeMember := .primitive ""

/-- The name of the type. -/
def value : TypeMember → String
  | .ofClass name => name
  | .primitive name => name

/-- The member is a class. -/
def isClass : TypeMember → Bool
  | .ofClass _ => true
  | .primitive _ => false

/-- The member has an empty name. -/
def isEmpty (m : TypeMember) : Bool := m.value.isEmpty

/-- The member is the type `null`. -/
def isNull (m : TypeMember) : Bool := m == .primitive "null"

/-- The text of a member: a class stands between angle brackets. -/
def text : TypeMember → String
  | .ofClass name => "<" ++ name ++ ">"
  | .primitive name => name

/-- The annotation for a member; none for "no type". -/
def render (m : TypeMember) : Except TypeFault (Option String) :=
  if m.isEmpty then if m.isClass then .error .unnamedClass else .ok none
  else .ok (some m.text)

end TypeMember

/-- A type: its members without repetition. -/
structure UnionType where
  members : List TypeMember := []
deriving DecidableEq, Repr, Inhabited

/-- What a type says about a parameter. -/
inductive SoleType where
  | untyped
  | single (member : TypeMember)
  /-- Several types; the parameter stays untyped. -/
  | ambiguous
deriving DecidableEq, Repr

namespace UnionType

/-- Adds a member unless it is there. -/
def push (u : UnionType) (m : TypeMember) : UnionType := ⟨addDistinct u.members m⟩

/-- The union of these members. -/
def ofList (members : List TypeMember) : UnionType := ⟨firstOccurrences members⟩

/-- The union of one member. -/
def single (m : TypeMember) : UnionType := ⟨[m]⟩

/-- The union has no members. -/
def isEmpty (u : UnionType) : Bool := u.members.isEmpty

/-- No member has a name. -/
def hasNoType (u : UnionType) : Bool := u.members.all TypeMember.isEmpty

/-- The text of a union. -/
def text (u : UnionType) : String := " | ".intercalate (u.members.map TypeMember.text)

/-- The annotation of a result, without repetition; none when no member has one. -/
def render (u : UnionType) : Except TypeFault (Option String) := do
  let each ← u.members.mapM TypeMember.render
  let texts := firstOccurrences (each.filterMap id)
  return if texts.isEmpty then none else some (" | ".intercalate texts)

/-- What the type says about a parameter: `null` does not count, as the default value tells of
it. -/
def soleType (u : UnionType) : SoleType :=
  match u.members.filter fun m => !m.isEmpty && !m.isNull with
  | [] => .untyped
  | [m] => .single m
  | _ => .ambiguous

end UnionType

end Zephirize
