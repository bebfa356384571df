import Zephirize.Distinct
import Zephirize.Text.Lines

/-!
# Known classes

The classes that exist without being declared in the program: those of the language, and those that
the caller adds. Names are compared without a leading separator and in any ASCII case.
-/

namespace Zephirize

/-- A set of classes, by normalized name. -/
structure ClassSet where
  names : List String := []
deriving DecidableEq, Repr, Inhabited

namespace ClassSet

/-- The form under which a name is compared. -/
def normalize (name : String) : String :=
  Text.asciiLower (String.ofList ((Text.Chars.trim name.toList).dropWhile (· == '\\')))

/-- The set with one more class. -/
def insert (k : ClassSet) (name : String) : ClassSet :=
  ⟨addDistinct k.names (normalize name)⟩

/-- The set with more classes. -/
def add (k : ClassSet) (names : List String) : ClassSet := names.foldl insert k

/-- The class is known. -/
def contains (k : ClassSet) (name : String) : Bool := k.names.contains (normalize name)

/-- The number of classes. -/
def size (k : ClassSet) : Nat := k.names.length

/-- The classes of the language. -/
def builtinNames : List String :=
  ["ArgumentCountError", "ArithmeticError", "ArrayAccess", "ArrayIterator", "ArrayObject",
    "BadFunctionCallException", "BadMethodCallException", "Closure", "Countable", "DateInterval",
    "DatePeriod", "DateTime", "DateTimeImmutable", "DateTimeInterface", "DateTimeZone",
    "DivisionByZeroError", "DomainException", "Error", "ErrorException", "Exception", "Generator",
    "InvalidArgumentException", "Iterator", "IteratorAggregate", "JsonSerializable",
    "LengthException", "LogicException", "OutOfBoundsException", "OutOfRangeException",
    "OverflowException", "PDO", "PDOStatement", "RangeException", "RuntimeException",
    "Serializable", "SplFixedArray", "SplObjectStorage", "SplPriorityQueue", "SplQueue", "SplStack",
    "Stringable", "Throwable", "Traversable", "TypeError", "UnderflowException",
    "UnexpectedValueException", "stdClass"]

/-- The set of the classes of the language. -/
def builtin : ClassSet := ClassSet.add {} builtinNames

end ClassSet

end Zephirize
