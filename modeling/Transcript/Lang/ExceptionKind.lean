/-!
# Kinds of exceptions

The built-in exceptions of the session language and their hierarchy.

Results:
* `isSubclass_base`: every kind descends from the base of the hierarchy.
-/

namespace Transcript.Lang

/-- **A kind of exception.** -/
inductive ExceptionKind
  | baseException | exception | arithmeticError | assertionError | attributeError | cancelledError
  | importError | indentationError | indexError | keyError | keyboardInterrupt | lookupError
  | moduleNotFoundError | nameError | notImplementedError | overflowError | runtimeError
  | stopIteration | syntaxError | typeError | unboundLocalError | valueError | zeroDivisionError
  deriving DecidableEq, Repr, Inhabited

namespace ExceptionKind

/-- All kinds. -/
def all : List ExceptionKind :=
  [.baseException, .exception, .arithmeticError, .assertionError, .attributeError, .cancelledError,
    .importError, .indentationError, .indexError, .keyError, .keyboardInterrupt, .lookupError,
    .moduleNotFoundError, .nameError, .notImplementedError, .overflowError, .runtimeError,
    .stopIteration, .syntaxError, .typeError, .unboundLocalError, .valueError, .zeroDivisionError]

/-- The name of a kind. -/
def name : ExceptionKind → String
  | .baseException => "BaseException"
  | .exception => "Exception"
  | .arithmeticError => "ArithmeticError"
  | .assertionError => "AssertionError"
  | .attributeError => "AttributeError"
  | .cancelledError => "CancelledError"
  | .importError => "ImportError"
  | .indentationError => "IndentationError"
  | .indexError => "IndexError"
  | .keyError => "KeyError"
  | .keyboardInterrupt => "KeyboardInterrupt"
  | .lookupError => "LookupError"
  | .moduleNotFoundError => "ModuleNotFoundError"
  | .nameError => "NameError"
  | .notImplementedError => "NotImplementedError"
  | .overflowError => "OverflowError"
  | .runtimeError => "RuntimeError"
  | .stopIteration => "StopIteration"
  | .syntaxError => "SyntaxError"
  | .typeError => "TypeError"
  | .unboundLocalError => "UnboundLocalError"
  | .valueError => "ValueError"
  | .zeroDivisionError => "ZeroDivisionError"

/-- The name with the module that a kind lives in. -/
def qualifiedName : ExceptionKind → String
  | .cancelledError => "asyncio.CancelledError"
  | k => k.name

/-- The kind of a name. -/
def ofName? (s : String) : Option ExceptionKind := all.find? (·.name == s)

/-- The kind that a kind derives from. -/
def parent? : ExceptionKind → Option ExceptionKind
  | .baseException => none
  | .exception | .keyboardInterrupt | .cancelledError => some .baseException
  | .zeroDivisionError | .overflowError => some .arithmeticError
  | .indexError | .keyError => some .lookupError
  | .moduleNotFoundError => some .importError
  | .indentationError => some .syntaxError
  | .unboundLocalError => some .nameError
  | .notImplementedError => some .runtimeError
  | _ => some .exception

/-- A kind with up to `n` kinds that it derives from, the nearest first. -/
def lineage : Nat → ExceptionKind → List ExceptionKind
  | 0, k => [k]
  | n + 1, k =>
    match k.parent? with
    | some p => k :: lineage n p
    | none => [k]

/-- Whether a kind is another one or derives from it. The hierarchy has four levels. -/
def isSubclass (k other : ExceptionKind) : Bool := (lineage 3 k).contains other

theorem isSubclass_base (k : ExceptionKind) : k.isSubclass .baseException = true := by
  cases k <;> decide

end ExceptionKind

/-- The place in a source that an exception of the grammar points at. -/
structure SourcePlace where
  /-- The name of the source. -/
  filename : String
  /-- The line, counted from one. -/
  line : Nat
  /-- The column, counted from one. -/
  column : Nat
  /-- The text of the line. -/
  text : List Char
  deriving DecidableEq, Repr

end Transcript.Lang
