import Transcript.Lang.Show

/-!
# What can go wrong in a program

Each cause of a built-in exception, with its kind and its wording in one place.
-/

namespace Transcript.Lang

/-- **The cause of a built-in exception.** Types are given by their names. -/
inductive Problem
  -- operators
  | unsupportedOperands (op : BinaryOp) (left right : String)
  | badUnary (symbol operand : String)
  | notOrdered (symbol left right : String)
  | overflow
  | repeatedTooOften (what : String)
  | zeroDivision (isFloat : Bool) (op : BinaryOp)
  | notInText (type : String)
  -- sequences and mappings
  | notIterable (type : String)
  | sliceBounds
  | sliceOutside
  | badIndex (what type : String)
  | indexRange (what : String)
  | notSubscriptable (type : String)
  | noItemAssignment (type : String)
  | noItemDeletion (type : String)
  | assignmentRange
  | missingKey (key : Value)
  | popEmpty
  | popRange
  -- names, attributes, modules
  | undefinedName (name : String)
  | noAttribute (type name : String)
  | noModuleAttribute (module name : String)
  | noModule (name : String)
  -- calls
  | notCallable (type : String)
  | exceptionKeyword (kind name : String)
  | tooFewArguments (function : String) (least given : Nat)
  | tooManyArguments (function : String) (most given : Nat)
  | unexpectedKeyword (function name : String)
  | tooManyPositional (function : String) (params given : Nat)
  | multipleValues (function name : String)
  | missingArguments (function : String) (names : List String)
  -- conversions
  | notInteger (type : String)
  | notNumber (type : String)
  | badAbs (type : String)
  | textOption (key type : String)
  | noLength (type : String)
  | badIntArgument (type : String)
  | badIntText (shown : String)
  | floatToInt (shown : String)
  | badFloatArgument (type : String)
  | badFloatText (shown : String)
  | noneToCompare (function : String)
  | emptyToCompare (function : String)
  | notClass (type : String)
  | zeroStep
  | mustBeText (type : String)
  | badPart (index : Nat) (type : String)
  | emptySeparator
  -- assignment
  | notUnpackable (type : String)
  | tooFewValues (expected given : Nat)
  | tooManyValues (expected : Nat)
  | augmentedTuple
  -- exceptions
  | notException
  | notExceptionClass
  | nothingToReraise
  | interrupted
  -- concurrency
  | notAwaitable (type : String)
  | notCoroutine (shown : String)
  | reusedCoroutine
  | noRunningLoop
  | loopIsRunning
  | handleTaken
  | resultNotSet
  | notANumber
  | suspendedOutside
  | cancelled
  /-- The computation has no end. No handler sees it. -/
  | endless

namespace Problem

/-- The kind of the exception. -/
def kind : Problem → ExceptionKind
  | .overflow | .repeatedTooOften _ | .floatToInt _ => .overflowError
  | .zeroDivision .. => .zeroDivisionError
  | .indexRange _ | .assignmentRange | .popEmpty | .popRange => .indexError
  | .missingKey _ => .keyError
  | .undefinedName _ => .nameError
  | .noAttribute .. | .noModuleAttribute .. => .attributeError
  | .noModule _ => .moduleNotFoundError
  | .badIntText _ | .badFloatText _ | .emptyToCompare _ | .zeroStep | .emptySeparator
  | .tooFewValues .. | .tooManyValues _ | .notCoroutine _ | .notANumber => .valueError
  | .nothingToReraise | .reusedCoroutine | .noRunningLoop | .loopIsRunning | .handleTaken
  | .resultNotSet | .suspendedOutside | .endless => .runtimeError
  | .interrupted => .keyboardInterrupt
  | .augmentedTuple => .syntaxError
  | .cancelled => .cancelledError
  | _ => .typeError

/-- The ending of a noun for several things. -/
def plural (n : Nat) : String := if n = 1 then "" else "s"

/-- The wording; a missing key has none of its own. -/
def message : Problem → String
  | .unsupportedOperands op l r =>
    s!"unsupported operand type(s) for {op.symbol}: '{l}' and '{r}'"
  | .badUnary symbol operand => s!"bad operand type for unary {symbol}: '{operand}'"
  | .notOrdered symbol l r => s!"'{symbol}' not supported between instances of '{l}' and '{r}'"
  | .overflow => "integer overflow"
  | .repeatedTooOften what => s!"repeated {what} is too long"
  | .zeroDivision false .div => "division by zero"
  | .zeroDivision false .floorDiv => "integer division or modulo by zero"
  | .zeroDivision false _ => "integer modulo by zero"
  | .zeroDivision true .div => "float division by zero"
  | .zeroDivision true .floorDiv => "float floor division by zero"
  | .zeroDivision true _ => "float modulo"
  | .notInText type => s!"'in <string>' requires string as left operand, not {type}"
  | .notIterable type => s!"'{type}' object is not iterable"
  | .sliceBounds => "slice indices must be integers or None"
  | .sliceOutside => "slice is only valid in a subscript"
  | .badIndex what type => s!"{what} indices must be integers or slices, not {type}"
  | .indexRange what => s!"{what} index out of range"
  | .notSubscriptable type => s!"'{type}' object is not subscriptable"
  | .noItemAssignment type => s!"'{type}' object does not support item assignment"
  | .noItemDeletion type => s!"'{type}' object doesn't support item deletion"
  | .assignmentRange => "list assignment index out of range"
  | .missingKey _ => ""
  | .popEmpty => "pop from empty list"
  | .popRange => "pop index out of range"
  | .undefinedName name => s!"name '{name}' is not defined"
  | .noAttribute type name => s!"'{type}' object has no attribute '{name}'"
  | .noModuleAttribute module name => s!"module '{module}' has no attribute '{name}'"
  | .noModule name => s!"No module named '{name}'"
  | .notCallable type => s!"'{type}' object is not callable"
  | .exceptionKeyword kind name => s!"{kind}() takes no keyword arguments: '{name}'"
  | .tooFewArguments f least given =>
    s!"{f}() takes at least {least} argument{plural least} ({given} given)"
  | .tooManyArguments f most given =>
    s!"{f}() takes at most {most} argument{plural most} ({given} given)"
  | .unexpectedKeyword f name => s!"{f}() got an unexpected keyword argument '{name}'"
  | .tooManyPositional f params given =>
    let was := if given = 1 then "was" else "were"
    s!"{f}() takes {params} positional argument{plural params} but {given} {was} given"
  | .multipleValues f name => s!"{f}() got multiple values for argument '{name}'"
  | .missingArguments f names =>
    let n := names.length
    s!"{f}() missing {n} required positional argument{plural n}: " ++
      String.intercalate " and " (names.map fun x => s!"'{x}'")
  | .notInteger type => s!"'{type}' object cannot be interpreted as an integer"
  | .notNumber type => s!"'{type}' object cannot be interpreted as a number"
  | .badAbs type => s!"bad operand type for abs(): '{type}'"
  | .textOption key type => s!"{key} must be None or a string, not {type}"
  | .noLength type => s!"object of type '{type}' has no len()"
  | .badIntArgument type =>
    s!"int() argument must be a string, a bytes-like object or a real number, not '{type}'"
  | .badIntText shown => s!"invalid literal for int() with base 10: {shown}"
  | .floatToInt shown => s!"cannot convert float {shown} to integer"
  | .badFloatArgument type =>
    s!"float() argument must be a string or a real number, not '{type}'"
  | .badFloatText shown => s!"could not convert string to float: {shown}"
  | .noneToCompare f => s!"{f} expected at least 1 argument, got 0"
  | .emptyToCompare f => s!"{f}() arg is an empty sequence"
  | .notClass type =>
    s!"isinstance() arg 2 must be an exception type or tuple of exception types, not {type}"
  | .zeroStep => "range() arg 3 must not be zero"
  | .mustBeText type => s!"must be str, not {type}"
  | .badPart i type => s!"sequence item {i}: expected str instance, {type} found"
  | .emptySeparator => "empty separator"
  | .notUnpackable type => s!"cannot unpack non-iterable {type} object"
  | .tooFewValues expected given =>
    s!"not enough values to unpack (expected {expected}, got {given})"
  | .tooManyValues expected => s!"too many values to unpack (expected {expected})"
  | .augmentedTuple => "illegal expression for augmented assignment"
  | .notException => "exceptions must derive from BaseException"
  | .notExceptionClass => "catching classes that do not inherit from BaseException is not allowed"
  | .nothingToReraise => "No active exception to reraise"
  | .interrupted => ""
  | .notAwaitable type => s!"object {type} can't be used in 'await' expression"
  | .notCoroutine shown => s!"a coroutine was expected, got {shown}"
  | .reusedCoroutine => "cannot reuse already awaited coroutine"
  | .noRunningLoop => "no running event loop"
  | .loopIsRunning => "asyncio.run() cannot be called from a running event loop"
  | .handleTaken => "await wasn't used with future"
  | .resultNotSet => "Result is not set."
  | .notANumber => "Invalid value NaN (not a number)"
  | .suspendedOutside => "statement suspended outside of an event loop"
  | .cancelled => ""
  | .endless => ""

/-- The exception of a problem; the message gets the given identity. -/
def raised (identity : Nat) (p : Problem) : Raised :=
  match p with
  | .missingKey key => ⟨.keyError, [key]⟩
  | p =>
    let message := p.message.toList
    ⟨p.kind, if message.isEmpty then [] else [.str identity message]⟩

end Problem

end Transcript.Lang
