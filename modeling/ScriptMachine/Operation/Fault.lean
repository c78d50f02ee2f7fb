import ScriptMachine.Value.Tag
import ScriptMachine.Source.Operator
import ScriptMachine.Number.Word

/-!
Why an operation cannot be carried out. A fault is raised as an exception of the
type and with the message given here. What a message shows of a value, its type
name or its text, is part of the fault.
-/

namespace ScriptMachine

/-- The causes of failure. -/
inductive Fault where
  | undefinedName (name : String)
  | noAttribute (typeName name : String)
  | fixedAttributes (typeName name : String)
  | notCallable (typeName : String)
  | notIterable (typeName : String)
  /-- The `__iter__` hooks led from one object to the next for too long. -/
  | endlessIteration (calls : Nat)
  | notSubscriptable (typeName : String)
  | fixedItems (typeName : String)
  | indexType (typeName : String)
  | indexRange (index : Int64)
  | unhashable (tag : TypeTag)
  | keyNotFound (text : String)
  | itemNotFound (text : String)
  | operands (op : BinaryOp) (left right : String)
  | operand (op : UnaryOp) (typeName : String)
  | overflow
  | zeroDivision
  | zeroModulo
  | shiftCount
  | textTooLong
  | comparisonTooDeep
  | notABase (typeName : String)
  | notRaisable (typeName : String)
  | notAType (typeName : String)
  | notConstructible (tag : TypeTag)
  | noConversion (typeName : String) (target : TypeTag)
  /-- The float is no finite number. -/
  | notFinite (text : String)
  | badLiteral (target : TypeTag) (text : String)
  | receiverType (expected : TypeTag) (typeName : String)
  | argumentType (expected : TypeTag) (typeName : String)
  | missingArgument (expected : TypeTag)
  | argumentCount (callee : String) (expected given : Nat)
  | textRange (first stop : Int64)
  | emptySeparator
  | noLength (typeName : String)
  | rangeType (typeName : String)
  | zeroStep
  | addTypes
  /-- Raised on request. -/
  | requested (message : String)
  | frameLimit (limit : Nat)
  | nestingLimit (limit : Nat)
  | moduleNotFound (name : String)
  | nameNotFound (name module : String)
  /-- What printed text goes to raised an exception. -/
  | writing (type : ExceptionType) (message : String)
deriving DecidableEq, Inhabited

namespace Fault

/-- The type of the exception that is raised. -/
def type : Fault → ExceptionType
  | undefinedName _ => .nameError
  | noAttribute .. => .attributeNotFound
  | indexRange _ | textRange .. => .indexError
  | keyNotFound _ | itemNotFound _ => .keyNotFound
  | overflow | textTooLong => .overflowError
  | zeroDivision | zeroModulo => .zeroDivisionError
  | shiftCount | emptySeparator | zeroStep | notFinite _ | badLiteral .. => .valueError
  | comparisonTooDeep | frameLimit _ | nestingLimit _ => .recursionError
  | missingArgument _ | argumentCount .. => .argumentError
  | requested _ => .notImplementedError
  | moduleNotFound _ | nameNotFound .. => .importError
  | writing type _ => type
  | fixedAttributes .. | notCallable _ | notIterable _ | endlessIteration _ |
  notSubscriptable _ | fixedItems _ | indexType _ | unhashable _ | operands .. | operand .. |
  notABase _ | notRaisable _ | notAType _ | notConstructible _ | noConversion .. |
  receiverType .. | argumentType .. | noLength _ | rangeType _ | addTypes => .typeError

/-- The message of the exception that is raised. -/
def message : Fault → String
  | undefinedName name => s!"name '{name}' is not defined"
  | noAttribute typeName name => s!"'{typeName}' object has no attribute '{name}'"
  | fixedAttributes typeName name => s!"cannot set attribute '{name}' on '{typeName}'"
  | notCallable typeName => s!"'{typeName}' object is not callable"
  | notIterable typeName => s!"'{typeName}' object is not iterable"
  | endlessIteration calls => s!"'__iter__' did not produce an iterator within {calls} calls"
  | notSubscriptable typeName => s!"'{typeName}' object is not subscriptable"
  | fixedItems typeName => s!"'{typeName}' object does not support item assignment"
  | indexType typeName => s!"indices must be Int, not '{typeName}'"
  | indexRange index => s!"index {Word.text index} out of range"
  | unhashable tag => s!"unhashable type: '{tag.name}'"
  | keyNotFound text => s!"key {text} not found"
  | itemNotFound text => s!"{text} not found in list"
  | operands op left right => s!"unsupported operand types for {op.symbol}: '{left}' and '{right}'"
  | operand op typeName => s!"bad operand type for unary {op.symbol}: '{typeName}'"
  | overflow => "integer overflow"
  | zeroDivision => "integer division by zero"
  | zeroModulo => "integer modulo by zero"
  | shiftCount => "negative shift count"
  | textTooLong => "repeated string is too long"
  | comparisonTooDeep => "maximum recursion depth exceeded in comparison"
  | notABase typeName => s!"cannot inherit from '{typeName}'"
  | notRaisable typeName => s!"exceptions must be Exception objects, not '{typeName}'"
  | notAType typeName => s!"right operand of 'is' must be a type, not '{typeName}'"
  | notConstructible tag => s!"cannot construct values of type '{tag.name}'"
  | noConversion typeName target => s!"cannot convert '{typeName}' to {target.name}"
  | notFinite text => s!"cannot convert {text} to Int"
  | badLiteral target text => s!"invalid {target.name} literal: {text}"
  | receiverType expected typeName => s!"expected {expected.name} receiver, got '{typeName}'"
  | argumentType expected typeName => s!"expected {expected.name} argument, got '{typeName}'"
  | missingArgument expected => s!"missing {expected.name} argument"
  | argumentCount callee expected given =>
      s!"{callee}() takes {expected} argument(s) but {given} were given"
  | textRange first stop =>
      s!"substring range {Word.text first}..{Word.text stop} out of bounds"
  | emptySeparator => "empty separator"
  | noLength typeName => s!"object of type '{typeName}' has no len()"
  | rangeType typeName => s!"range() arguments must be Int, not '{typeName}'"
  | zeroStep => "range() step must not be zero"
  | addTypes => "add() takes two Int"
  | requested message => message
  | frameLimit limit => s!"maximum recursion depth of {limit} exceeded"
  | nestingLimit limit => s!"maximum native call depth of {limit} exceeded"
  | moduleNotFound name => s!"could not find module '{name}'"
  | nameNotFound name module => s!"cannot import name '{name}' from '{module}'"
  | writing _ message => message

end Fault

/-- What is wrong with code: an instruction does not find what it relies on. -/
inductive Defect where
  /-- There are too few operands. -/
  | stackUnderflow
  | constantRange (index : Nat)
  | notAName (text : String)
  | binaryTag (tag : Nat)
  | unaryTag (tag : Nat)
  | localRange (slot : Nat)
  | notAMethod
  | notNames
deriving DecidableEq, Inhabited

/-- The message of the exception that is raised, which is a runtime error. -/
def Defect.message : Defect → String
  | stackUnderflow => "operand stack underflow"
  | constantRange index => s!"constant index {index} out of range"
  | notAName text => s!"expected a name constant, found {text}"
  | binaryTag tag => s!"invalid binary operator tag {tag}"
  | unaryTag tag => s!"invalid unary operator tag {tag}"
  | localRange slot => s!"local slot {slot} out of range"
  | notAMethod => "BuildClosure expects a method"
  | notNames => "ImportFrom expects a tuple of names"

end ScriptMachine
