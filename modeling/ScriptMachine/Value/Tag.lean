/-!
The names of built-in types and of built-in exception types, and when one of them
covers another.
-/

namespace ScriptMachine

/-- The built-in types, in tag order. Every value has one; instances of script
classes have type `object`. -/
inductive TypeTag where
  | null | bool | int | float | str | tuple | list | hashMap | method | closure
  | boundMethod | nativeFunction | cls | object | exception | module | interface | enum | iterator | type
deriving Repr, DecidableEq, Inhabited

namespace TypeTag

/-- Every type once; the index in this list is the tag. -/
def all : List TypeTag :=
  [.null, .bool, .int, .float, .str, .tuple, .list, .hashMap, .method, .closure, .boundMethod,
  .nativeFunction, .cls, .object, .exception, .module, .interface, .enum, .iterator, .type]

/-- Position in declaration order. -/
def tag (t : TypeTag) : Nat :=
  t.ctorIdx

/-- Name of the type. -/
def name : TypeTag → String
  | null => "Null"
  | bool => "Bool"
  | int => "Int"
  | float => "Float"
  | str => "Str"
  | tuple => "Tuple"
  | list => "List"
  | hashMap => "HashMap"
  | method => "Method"
  | closure => "Closure"
  | boundMethod => "BoundMethod"
  | nativeFunction => "NativeFunction"
  | cls => "Class"
  | object => "Object"
  | exception => "Exception"
  | module => "Module"
  | interface => "Interface"
  | enum => "Enum"
  | iterator => "Iterator"
  | type => "Type"

/-- The type of a given name. -/
def ofName? (name : String) : Option TypeTag :=
  all.find? (·.name == name)

/-- The types that scripts can name and call, in the order they are installed. -/
def globals : List TypeTag :=
  [.int, .float, .str, .bool, .list, .tuple, .hashMap, .object]

/-- A value of type `other` passes a test against this type: `object` covers all. -/
def covers (t other : TypeTag) : Bool :=
  t == .object || t == other

end TypeTag

/-- The built-in exception types, in tag order. -/
inductive ExceptionType where
  | exception | lookupError | indexError | keyNotFound | arithmeticError | zeroDivisionError | overflowError
  | runtimeError | recursionError | notImplementedError | typeError | valueError | argumentError
  | attributeNotFound | nameError | importError | ioError
deriving Repr, DecidableEq, Inhabited

namespace ExceptionType

/-- Every exception type once; the index in this list is the tag. -/
def all : List ExceptionType :=
  [.exception, .lookupError, .indexError, .keyNotFound, .arithmeticError, .zeroDivisionError,
  .overflowError, .runtimeError, .recursionError, .notImplementedError, .typeError, .valueError,
  .argumentError, .attributeNotFound, .nameError, .importError, .ioError]

/-- Position in declaration order. -/
def tag (t : ExceptionType) : Nat :=
  t.ctorIdx

/-- Name of the exception type. -/
def name : ExceptionType → String
  | exception => "Exception"
  | lookupError => "LookupError"
  | indexError => "IndexError"
  | keyNotFound => "KeyNotFound"
  | arithmeticError => "ArithmeticError"
  | zeroDivisionError => "ZeroDivisionError"
  | overflowError => "OverflowError"
  | runtimeError => "RuntimeError"
  | recursionError => "RecursionError"
  | notImplementedError => "NotImplementedError"
  | typeError => "TypeError"
  | valueError => "ValueError"
  | argumentError => "ArgumentError"
  | attributeNotFound => "AttributeNotFound"
  | nameError => "NameError"
  | importError => "ImportError"
  | ioError => "IOError"

/-- The exception type of a given name. -/
def ofName? (name : String) : Option ExceptionType :=
  all.find? (·.name == name)

/-- The exception types that another one groups, itself not included. -/
def members : ExceptionType → List ExceptionType
  | exception => all
  | lookupError => [.indexError, .keyNotFound]
  | arithmeticError => [.zeroDivisionError, .overflowError]
  | runtimeError => [.recursionError, .notImplementedError]
  | _ => []

/-- An exception of type `t` is caught by a clause for `handler`. -/
def isSubclassOf (t handler : ExceptionType) : Bool :=
  t == handler || handler.members.contains t

end ExceptionType
end ScriptMachine
