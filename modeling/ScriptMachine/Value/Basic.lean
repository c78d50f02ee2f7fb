import ScriptMachine.Value.Tag
import ScriptMachine.Value.Native
import ScriptMachine.Number.Binary64

/-!
Run-time values. Plain data and tuples are values in themselves; everything that
can change or has an identity lives on the heap, and the value holds its number.
-/

namespace ScriptMachine

/-- Number of a list on the heap. -/
abbrev ListId := Nat
/-- Number of a map on the heap. -/
abbrev MapId := Nat
/-- Number of an environment of local variables on the heap. -/
abbrev EnvId := Nat
/-- Number of a loaded method. -/
abbrev MethodId := Nat
/-- Number of a closure on the heap. -/
abbrev ClosureId := Nat
/-- Number of a loaded class. -/
abbrev ClassId := Nat
/-- Number of an instance on the heap. -/
abbrev InstanceId := Nat
/-- Number of an exception on the heap. -/
abbrev ExceptionId := Nat
/-- Number of a module. -/
abbrev ModuleId := Nat
/-- Number of a loaded interface. -/
abbrev InterfaceId := Nat
/-- Number of a loaded enum. -/
abbrev EnumId := Nat
/-- Number of an iterator on the heap. -/
abbrev IteratorId := Nat

/-- What a method can be bound to: the values that a method is looked up on. -/
inductive Receiver where
  | instance (id : InstanceId)
  | list (id : ListId)
  | map (id : MapId)
  | str (text : String)
deriving Repr, DecidableEq, Inhabited

/-- A function object that is not compiled from a script. Objects made at
different times differ in their number even when the function is the same. -/
structure NativeObject where
  fn : Native
  number : Nat
deriving Repr, DecidableEq, Inhabited

/-- What is bound to a receiver: what looking up a method on it finds. A host that builds bound
methods of its own could bind any value to any other, a list to a number for instance. Such pairs are
left out. Two of them may be equal and yet have different hashes, and comparing them need not come
to an end, because a list that is bound is compared as deep as if nothing were around it. -/
inductive BoundTarget where
  | method (id : MethodId)
  | native (object : NativeObject)
deriving Repr, DecidableEq, Inhabited

/-- How the interpreter is built. -/
inductive Build where
  | debug
  | release
deriving Repr, DecidableEq, Inhabited

/-- How deep the operations on data structures follow their nesting. A debug build has larger frames
on the stack of the host, so it follows less. -/
def Build.maxNesting : Build → Nat
  | .debug => 100
  | .release => 500

theorem Build.maxNesting_pos (build : Build) : 0 < build.maxNesting := by
  cases build <;> decide

/-- The build that is modelled. Every theorem of the library holds of the other one by the same
proof. -/
def build : Build := .debug

/-- Run-time values. -/
inductive Value where
  | null
  | bool (value : Bool)
  | int (value : Int64)
  | float (value : Binary64)
  | str (text : String)
  | tuple (items : List Value)
  | list (id : ListId)
  | map (id : MapId)
  | method (id : MethodId)
  | closure (id : ClosureId)
  | bound (receiver : Receiver) (target : BoundTarget)
  | native (object : NativeObject)
  | cls (id : ClassId)
  | instance (id : InstanceId)
  | exception (id : ExceptionId)
  | module (id : ModuleId)
  | interface (id : InterfaceId)
  | enum (id : EnumId)
  | iterator (id : IteratorId)
  | type (tag : TypeTag)
  | exceptionType (tag : ExceptionType)
deriving Inhabited

/-- The receiver as a value. -/
def Receiver.toValue : Receiver → Value
  | .instance id => .instance id
  | list id => .list id
  | map id => .map id
  | str text => .str text

namespace Value

/-- How deep containers may be nested for comparison, hashing, printing and
exchange with the host. -/
def maxNesting : Nat := build.maxNesting

theorem maxNesting_pos : 0 < maxNesting := build.maxNesting_pos

/-- The built-in type of a value. -/
def typeTag : Value → TypeTag
  | null => .null
  | bool _ => .bool
  | int _ => .int
  | float _ => .float
  | str _ => .str
  | tuple _ => .tuple
  | list _ => .list
  | map _ => .hashMap
  | method _ => .method
  | closure _ => .closure
  | bound _ _ => .boundMethod
  | native _ => .nativeFunction
  | cls _ => .cls
  | .instance _ => .object
  | exception _ => .exception
  | module _ => .module
  | interface _ => .interface
  | enum _ => .enum
  | iterator _ => .iterator
  | type _ | exceptionType _ => .type

/-- The items of a tuple. -/
def items : Value → List Value
  | tuple items => items
  | _ => []

/-- The texts among the items of a tuple. -/
def texts (v : Value) : List String :=
  v.items.filterMap fun
    | str text => some text
    | _ => none

/-- The value is null. -/
def isNull : Value → Bool
  | null => true
  | _ => false

end Value
end ScriptMachine
