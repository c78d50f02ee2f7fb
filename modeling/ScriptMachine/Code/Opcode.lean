/-!
The instruction vocabulary. An instruction has one operand whose meaning depends
on the opcode: the index of a constant, an instruction index, a local slot, a
count or an operator tag. Opcodes that need no operand carry zero.
-/

namespace ScriptMachine

/-- The opcodes, in tag order. -/
inductive Opcode where
  /-- Does nothing. -/
  | nop
  /-- Pops right then left, pushes the result. Operand: tag of a `BinaryOp`. -/
  | binOp
  /-- Pops one value, pushes the result. Operand: tag of a `UnaryOp`. -/
  | unaryOp
  /-- Drops the top value. -/
  | pop
  /-- Pushes a copy of the top value. -/
  | dup
  /-- Pushes two copies of the top value. -/
  | dup3
  /-- Operand: index of a constant. -/
  | loadConst
  /-- Pushes null. -/
  | loadNull
  /-- Pushes the receiver, or null without one. -/
  | loadSelf
  /-- Pushes true. -/
  | loadTrue
  /-- Pushes false. -/
  | loadFalse
  /-- Operand: local slot. -/
  | loadLocal
  /-- Pops the value to store. Operand: local slot. -/
  | storeLocal
  /-- Operand: index of the name constant. -/
  | loadGlobal
  /-- Pops the value to store. Operand: index of the name constant. -/
  | storeGlobal
  /-- Pops the object. Operand: index of the name constant. -/
  | loadAttribute
  /-- Pops the object then the value. Operand: index of the name constant. -/
  | storeAttribute
  /-- Pops the index then the container. -/
  | loadIndex
  /-- Pops the index, the container, then the value. -/
  | storeIndex
  /-- Pops the callee then the arguments. Operand: argument count. -/
  | invoke
  /-- Pops a base then the arguments and runs the base constructor on the receiver; pushes nothing. Operand: argument count. -/
  | invokeSuper
  /-- Ends the method; the top value is the result. -/
  | ret
  /-- Pops the condition. Operand: instruction index. -/
  | jumpIfTrue
  /-- Pops the condition. Operand: instruction index. -/
  | jumpIfFalse
  /-- Operand: instruction index. -/
  | jump
  /-- Operand: number of items. -/
  | buildList
  /-- Operand: number of items. -/
  | buildTuple
  /-- Operand: number of key and value pairs. -/
  | buildHash
  /-- Pops a method and captures the locals of the running frame. -/
  | buildClosure
  /-- Pops an iterable, pushes an iterator over it. -/
  | getIter
  /-- Pops an iterator, pushes its current item. -/
  | iterGetNext
  /-- Pops an iterator, pushes whether it moved to another item. -/
  | iterMoveNext
  /-- Pops an iterator and starts it anew. -/
  | iterReset
  /-- Pops a value and raises it. -/
  | raise
  /-- Opens a protected region. Operand: instruction index of its handler. -/
  | pushExceptionHandler
  /-- Closes the innermost protected region. -/
  | popExceptionHandler
  /-- Pushes the exception being handled. -/
  | loadException
  /-- Pops the type then the value, pushes whether they match. -/
  | instanceOf
  /-- Pops the type then the value, pushes the value or null. -/
  | dynamicCast
  /-- Keeps a top value other than null and jumps, drops null. Operand: instruction index. -/
  | nullCoalesce
  /-- Operand: index of the module name constant. -/
  | importModule
  /-- Pops a tuple of names. Operand: index of the module name constant. -/
  | importFrom
  /-- Operand: index of the module name constant. -/
  | importAll
deriving Repr, DecidableEq, Inhabited

namespace Opcode

/-- Every opcode once; the index in this list is the tag. -/
def all : List Opcode :=
  [.nop, .binOp, .unaryOp, .pop, .dup, .dup3, .loadConst, .loadNull, .loadSelf, .loadTrue,
  .loadFalse, .loadLocal, .storeLocal, .loadGlobal, .storeGlobal, .loadAttribute,
  .storeAttribute, .loadIndex, .storeIndex, .invoke, .invokeSuper, .ret, .jumpIfTrue,
  .jumpIfFalse, .jump, .buildList, .buildTuple, .buildHash, .buildClosure, .getIter,
  .iterGetNext, .iterMoveNext, .iterReset, .raise, .pushExceptionHandler, .popExceptionHandler,
  .loadException, .instanceOf, .dynamicCast, .nullCoalesce, .importModule, .importFrom,
  .importAll]

/-- Position in declaration order. -/
def tag (op : Opcode) : Nat :=
  op.ctorIdx

/-- Name of the opcode in listings. -/
def name : Opcode → String
  | nop => "Nop"
  | binOp => "BinOp"
  | unaryOp => "UnaryOp"
  | pop => "Pop"
  | dup => "Dup"
  | dup3 => "Dup3"
  | loadConst => "LoadConst"
  | loadNull => "LoadNull"
  | loadSelf => "LoadSelf"
  | loadTrue => "LoadTrue"
  | loadFalse => "LoadFalse"
  | loadLocal => "LoadLocal"
  | storeLocal => "StoreLocal"
  | loadGlobal => "LoadGlobal"
  | storeGlobal => "StoreGlobal"
  | loadAttribute => "LoadAttribute"
  | storeAttribute => "StoreAttribute"
  | loadIndex => "LoadIndex"
  | storeIndex => "StoreIndex"
  | invoke => "Invoke"
  | invokeSuper => "InvokeSuper"
  | ret => "Return"
  | jumpIfTrue => "JumpIfTrue"
  | jumpIfFalse => "JumpIfFalse"
  | jump => "Jump"
  | buildList => "BuildList"
  | buildTuple => "BuildTuple"
  | buildHash => "BuildHash"
  | buildClosure => "BuildClosure"
  | getIter => "GetIter"
  | iterGetNext => "IterGetNext"
  | iterMoveNext => "IterMoveNext"
  | iterReset => "IterReset"
  | raise => "Raise"
  | pushExceptionHandler => "PushExceptionHandler"
  | popExceptionHandler => "PopExceptionHandler"
  | loadException => "LoadException"
  | instanceOf => "InstanceOf"
  | dynamicCast => "DynamicCast"
  | nullCoalesce => "NullCoalesce"
  | importModule => "Import"
  | importFrom => "ImportFrom"
  | importAll => "ImportAll"

/-- The opcode of a given name. -/
def ofName? (name : String) : Option Opcode :=
  all.find? (·.name == name)

/-- Net effect on the depth of the operand stack, where it does not depend on the
operand. For `nullCoalesce` it is the effect when the jump is not taken. -/
def stackEffect? : Opcode → Option Int
  | nop | unaryOp | loadAttribute | ret | jump | buildClosure | getIter | iterGetNext |
  iterMoveNext | pushExceptionHandler | popExceptionHandler | importModule | importAll => some 0
  | dup | loadConst | loadNull | loadSelf | loadTrue | loadFalse | loadLocal | loadGlobal |
  loadException => some 1
  | dup3 => some 2
  | binOp | pop | storeLocal | storeGlobal | loadIndex | jumpIfTrue | jumpIfFalse | iterReset |
  raise | instanceOf | dynamicCast | nullCoalesce | importFrom => some (-1)
  | storeAttribute => some (-2)
  | storeIndex => some (-3)
  | invoke | invokeSuper | buildList | buildTuple | buildHash => none

/-- The operand is the index of an instruction that may run next. -/
def isJump : Opcode → Bool
  | jump | jumpIfTrue | jumpIfFalse | pushExceptionHandler | nullCoalesce => true
  | _ => false

/-- Net effect on the depth of the operand stack, given the operand. -/
def effect (op : Opcode) (arg : Nat) : Int :=
  match op.stackEffect? with
  | some e => e
  | none =>
      let n : Int := Nat.min arg (Nat.pow 2 31 - 1)
      match op with
      | invoke => -n
      | invokeSuper => -n - 1
      | buildList | buildTuple => 1 - n
      | buildHash => 1 - 2 * n
      | _ => 0

end Opcode
end ScriptMachine
