import ScriptMachine.Heap.Classes

/-!
Activation records, and what is to be done with the value a call gives back.

Most calls hand their value to the operand stack of the caller. Others are made in
the middle of an operation: an operator that a class takes over, a text asked of an
object, a module that is imported. What then remains of the operation is recorded
as a list of tasks, each of which takes a value and gives one to the next, and a
final use of the last value. Such calls are called nested.
-/

namespace ScriptMachine

/-- What a function of a host does: it looks at objects and changes them, reads and sets global
variables, calls values, and in the end gives a value or raises. If a call it makes raises, so
does the function, and nothing more of it is done. -/
inductive Routine where
  | give (v : Value)
  /-- Raises a new exception. -/
  | fail (type : ExceptionType) (message : String)
  /-- Raises an exception that is there already. -/
  | raise (id : ExceptionId)
  /-- Changes objects and goes on with what it then finds. -/
  | edit (change : Heap.Edit) (next : Heap → Routine)
  /-- Goes on with what a global variable holds that belongs to no module. -/
  | global (name : String) (next : Option Value → Routine)
  | setGlobal (name : String) (v : Value) (next : Routine)
  /-- Calls a value and goes on with the result. -/
  | call (callee : Value) (args : List Value) (next : Value → Routine)

instance : Inhabited Routine := ⟨.give .null⟩

/-- One step of an operation that had to wait for a value. Unless said otherwise a
task gives the value it makes to the next task. -/
inductive Task where
  /-- Calls the value. -/
  | apply (args : List Value)
  /-- Ignores the value and gives this one. -/
  | answer (value : Value)
  /-- Turns the value into the text that stands for it. -/
  | text
  /-- Turns the value into a truth value. -/
  | truth
  /-- Links the bases with these dotted names to a class, then sets its fields. -/
  | linkBases (cls : ClassId) (paths : List String)
  /-- Reads these attributes from the value, one from the other. -/
  | follow (path : List String)
  /-- Takes the value as a base of a class and goes on with the bases after it. -/
  | baseFound (cls : ClassId) (paths : List String)
  /-- Reads an attribute of a class that is ready for use. -/
  | classAttribute (cls : ClassId) (name : String)
  /-- Makes an instance of a class that is ready for use. -/
  | construct (cls : ClassId) (args : List Value)
  /-- Takes the value as what the `__iter__` hook of an object led to. -/
  | iterate (subject : InstanceId) (left : Nat)
  /-- Starts to collect what the value, an iterator, visits. -/
  | collect
  /-- Ignores the value and moves the iterator on, having met `items`, latest first. -/
  | collectMove (iter : Value) (items : List Value)
  /-- Reads the item the iterator stands on if the value is true, else gives all
  items in a tuple. -/
  | collectTest (iter : Value) (items : List Value)
  /-- Adds the value to the items met and moves the iterator on. -/
  | collectItem (iter : Value) (items : List Value)
  /-- Makes the texts of all items of the value, a tuple. -/
  | showItems
  /-- Adds the value to the texts made so far, latest first, and makes the others. -/
  | showRest (texts : List String) (rest : List Value)
  /-- Makes a list of the items of the value, a tuple. -/
  | makeList
  /-- Makes an exception with the value as its message. -/
  | makeException (type : ExceptionType)
  /-- Sets the message of an instance. -/
  | setMessage (target : InstanceId)
  /-- Raises with the value as the message. -/
  | fail
  /-- Adds the items of the value, a tuple, to a list. -/
  | appendItems (receiver : Option Value)
  /-- Joins the value, a tuple of texts, with a text between them. -/
  | joinTexts (receiver : Option Value)
  /-- Prints the value, a tuple of texts. -/
  | print
  /-- Binds the value, a module, in the module of the running frame. -/
  | bindModule (name : String)
  /-- Copies attributes of the value, a module that was imported as `source`. -/
  | importNames (source : String) (names : List String)
  /-- Copies all attributes of the value, a module. -/
  | importAll
  /-- Goes on with a function of the host. -/
  | proceed (next : Value → Routine)
deriving Inhabited

/-- What becomes of the last value of an operation. -/
inductive Finish where
  /-- It is the result of the whole run. -/
  | halt
  /-- It goes on the operand stack. -/
  | push
  /-- It is dropped. -/
  | discard
  /-- It is dropped, and a class that is now ready for use is called. -/
  | construct (cls : ClassId) (args : List Value)
  /-- It is dropped, and the constructor of a base that is now ready for use is
  called on the receiver of the running frame. -/
  | constructBase (cls : ClassId) (args : List Value)
deriving Inhabited

/-- What remains of an operation. -/
structure Pending where
  tasks : List Task := []
  finish : Finish
deriving Inhabited

namespace Pending

/-- Puts a task in front. -/
def before (pending : Pending) (task : Task) : Pending :=
  { pending with tasks := task :: pending.tasks }

/-- The value goes on the operand stack. -/
def push : Pending := { finish := .push }

/-- The value is dropped. -/
def discard : Pending := { finish := .discard }

end Pending

/-- What a finished frame hands to whoever called it. -/
inductive Returns where
  /-- Its result, onto the operand stack of the caller. -/
  | value
  /-- The instance it constructed, onto the operand stack of the caller. -/
  | instance (id : InstanceId)
  /-- Nothing. -/
  | nothing
  /-- Its result, to an operation of the caller that waits for it. -/
  | resume (pending : Pending)
deriving Inhabited

/-- The frame was pushed by a nested call. -/
def Returns.isNested : Returns → Bool
  | resume _ => true
  | _ => false

/-- The activation of a method. -/
structure Frame where
  method : LoadedMethod
  receiver : Option Value
  /-- The local variables, shared with closures made by this frame. -/
  env : EnvId
  /-- The operand stack, top first. -/
  stack : List Value := []
  /-- Index of the next instruction. -/
  ip : Nat := 0
  /-- The class whose constructor this frame runs. -/
  owner : Option ClassId
  returns : Returns
deriving Inhabited

namespace Frame

/-- The next instruction, unless the body has ended. -/
def next? (f : Frame) : Option Instruction :=
  f.method.code.body[f.ip]?

/-- The position of the instruction that was last fetched. -/
def location (f : Frame) : Location :=
  ((f.method.code.body[f.ip - 1]?).map (·.loc)).getD {}

/-- The line for this frame in a trace. -/
def traceFrame (f : Frame) : TraceFrame :=
  { name := f.method.code.name, loc := f.location }

end Frame

/-- A protected region that is open. -/
structure Handler where
  /-- The number of frames when it was opened; the last of them is its owner. -/
  frameDepth : Nat
  /-- Index of the instruction where the owner goes on after an exception. -/
  target : Nat
  /-- The size of the owner's operand stack when it was opened. -/
  stackHeight : Nat
deriving Repr, DecidableEq, Inhabited

end ScriptMachine
