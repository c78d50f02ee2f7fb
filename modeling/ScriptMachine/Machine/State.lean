import ScriptMachine.Machine.CallStack
import ScriptMachine.Operation.Primitive
import ScriptMachine.Trace.Observer

/-!
The state of the machine, and actions: computations on the state that may raise.
-/

namespace ScriptMachine

/-- Limits of a run. -/
structure Limits where
  /-- The most frames there may be at once. -/
  frames : Nat := 1000
  /-- The most nested calls there may be at once. -/
  nesting : Nat := 64
deriving Repr, DecidableEq, Inhabited

/-- Where printed text goes. -/
structure Sink where
  /-- What was printed. -/
  text : String := ""
  /-- Printed text is kept. -/
  keeps : Bool := true
  /-- How many writes succeed, if there is a limit. -/
  room : Option Nat := none
  /-- How often something was to be written. -/
  writes : Nat := 0
  /-- What the write with a number raises, if it does not succeed. A writer that goes by more
  than the number is one of these in each of its runs. -/
  refuses : Nat → Option Fault := fun number =>
    if room.any (· ≤ number) then some (.writing .ioError "output closed") else none
deriving Inhabited

namespace Sink

/-- Writes a text; tells what this raises, if it does. -/
def write (s : Sink) (text : String) : Option Fault × Sink :=
  match s.refuses s.writes with
  | some f => (some f, { s with writes := s.writes + 1 })
  | none => (none, { s with
      text := if s.keeps then s.text ++ text else s.text, writes := s.writes + 1 })

/-- Writes texts one by one until one of them raises something. -/
def writeAll (s : Sink) : List String → Option Fault × Sink
  | [] => (none, s)
  | t :: rest =>
      match s.write t with
      | (none, s) => s.writeAll rest
      | refused => refused

end Sink

/-- What the machine does next. -/
inductive Control where
  /-- Executes the next instruction of the topmost frame. -/
  | running
  /-- Goes on with an operation of the topmost frame, or of the host, with a value. -/
  | delivering (value : Value) (pending : Pending)
  /-- Nothing: the run ended with a value. -/
  | returned (value : Value)
  /-- Nothing: the run ended with an exception that nothing caught. -/
  | uncaught (id : ExceptionId)
deriving Inhabited

/-- The state of the machine. -/
structure Machine where
  heap : Heap := {}
  calls : CallStack := .empty
  /-- The open protected regions, innermost first. -/
  handlers : List Handler := []
  control : Control := .running
  /-- The exception that was caught last. -/
  current : Option ExceptionId := none
  /-- Global variables that belong to no module. -/
  globals : Bindings Value := []
  /-- Modules that were run or imported, by name. -/
  modules : Bindings ModuleId := []
  /-- Finds a module to import. -/
  loader : String → Option ModuleId := fun _ => none
  /-- What the functions of the host's own making do, given their receiver and arguments. -/
  foreign : ForeignFunction → Option Value → List Value → Routine := fun _ _ _ => .give .null
  sink : Sink := {}
  observer : Observer := .silent
  limits : Limits := {}
deriving Inhabited

namespace Machine

/-- The frames, topmost first. -/
@[inline] def frames (m : Machine) : List Frame :=
  m.calls.frames

/-- The number of nested calls that have not returned yet. -/
@[inline] def nesting (m : Machine) : Nat :=
  m.calls.nesting

/-- The frames as lines of a trace, innermost first. -/
def trace (m : Machine) : List TraceFrame :=
  m.frames.map Frame.traceFrame

/-- Tells the observer an event, which is made only if it listens. -/
@[inline] def note (m : Machine) (event : Unit → Event) : Machine :=
  if m.observer.isSilent then m
  else
    let e := event ()
    { m with observer := m.observer.note e }

end Machine

/-- What an action may raise: a fault, a defect of the code that runs, or an exception that
exists already. -/
inductive Raised where
  | fault (cause : Fault)
  | defect (cause : Defect)
  | exception (id : ExceptionId)
deriving Inhabited

/-- A computation on the machine that may raise. -/
abbrev Action := ExceptT Raised (StateM Machine)

namespace Action

variable {α : Type}

/-- Carries out a primitive on the heap of the machine. -/
@[inline] def primitive (p : Primitive α) : Action α :=
  ExceptT.mk fun m =>
    match p.run.run m.heap with
    | (.ok a, heap) => (.ok a, { m with heap })
    | (.error cause, heap) => (.error (.fault cause), { m with heap })

/-- Raises a fault. -/
@[inline] def fault (cause : Fault) : Action α :=
  throw (.fault cause)

/-- Raises a defect of the code that runs. -/
@[inline] def defect (cause : Defect) : Action α :=
  throw (.defect cause)

/-- Asks a question about the machine. -/
@[inline] def ask (question : Machine → α) : Action α :=
  modifyGet fun m => (question m, m)

/-- Asks a question about the heap. -/
@[inline] def askHeap (question : Heap → α) : Action α :=
  ask fun m => question m.heap

/-- Asks a question about the heap that may have no answer. -/
@[inline] def consult (question : Heap → Except Fault α) : Action α := do
  match ← askHeap question with
  | .ok a => return a
  | .error cause => fault cause

/-- Raises a fault that depends on the heap. -/
@[inline] def faultWith (cause : Heap → Fault) : Action α := do
  fault (← askHeap cause)

/-- Changes the machine. -/
@[inline] def change (action : Machine → Machine) : Action Unit :=
  modifyGet fun m => ((), action m)

/-- Changes the heap. -/
@[inline] def changeHeap (action : Heap → Heap) : Action Unit :=
  change fun m => { m with heap := action m.heap }

/-- Makes an object. -/
@[inline] def make (action : Heap → α × Heap) : Action α :=
  primitive (Primitive.make action)

/-- Hands a value to what remains of an operation. -/
def deliver (v : Value) (pending : Pending) : Action Unit :=
  change ({ · with control := .delivering v pending })

/-- Lets the topmost frame go on. -/
def proceed : Action Unit :=
  change ({ · with control := .running })

/-! ## The topmost frame -/

/-- Reads from the topmost frame. -/
@[inline] def askFrame (question : Frame → α) (none : α) : Action α :=
  ask fun m =>
    match m.frames with
    | frame :: _ => question frame
    | [] => none

/-- Changes the topmost frame. -/
@[inline] def changeFrame (action : Frame → Frame) : Action Unit :=
  change fun m => { m with calls := m.calls.modifyTop action }

/-- Pushes a value. -/
def push (v : Value) : Action Unit :=
  changeFrame fun f => { f with stack := v :: f.stack }

/-- Goes on at another instruction. -/
def jump (target : Nat) : Action Unit :=
  changeFrame ({ · with ip := target })

/-- The topmost value. -/
def peek : Action Value := do
  match ← askFrame (·.stack) [] with
  | v :: _ => return v
  | [] => defect .stackUnderflow

/-- Pops a value. -/
def pop : Action Value := do
  match ← askFrame (·.stack) [] with
  | v :: stack => do
      changeFrame ({ · with stack })
      return v
  | [] => defect .stackUnderflow

/-- Pops `count` values, given in the order they were pushed. -/
def popMany (count : Nat) : Action (List Value) := do
  let stack ← askFrame (·.stack) []
  if stack.length < count then defect .stackUnderflow
  changeFrame ({ · with stack := stack.drop count })
  return (stack.take count).reverse

/-- A constant of the module of the topmost frame. -/
def constant (index : Nat) : Action Value := do
  let found ← ask fun m =>
    match m.frames with
    | frame :: _ => (m.heap.module frame.method.module).constants[index]?
    | [] => none
  match found with
  | some v => return v
  | none => defect (.constantRange index)

end Action
end ScriptMachine
