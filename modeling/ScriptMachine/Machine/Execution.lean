import ScriptMachine.Machine.Resume
import ScriptMachine.Operation.Arithmetic

/-!
Execution. A step either executes one instruction of the topmost frame, ends that
frame, or carries an operation on by one task; a run is a sequence of steps.
-/

namespace ScriptMachine

namespace Action

/-- A constant that must be a name. -/
def nameConstant (index : Nat) : Action String := do
  match ← constant index with
  | .str name => return name
  | other => defect (.notAName (← askHeap (·.repr other)))

/-- A binary operator; the class of the left operand may take it over. -/
def binary (op : BinaryOp) (left right : Value) : Action Unit := do
  let builtin : Action Unit := do push (← primitive (Operation.binary op left right))
  match op.overload? with
  | some name => hook left name [right] .push builtin
  | none => builtin

/-- A unary operator; the class of the operand may take it over. -/
def unary (op : UnaryOp) (v : Value) : Action Unit :=
  hook v op.overload [] .push do
    push (← consult (Operation.unary · op v))

/-- Reads an item of a container. -/
def readItem (container index : Value) : Action Unit := do
  match ← askHeap (Operation.item? · container index) with
  | some (.ok v) => push v
  | some (.error cause) => fault cause
  | none =>
      hook container "__getitem__" [index] .push
        (faultWith fun h => .notSubscriptable (h.typeName container))

/-- Sets an item of a container. -/
def writeItem (container index v : Value) : Action Unit := do
  match Operation.setItem? container index v with
  | some set => primitive set
  | none =>
      hook container "__setitem__" [index, v] .discard
        (faultWith fun h => .fixedItems (h.typeName container))

/-- Reads the receiver. -/
def readSelf : Action Unit := do
  push ((← askFrame (·.receiver) none).getD .null)

/-- Reads a global variable as code of the topmost frame sees it. -/
def readGlobal (name : String) : Action Unit := do
  let module ← askFrame (·.method.module) 0
  push (← global module name)

/-- Assigns a global variable as code of the topmost frame does. -/
def writeGlobal (name : String) (v : Value) : Action Unit := do
  let module ← askFrame (·.method.module) 0
  change (·.setGlobal module name v)

/-- Makes a list. -/
def buildList (items : List Value) : Action Unit := do
  push (← make (·.newList items.toArray))

/-- Makes a map of keys and values that come in turn. -/
def buildMap (items : List Value) : Action Unit := do
  push (← primitive (Operation.newMap items))

/-- Tells whether a value is an instance of a type. -/
def testType (v type : Value) : Action Unit := do
  push (.bool (← consult (Operation.isInstanceOf · v type)))

/-- Gives the value if it is an instance of a type, else null. -/
def castType (v type : Value) : Action Unit := do
  push (if ← consult (Operation.isInstanceOf · v type) then v else .null)

/-- Raises a value. -/
def raiseValue (v : Value) : Action Unit := do
  throw (.exception (← exceptionOf v))

/-- Reads what the topmost frame caught last. -/
def readCaught : Action Unit := do
  push (← caught)

/-- Reads a local variable. -/
def readLocal (slot : Nat) : Action Unit := do
  let found ← ask fun m =>
    match m.frames with
    | frame :: _ => (m.heap.env frame.env)[slot]?
    | [] => none
  match found with
  | some v => push v
  | none => defect (.localRange slot)

/-- Assigns a local variable, adding slots up to it if need be. -/
def writeLocal (slot : Nat) (v : Value) : Action Unit := do
  let env ← askFrame (·.env) 0
  changeHeap (·.modifyEnv env fun slots =>
    (slots ++ Array.replicate (slot + 1 - slots.size) Value.null).setIfInBounds slot v)

/-- Makes a closure of a method over the local variables of the topmost frame. -/
def captureLocals (v : Value) : Action Unit := do
  match v with
  | .method method =>
      change fun m => m.note fun _ => .closure (m.heap.method method).code.localCount
      let env ← askFrame (·.env) 0
      let receiver ← askFrame (·.receiver) none
      push (← make (·.newClosure { method, env, receiver }))
  | _ => defect .notAMethod

/-- Executes an instruction. -/
def execute (i : Instruction) : Action Unit := do
  match i.op with
  | .nop => pure ()
  | .binOp =>
      match BinaryOp.ofTag? i.arg with
      | none => defect (.binaryTag i.arg)
      | some op =>
          let right ← pop
          let left ← pop
          binary op left right
  | .unaryOp =>
      match UnaryOp.ofTag? i.arg with
      | none => defect (.unaryTag i.arg)
      | some op => unary op (← pop)
  | .pop => discard pop
  | .dup => push (← peek)
  | .dup3 =>
      let v ← peek
      push v
      push v
  | .loadConst => push (← constant i.arg)
  | .loadNull => push .null
  | .loadSelf => readSelf
  | .loadTrue => push (.bool true)
  | .loadFalse => push (.bool false)
  | .loadLocal => readLocal i.arg
  | .storeLocal => writeLocal i.arg (← pop)
  | .loadGlobal => readGlobal (← nameConstant i.arg)
  | .storeGlobal =>
      let v ← pop
      writeGlobal (← nameConstant i.arg) v
  | .loadAttribute =>
      let target ← pop
      readAttribute target (← nameConstant i.arg) .push
  | .storeAttribute =>
      let target ← pop
      let v ← pop
      writeAttribute target (← nameConstant i.arg) v
  | .loadIndex =>
      let index ← pop
      let container ← pop
      readItem container index
  | .storeIndex =>
      let index ← pop
      let container ← pop
      let v ← pop
      writeItem container index v
  | .invoke =>
      let callee ← pop
      invoke callee (← popMany i.arg)
  | .invokeSuper =>
      let base ← pop
      invokeSuper base (← popMany i.arg)
  | .ret => changeFrame fun f => { f with ip := f.method.code.body.size }
  | .jumpIfTrue => do
      let v ← pop
      if ← askHeap (·.truthy v) then jump i.arg
  | .jumpIfFalse => do
      let v ← pop
      unless ← askHeap (·.truthy v) do jump i.arg
  | .jump => jump i.arg
  | .buildList => buildList (← popMany i.arg)
  | .buildTuple => push (.tuple (← popMany i.arg))
  | .buildHash => buildMap (← popMany (i.arg * 2))
  | .buildClosure => captureLocals (← pop)
  | .getIter => iterate (← pop) maxDelegation .push
  | .iterGetNext => iterItem (← pop) .push
  | .iterMoveNext => moveIter (← pop) .push
  | .iterReset => resetIter (← pop) .discard
  | .raise => raiseValue (← pop)
  | .pushExceptionHandler => openRegion i.arg
  | .popExceptionHandler => closeRegion
  | .loadException => readCaught
  | .instanceOf =>
      let type ← pop
      let v ← pop
      testType v type
  | .dynamicCast =>
      let type ← pop
      let v ← pop
      castType v type
  | .nullCoalesce =>
      if (← peek).isNull then discard pop else jump i.arg
  | .importModule =>
      let name ← nameConstant i.arg
      loadModule name (Pending.discard.before (.bindModule (bindingName name)))
  | .importFrom =>
      let names ← pop
      let name ← nameConstant i.arg
      match names? names with
      | some items => loadModule name (Pending.discard.before (.importNames name items))
      | none => defect .notNames
  | .importAll =>
      let name ← nameConstant i.arg
      loadModule name (Pending.discard.before .importAll)

/-- The topmost frame goes on behind its next instruction, which is executed. -/
def dispatch (i : Instruction) : Action Unit := do
  change fun m =>
    match m.frames with
    | [] => m
    | frame :: _ => m.note fun _ => .instruction frame.ip i.op frame.stack.length m.calls.depth
  changeFrame fun f => { f with ip := f.ip + 1 }
  execute i

/-- Dispatches the next instruction of the topmost frame, or ends the frame. -/
def advance : Action Unit := do
  match ← askFrame (·.next?) none with
  | none => finish
  | some i => dispatch i

end Action

namespace Machine

/-- What is done next. -/
def upcoming (m : Machine) : Action Unit :=
  match m.control with
  | .running => Action.advance
  | .delivering v pending => Action.resume v pending
  | .returned _ | .uncaught _ => pure ()

/-- One step. A machine whose run has ended stays as it is. -/
def step (m : Machine) : Machine :=
  m.perform m.upcoming

/-- The run has ended. -/
def isDone (m : Machine) : Bool :=
  match m.control with
  | .returned _ | .uncaught _ => true
  | _ => false

/-- Takes steps until the run has ended, at most `fuel` of them. -/
def run : (fuel : Nat) → Machine → Machine
  | 0, m => m
  | fuel + 1, m => if m.isDone then m else run fuel m.step

theorem step_of_isDone {m : Machine} (done : m.isDone = true) : m.step = m := by
  unfold isDone at done
  unfold step upcoming
  split at done
  · next ended => rw [ended]; rfl
  · next ended => rw [ended]; rfl
  · cases done

/-- Fuel beyond the end of a run changes nothing. -/
theorem run_of_isDone {m : Machine} (done : m.isDone = true) (fuel : Nat) : run fuel m = m := by
  cases fuel with
  | zero => rfl
  | succ fuel => simp [run, done]

/-- A run can be taken in two parts. -/
theorem run_add (first second : Nat) (m : Machine) :
    run (first + second) m = run second (run first m) := by
  induction first generalizing m with
  | zero => simp [run]
  | succ first ih =>
      rw [Nat.succ_add]
      by_cases done : m.isDone = true
      · simp [run, done, run_of_isDone done]
      · simp [run, done, ih]

/-- The last step of a run. -/
theorem run_succ (fuel : Nat) (m : Machine) : run (fuel + 1) m = (run fuel m).step := by
  rw [run_add]
  by_cases done : (run fuel m).isDone = true
  · rw [run_of_isDone done, step_of_isDone done]
  · simp [run, done]

theorem run_one (m : Machine) : run 1 m = m.step :=
  run_succ 0 m

end Machine
end ScriptMachine
