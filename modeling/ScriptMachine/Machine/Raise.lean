import ScriptMachine.Machine.State
import ScriptMachine.Operation.Conversion

/-!
Raising. An exception goes to the innermost open protected region: every frame
above the owner of the region is dropped, whatever operations waited for them, and
the owner goes on at the region's target with its operand stack cut back. Without
an open region the run ends.
-/

namespace ScriptMachine

namespace Frame

/-- Cuts the operand stack back and goes on at the target of a region. -/
def recover (f : Frame) (handler : Handler) : Frame :=
  { f with stack := f.stack.drop (f.stack.length - handler.stackHeight), ip := handler.target }

end Frame

/-- The exception that is raised, and the machine that has made it if there was none. -/
def Raised.resolve (m : Machine) : Raised → ExceptionId × Machine
  | .fault cause =>
      let (id, heap) := m.heap.newException { type := cause.type, message := cause.message }
      (id, { m with heap })
  | .defect cause =>
      let (id, heap) := m.heap.newException { type := .runtimeError, message := cause.message }
      (id, { m with heap })
  | .exception id => (id, m)

namespace Machine

/-- Tells the observer of an exception and whether a region is open for it. The trace of the
exception is taken the first time. -/
def tell (m : Machine) (id : ExceptionId) (caught : Bool) : Machine :=
  let trace := m.trace
  let traced := { m with heap := m.heap.setTrace id trace }
  traced.note fun _ => .raise (traced.heap.exception id).type caught

/-- The machine that has told of an exception which it raises. -/
def announced (m : Machine) (id : ExceptionId) : Machine :=
  m.tell id (!m.handlers.isEmpty)

/-- The frames up to the owner of a region, which goes on at its target. -/
def unwind (calls : CallStack) (handler : Handler) : CallStack :=
  (calls.cutTo handler.frameDepth).modifyTop (·.recover handler)

/-- Raises an exception. -/
def raise (m : Machine) (id : ExceptionId) : Machine :=
  let m := m.announced id
  match m.handlers with
  | [] => { m with calls := .empty, current := none, control := .uncaught id }
  | handler :: handlers =>
      { m with
        calls := unwind m.calls handler
        handlers
        current := some id
        control := .running }

/-- Carries out an action and raises what it raises. -/
def perform (m : Machine) (action : Action Unit) : Machine :=
  match action.run.run m with
  | (.ok (), m) => m
  | (.error e, m) =>
      let (id, m) := e.resolve m
      m.raise id

end Machine

namespace Action

/-- The exception that raising a value raises. An instance is wrapped in a new
exception, unless it is the one whose exception was caught last. -/
def exceptionOf (v : Value) : Action ExceptionId := do
  match v with
  | .exception id => return id
  | .exceptionType type => make (·.newException { type, message := "" })
  | .instance id =>
      let known ← ask fun m =>
        m.current.filter fun e => (m.heap.exception e).payload == some id
      match known with
      | some e => return e
      | none => make fun h => h.newException (wrapped h id)
  | other => faultWith fun h => .notRaisable (h.typeName other)
where
  /-- The exception that an instance is raised as. -/
  wrapped (h : Heap) (id : InstanceId) : ExceptionObject :=
    { type := Operation.exceptionTypeOf h (h.inst id).cls
      message := (((h.inst id).attributes.get? "message").map h.display).getD ""
      payload := some id }

/-- The value a handler sees: the raised instance, or the exception itself. -/
def caught : Action Value :=
  ask fun m =>
    match m.current with
    | none => .null
    | some e =>
        match (m.heap.exception e).payload with
        | some id => .instance id
        | none => .exception e

/-- Opens a protected region in the topmost frame. -/
def openRegion (target : Nat) : Action Unit :=
  change fun m =>
    let stackHeight := (m.frames.head?.map (·.stack.length)).getD 0
    let m := { m with
      handlers := { frameDepth := m.calls.depth, target, stackHeight } :: m.handlers }
    m.note fun _ => .enterRegion m.handlers.length

/-- Closes the innermost protected region. -/
def closeRegion : Action Unit :=
  change fun m =>
    let m := { m with handlers := m.handlers.tail }
    m.note fun _ => .leaveRegion m.handlers.length

end Action
end ScriptMachine
