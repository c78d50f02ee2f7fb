import ScriptMachine.Machine.Execution

/-!
Dispatch loops. A nested call is carried out by a loop of its own on the stack of the host: the
operation that waits for the value starts the loop, and the loop runs the new frame and whatever
that frame calls. Only the innermost loop is at work; operations and loops further out wait for it.

An exception that drops frames does not stop any loop. Each finds out for itself, before it
dispatches anything, that its entry frame is gone, and returns without a value. The operation that
waits for it is then given up task by task, and the loop further out looks in turn whether its own
entry frame is there. An exception without an open region is kept meanwhile, until the outermost
loop has returned.

The steps here are smaller than those of a machine by itself, which does at once what takes the
loops several steps.
-/

namespace ScriptMachine

/-- Why an operation is given up. -/
inductive RunError where
  /-- An exception, which no loop has raised yet. -/
  | exception (id : ExceptionId)
  /-- An exception has dropped the frames of the call. -/
  | unwound
deriving Inhabited

/-- A dispatch loop that runs. -/
structure DispatchLoop where
  /-- How many frames there were when the loop started. The last of them is its entry frame. -/
  base : Nat
  /-- The operation that waits for the value of the loop. -/
  pending : Pending

/-- A machine and the dispatch loops that drive it. -/
structure Dispatcher where
  machine : Machine
  /-- The loops, innermost first. -/
  loops : List DispatchLoop := []
  /-- The error that is on its way out, and the part of an operation that it has to pass next. -/
  failure : Option (RunError × Pending) := none
  /-- The exception that found no open region. -/
  uncaught : Option ExceptionId := none

/-- What a frame that has ended gives to the frame that called it. -/
def Returns.result? (returns : Returns) (v : Value) : Option Value :=
  match returns with
  | .value | .resume _ => some v
  | .instance id => some (.instance id)
  | .nothing => none

namespace Machine

/-- The loop for a nested call that was entered since `nesting` of them were counted. -/
def entered (m : Machine) (nesting : Nat) : List DispatchLoop :=
  match m.frames.head?.map Frame.returns with
  | some (.resume pending) =>
      if nesting < m.nesting then [{ base := m.calls.depth, pending }] else []
  | _ => []

/-- Drops the topmost frame and the regions that it left open. -/
def dropFrame (m : Machine) : Machine :=
  let calls := m.calls.dropTop
  let handlers := m.handlers.dropWhile (calls.depth < ·.frameDepth)
  { m with calls, handlers }.note fun _ => .ret calls.depth

/-- Gives the topmost frame a value. -/
def give (m : Machine) (v : Value) : Machine :=
  { m with calls := m.calls.modifyTop fun f => { f with stack := v :: f.stack } }

end Machine

namespace Dispatcher

/-! ## What loops do -/

/-- Carries out an action. A nested call that it enters starts a loop. What it raises leaves the
operation it belongs to, of which `rest` is what remains. -/
def attempt (d : Dispatcher) (a : Action Unit) (rest : Pending) : Dispatcher :=
  let ⟨m, loops, _, uncaught⟩ := d
  let nesting := m.nesting
  match a.run.run m with
  | (.ok (), m) => { machine := m, loops := m.entered nesting ++ loops, uncaught }
  | (.error e, m) =>
      let (id, m) := e.resolve m
      { machine := m, loops, failure := some (.exception id, rest), uncaught }

/-- The innermost loop returns to the operation that waits for it. -/
def leave (d : Dispatcher) (result : Except RunError Value) : Dispatcher :=
  match d with
  | ⟨m, loop :: loops, _, uncaught⟩ =>
      let m := { m with calls := m.calls.leave }
      match result with
      | .ok v => { machine := { m with control := .delivering v loop.pending }, loops, uncaught }
      | .error e => { machine := m, loops, failure := some (e, loop.pending), uncaught }
  | d => d

/-- The topmost frame ends. If it is the entry frame of the loop, so does the loop. -/
def finish (d : Dispatcher) (base : Nat) (frame : Frame) : Dispatcher :=
  let result := frame.returns.result? (frame.stack.headD .null)
  let d := { d with machine := d.machine.dropFrame }
  if d.machine.calls.depth < base then d.leave (.ok (result.getD .null))
  else
    match result with
    | some v => { d with machine := d.machine.give v }
    | none => d

/-- A round of the innermost loop. -/
def dispatch (d : Dispatcher) : Dispatcher :=
  match d.loops with
  | [] => d
  | loop :: _ =>
      if d.machine.calls.depth < loop.base then d.leave (.error .unwound)
      else
        match d.machine.frames with
        | [] => d.leave (.error .unwound)
        | frame :: _ =>
            match frame.next? with
            | none => d.finish loop.base frame
            | some i => d.attempt (Action.dispatch i) .discard

/-! ## Errors -/

/-- An exception has left an instruction. It goes to the innermost open region: the frames above
the owner of the region are dropped, and the owner goes on at the target. Without an open region
all frames are dropped, and the exception is kept. -/
def raise (d : Dispatcher) (id : ExceptionId) : Dispatcher :=
  let ⟨m, loops, _, uncaught⟩ := d
  let m := m.announced id
  match m.handlers with
  | [] =>
      { machine := { m with calls := m.calls.truncate 0, control := .running }
        loops
        uncaught := some id }
  | handler :: handlers =>
      { machine := { m with
          calls := (m.calls.truncate handler.frameDepth).modifyTop (·.recover handler)
          handlers
          current := some id
          control := .running }
        loops
        uncaught }

/-- An error has left the call of the host. -/
def fail (d : Dispatcher) (e : RunError) : Dispatcher :=
  let ⟨m, loops, _, uncaught⟩ := d
  let (id, m) :=
    match e, uncaught with
    | .exception id, _ => (id, m.tell id false)
    | .unwound, some id => (id, m)
    | .unwound, none =>
        let (id, heap) := m.heap.newException
          { type := .runtimeError, message := "execution unwound without an exception" }
        (id, { m with heap })
  { machine := { m with
      calls := m.calls.truncate 0
      handlers := []
      current := none
      control := .uncaught id }
    loops }

/-- An error leaves the next task of an operation, which does nothing any more. Behind the last
task it comes to the instruction that began the operation, or to the host. -/
def passOn (d : Dispatcher) (e : RunError) (rest : Pending) : Dispatcher :=
  match rest.tasks, rest.finish, e with
  | _ :: tasks, _, e => { d with failure := some (e, { rest with tasks }) }
  | [], .halt, e => d.fail e
  | [], _, .exception id => d.raise id
  | [], _, .unwound => { d with failure := none }

/-! ## Runs -/

/-- One step. -/
def step (d : Dispatcher) : Dispatcher :=
  match d.failure with
  | some (e, rest) => d.passOn e rest
  | none =>
      match d.machine.control with
      | .running => d.dispatch
      | .delivering v pending =>
          d.attempt (Action.resume v pending) { pending with tasks := pending.tasks.tail }
      | .returned _ | .uncaught _ => d

/-- The run has ended. -/
def isDone (d : Dispatcher) : Bool :=
  d.failure.isNone && d.machine.isDone

/-- Begins a run with an action, on which the host waits. -/
def start (m : Machine) (a : Action Unit) : Dispatcher :=
  attempt { machine := m } a { finish := .halt }

/-- Takes steps until the run has ended, at most `fuel` of them. -/
def run : (fuel : Nat) → Dispatcher → Dispatcher
  | 0, d => d
  | fuel + 1, d => if d.isDone then d else run fuel d.step

theorem step_of_isDone {d : Dispatcher} (done : d.isDone = true) : d.step = d := by
  obtain ⟨quiet, ended⟩ := Bool.and_eq_true_iff.1 done
  have none : d.failure = none := Option.isNone_iff_eq_none.1 quiet
  unfold Machine.isDone at ended
  unfold step
  rw [none]
  dsimp only
  split at ended
  · next control => rw [control]
  · next control => rw [control]
  · cases ended

/-- Fuel beyond the end of a run changes nothing. -/
theorem run_of_isDone {d : Dispatcher} (done : d.isDone = true) (fuel : Nat) : run fuel d = d := by
  cases fuel with
  | zero => rfl
  | succ fuel => simp [run, done]

/-- A run can be taken in two parts. -/
theorem run_add (first second : Nat) (d : Dispatcher) :
    run (first + second) d = run second (run first d) := by
  induction first generalizing d with
  | zero => simp [run]
  | succ first ih =>
      rw [Nat.succ_add]
      by_cases done : d.isDone = true
      · simp [run, done, run_of_isDone done]
      · simp [run, done, ih]

/-- The last step of a run. -/
theorem run_succ (fuel : Nat) (d : Dispatcher) : run (fuel + 1) d = (run fuel d).step := by
  rw [run_add]
  by_cases done : (run fuel d).isDone = true
  · rw [run_of_isDone done, step_of_isDone done]
  · simp [run, done]

end Dispatcher
end ScriptMachine
