import ScriptMachine.Proofs.Host.ControlState
import ScriptMachine.Proofs.Machine.Delivery

/-!
Exceptions in the runs of a host. An exception that is raised anywhere, however many calls are
nested, goes to the region that was opened last and is still open: the next instruction is the
first of its handler, in the frame that opened it, with the operands that were there then.
Without an open region nothing is executed any more, and the call ends with that exception.
-/

namespace ScriptMachine

/-- The handler of a region that is opened starts with an instruction. -/
theorem Machine.Opens.handler_next {m : Machine} {h : Handler} {hs : List Handler} {g : Frame}
    {rest : List Frame} (opens : m.Opens h hs g rest) (live : m.Live) :
    ∃ i, Frame.next? { g with ip := h.target } = some i := by
  obtain ⟨i, next, is, target⟩ := opens.next
  obtain ⟨f, others, l, below, top, stands, _, _⟩ := live.standing opens.running
  obtain ⟨rfl, rfl⟩ := List.cons.inj (opens.frames.symm.trans top)
  rcases stands with atEnd | ready
  · cases atEnd.symm.trans next
  obtain ⟨pool, sketch, runs, _⟩ := ready.runs
  have inside : h.target < g.method.code.body.size := by
    rw [← target]
    exact runs.admits.charted.handlers g.ip i next is
  exact ⟨_, Array.getElem?_eq_getElem inside⟩

namespace Machine.AtRest

variable {m : Machine}

/-- A call starts without regions. -/
theorem call_handlers (rest : m.AtRest) (c : HostCall) : (c.after m 0).handlers = [] := by
  have ready := rest.prepared c
  have moves := rest.call_moves c
  have none {f : Frame} {others : List Frame} (top : (c.machine m).frames = f :: others) : False :=
    List.cons_ne_nil f others (top.symm.trans ready.frames)
  change ((c.machine m).perform (c.action m)).handlers = []
  generalize done : (c.action m).result (c.machine m) = result at moves
  cases moves with
  | raises _ handlers => exact (perform_uncaught done (handlers.trans ready.handlers)).2.1
  | fills _ _ _ handlers => exact (congrArg _ (perform_of_ok done)).trans (handlers.trans ready.handlers)
  | calls _ _ _ _ handlers => exact (congrArg _ (perform_of_ok done)).trans (handlers.trans ready.handlers)
  | opens _ top => exact (none top).elim
  | closes top => exact (none top).elim
  | ends _ _ top => exact (none top).elim

/-- The run of a call remembers where its regions were opened. -/
theorem remembers (rest : m.AtRest) (c : HostCall) (steps : Nat) :
    Remembers (c.after m) steps (c.after m steps).frames (c.after m steps).handlers := by
  induction steps with
  | zero =>
      rw [rest.call_handlers c]
      exact .none _ _
  | succ steps ih => exact (rest.after_live c steps).moves.remembers (c.after_succ m steps) ih

end Machine.AtRest

/-! ## What becomes of an exception -/

namespace Dispatcher

variable {m : Machine} {a : Action Unit} {d : Dispatcher} {id : ExceptionId} {rest : Pending}

/-- An exception that is on its way was raised by the action that is being carried out. -/
theorem Bound.raised (bound : Bound m a d) (failing : d.failure = some (.exception id, rest)) :
    ∃ e n, a.result m = (.error e, n) ∧ id = (e.resolve n).1 ∧
      Rooted (rest :: waiting (entries n.links)) ∧ n.Counted ∧ n.nesting ≤ n.limits.nesting ∧
      (entries n.links = [] → n.frames = [] ∧ n.handlers = []) ∧
      d = { (e.resolve n).2.driven with failure := some (.exception (e.resolve n).1, rest) } := by
  cases bound with
  | arrived => cases failing
  | @failing n e rest' failed rooted counted room bottom =>
      obtain ⟨same, rfl⟩ := Prod.mk.inj (Option.some.inj failing)
      obtain rfl := RunError.exception.inj same
      exact ⟨e, n, failed, rfl, rooted, counted, room, bottom, rfl⟩
  | unwinding _ unwinding =>
      rcases unwinding.failure with ⟨quiet, _⟩ | ⟨_, passing⟩
      · cases quiet.symm.trans failing
      · cases passing.symm.trans failing

/-- The dispatcher is about to open a region, in frame `g` on top of `below`, inside regions
`hs`. -/
structure Opens (d : Dispatcher) (h : Handler) (hs : List Handler) (g : Frame)
    (below : List Frame) : Prop where
  machine : d.machine.Opens h hs g below
  dispatches : ∃ i, d.dispatches? = some i ∧ i.op = .pushExceptionHandler ∧ i.arg = h.target

theorem opens_driven (live : m.Live) {h : Handler} {hs : List Handler} {g : Frame}
    {below : List Frame} (opens : m.Opens h hs g below) : m.driven.Opens h hs g below := by
  obtain ⟨i, next, is, target⟩ := opens.next
  refine ⟨opens, i, ?_, is, target⟩
  rw [dispatches?_driven live opens.running opens.frames, next]

end Dispatcher

namespace HostCall

variable {c : HostCall} {m : Machine} {steps more : Nat} {id : ExceptionId}

/-- The exception that is on its way after `steps` steps has been caught `more` steps later: by the
region that was opened last and is still open. The frame that opened it is on top, with the
operands it had then, and what is dispatched next is the first instruction of the handler. -/
structure Caught (c : HostCall) (m : Machine) (steps more : Nat) (id : ExceptionId) (h : Handler)
    (hs : List Handler) : Prop where
  frames : ∃ s < steps, ∃ g below, (c.dispatched m s).Opens h hs g below ∧
    (c.dispatched m (steps + more)).machine.frames = { g with ip := h.target } :: below
  handlers : (c.dispatched m (steps + more)).machine.handlers = hs
  current : (c.dispatched m (steps + more)).machine.current = some id
  dispatches : ∃ f below i, (c.dispatched m (steps + more)).machine.frames = f :: below ∧
    f.method.code.body[h.target]? = some i ∧
    (c.dispatched m (steps + more)).dispatches? = some i

/-- The call has ended with the exception. -/
structure Escaped (c : HostCall) (m : Machine) (steps : Nat) (id : ExceptionId) : Prop where
  control : (c.dispatched m steps).machine.control = .uncaught id
  frames : (c.dispatched m steps).machine.frames = []
  done : (c.dispatched m steps).isDone = true
  silent : (c.dispatched m steps).dispatches? = none

end HostCall

namespace Machine.Vacant

variable {m : Machine} {c : HostCall} {steps more count : Nat} {e : Raised} {n : Machine}

/-- An open region catches what is raised at a turn. The dispatcher has been through the step
that opened it. -/
theorem caught (vacant : m.Vacant) (passed : ∀ j < count, ∃ s < steps,
      c.dispatched m s = (c.after m j).driven)
    (raised : ((c.machine m).turn (c.action m) count).2.result
      ((c.machine m).turn (c.action m) count).1 = (.error e, n))
    (there : c.dispatched m (steps + more) = (c.after m count).driven) {h : Handler}
    {hs : List Handler} (opened : n.handlers = h :: hs) :
    c.Caught m steps more (e.resolve n).1 h hs := by
  have moves := ((vacant.ready c).turn count).moves
  rw [raised] at moves
  obtain ⟨spent, kept⟩ := moves.raised
  cases count with
  | zero => cases opened.symm.trans (kept.trans (vacant.prepared c).handlers)
  | succ k =>
      have raised : (c.after m k).upcoming.result (c.after m k) = (.error e, n) := raised
      have kept : n.handlers = (c.after m k).handlers := kept
      have spent : Spent (c.after m k).handlers (c.after m k).frames n.frames := spent
      obtain ⟨frames, handlers, control, current⟩ := Machine.perform_caught raised opened
      have live := vacant.after_live c (k + 1)
      rw [c.after_succ] at live there
      have remembers := vacant.remembers c k
      rw [← kept, opened] at remembers
      cases remembers with
      | @region _ j _ _ _ g below earlier opens continues _ =>
          have member : h ∈ (c.after m k).handlers := by
            rw [← kept, opened]
            exact List.mem_cons_self
          have still := continues.spent spent member opens.depth opens.height
          have after : (c.after m k).step.frames = { g with ip := h.target } :: below :=
            frames.trans (still.unwound opens.depth opens.height)
          obtain ⟨i, next⟩ := opens.handler_next (vacant.after_live c j)
          obtain ⟨s, before, opening⟩ := passed j (Nat.lt_succ_of_lt earlier)
          refine ⟨⟨s, before, g, below, ?_, ?_⟩, ?_, ?_, { g with ip := h.target }, below, i, ?_,
            next, ?_⟩
          · rw [opening]
            exact Dispatcher.opens_driven (vacant.after_live c j) opens
          · rw [there]
            exact after
          · rw [there]
            exact handlers
          · rw [there]
            exact current
          · rw [there]
            exact after
          · rw [there, Dispatcher.dispatches?_driven live control after, next]

end Machine.Vacant

namespace HostCall

variable {c : HostCall} {m n : Machine} {steps more count : Nat} {e : Raised}

/-- Without an open region the call ends with what is raised at a turn. -/
theorem escaped (raised : ((c.machine m).turn (c.action m) count).2.result
      ((c.machine m).turn (c.action m) count).1 = (.error e, n))
    (there : c.dispatched m (steps + more) = (c.after m count).driven) (closed : n.handlers = [])
    (later : Nat) : c.Escaped m (steps + more + later) (e.resolve n).1 := by
  obtain ⟨frames, _, control⟩ := Machine.perform_uncaught raised closed
  rw [Machine.turn_perform] at frames control
  change (c.after m count).frames = [] at frames
  change (c.after m count).control = _ at control
  have done : (c.after m count).driven.isDone = true := by
    change (c.after m count).isDone = true
    rw [Machine.isDone, control]
  have stays : c.dispatched m (steps + more + later) = (c.after m count).driven := by
    rw [c.dispatched_add, there, Dispatcher.run_of_isDone done]
  refine ⟨?_, ?_, ?_, ?_⟩ <;> rw [stays]
  · exact control
  · exact frames
  · exact done
  · unfold Dispatcher.dispatches?
    dsimp only [Machine.driven]
    rw [control]

end HostCall

namespace Engine

/-- What becomes of an exception that is on its way out of an operation at some step of a call,
however many dispatch loops there are, `rest` being what is left of the operation.

Until it is delivered nothing is dispatched. It leaves the operation task by task, while the frames
are as they were. Then they are at once those that it is delivered to, while the loops whose entry
frames are gone return: no frame that is gone does anything, and none that is left gets a value.

If a region is open, the exception is delivered to the one that was opened last. If none is open,
nothing is dispatched any more, and the call ends with this exception. -/
theorem Hosted.delivers {e : Engine} (hosted : e.Hosted) (c : HostCall) {steps : Nat}
    {id : ExceptionId} {rest : Pending}
    (failing : (c.dispatched e.machine steps).failure = some (.exception id, rest)) :
    ∃ more, rest.tasks.length < more ∧
      (∀ j < more, (c.dispatched e.machine (steps + j)).dispatches? = none ∧
        (c.dispatched e.machine (steps + j)).machine.frames
          = if j ≤ rest.tasks.length then (c.dispatched e.machine steps).machine.frames
            else (c.dispatched e.machine (steps + more)).machine.frames) ∧
      (∀ h hs, (c.dispatched e.machine steps).machine.handlers = h :: hs →
        c.Caught e.machine steps more id h hs) ∧
      ((c.dispatched e.machine steps).machine.handlers = [] →
        ∀ later, c.Escaped e.machine (steps + more + later) id) := by
  have vacant := hosted.vacant
  have ready := vacant.ready c
  obtain ⟨count, _, on, passed⟩ := vacant.on c steps
  obtain ⟨r, n, raised, rfl, rooted, counted, room, bottom, state⟩ :=
    Dispatcher.Bound.raised on failing
  obtain ⟨more, after, arrived, meanwhile⟩ :=
    Dispatcher.failing_arrives (ready.turn count) raised rooted counted room bottom state
  rw [Machine.turn_perform] at arrived meanwhile
  have there : c.dispatched e.machine (steps + more) = (c.after e.machine count).driven := by
    rw [c.dispatched_add]
    exact arrived
  have handlers : (c.dispatched e.machine steps).machine.handlers = n.handlers := by
    rw [state]
    exact (r.keeps_resolve n).handlers
  refine ⟨more, after, fun j few => ?_, fun h hs opened => ?_, fun closed => ?_⟩
  · rw [c.dispatched_add, there]
    exact meanwhile j few
  · exact vacant.caught passed raised there (handlers.symm.trans opened)
  · exact HostCall.escaped raised there (handlers.symm.trans closed)

end Engine

/-- A class whose operator raises, used in a loop inside a region. -/
def raisingOperator : List Stmt :=
  [.classDef {} (.mk {} "Money" [] none
      [.function {} (.mk { name := "__add__", params := ["other"] } [.raise {} (.self {})])]),
    .function {} (.mk { name := "total", params := ["items"] }
      [.foreach {} "item" (.name {} "items")
        (.tryExcept {}
          (.expr {} (.binary {} .add (.int {} 1)
            (.binary {} .add (.call {} (.name {} "Money") [] []) (.name {} "item"))))
          (some "e") [] (.ret {} (some (.int {} 7))))])]

theorem compile_raisingOperator :
    compile "m" "m" raisingOperator = .ok (compiledUnit raisingOperator) :=
  compile_compiledUnit (by decide +kernel)

/-- The exception that the next step raises by its number. -/
def Machine.raises? (m : Machine) : Option ExceptionId :=
  match (m.upcoming.result m).1 with
  | .error (.exception id) => some id
  | _ => none

theorem Machine.eq_of_raises? {m : Machine} {id : ExceptionId} (raises : m.raises? = some id) :
    ∃ n, m.upcoming.result m = (.error (.exception id), n) := by
  unfold raises? at raises
  split at raises
  · next raised =>
    cases raises
    exact ⟨_, Prod.ext raised rfl⟩
  · cases raises

/-- The exception that is on its way. -/
def Dispatcher.failing? (d : Dispatcher) : Option ExceptionId :=
  match d.failure with
  | some (.exception id, _) => some id
  | _ => none

theorem Dispatcher.failure_of_failing? {d : Dispatcher} {id : ExceptionId}
    (failing : d.failing? = some id) : ∃ rest, d.failure = some (.exception id, rest) := by
  unfold failing? at failing
  split at failing
  · next found =>
    cases failing
    exact ⟨_, found⟩
  · cases failing

/-- The loop over one item. -/
def raisingCall : HostCall :=
  .value (.method 2) [.tuple [.int 5]]

def raisingEngine : Engine :=
  Engine.loaded (compiledUnit raisingOperator)

/-- Where the operator has raised. -/
theorem raisingCall_state : let d := raisingCall.dispatched raisingEngine.machine 26
    d.failing? = some 0 ∧ d.machine.handlers = [⟨1, 20, 1⟩] ∧ d.loops.map (·.base) = [2, 1] ∧
      d.machine.frames.map (·.stack.length) = [0, 2] := by
  decide +kernel

/-- The operator runs in a dispatch loop of its own when it raises, and the frame that uses it
still holds the iterator and an operand of the sum. Only the iterator is left at the handler. -/
theorem delivers_raisingOperator :
    let d := raisingCall.dispatched raisingEngine.machine
    raisingEngine.Hosted ∧ (∃ rest, (d 26).failure = some (.exception 0, rest)) ∧
      (d 26).loops.map (·.base) = [2, 1] ∧
      (d 26).machine.frames.map (·.stack.length) = [0, 2] ∧
      ∃ more, raisingCall.Caught raisingEngine.machine 26 more 0 ⟨1, 20, 1⟩ [] := by
  have hosted : raisingEngine.Hosted := Engine.hosted_loaded compile_raisingOperator
  obtain ⟨raised, opened, loops, heights⟩ := raisingCall_state
  obtain ⟨rest, failing⟩ := Dispatcher.failure_of_failing? raised
  obtain ⟨more, _, _, caught, _⟩ := hosted.delivers raisingCall failing
  exact ⟨hosted, ⟨rest, failing⟩, loops, heights, more, caught ⟨1, 20, 1⟩ [] opened⟩

end ScriptMachine
