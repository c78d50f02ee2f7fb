import ScriptMachine.Proofs.Host.History
import ScriptMachine.Proofs.Host.Reraising
import ScriptMachine.Proofs.Machine.Suspension

/-!
Traces. The trace of an exception is taken when it is raised for the first time in a frame. It has a
line for every frame that is live then, innermost first: the name of its method, and the position of
the instruction that the frame dispatched last. This is the instruction that raises, or that the
frame is suspended on, whatever called whom and through which operations. Nothing changes the trace
after that: neither raising the exception again nor unwinding frames nor any later call of the host.

An exception that is raised while no frame is live gets an empty trace, and an empty trace counts as
none: the next time it is raised it gets another one. `trace_retaken` shows this for a function of a
host that is called by the host itself. It also shows that an instance which is raised again may be
wrapped in a new exception, which has a trace of its own.

A host has no means to touch traces. What it does between calls and what its functions do is asked
to leave them as they are.
-/

namespace ScriptMachine

open ScriptMachine.Action

/-! ## Traces on the heap -/

/-- All exceptions have the traces they had, and new ones have none. -/
def Heap.KeepsTraces (h h' : Heap) : Prop :=
  ∀ id, (h'.exception id).trace = (h.exception id).trace

theorem Heap.KeepsTraces.refl (h : Heap) : h.KeepsTraces h :=
  fun _ => rfl

theorem Heap.keepsTraces_newException (h : Heap) (e : ExceptionObject) (untraced : e.trace = []) :
    h.KeepsTraces (h.newException e).2 := by
  intro id
  simp only [newException, exception, Array.getD_eq_getD_getElem?, Array.getElem?_push]
  split
  · next last =>
      rw [last, Array.getElem?_eq_none (Nat.le_refl _)]
      exact untraced
  · rfl

instance : Lasting Heap.KeepsTraces where
  of_makes makes := by
    cases makes with
    | same same =>
        intro id
        rw [Heap.exception, Heap.exception, same]
    | one e untraced => exact Heap.keepsTraces_newException _ e untraced
  trans first second id := (second id).trans (first id)

namespace Machine

variable {m : Machine} {id : ExceptionId}

/-- Raising an exception gives it the trace of the machine if it has none, and that is all. -/
theorem trace_raise_or (m : Machine) (id other : ExceptionId) :
    ((m.raise id).heap.exception other).trace = (m.heap.exception other).trace ∨
      other = id ∧ (m.heap.exception other).trace = [] ∧
        ((m.raise id).heap.exception other).trace = m.trace := by
  rw [heap_raise]
  simp only [Heap.exception, Heap.setTrace, Array.getD_eq_getD_getElem?, Array.getElem?_modify]
  by_cases same : id = other
  · rw [if_pos same]
    cases found : m.heap.exceptions[other]? with
    | none => exact .inl rfl
    | some e =>
        simp only [Option.map_some, Option.getD_some]
        split
        · next empty => exact .inr ⟨same.symm, List.isEmpty_iff.1 empty, rfl⟩
        · exact .inl rfl
  · rw [if_neg same]
    exact .inl rfl

end Machine

/-! ## Moves that raise -/

/-- In this move an exception is raised, and this is the machine when it is: every frame that is
live is still there. -/
inductive Move.Raises : Move → Machine → ExceptionId → Prop where
  | call {m n : Machine} {r : Raised} (c : HostCall) : m.frames = [] →
      (c.action m).result (c.machine m) = (.error r, n) →
      Raises ⟨c.machine m, (c.machine m).perform (c.action m)⟩ (r.resolve n).2 (r.resolve n).1
  | step {m n : Machine} {r : Raised} : m.isIdle = false → m.upcoming.result m = (.error r, n) →
      Raises ⟨m, m.step⟩ (r.resolve n).2 (r.resolve n).1

/-- The instruction that a move dispatches with so many frames below, and the frame that fetches
it. -/
def Move.dispatched? (move : Move) (depth : Nat) : Option (Frame × Instruction) :=
  if move.before.frames.length = depth + 1 then move.before.fetch? else none

/-- The instruction that was dispatched last with so many frames below. -/
def lastDispatched (moves : List Move) (depth : Nat) : Option (Frame × Instruction) :=
  moves.findSome? (·.dispatched? depth)

/-- The host leaves traces alone: it begins without any, and keeps those it finds after each move
until the next one, whose functions keep them as well. -/
inductive Aloof : List Move → Heap → Prop where
  | none {h : Heap} : (∀ id, (h.exception id).trace = []) → Aloof [] h
  | since {move : Move} {earlier : List Move} {h : Heap} : move.after.heap.KeepsTraces h →
      move.before.Hosts (Routine.Leaves Heap.KeepsTraces) → Aloof earlier move.before.heap →
      Aloof (move :: earlier) h

/-- What the host has left alone up to now it had left alone before any move. -/
theorem Aloof.split {later earlier : List Move} {move : Move} {h : Heap}
    (aloof : Aloof (later ++ move :: earlier) h) :
    move.before.Hosts (Routine.Leaves Heap.KeepsTraces) ∧ Aloof earlier move.before.heap := by
  induction later generalizing h with
  | nil =>
      obtain _ | ⟨_, fine, before⟩ := aloof
      exact ⟨fine, before⟩
  | cons last others ih =>
      obtain _ | ⟨_, _, before⟩ := aloof
      exact ih before

namespace Move.Raises

variable {move : Move} {n : Machine} {id : ExceptionId}

theorem after (raises : move.Raises n id) : move.after = n.raise id := by
  cases raises with
  | call c _ failed | step _ failed => exact Machine.perform_of_error failed

theorem size_after (raises : move.Raises n id) :
    move.after.heap.exceptions.size = n.heap.exceptions.size := by
  rw [raises.after, Machine.heap_raise, Heap.setTrace, Array.size_modify]

/-- While a run is under way it is what the next step raises. -/
theorem raisedNext? (raises : move.Raises n id) (busy : move.before.isIdle = false) :
    move.before.raisedNext? = some id := by
  cases raises with
  | @call m n r c idle _ =>
      rw [Machine.isIdle, c.running m, c.frames_machine m, idle] at busy
      cases busy
  | step _ failed => exact Machine.raisedNext?_eq_some.2 ⟨_, _, failed, rfl⟩

/-- Until the exception is raised traces are kept. -/
theorem keepsTraces (raises : move.Raises n id)
    (fine : move.before.Hosts (Routine.Leaves Heap.KeepsTraces)) :
    move.before.heap.KeepsTraces n.heap := by
  cases raises with
  | call c _ failed =>
      obtain ⟨_, kept⟩ := c.action_respects _ _ fine
      rw [failed] at kept
      exact Lasting.trans kept (Machine.stays_resolve _ _)
  | step _ failed =>
      obtain ⟨_, kept⟩ := fine.upcoming
      rw [failed] at kept
      exact Lasting.trans kept (Machine.stays_resolve _ _)

end Move.Raises

namespace History

/-! ## Frames -/

variable {moves later earlier : List Move} {move : Move} {m n : Machine} {a : Action Unit}
  {id : ExceptionId}

/-- The move that a machine makes next, and the action it carries out. -/
inductive Next (m : Machine) : Move → Action Unit → Prop where
  | call (c : HostCall) : m.isIdle = true →
      Next m ⟨c.machine m, (c.machine m).perform (c.action m)⟩ (c.action m)
  | step : m.isIdle = false → Next m ⟨m, m.step⟩ m.upcoming

/-- Every move of a history is the next one of a machine that has come so far. -/
theorem next (later : List Move) (past : History (later ++ move :: earlier) m) :
    ∃ n a, History earlier n ∧ Next n move a := by
  generalize whole : later ++ move :: earlier = moves at past
  induction past generalizing later with
  | new => cases List.append_ne_nil_of_right_ne_nil _ (List.cons_ne_nil _ _) whole
  | load _ _ _ ih | loadNatives _ _ _ _ ih | adjust _ _ _ _ _ _ _ ih => exact ih _ whole
  | call c before idle ih =>
      cases later with
      | nil =>
          obtain ⟨rfl, rfl⟩ := List.cons.inj whole
          exact ⟨_, _, before, .call c idle⟩
      | cons last others => exact ih _ (List.cons.inj whole).2
  | step before busy ih =>
      cases later with
      | nil =>
          obtain ⟨rfl, rfl⟩ := List.cons.inj whole
          exact ⟨_, _, before, .step busy⟩
      | cons last others => exact ih _ (List.cons.inj whole).2

/-- What was dispatched last once the machine has moved. -/
theorem lastDispatched_cons (move : Move) (moves : List Move) (depth : Nat) :
    lastDispatched (move :: moves) depth
      = (move.dispatched? depth).or (lastDispatched moves depth) := by
  rw [lastDispatched, List.findSome?_cons]
  cases move.dispatched? depth <;> rfl

/-- The action of a move finds the frames where they were suspended, and leaves them so. -/
theorem Next.suspended (next : Next m move a) (past : History moves m)
    (suspends : m.Suspends (lastDispatched moves)) :
    Suspended (lastDispatched (move :: moves)) (a.result move.before) := by
  cases next with
  | call c idle =>
      have rest := (past.composed.atRest idle).prepared c
      obtain ⟨n, kept, upshot⟩ := (c.answers m).upshot rest.heap fun _ => c.running m
      refine upshot.suspended ?_
      rw [Machine.frames, kept.calls, show (c.machine m).calls.frames = [] from rest.frames]
      exact .nil
  | step busy =>
      refine (past.composed.live busy).suspended suspends
        (fun f rest i fetches => ?_) fun depth other => ?_
      · have found : m.fetch? = some (f, i) := by
          rw [Machine.fetch?, fetches.control, fetches.frames]
          exact congrArg (Option.map (f, ·)) fetches.next
        rw [lastDispatched_cons, Move.dispatched?, fetches.frames, if_pos List.length_cons, found,
          Option.some_or]
      · have nothing : Move.dispatched? ⟨m, m.step⟩ depth = none := by
          unfold Move.dispatched?
          rcases other with nothing | deep
          · rw [nothing, ite_self]
          · rw [if_neg (Nat.ne_of_gt deep)]
        rw [lastDispatched_cons, nothing, Option.none_or]

/-- Between two moves every frame that does not run carries out what it dispatched last. -/
theorem suspends (past : History moves m) : m.Suspends (lastDispatched moves) := by
  induction past with
  | new _ frames _ _ _ => exact Machine.suspends_of_carried (frames ▸ .nil)
  | load _ _ _ ih | loadNatives _ _ _ _ ih => exact ih
  | adjust _ _ calls _ control _ _ ih =>
      rw [Machine.Suspends, control, Machine.frames, calls]
      exact ih
  | call c past idle ih => exact Machine.suspends_perform ((Next.call c idle).suspended past ih)
  | step past busy ih => exact Machine.suspends_perform ((Next.step busy).suspended past ih)

theorem Next.sound (next : Next m move a) (past : History moves m) : move.before.heap.Sound := by
  cases next with
  | call c idle => exact ((past.composed.atRest idle).prepared c).heap
  | step busy => exact (past.composed.live busy).1

/-- Whoever raises an exception finds all frames live, each in the middle of what it dispatched
last. -/
theorem Next.carried (next : Next m move a) (past : History moves m) (raises : move.Raises n id) :
    n.frames.length = move.before.frames.length ∧
      Carried (lastDispatched (move :: moves)) n.frames := by
  have kept (r : Raised) (n : Machine) : (r.resolve n).2.frames = n.frames :=
    congrArg CallStack.frames (r.keeps_resolve n).calls
  have sound := next.sound past
  have suspended := next.suspended past past.suspends
  cases raises with
  | @call m' n r c idle failed =>
      -- a call of the host finds no frame, so there is none to tell of
      have none : (c.machine m').frames = [] := (c.frames_machine m').trans idle
      obtain ⟨k, keeps, upshot⟩ := (c.answers m').upshot sound fun _ => c.running m'
      rw [failed] at upshot
      cases upshot
      have same : n.frames = (c.machine m').frames := congrArg CallStack.frames keeps.calls
      rw [kept, same, none]
      exact ⟨rfl, .nil⟩
  | @step m' n r busy failed =>
      -- a step is not what a call begins with, since a run is under way
      generalize m'.step = after at next suspended ⊢
      cases next with
      | call c idle =>
          rw [Machine.isIdle, c.running m, c.frames_machine m, (past.composed.atRest idle).frames]
            at busy
          cases busy
      | step _ =>
          have moves := (past.composed.live busy).moves
          rw [failed] at moves suspended
          rw [kept]
          refine ⟨?_, suspended⟩
          cases moves with
          | raises spent _ => exact spent.length_eq

/-! ## What becomes of traces -/

theorem Next.heap (next : Next m move a) : move.before.heap = m.heap := by
  cases next with
  | call c _ => exact c.heap_machine m
  | step _ => rfl

/-- A move gives a trace to an exception only by raising it, and takes none away. -/
theorem Next.trace_or (next : Next m move a) (past : History moves m)
    (fine : move.before.Hosts (Routine.Leaves Heap.KeepsTraces)) (id : ExceptionId) :
    (move.after.heap.exception id).trace = (move.before.heap.exception id).trace ∨
      (move.before.heap.exception id).trace = [] ∧
        ∃ n, move.Raises n id ∧ (move.after.heap.exception id).trace = n.trace := by
  have kept : move.before.heap.KeepsTraces (a.result move.before).2.heap := by
    cases next with
    | call c _ => exact (c.action_respects m _ fine).2
    | step _ => exact fine.upcoming.2
  have after : move.after = move.before.perform a := by cases next <;> rfl
  rcases done : a.result move.before with ⟨r | _, n⟩ <;> rw [done] at kept
  · have raises : move.Raises (r.resolve n).2 (r.resolve n).1 := by
      cases next with
      | call c idle => exact .call c (past.composed.atRest idle).frames done
      | step busy => exact .step busy done
    have same := raises.keepsTraces fine id
    rcases Machine.trace_raise_or (r.resolve n).2 (r.resolve n).1 id with stays | ⟨rfl, none, taken⟩
    · exact .inl (by rw [raises.after, stays, same])
    · exact .inr ⟨same.symm.trans none, _, raises, by rw [raises.after, taken]⟩
  · rw [after, Machine.perform_of_ok done]
    exact .inl (kept id)

/-- An exception that was raised outside all frames at most has no trace. -/
theorem untraced (past : History moves m) (aloof : Aloof moves m.heap)
    (never : ∀ move ∈ moves, ∀ n, move.Raises n id → n.frames = []) :
    (m.heap.exception id).trace = [] := by
  induction moves generalizing m with
  | nil =>
      obtain ⟨bare⟩ := aloof
      exact bare id
  | cons move earlier ih =>
      obtain ⟨before, a, past, next⟩ := past.next []
      obtain _ | ⟨kept, fine, aloof⟩ := aloof
      obtain ⟨now, others⟩ := List.forall_mem_cons.1 never
      have none : (move.before.heap.exception id).trace = [] := by
        rw [next.heap] at aloof ⊢
        exact ih past aloof others
      rw [kept id]
      rcases next.trace_or past fine id with same | ⟨_, n, raises, taken⟩
      · exact same.trans none
      · rw [taken, Machine.trace, now n raises]
        rfl

/-- An exception that has a trace keeps it, whatever the machine goes through. -/
theorem retraced (past : History (later ++ move :: earlier) m)
    (aloof : Aloof (later ++ move :: earlier) m.heap)
    (traced : (move.after.heap.exception id).trace ≠ []) :
    (m.heap.exception id).trace = (move.after.heap.exception id).trace ∧
      ∀ other ∈ later,
        (other.before.heap.exception id).trace = (move.after.heap.exception id).trace ∧
        (other.after.heap.exception id).trace = (move.after.heap.exception id).trace := by
  induction later generalizing m with
  | nil =>
      obtain _ | ⟨kept, _, _⟩ := aloof
      exact ⟨kept id, fun _ member => absurd member List.not_mem_nil⟩
  | cons last others ih =>
      obtain ⟨n, a, before, next⟩ := past.next []
      obtain _ | ⟨kept, fine, aloof⟩ := aloof
      rw [next.heap] at aloof
      obtain ⟨now, all⟩ := ih before aloof
      rw [← next.heap] at now
      have after := (next.trace_or before fine id).resolve_right fun taken =>
        traced (now.symm.trans taken.1)
      have after := after.trans now
      exact ⟨(kept id).trans after, List.forall_mem_cons.2 ⟨⟨now, after⟩, all⟩⟩

/-- An exception that has not been raised in any frame before gets its trace when it is raised. The
trace has one line for each frame that is live at this moment, innermost first. The line has the
name of the method of the frame, and the position of the instruction that the frame carries out: it
dispatched this one last, and stands one behind it. For the innermost frame it is what raises, for
all others what they wait for. If a frame was live then the exception has this trace ever after, and
the host is told no other. -/
theorem trace_taken (past : History moves m) (aloof : Aloof moves m.heap)
    (split : moves = later ++ move :: earlier) (raises : move.Raises n id)
    (known : id < move.after.heap.exceptions.size)
    (first : ∀ old ∈ earlier, ∀ k, old.Raises k id → k.frames = []) :
    ∃ lines, (move.after.heap.exception id).trace = lines ∧
    n.frames.length = move.before.frames.length ∧ lines.length = n.frames.length ∧
    (∀ k g, n.frames[k]? = some g → ∃ f i,
      lastDispatched (move :: earlier) (n.frames.length - (k + 1)) = some (f, i) ∧
      g.Carries f i ∧ lines[k]? = some ⟨g.method.code.name, i.loc⟩) ∧
    (∀ f i, move.before.fetch? = some (f, i) →
      lines.head? = some ⟨f.method.code.name, i.loc⟩) ∧
    (n.frames ≠ [] →
      (m.heap.exception id).trace = lines ∧ (UncaughtException.ofHeap m.heap id).trace = lines ∧
      ∀ other ∈ later, (other.before.heap.exception id).trace = lines ∧
        (other.after.heap.exception id).trace = lines) := by
  subst split
  obtain ⟨start, a, before, next⟩ := past.next later
  obtain ⟨fine, aloofBefore⟩ := aloof.split
  obtain ⟨length, carried⟩ := next.carried before raises
  have none : (n.heap.exception id).trace = [] := by
    rw [raises.keepsTraces fine id, next.heap]
    exact before.untraced (next.heap ▸ aloofBefore) first
  have taken : (move.after.heap.exception id).trace = n.trace := by
    rw [raises.after, Machine.exception_raise (raises.size_after ▸ known), none]
    rfl
  have line {k : Nat} {g : Frame} {i : Instruction} {f : Frame} (live : n.frames[k]? = some g)
      (carries : g.Carries f i) : n.trace[k]? = some ⟨g.method.code.name, i.loc⟩ := by
    rw [Machine.trace, List.getElem?_map, live, ← carries.traceFrame]
    rfl
  refine ⟨n.trace, taken, length, List.length_map _, fun k g live => ?_, fun f i fetched => ?_,
    fun inside => ?_⟩
  · obtain ⟨f, i, found, carries⟩ := carried.getElem? live
    exact ⟨f, i, found, carries, line live carries⟩
  · obtain ⟨rest, fetches⟩ := Machine.fetches_of_fetch? fetched
    rw [fetches.frames] at length
    obtain ⟨g, others, live⟩ := List.exists_cons_of_length_eq_add_one length
    have here : n.frames[0]? = some g := congrArg (·[0]?) live
    obtain ⟨f', i', found, carries⟩ := carried.getElem? here
    -- the instruction that this move dispatches is the last one
    have last : lastDispatched (move :: earlier) (n.frames.length - 1) = some (f, i) := by
      rw [lastDispatched_cons, Move.dispatched?, length, fetches.frames, List.length_cons,
        Nat.add_sub_cancel, if_pos rfl, fetched, Option.some_or]
    cases last.symm.trans found
    have method : g.method = f.method := by rw [carries.frame]
    rw [List.head?_eq_getElem?, line here carries, method]
  · have traced : (move.after.heap.exception id).trace ≠ [] := fun empty =>
      inside (List.map_eq_nil_iff.1 (taken.symm.trans empty))
    obtain ⟨now, all⟩ := past.retraced aloof traced
    rw [taken] at now all
    exact ⟨now, now, all⟩

end History

/-! ## Calls of the host -/

namespace HostCall

variable {m : Machine} {moves : List Move} {id : ExceptionId}

/-- A run leaves traces to the machine if the functions of the host do. -/
theorem aloof_moves (c : HostCall) (rest : m.AtRest) (aloof : Aloof moves m.heap)
    (foreign : ∀ fn receiver args, (m.foreign fn receiver args).Leaves Heap.KeepsTraces)
    (steps : Nat) : Aloof (c.moves m steps ++ moves) (c.after m steps).heap := by
  have fine : (c.machine m).Hosts (Routine.Leaves Heap.KeepsTraces) :=
    c.hosts_machine foreign rest.frames
  have hosts (steps : Nat) : (c.after m steps).Hosts (Routine.Leaves Heap.KeepsTraces) := by
    induction steps with
    | zero => exact (c.action_respects m _ fine).1.performed
    | succ steps ih =>
        rw [c.after_succ]
        exact ih.upcoming.1.performed
  induction steps with
  | zero => exact .since (.refl _) fine (c.heap_machine m ▸ aloof)
  | succ steps ih =>
      rw [HostCall.moves, c.after_succ]
      cases busy : (c.after m steps).isIdle with
      | false => exact .since (.refl _) (hosts steps) ih
      | true =>
          rw [Machine.step_of_isDone ((rest.after_live c steps).isDone_of_isIdle busy)]
          exact ih

/-- A step of a run is the move that comes right after those of the steps before. -/
theorem moves_of_busy {c : HostCall} {steps total : Nat} (busy : (c.after m steps).isIdle = false)
    (less : steps < total) : ∃ later,
      c.moves m total = later ++ ⟨c.after m steps, (c.after m steps).step⟩ :: c.moves m steps := by
  obtain ⟨more, rfl⟩ := Nat.exists_eq_add_of_lt less
  induction more with
  | zero => exact ⟨[], by rw [Nat.add_zero, HostCall.moves, busy]; rfl⟩
  | succ more ih =>
      obtain ⟨later, split⟩ := ih (by omega)
      rw [← Nat.add_assoc, HostCall.moves]
      split
      · exact ⟨later, split⟩
      · exact ⟨_ :: later, by rw [split]; rfl⟩

/-- A step of a run that raises is a move that does. -/
theorem raises_of_raisedNext? {c : HostCall} {steps total : Nat}
    (busy : (c.after m steps).isIdle = false) (raised : (c.after m steps).raisedNext? = some id)
    (less : steps < total) : ∃ later move n, move.before = c.after m steps ∧
      move.after = c.after m (steps + 1) ∧ move.Raises n id ∧
      c.moves m total = later ++ move :: c.moves m steps := by
  obtain ⟨later, split⟩ := moves_of_busy busy less
  obtain ⟨r, n, failed, rfl⟩ := Machine.raisedNext?_eq_some.1 raised
  exact ⟨later, _, _, rfl, (c.after_succ m steps).symm, .step busy failed, split⟩

/-- What no step of a run raises is raised in no frame. -/
theorem raises_outside (past : History moves m) (idle : m.isIdle = true) (c : HostCall)
    {steps : Nat} (calm : ∀ k < steps, (c.after m k).raisedNext? ≠ some id) :
    ∀ move ∈ c.moves m steps, ∀ n, move.Raises n id → n.frames = [] := by
  induction steps with
  | zero =>
      intro move member n raises
      obtain rfl := List.mem_singleton.1 member
      have same := ((History.Next.call c idle).carried past raises).1
      rw [c.frames_machine m, (past.composed.atRest idle).frames] at same
      exact List.length_eq_zero_iff.1 same
  | succ steps ih =>
      have before := ih fun k less => calm k (Nat.lt_succ_of_lt less)
      rw [HostCall.moves]
      split
      · exact before
      · next busy =>
          refine List.forall_mem_cons.2 ⟨fun n raises => ?_, before⟩
          have raised := raises.raisedNext? (Bool.eq_false_iff.2 busy)
          exact absurd raised (calm steps (Nat.lt_succ_self _))

end HostCall

/-- An operator of a class fails, and the function that used it raises what it caught again. -/
def failingOperator : List Stmt :=
  [.classDef {} (.mk {} "Money" [] none
      [.function {} (.mk { name := "__add__", params := ["other"] }
        [.expr ⟨3, 1⟩ (.name ⟨3, 1⟩ "missing")])]),
    .function {} (.mk { name := "main" }
      [.tryExcept {}
        (.expr ⟨2, 1⟩ (.binary ⟨2, 1⟩ .add (.call ⟨2, 1⟩ (.name ⟨2, 1⟩ "Money") [] []) (.int {} 1)))
        (some "e") [] (.raise ⟨4, 1⟩ (.name ⟨4, 1⟩ "e"))])]

/-- The machine of an engine that has loaded the unit. -/
def failingMachine : Machine :=
  (Engine.loaded (compiledUnit failingOperator)).machine

/-- The host calls the function. -/
def failingCall : HostCall :=
  .value (.method 2) []

theorem history_failingMachine : History [] failingMachine := by
  have compiled : compile "m" "m" failingOperator = .ok (compiledUnit failingOperator) :=
    compile_compiledUnit (by decide +kernel)
  exact .load (m := {}) (.new rfl rfl rfl rfl rfl) rfl compiled

theorem aloof_failingMachine (steps : Nat) :
    Aloof (failingCall.moves failingMachine steps)
      (failingCall.after failingMachine steps).heap := by
  have none : failingMachine.heap.exceptions = #[] := by decide +kernel
  have bare : Aloof [] failingMachine.heap := by
    refine .none fun id => ?_
    rw [Heap.exception, none]
    rfl
  have rest : failingMachine.AtRest := history_failingMachine.composed.atRest rfl
  have aloof := failingCall.aloof_moves rest bare (fun _ _ _ => trivial) steps
  rwa [List.append_nil] at aloof

/-- The operator fails in the tenth step, in the second frame, and nothing was raised before. -/
theorem failingCall_raises :
    (∀ k < 9, (failingCall.after failingMachine k).raisedNext? ≠ some 0) ∧
    (failingCall.after failingMachine 9).isIdle = false ∧
    (failingCall.after failingMachine 9).raisedNext? = some 0 ∧
    (failingCall.after failingMachine 9).frames.length = 2 ∧
    0 < (failingCall.after failingMachine (9 + 1)).heap.exceptions.size ∧
    ((failingCall.after failingMachine (9 + 1)).heap.exception 0).trace
      = [⟨"__add__", ⟨3, 1⟩⟩, ⟨"main", ⟨2, 1⟩⟩] ∧
    (failingCall.after failingMachine 13).raisedNext? = some 0 := by
  decide +kernel

/-- The host is told where the operator failed and where it was used, not where its exception was
raised again. -/
theorem trace_taken_operator :
    History (failingCall.moves failingMachine 20) (failingCall.after failingMachine 20) ∧
    (failingCall.after failingMachine 9).raisedNext? = some 0 ∧
    (failingCall.after failingMachine 13).raisedNext? = some 0 ∧
    (UncaughtException.ofHeap (failingCall.after failingMachine 20).heap 0).trace
      = [⟨"__add__", ⟨3, 1⟩⟩, ⟨"main", ⟨2, 1⟩⟩] := by
  obtain ⟨calm, busy, raised, two, known, taken, again⟩ := failingCall_raises
  have past := history_failingMachine.after rfl failingCall 20
  rw [List.append_nil] at past
  obtain ⟨later, move, n, before, after, raises, split⟩ :=
    HostCall.raises_of_raisedNext? busy raised (by decide : 9 < 20)
  rw [← after] at known taken
  obtain ⟨lines, first, length, _, _, _, stays⟩ := past.trace_taken (aloof_failingMachine 20) split
    raises known (HostCall.raises_outside history_failingMachine rfl failingCall calm)
  have inside : n.frames ≠ [] := fun none => by
    rw [none, before, two] at length
    cases length
  exact ⟨past, raised, again, (stays inside).2.1.trans (first.symm.trans taken)⟩

/-- A function that raises what it is given. -/
def raisingArgument : List Stmt :=
  [.function {} (.mk { name := "main", params := ["e"] } [.raise ⟨1, 1⟩ (.name ⟨1, 1⟩ "e")])]

/-- The host makes an exception, which from now on all functions of its own raise. -/
def Machine.raising (m : Machine) (e : ExceptionObject) : Machine :=
  { m with
    heap := (m.heap.newException e).2
    foreign := fun _ _ _ => .raise m.heap.exceptions.size }

theorem History.raising {moves : List Move} {m : Machine} (past : History moves m)
    (idle : m.isIdle = true) (e : ExceptionObject) : History moves (m.raising e) :=
  past.adjust idle rfl rfl rfl rfl (.of_tables rfl rfl rfl rfl)

/-- A host that has loaded the unit does so. -/
def raisingMachine : Machine :=
  (Engine.loaded (compiledUnit raisingArgument)).machine.raising
    { type := .valueError, message := "boom" }

theorem history_raisingMachine : History [] raisingMachine := by
  have compiled : compile "m" "m" raisingArgument = .ok (compiledUnit raisingArgument) :=
    compile_compiledUnit (by decide +kernel)
  have loaded : History [] (Engine.loaded (compiledUnit raisingArgument)).machine :=
    .load (m := {}) (.new rfl rfl rfl rfl rfl) rfl compiled
  exact loaded.raising rfl _

/-- The host calls a function of its own. -/
def outsideCall : HostCall :=
  .value (.native ⟨.foreign ⟨0, "give", none⟩, 0⟩) []

/-- The host calls the function of the script with the exception. -/
def insideCall : HostCall :=
  .value (.method 0) [.exception 0]

def raisedOutside : Machine :=
  outsideCall.after raisingMachine 0

def raisedInside : Machine :=
  insideCall.after raisedOutside 5

/-- An operator of a class raises an instance. The function that used it catches the instance,
catches something else and raises the instance again. -/
def raisingTwice : List Stmt :=
  [.classDef {} (.mk {} "E" [] none []),
    .classDef {} (.mk {} "Money" [] none
      [.function {} (.mk { name := "__add__", params := ["other"] }
        [.raise ⟨3, 1⟩ (.call ⟨3, 1⟩ (.name ⟨3, 1⟩ "E") [] [])])]),
    .function {} (.mk { name := "main" }
      [.tryExcept {}
        (.expr ⟨2, 1⟩ (.binary ⟨2, 1⟩ .add (.call ⟨2, 1⟩ (.name ⟨2, 1⟩ "Money") [] []) (.int {} 1)))
        (some "e") [] (.block {}
          [.tryExcept {} (.expr ⟨5, 1⟩ (.name ⟨5, 1⟩ "missing")) none [] (.block {} []),
            .raise ⟨4, 1⟩ (.name ⟨4, 1⟩ "e")])])]

/-- The machine of an engine with that unit, after so many steps. -/
def twiceMachine (steps : Nat) : Machine :=
  (HostCall.value (.method 3) []).after (Engine.loaded (compiledUnit raisingTwice)).machine steps

/-- An exception that was raised in no frame has no trace, and is given one when it is raised the
second time. An instance that is raised the second time is not recognised when something else was
caught in between: the exception it is wrapped in is new, and its trace is that of the second time. -/
theorem trace_retaken :
    ((∃ moves, History moves raisedInside) ∧
      raisedOutside.control.uncaught? = some 0 ∧ (raisedOutside.heap.exception 0).trace = [] ∧
      raisedInside.control.uncaught? = some 0 ∧
      (raisedInside.heap.exception 0).trace = [⟨"main", ⟨1, 1⟩⟩]) ∧
    (twiceMachine 15).raisedNext? = some 0 ∧
    ((twiceMachine 16).heap.exception 0).payload = some 1 ∧
    ((twiceMachine 16).heap.exception 0).trace = [⟨"__add__", ⟨3, 1⟩⟩, ⟨"main", ⟨2, 1⟩⟩] ∧
    (twiceMachine 22).control.uncaught? = some 2 ∧
    ((twiceMachine 22).heap.exception 2).payload = some 1 ∧
    (UncaughtException.ofHeap (twiceMachine 22).heap 2).trace = [⟨"main", ⟨4, 1⟩⟩] := by
  have outside : History (outsideCall.moves raisingMachine 0 ++ []) raisedOutside :=
    history_raisingMachine.after (by decide +kernel) outsideCall 0
  have idle : raisedOutside.isIdle = true := by decide +kernel
  exact ⟨⟨⟨_, outside.after idle insideCall 5⟩, by decide +kernel⟩, by decide +kernel⟩

end ScriptMachine
