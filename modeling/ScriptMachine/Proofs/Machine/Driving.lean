import Mathlib.Algebra.GroupWithZero.Nat
import ScriptMachine.Proofs.Machine.Loops

/-!
The dispatcher against the machine by itself. As long as nothing is raised, the loops are those
that the frames need, and a step of the dispatcher is a step of the machine. What raises takes the
dispatcher several steps: the error leaves its operation, the frames go, and the loops whose entry
frames are gone return one after the other, each to an operation that is given up. `Bound` says
where the dispatcher is on this way. In all of it nothing is dispatched, no frame gets a value, and
the count of nested calls is the number of loops. At its end the machine is where it gets by itself
in one step.
-/

namespace ScriptMachine

open ScriptMachine.Action

/-- The machine with the loops that run its frames. -/
def Machine.driven (m : Machine) : Dispatcher :=
  { machine := m, loops := entries m.links }

/-! ## The dispatcher on its way -/

namespace Dispatcher

/-- What the error that is on its way has yet to pass, if there is one. -/
def passing (d : Dispatcher) : List Pending :=
  match d.failure with
  | some (_, rest) => [rest]
  | none => []

/-- Frames have been dropped, and the loops `gone` that ran them have yet to return. Then the
machine is `n`, or, if nothing catches the exception, will be when the call of the host ends. -/
structure Unwinding (d : Dispatcher) (n : Machine) (gone : List DispatchLoop) : Prop where
  loops : d.loops = gone ++ entries n.links
  away : ∀ loop ∈ gone, d.machine.calls.depth < loop.base
  failure : d.failure = none ∧ gone ≠ [] ∨ ∃ rest, d.failure = some (.unwound, rest)
  rooted : Rooted (d.passing ++ waiting d.loops)
  counted : d.machine.nesting = d.loops.length
  room : d.machine.nesting ≤ d.machine.limits.nesting
  control : d.machine.control = .running
  target : match d.uncaught with
    | none => { d.machine with calls := d.machine.calls.recount } = n ∧ entries n.links ≠ []
    | some id => d.machine.frames = [] ∧ d.machine.handlers = [] ∧
        { d.machine with calls := .empty, handlers := [], current := none, control := .uncaught id }
          = n

/-- Machine `m` carries out an action, and this is how far the dispatcher has come with it. -/
inductive Bound (m : Machine) (a : Action Unit) : Dispatcher → Prop where
  /-- The machine is where the action leaves it. -/
  | arrived : Bound m a (m.perform a).driven
  /-- What the action has raised leaves the operation it belongs to. -/
  | failing {n : Machine} {e : Raised} {rest : Pending} : a.result m = (.error e, n) →
      Rooted (rest :: waiting (entries n.links)) → n.Counted → n.nesting ≤ n.limits.nesting →
      (entries n.links = [] → n.frames = [] ∧ n.handlers = []) →
      Bound m a
        { (e.resolve n).2.driven with failure := some (.exception (e.resolve n).1, rest) }
  | unwinding {d : Dispatcher} {n : Machine} {e : Raised} {gone : List DispatchLoop} :
      a.result m = (.error e, n) → d.Unwinding (m.perform a) gone → Bound m a d

/-- How many steps it takes at most until the error that is on its way, and those of the loops that
have to return, have passed everything. -/
def weight (d : Dispatcher) : Nat :=
  (match d.failure with
    | none => 0
    | some (.exception _, rest) => rest.tasks.length + 2
    | some (.unwound, rest) => rest.tasks.length + 1)
  + (d.loops.map fun loop => loop.pending.tasks.length + 2).sum

variable {d : Dispatcher} {m n : Machine} {a : Action Unit} {rest : Pending}

theorem attempt_ok {loops : List DispatchLoop} {failure : Option (RunError × Pending)}
    {uncaught : Option ExceptionId} (done : a.result m = (.ok (), n)) :
    attempt ⟨m, loops, failure, uncaught⟩ a rest
      = { machine := n, loops := n.entered m.nesting ++ loops, uncaught } := by
  dsimp only [attempt]
  rw [show a.run.run m = (.ok (), n) from done]

theorem attempt_error {loops : List DispatchLoop} {failure : Option (RunError × Pending)}
    {uncaught : Option ExceptionId} {e : Raised} (failed : a.result m = (.error e, n)) :
    attempt ⟨m, loops, failure, uncaught⟩ a rest
      = { machine := (e.resolve n).2, loops, failure := some (.exception (e.resolve n).1, rest),
          uncaught } := by
  dsimp only [attempt]
  rw [show a.run.run m = (.error e, n) from failed]

/-- The loops of a machine whose action has pushed at most one frame. -/
theorem entered_eq (before : m.Counted) (after : n.Counted)
    (links : n.links = m.links ∨ ∃ r, n.links = r :: m.links) :
    n.entered m.nesting ++ entries m.links = entries n.links := by
  have counts := Machine.counted_iff.1 before
  have counts' := Machine.counted_iff.1 after
  have depth := n.depth_eq
  have top : n.frames.head?.map Frame.returns = n.links.head? := List.head?_map.symm
  rw [Machine.entered, top]
  rcases links with same | ⟨r, pushed⟩
  · have level : ¬ m.nesting < n.nesting := by
      rw [counts, counts', same]
      exact Nat.lt_irrefl _
    simp only [level, if_false, same]
    split <;> rfl
  · rw [pushed] at counts' depth ⊢
    cases r with
    | resume pending =>
        have more : m.nesting < n.nesting := by
          rw [counts, counts']
          exact Nat.lt_succ_self _
        simp only [more, if_true, depth]
        rfl
    | value | «instance» id | nothing => rfl

/-- The dispatcher begins to carry an action out. -/
theorem bound_attempt {b : Action Unit} (same : b.result m = a.result m) (counted : m.Counted)
    (after : (a.result m).2.Counted) (room : m.Roomy) (moves : Moves m (a.result m))
    (steady : m.Steady (a.result m).2)
    (going : m.control = .running → ∀ f rest, m.frames = f :: rest → f.next? ≠ none)
    (rooted : Rooted (rest :: waiting (entries m.links)))
    (bottom : entries m.links = [] → m.frames = [] ∧ m.handlers = []) :
    Bound m a (m.driven.attempt b rest) := by
  rcases done : a.result m with ⟨e | _, n⟩ <;> rw [done] at same moves after steady
  · obtain ⟨links, handlers, _⟩ := moves.links_error
    have kept := e.keeps_resolve n
    have failing : m.driven.attempt b rest
        = { (e.resolve n).2.driven with failure := some (.exception (e.resolve n).1, rest) } := by
      rw [Machine.driven, attempt_error same, Machine.driven, kept.links, links]
    rw [failing]
    refine .failing done ?_ after ?_ ?_
    · rw [links]
      exact rooted
    · rw [Machine.counted_iff.1 after, links, ← Machine.counted_iff.1 counted, steady.limits]
      exact room.nesting
    · intro idle
      rw [links] at idle
      obtain ⟨none, closed⟩ := bottom idle
      have empty : n.links = [] := by
        rw [links, Machine.links, none]
        rfl
      exact ⟨List.map_eq_nil_iff.1 empty, handlers.trans closed⟩
  · have links : n.links = m.links ∨ ∃ r, n.links = r :: m.links := by
      rcases moves.links_ok with same | ⟨r, pushed, _⟩ | ⟨f, below, running, top, atEnd, _⟩
      · exact .inl same
      · exact .inr ⟨r, pushed⟩
      · exact absurd atEnd (going running f below top)
    rw [Machine.driven, attempt_ok same, entered_eq counted after links]
    have there : Bound m a (m.perform a).driven := .arrived
    rw [Machine.perform_of_ok done] at there
    exact there

/-! ## A machine that takes a step -/

theorem note_withCalls (m : Machine) (event : Unit → Event) (calls : CallStack) :
    { m.note event with calls } = Machine.note { m with calls } event := by
  unfold Machine.note
  split <;> rfl

section

variable {f : Frame} {below : List Frame}

theorem dropFrame_plain (counted : m.Counted) (top : m.frames = f :: below)
    (plain : f.returns.isNested = false) : m.dropFrame = ended m := by
  have calls : m.calls.dropTop = m.calls.pop := counted.dropTop_plain top plain
  unfold Machine.dropFrame
  rw [calls]
  rfl

theorem dropFrame_nested (counted : m.Counted) (top : m.frames = f :: below)
    (nested : f.returns.isNested = true) :
    { m.dropFrame with calls := m.dropFrame.calls.leave } = ended m := by
  have calls : m.calls.dropTop.leave = m.calls.pop := counted.dropTop_nested top nested
  have dropped : m.dropFrame.calls = m.calls.dropTop := (Machine.keeps_note _ _).calls
  rw [dropped, calls]
  exact note_withCalls _ _ _

theorem links_give (m : Machine) (v : Value) : (m.give v).links = m.links := by
  change (m.calls.modifyTop _).frames.map _ = m.calls.frames.map _
  rw [CallStack.frames_modifyTop]
  cases m.calls.frames <;> rfl

theorem perform_handOver_plain {returns : Returns} (plain : returns.isNested = false) (m : Machine)
    (v : Value) : m.perform (handOver returns v)
      = match returns.result? v with
        | some w => m.give w
        | none => m := by
  cases returns with
  | resume pending => cases plain
  | value | «instance» id | nothing => rfl

/-- A frame ends, and so does the loop if it is the entry frame. -/
theorem finish_driven (counted : m.Counted) (top : m.frames = f :: below) (atEnd : f.next? = none)
    (running : m.control = .running) {loop : DispatchLoop} {loops : List DispatchLoop}
    (first : entries m.links = loop :: loops) :
    m.driven.finish loop.base f = m.step.driven := by
  have links : m.links = f.returns :: below.map (·.returns) := congrArg (List.map Frame.returns) top
  have step : m.step = (ended m).perform (handOver f.returns (f.stack.headD .null)) := by
    unfold Machine.step Machine.upcoming
    rw [running]
    exact perform_advance_end top atEnd
  have remains : (ended m).links = below.map (·.returns) := by
    rw [Machine.links, (keeps_ended m).frames]
    exact congrArg (fun frames => (List.tail frames).map Frame.returns) top
  have depth : m.dropFrame.calls.depth = below.length := by
    rw [m.dropFrame.calls.depth_eq,
      show m.dropFrame.calls = m.calls.dropTop from (Machine.keeps_note _ _).calls]
    exact congrArg (fun frames => (List.tail frames).length) top
  cases nested : f.returns.isNested with
  | true =>
      obtain ⟨pending, returns⟩ : ∃ pending, f.returns = .resume pending := by
        cases returns : f.returns with
        | resume pending => exact ⟨pending, rfl⟩
        | value | «instance» id | nothing => rw [returns] at nested; cases nested
      have dropped := dropFrame_nested counted top nested
      rw [links, returns] at first
      obtain ⟨rfl, rfl⟩ := List.cons.inj first
      have low : m.dropFrame.calls.depth < (below.map (·.returns)).length + 1 := by
        rw [depth, List.length_map]
        exact Nat.lt_succ_self _
      have stepped : m.step
          = { ended m with control := .delivering (f.stack.headD .null) pending } := by
        rw [step, returns]
        rfl
      have left : entries (Machine.links { ended m with
          control := .delivering (f.stack.headD .null) pending })
            = entries (below.map (·.returns)) := congrArg entries remains
      rw [stepped, Machine.driven, Machine.driven, left]
      unfold finish
      dsimp only
      rw [if_pos low, returns, links, returns, ← dropped]
      rfl
  | false =>
      have own : entries m.links = entries (below.map (·.returns)) := by
        rw [links, entries_plain nested]
      have high : ¬ m.dropFrame.calls.depth < loop.base := by
        have near := (base_le (own ▸ first ▸ List.mem_cons_self : loop ∈ _)).2
        rw [List.length_map] at near
        omega
      rw [step, perform_handOver_plain nested, Machine.driven, own]
      unfold finish
      dsimp only
      rw [if_neg high, dropFrame_plain counted top nested, ← remains]
      cases f.returns.result? (f.stack.headD .null) with
      | some v =>
          dsimp only
          rw [Machine.driven, links_give]
      | none => rfl

end

/-- A dispatcher that looks after a running machine takes a round of its innermost loop. -/
theorem step_running (live : m.Live) (running : m.control = .running) :
    ∃ f below loop loops, m.frames = f :: below ∧ entries m.links = loop :: loops ∧
      m.driven.step = match f.next? with
        | none => m.driven.finish loop.base f
        | some i => m.driven.attempt (Action.dispatch i) .discard := by
  obtain ⟨f, below, _, _, top, _⟩ := live.standing running
  obtain ⟨loop, loops, first⟩ := List.exists_cons_of_ne_nil (live.rooted_running running).1
  have high : ¬ m.calls.depth < loop.base := by
    rw [m.depth_eq]
    exact Nat.not_lt.2 (base_le (first ▸ List.mem_cons_self)).2
  have frames : m.driven.machine.frames = f :: below := top
  have loops' : m.driven.loops = loop :: loops := first
  have control : m.driven.machine.control = .running := running
  refine ⟨f, below, loop, loops, top, first, ?_⟩
  have step : m.driven.step = m.driven.dispatch := by
    unfold step
    rw [control]
    rfl
  rw [step]
  unfold dispatch
  rw [loops']
  exact (if_neg (show ¬ m.driven.machine.calls.depth < loop.base from high)).trans (frames ▸ rfl)

/-- The frame that ends takes the dispatcher where the machine gets. -/
theorem step_end (live : m.Live) (counted : m.Counted) (running : m.control = .running) {f : Frame}
    {below : List Frame} (top : m.frames = f :: below) (atEnd : f.next? = none) :
    m.driven.step = m.step.driven := by
  obtain ⟨g, others, loop, loops, top', first, step⟩ := step_running live running
  obtain ⟨rfl, rfl⟩ := List.cons.inj (top.symm.trans top')
  rw [step, atEnd]
  exact finish_driven counted top atEnd running first

/-- A dispatcher that looks after a live machine begins the next step of the machine. -/
theorem bound_step (live : m.Live) (counted : m.Counted) (room : m.Roomy) :
    Bound m m.upcoming m.driven.step := by
  have ended (done : m.isDone = true) : Bound m m.upcoming m.driven.step := by
    have still : m.driven.isDone = true := done
    have there : Bound m m.upcoming m.step.driven := .arrived
    rw [step_of_isDone still]
    rw [Machine.step_of_isDone done] at there
    exact there
  cases control : m.control with
  | returned v => exact ended (by rw [Machine.isDone, control])
  | uncaught id => exact ended (by rw [Machine.isDone, control])
  | delivering v pending =>
      have step : m.driven.step
          = m.driven.attempt (resume v pending) { pending with tasks := pending.tasks.tail } := by
        unfold step
        rw [show m.driven.machine.control = _ from control]
        rfl
      have upcoming : m.upcoming = resume v pending := by rw [Machine.upcoming, control]
      obtain ⟨ends, rooted⟩ := live.rooted_delivering control
      rw [step]
      refine bound_attempt (by rw [upcoming]) counted counted.upcoming room live.moves
        m.upcoming_steady ?_ ⟨ends, rooted⟩ live.bottom
      intro running
      cases control.symm.trans running
  | running =>
      obtain ⟨f, below, loop, loops, top, first, step⟩ := step_running live control
      have upcoming : m.upcoming = advance := by rw [Machine.upcoming, control]
      cases next : f.next? with
      | none =>
          rw [step_end live counted control top next]
          exact .arrived
      | some i =>
          rw [step, next]
          have same : (Action.dispatch i).result m = m.upcoming.result m := by
            rw [upcoming, result_advance top next, result_dispatch top i]
          obtain ⟨some, rooted⟩ := live.rooted_running control
          refine bound_attempt same counted counted.upcoming room live.moves m.upcoming_steady ?_
            ⟨?_, rooted⟩ live.bottom
          · intro _ g others there
            obtain ⟨rfl, rfl⟩ := List.cons.inj (top.symm.trans there)
            simp [next]
          · exact iff_of_false Finish.noConfusion fun none => some (waiting_eq_nil.1 none)

/-! ## Errors on their way -/

section

variable {tasks : List Task} {finish : Finish}

theorem passOn_halt (e : RunError) : d.passOn e ⟨[], .halt⟩ = d.fail e := by
  cases e <;> rfl

theorem passOn_exception (inner : finish ≠ .halt) (id : ExceptionId) :
    d.passOn (.exception id) ⟨[], finish⟩ = d.raise id := by
  cases finish with
  | halt => exact absurd rfl inner
  | push | discard | construct | constructBase => rfl

theorem passOn_unwound (inner : finish ≠ .halt) :
    d.passOn .unwound ⟨[], finish⟩ = { d with failure := none } := by
  cases finish with
  | halt => exact absurd rfl inner
  | push | discard | construct | constructBase => rfl

end

namespace Unwinding

variable {gone : List DispatchLoop}

theorem frames (unwinding : d.Unwinding n gone) : d.machine.frames = n.frames := by
  have target := unwinding.target
  split at target
  · rw [← target.1]
    rfl
  · rw [← target.2.2]
    exact target.1

/-- When all loops have returned that had to, the machine has arrived. -/
theorem driven (unwinding : d.Unwinding n []) (inner : d.loops ≠ []) :
    { d with failure := none } = n.driven := by
  obtain ⟨m, loops, failure, uncaught⟩ := d
  have all : loops = entries n.links := unwinding.loops
  have counted : m.nesting = loops.length := unwinding.counted
  have frames : m.frames = n.frames := unwinding.frames
  have target := unwinding.target
  cases uncaught with
  | some id =>
      have none : entries n.links = [] := by
        rw [Machine.links, ← frames, show m.frames = [] from target.1]
        rfl
      exact absurd (all.trans none) inner
  | none =>
      have same : m.links = n.links := congrArg (List.map Frame.returns) frames
      have recounted : m.calls.recount = m.calls := by
        refine CallStack.Counted.recount (Machine.counted_iff.2 ?_)
        rw [counted, all, same]
      obtain ⟨reached, _⟩ := target
      dsimp only at reached
      rw [recounted] at reached
      subst reached
      rw [all]
      rfl

theorem calls_cleared {calls : CallStack} (frames : calls.frames = []) (none : calls.nesting = 0) :
    calls.truncate 0 = .empty := by
  refine CallStack.ext ?_ none
  rw [CallStack.frames_truncate, frames]
  rfl

/-- The instruction that began an operation takes no notice of an error that leaves it. -/
theorem release {m : Machine} {loops : List DispatchLoop} {uncaught : Option ExceptionId}
    {rest : Pending} (unwinding : Unwinding ⟨m, loops, some (.unwound, rest), uncaught⟩ n gone)
    (inner : loops ≠ []) : (⟨m, loops, none, uncaught⟩ : Dispatcher) = n.driven ∨
      Unwinding ⟨m, loops, none, uncaught⟩ n gone := by
  cases gone with
  | nil => exact .inl (unwinding.driven inner)
  | cons loop gone =>
      exact .inr { unwinding with
        failure := .inl ⟨rfl, List.cons_ne_nil _ _⟩
        rooted := unwinding.rooted.2 }

/-- A loop whose entry frame is gone returns. -/
theorem step_leaving (loops : List DispatchLoop) (uncaught : Option ExceptionId) {m : Machine}
    {loop : DispatchLoop} (control : m.control = .running) (away : m.calls.depth < loop.base) :
    Dispatcher.step ⟨m, loop :: loops, none, uncaught⟩
      = ⟨{ m with calls := m.calls.leave }, loops, some (.unwound, loop.pending), uncaught⟩ := by
  simp only [Dispatcher.step, dispatch, leave, control, away, if_true]

theorem step_passing {m : Machine} {loops : List DispatchLoop} {uncaught : Option ExceptionId}
    {rest : Pending} (unwinding : Unwinding ⟨m, loops, some (.unwound, rest), uncaught⟩ n gone) :
    let d : Dispatcher := ⟨m, loops, some (.unwound, rest), uncaught⟩
    d.step.weight < d.weight ∧ (d.step = n.driven ∨ ∃ gone', d.step.Unwinding n gone') := by
  obtain ⟨tasks, finish⟩ := rest
  cases tasks with
  | cons task tasks =>
      refine ⟨?_, .inr ⟨gone, { unwinding with failure := .inr ⟨_, rfl⟩ }⟩⟩
      simp only [weight, Dispatcher.step, passOn, List.length_cons]
      omega
  | nil =>
      have ends : finish = .halt ↔ waiting loops = [] := unwinding.rooted.1
      rw [waiting_eq_nil] at ends
      by_cases last : finish = .halt
      · -- all loops have returned, and the exception that was kept ends the call
        obtain rfl : finish = .halt := last
        obtain rfl : loops = [] := ends.1 rfl
        have none : entries n.links = [] := (List.append_eq_nil_iff.1 unwinding.loops.symm).2
        have target := unwinding.target
        cases uncaught with
        | none => exact absurd none target.2
        | some id =>
            obtain ⟨frames, _, reached⟩ := target
            have cleared : m.calls.truncate 0 = .empty := calls_cleared frames unwinding.counted
            have step : Dispatcher.step ⟨m, [], some (.unwound, ⟨[], .halt⟩), some id⟩
                = n.driven := by
              rw [Machine.driven, none, ← reached, ← cleared]
              rfl
            intro d
            rw [step]
            refine ⟨?_, .inl rfl⟩
            simp only [d, weight, Machine.driven, none, List.map_nil, List.length_nil]
            omega
      · have inner : loops ≠ [] := fun none => last (ends.2 none)
        have step : Dispatcher.step ⟨m, loops, some (.unwound, ⟨[], finish⟩), uncaught⟩
            = ⟨m, loops, none, uncaught⟩ := passOn_unwound last
        intro d
        rw [step]
        refine ⟨?_, ?_⟩
        · simp only [d, weight, List.length_nil]
          omega
        · exact (unwinding.release inner).imp_right fun further => ⟨gone, further⟩

/-- An error or a loop gets a step further. -/
theorem step (unwinding : d.Unwinding n gone) :
    d.step.weight < d.weight ∧ (d.step = n.driven ∨ ∃ gone', d.step.Unwinding n gone') := by
  obtain ⟨m, loops, failure, uncaught⟩ := d
  rcases unwinding.failure with ⟨quiet, some⟩ | ⟨rest, passing⟩
  · obtain ⟨loop, gone, rfl⟩ := List.exists_cons_of_ne_nil some
    obtain rfl : failure = none := quiet
    obtain rfl : loops = loop :: (gone ++ entries n.links) := unwinding.loops
    have counted : m.nesting = (gone ++ entries n.links).length + 1 := unwinding.counted
    have room : m.nesting ≤ m.limits.nesting := unwinding.room
    have step := step_leaving (gone ++ entries n.links) uncaught unwinding.control
      (unwinding.away loop List.mem_cons_self)
    rw [step]
    refine ⟨?_, .inr ⟨gone, rfl, ?_, .inr ⟨_, rfl⟩, unwinding.rooted, ?_,
      Nat.le_trans (Nat.sub_le _ _) room, unwinding.control, unwinding.target⟩⟩
    · simp only [weight, List.map_cons, List.sum_cons]
      omega
    · exact fun other member => unwinding.away other (List.mem_cons_of_mem loop member)
    · change m.nesting - 1 = _
      rw [counted]
      rfl
  · obtain rfl : failure = some (.unwound, rest) := passing
    exact step_passing unwinding

end Unwinding

/-- No loop notices at once that an exception is raised. -/
theorem raise_quiet (d : Dispatcher) (id : ExceptionId) :
    (raise d id).failure = none ∧ (raise d id).loops = d.loops := by
  unfold raise
  dsimp only
  split <;> exact ⟨rfl, rfl⟩

theorem recount_modifyTop {change : Frame → Frame} (returns : ∀ f, (change f).returns = f.returns)
    (calls : CallStack) : (calls.modifyTop change).recount = calls.recount.modifyTop change := by
  refine CallStack.ext ?_ ?_
  · rw [CallStack.frames_modifyTop]
    exact CallStack.frames_modifyTop calls change
  · rw [CallStack.nesting_modifyTop]
    change (calls.modifyTop change).frames.countP _ = calls.frames.countP _
    rw [CallStack.frames_modifyTop]
    cases calls.frames with
    | nil => rfl
    | cons f rest => simp only [List.modifyHead_cons, List.countP_cons, returns]

/-- An exception that leaves an instruction drops the frames that are to go. -/
theorem unwinding_raise {k : Machine} {id : ExceptionId} {rest : Pending} (counted : k.Counted)
    (room : k.nesting ≤ k.limits.nesting) (rooted : Rooted (rest :: waiting (entries k.links))) (live : (k.raise id).Live) :
    ∃ gone, Unwinding
      { raise { k.driven with failure := some (.exception id, rest) } id with
        failure := some (.unwound, rest) } (k.raise id) gone := by
  have kept := k.keeps_announced id
  have counts : k.nesting = (entries k.links).length := Machine.counted_iff.1 counted
  have nesting : (k.announced id).calls.nesting = k.nesting := congrArg CallStack.nesting kept.calls
  cases opened : k.handlers with
  | nil =>
      have closed : (k.announced id).handlers = [] := kept.handlers.trans opened
      have raised : raise { k.driven with failure := some (.exception id, rest) } id
          = { machine := { k.announced id with
                calls := (k.announced id).calls.truncate 0, control := .running }
              loops := entries k.links
              uncaught := some id } := by
        unfold raise
        dsimp only [Machine.driven]
        rw [closed]
      rw [raised, Machine.raise_of_nil opened]
      refine ⟨entries k.links, (List.append_nil _).symm, fun loop member => ?_, .inr ⟨_, rfl⟩, rooted,
        nesting.trans counts, ?_, rfl, ?_⟩
      · have shallow : ((k.announced id).calls.truncate 0).depth = 0 := by
          rw [CallStack.depth_eq, CallStack.frames_truncate, Nat.sub_zero, List.drop_length]
          rfl
        change ((k.announced id).calls.truncate 0).depth < loop.base
        rw [shallow]
        exact (base_le member).1
      · change (k.announced id).calls.nesting ≤ (k.announced id).limits.nesting
        rw [nesting, kept.limits]
        exact room
      · refine ⟨?_, closed, ?_⟩
        · change ((k.announced id).calls.truncate 0).frames = []
          rw [CallStack.frames_truncate, Nat.sub_zero, List.drop_length]
        · rw [← closed]
  | cons h hs =>
      have first : (k.announced id).handlers = h :: hs := kept.handlers.trans opened
      let calls := (k.calls.truncate h.frameDepth).modifyTop (·.recover h)
      have raised : raise { k.driven with failure := some (.exception id, rest) } id
          = { machine := { k.announced id with
                calls, handlers := hs, current := some id, control := .running }
              loops := entries k.links } := by
        unfold raise
        dsimp only [Machine.driven]
        rw [first]
        dsimp only [calls]
        rw [kept.calls]
      have recovers (f : Frame) : (f.recover h).returns = f.returns := rfl
      have recounted : calls.recount = Machine.unwind k.calls h := recount_modifyTop recovers _
      have links : (k.raise id).links = k.links.drop (k.frames.length - h.frameDepth) := by
        rw [Machine.links, Machine.frames_raise_of_cons opened, Machine.links, ← List.map_drop]
        cases k.frames.drop (k.frames.length - h.frameDepth) <;> rfl
      have depth : calls.depth = (k.raise id).links.length := by
        have length : calls.recount.frames.length = (Machine.unwind k.calls h).frames.length :=
          congrArg (fun calls => (CallStack.frames calls).length) recounted
        rw [Machine.links, List.length_map, Machine.raise_of_cons opened, calls.depth_eq]
        exact length
      obtain ⟨gone, split, deep⟩ := entries_drop k.links (k.frames.length - h.frameDepth)
      rw [← links] at split deep
      have running : (k.raise id).control = .running := by rw [Machine.raise_of_cons opened]
      rw [raised]
      have nesting : calls.nesting = k.nesting := CallStack.nesting_modifyTop _ _
      refine ⟨gone, split, fun loop member => ?_, .inr ⟨_, rfl⟩, rooted, nesting.trans counts, ?_, rfl,
        ?_, ?_⟩
      · exact depth ▸ deep loop member
      · change calls.nesting ≤ (k.announced id).limits.nesting
        rw [nesting, kept.limits]
        exact room
      · rw [Machine.raise_of_cons opened, ← recounted]
      · exact (live.rooted_running running).1

/-- An exception that has come to the host ends the call. -/
theorem bound_fail {k : Machine} {id : ExceptionId} {failure : Option (RunError × Pending)}
    (counted : k.Counted) (none' : k.frames = []) (closed : k.handlers = []) :
    fail { k.driven with failure } (.exception id) = (k.raise id).driven := by
  have none : k.links = [] := congrArg (List.map Frame.returns) none'
  have idle : k.nesting = 0 := by
    rw [Machine.counted_iff.1 counted, none]
    rfl
  have told : k.tell id false = k.announced id := by
    rw [Machine.announced, closed]
    rfl
  have kept := k.keeps_announced id
  have cleared : (k.announced id).calls.truncate 0 = .empty := by
    rw [kept.calls]
    exact Unwinding.calls_cleared none' idle
  have shut : (k.announced id).handlers = [] := kept.handlers.trans closed
  rw [Machine.raise_of_nil closed]
  unfold fail
  dsimp only [Machine.driven]
  rw [told, cleared, none, ← shut]
  rfl

/-! ## Ways to the end of an action -/

/-- The instruction that the next step dispatches, if it dispatches one. -/
def dispatches? (d : Dispatcher) : Option Instruction :=
  match d.failure, d.machine.control, d.loops, d.machine.frames with
  | none, .running, loop :: _, frame :: _ =>
      if d.machine.calls.depth < loop.base then none else frame.next?
  | _, _, _, _ => none

/-- No error is on its way, and no loop has to return because its entry frame is gone. -/
structure Acts (d : Dispatcher) : Prop where
  quiet : d.failure = none
  loops : ∀ loop ∈ d.loops, loop.base ≤ d.machine.calls.depth

theorem acts_driven (m : Machine) : m.driven.Acts where
  quiet := rfl
  loops loop member := by
    change loop.base ≤ m.calls.depth
    rw [m.depth_eq]
    exact (base_le member).2

theorem dispatches?_driven (live : m.Live) (running : m.control = .running) {f : Frame}
    {below : List Frame} (top : m.frames = f :: below) : m.driven.dispatches? = f.next? := by
  obtain ⟨loop, loops, first⟩ := List.exists_cons_of_ne_nil (live.rooted_running running).1
  have high : ¬ m.calls.depth < loop.base :=
    Nat.not_lt.2 ((acts_driven m).loops loop (List.mem_of_mem_head? (congrArg List.head? first)))
  unfold dispatches?
  dsimp only [Machine.driven]
  rw [running, first, top]
  exact if_neg high

theorem dispatches?_of_failure {error : RunError × Pending} (failing : d.failure = some error) :
    d.dispatches? = none := by
  unfold dispatches?
  rw [failing]

theorem run_step (count : Nat) (d : Dispatcher) : run (count + 1) d = run count d.step := by
  rw [Nat.add_comm, run_add, run_succ]
  rfl

namespace Unwinding

variable {gone : List DispatchLoop}

theorem dispatches? (unwinding : d.Unwinding n gone) : d.dispatches? = none := by
  rcases unwinding.failure with ⟨quiet, some⟩ | ⟨rest, failing⟩
  · obtain ⟨loop, gone, rfl⟩ := List.exists_cons_of_ne_nil some
    have away := unwinding.away loop List.mem_cons_self
    unfold Dispatcher.dispatches?
    rw [quiet, unwinding.control, unwinding.loops, List.cons_append]
    cases d.machine.frames with
    | nil => rfl
    | cons f below => exact if_pos away
  · exact dispatches?_of_failure failing

theorem not_acts (unwinding : d.Unwinding n gone) : ¬ d.Acts := by
  intro acts
  rcases unwinding.failure with ⟨_, some⟩ | ⟨rest, failing⟩
  · obtain ⟨loop, gone, rfl⟩ := List.exists_cons_of_ne_nil some
    have member : loop ∈ d.loops := by
      rw [unwinding.loops]
      exact List.mem_cons_self
    exact absurd (acts.loops loop member) (Nat.not_le.2 (unwinding.away loop List.mem_cons_self))
  · cases failing.symm.trans acts.quiet

/-- All loops that have to return do so. -/
theorem arrives (unwinding : d.Unwinding n gone) : ∃ more, d.run more = n.driven ∧
    ∀ j < more, (d.run j).dispatches? = none ∧ (d.run j).machine.frames = n.frames := by
  generalize bound : d.weight = weight
  induction weight using Nat.strongRecOn generalizing d gone with
  | _ weight ih =>
      obtain ⟨less, there | ⟨gone', further⟩⟩ := unwinding.step
      · refine ⟨1, ?_, fun j few => ?_⟩
        · rw [run_step, there]
          rfl
        · obtain rfl := Nat.lt_one_iff.1 few
          exact ⟨unwinding.dispatches?, unwinding.frames⟩
      · obtain ⟨more, there, meanwhile⟩ := ih _ (bound ▸ less) further rfl
        refine ⟨more + 1, ?_, fun j few => ?_⟩
        · rw [run_step]
          exact there
        · cases j with
          | zero => exact ⟨unwinding.dispatches?, unwinding.frames⟩
          | succ j =>
              rw [run_step]
              exact meanwhile j (Nat.lt_of_succ_lt_succ few)

end Unwinding

/-- A run that has ended raises nothing. -/
theorem isDone_of_raises {e : Raised} (failed : m.upcoming.result m = (.error e, n)) :
    m.isDone = false := by
  unfold Machine.upcoming at failed
  unfold Machine.isDone
  cases control : m.control with
  | running => rfl
  | delivering v pending => rfl
  | returned v =>
      rw [control] at failed
      cases failed
  | uncaught id =>
      rw [control] at failed
      cases failed

/-- The machine can carry out the action, and is sound afterwards. -/
structure Ready (m : Machine) (a : Action Unit) : Prop where
  /-- A run that has ended raises nothing. -/
  busy : ∀ e n, a.result m = (.error e, n) → m.isDone = false
  moves : Moves m (a.result m)
  steady : m.Steady (a.result m).2
  before : m.Roomy
  live : (m.perform a).Live
  counted : (m.perform a).Counted
  room : (m.perform a).Roomy

/-- What is done after the action can be done. -/
theorem Ready.next (ready : Ready m a) : Ready (m.perform a) (m.perform a).upcoming where
  busy _ _ failed := isDone_of_raises failed
  moves := ready.live.moves
  steady := (m.perform a).upcoming_steady
  before := ready.room
  live := ready.live.step
  counted := ready.counted.step
  room := ready.room.perform ready.counted ready.live.moves ready.counted.upcoming
    (m.perform a).upcoming_steady

theorem Ready.bound_step (ready : Ready m a) :
    Bound (m.perform a) (m.perform a).upcoming (m.perform a).driven.step :=
  Dispatcher.bound_step ready.live ready.counted ready.room

section

variable {e : Raised} {k : Machine} {finish : Finish}

/-- An exception leaves the instruction that raised it, or the call of the host. -/
theorem failing_ends (ready : Ready m a) (failed : a.result m = (.error e, n))
    (rooted : Rooted (⟨[], finish⟩ :: waiting (entries n.links))) (counted : n.Counted)
    (room : n.nesting ≤ n.limits.nesting)
    (bottom : entries n.links = [] → n.frames = [] ∧ n.handlers = []) {d : Dispatcher}
    (failing : d = { (e.resolve n).2.driven with
      failure := some (.exception (e.resolve n).1, ⟨[], finish⟩) }) :
    d.step = (m.perform a).driven ∨ ∃ gone, d.step.Unwinding (m.perform a) gone := by
  have kept := e.keeps_resolve n
  have performed := Machine.perform_of_error failed
  have live := ready.live
  rw [performed] at live ⊢
  rw [← kept.links] at rooted bottom
  have counted' : (e.resolve n).2.Counted := counted.kept kept
  have room' : (e.resolve n).2.nesting ≤ (e.resolve n).2.limits.nesting := by
    have nesting : (e.resolve n).2.nesting = n.nesting := congrArg CallStack.nesting kept.calls
    rw [kept.limits, nesting]
    exact room
  have ends : finish = .halt ↔ entries (e.resolve n).2.links = [] :=
    rooted.1.trans waiting_eq_nil
  have step : d.step = d.passOn (.exception (e.resolve n).1) ⟨[], finish⟩ := by
    rw [failing]
    rfl
  rw [step]
  by_cases last : finish = .halt
  · obtain ⟨none, closed⟩ := bottom (ends.1 last)
    left
    rw [last, passOn_halt, failing]
    exact bound_fail counted' (kept.frames.trans none) (kept.handlers.trans closed)
  · have inner : entries (e.resolve n).2.links ≠ [] := fun none => last (ends.2 none)
    obtain ⟨gone, unwinding⟩ := unwinding_raise counted' room' rooted live
    obtain ⟨quiet, loops⟩ := raise_quiet d (e.resolve n).1
    rw [← failing] at unwinding
    rcases hx : raise d (e.resolve n).1 with ⟨m', loops', failure, uncaught⟩
    rw [hx] at quiet loops unwinding
    obtain rfl : failure = none := quiet
    obtain rfl : loops' = d.loops := loops
    have some : d.loops ≠ [] := by
      rw [failing]
      exact inner
    rw [passOn_exception last, hx]
    exact (unwinding.release some).imp_right fun further => ⟨gone, further⟩

/-- An exception passes what is left of the operation that raised it. Then frames go, and after
them the loops that ran them. -/
theorem failing_arrives (ready : Ready m a) (failed : a.result m = (.error e, n))
    {tasks : List Task} (rooted : Rooted (⟨tasks, finish⟩ :: waiting (entries n.links)))
    (counted : n.Counted) (room : n.nesting ≤ n.limits.nesting)
    (bottom : entries n.links = [] → n.frames = [] ∧ n.handlers = []) {d : Dispatcher}
    (failing : d = { (e.resolve n).2.driven with
      failure := some (.exception (e.resolve n).1, ⟨tasks, finish⟩) }) :
    ∃ more, tasks.length < more ∧ d.run more = (m.perform a).driven ∧
      ∀ j < more, (d.run j).dispatches? = none ∧ (d.run j).machine.frames
        = if j ≤ tasks.length then d.machine.frames else (m.perform a).frames := by
  have quiet : d.dispatches? = none := by
    rw [failing]
    exact dispatches?_of_failure rfl
  induction tasks generalizing d with
  | nil =>
      rcases failing_ends ready failed rooted counted room bottom failing with
        there | ⟨gone, unwinding⟩
      · refine ⟨1, Nat.one_pos, ?_, fun j few => ?_⟩
        · rw [run_step, there]
          rfl
        · obtain rfl := Nat.lt_one_iff.1 few
          exact ⟨quiet, rfl⟩
      · obtain ⟨more, there, meanwhile⟩ := unwinding.arrives
        refine ⟨more + 1, Nat.succ_pos more, ?_, fun j few => ?_⟩
        · rw [run_step, there]
        · cases j with
          | zero => exact ⟨quiet, rfl⟩
          | succ j =>
              rw [run_step]
              exact meanwhile j (Nat.lt_of_succ_lt_succ few)
  | cons task tasks ih =>
      have step : d.step = { (e.resolve n).2.driven with
          failure := some (.exception (e.resolve n).1, ⟨tasks, finish⟩) } := by
        rw [failing]
        rfl
      have frames : d.step.machine.frames = d.machine.frames := by
        rw [step, failing]
      have still : d.step.dispatches? = none := by
        rw [step]
        exact dispatches?_of_failure rfl
      obtain ⟨more, after, there, meanwhile⟩ := ih rooted step still
      refine ⟨more + 1, Nat.succ_lt_succ after, ?_, fun j few => ?_⟩
      · rw [run_step, there]
      · cases j with
        | zero => exact ⟨quiet, rfl⟩
        | succ j =>
            obtain ⟨silent, same⟩ := meanwhile j (Nat.lt_of_succ_lt_succ few)
            rw [run_step, same, frames, List.length_cons]
            exact ⟨silent, if_congr Nat.succ_le_succ_iff.symm rfl rfl⟩

/-- Raising never leaves more frames. -/
theorem frames_perform_le (failed : a.result m = (.error e, n)) :
    (m.perform a).frames.length ≤ n.frames.length := by
  have kept := e.keeps_resolve n
  obtain ⟨count, dropped⟩ := (e.resolve n).2.links_raise (e.resolve n).1
  have lengths := congrArg List.length dropped
  rw [kept.links, List.length_drop, Machine.links, Machine.links, List.length_map,
    List.length_map] at lengths
  rw [Machine.perform_of_error failed, lengths]
  exact Nat.sub_le _ _

end

namespace Bound

/-- The dispatcher gets where the machine gets by itself. -/
theorem arrives (ready : Ready m a) (bound : Bound m a d) :
    ∃ more, d.run more = (m.perform a).driven := by
  cases bound with
  | arrived => exact ⟨0, rfl⟩
  | failing failed rooted counted room bottom =>
      obtain ⟨more, _, there, _⟩ := failing_arrives ready failed rooted counted room bottom rfl
      exact ⟨more, there⟩
  | unwinding failed unwinding =>
      obtain ⟨more, there, _⟩ := unwinding.arrives
      exact ⟨more, there⟩

/-- On its way the dispatcher does not act, and gets no more frames. -/
theorem step (ready : Ready m a) (bound : Bound m a d) : d = (m.perform a).driven ∨
    ¬ d.Acts ∧ Bound m a d.step ∧ d.step.machine.frames.length ≤ d.machine.frames.length := by
  have there : Bound m a (m.perform a).driven := .arrived
  cases bound with
  | arrived => exact .inl rfl
  | @failing n e rest failed rooted counted room bottom =>
      have fewer := frames_perform_le failed
      rw [← (e.keeps_resolve n).frames] at fewer
      refine .inr ⟨fun acts => Option.some_ne_none _ acts.quiet, ?_⟩
      obtain ⟨tasks, finish⟩ := rest
      cases tasks with
      | cons task tasks => exact ⟨.failing failed rooted counted room bottom, Nat.le_refl _⟩
      | nil =>
          rcases failing_ends ready failed rooted counted room bottom rfl with
            arrived | ⟨gone, unwinding⟩
          · rw [arrived]
            exact ⟨there, fewer⟩
          · exact ⟨.unwinding failed unwinding, unwinding.frames ▸ fewer⟩
  | unwinding failed unwinding =>
      refine .inr ⟨unwinding.not_acts, ?_⟩
      obtain ⟨_, arrived | ⟨gone, further⟩⟩ := unwinding.step
      · rw [arrived, unwinding.frames]
        exact ⟨there, Nat.le_refl _⟩
      · rw [further.frames, unwinding.frames]
        exact ⟨.unwinding failed further, Nat.le_refl _⟩

/-- A dispatcher that acts has come to the end of an action. -/
theorem eq_driven (ready : Ready m a) (bound : Bound m a d) (acts : d.Acts) :
    d = (m.perform a).driven :=
  (bound.step ready).resolve_right fun underway => underway.1 acts

/-- Frames are pushed at the end of an action only. -/
theorem eq_driven_of_more (ready : Ready m a) (bound : Bound m a d)
    (more : m.frames.length < d.machine.frames.length) : d = (m.perform a).driven := by
  have same {n : Machine} {e : Raised} (failed : a.result m = (.error e, n)) :
      n.frames.length = m.frames.length := by
    have moves := ready.moves
    rw [failed] at moves
    have lengths := congrArg List.length moves.links_error.1
    rwa [Machine.links, Machine.links, List.length_map, List.length_map] at lengths
  cases bound with
  | arrived => rfl
  | @failing n e rest failed =>
      have kept : (e.resolve n).2.frames.length < (e.resolve n).2.frames.length := by
        conv_lhs => rw [(e.keeps_resolve n).frames, same failed]
        exact more
      exact absurd kept (Nat.lt_irrefl _)
  | unwinding failed unwinding =>
      rw [unwinding.frames] at more
      have fewer := frames_perform_le failed
      rw [same failed] at fewer
      exact absurd more (Nat.not_lt.2 fewer)

/-- A run does not end while an error is on its way. -/
theorem acts_of_isDone (ready : Ready m a) (bound : Bound m a d)
    (done : d.machine.isDone = true) : d.Acts := by
  cases bound with
  | arrived => exact acts_driven _
  | @failing n e rest failed =>
      have moves := ready.moves
      rw [failed] at moves
      have control := (e.keeps_resolve n).control.trans moves.links_error.2.2
      have busy := ready.busy e n failed
      unfold Machine.isDone at busy done
      rw [← control] at busy
      exact absurd (done.symm.trans busy) Bool.noConfusion
  | unwinding _ unwinding =>
      unfold Machine.isDone at done
      rw [unwinding.control] at done
      cases done

end Bound

end Dispatcher

/-! ## Runs of the dispatcher -/

namespace Machine

variable {m : Machine} {a : Action Unit}

/-- After an action that the machine carries out first it takes steps: what acts at each turn, and
what it does. -/
def turn (m : Machine) (a : Action Unit) : Nat → Machine × Action Unit
  | 0 => (m, a)
  | count + 1 => ((m.perform a).run count, ((m.perform a).run count).upcoming)

theorem turn_perform (m : Machine) (a : Action Unit) (count : Nat) :
    (m.turn a count).1.perform (m.turn a count).2 = (m.perform a).run count := by
  cases count with
  | zero => rfl
  | succ count => exact (run_succ count (m.perform a)).symm

end Machine

namespace Dispatcher

variable {d : Dispatcher} {m : Machine} {a : Action Unit}

/-- The dispatcher is on its way to the end of a turn. -/
def At (m : Machine) (a : Action Unit) (count : Nat) (d : Dispatcher) : Prop :=
  Bound (m.turn a count).1 (m.turn a count).2 d

theorem Ready.turn (ready : Ready m a) (count : Nat) :
    Ready (m.turn a count).1 (m.turn a count).2 := by
  induction count with
  | zero => exact ready
  | succ count ih =>
      have next := ih.next
      rw [m.turn_perform] at next
      exact next

namespace At

/-- A dispatcher that acts is where the machine gets by itself. -/
theorem eq_driven (ready : Ready m a) {count : Nat} (on : d.At m a count) (acts : d.Acts) :
    d = ((m.perform a).run count).driven := by
  have there := Bound.eq_driven (ready.turn count) on acts
  rw [m.turn_perform] at there
  exact there

theorem acts_of_isDone (ready : Ready m a) {count : Nat} (on : d.At m a count)
    (done : d.machine.isDone = true) : d.Acts :=
  Bound.acts_of_isDone (ready.turn count) on done

/-- The dispatcher stays on its way or begins the next turn. -/
theorem step (ready : Ready m a) {count : Nat} (on : d.At m a count) :
    d.step.At m a count ∨
      d = ((m.perform a).run count).driven ∧ d.step.At m a (count + 1) := by
  rcases Bound.step (ready.turn count) on with there | ⟨_, further, _⟩
  · have next := (ready.turn count).bound_step
    rw [← there, there, m.turn_perform] at next
    rw [m.turn_perform] at there
    rw [there]
    exact .inr ⟨rfl, next⟩
  · exact .inl further

/-- Whatever the dispatcher has come to, it has been through every turn in between. -/
theorem course (ready : Ready m a) {first : Nat} (on : d.At m a first) (steps : Nat) :
    ∃ count, first ≤ count ∧ count ≤ first + steps ∧ (d.run steps).At m a count ∧
      ∀ j, first ≤ j → j < count → ∃ s < steps, d.run s = ((m.perform a).run j).driven := by
  induction steps with
  | zero => exact ⟨first, Nat.le_refl _, Nat.le_refl _, on, fun j late early => by omega⟩
  | succ steps ih =>
      obtain ⟨count, after, near, on, passed⟩ := ih
      rw [run_succ]
      rcases on.step ready with still | ⟨there, next⟩
      · refine ⟨count, after, by omega, still, fun j late early => ?_⟩
        obtain ⟨s, before, same⟩ := passed j late early
        exact ⟨s, by omega, same⟩
      · refine ⟨count + 1, by omega, by omega, next, fun j late early => ?_⟩
        rcases Nat.lt_succ_iff_lt_or_eq.1 early with sooner | rfl
        · obtain ⟨s, before, same⟩ := passed j late sooner
          exact ⟨s, by omega, same⟩
        · exact ⟨steps, Nat.lt_succ_self _, there⟩

/-- The dispatcher comes to the end of every turn. -/
theorem reaches (ready : Ready m a) (on : d.At m a 0) (count : Nat) :
    ∃ steps, d.run steps = ((m.perform a).run count).driven := by
  induction count with
  | zero => exact Bound.arrives ready on
  | succ count ih =>
      obtain ⟨steps, there⟩ := ih
      have next := (ready.turn count).bound_step
      rw [m.turn_perform] at next
      obtain ⟨more, arrived⟩ := Bound.arrives (ready.turn (count + 1)) next
      refine ⟨steps + (more + 1), ?_⟩
      rw [run_add, there, run_step, arrived, m.turn_perform]

end At

end Dispatcher

end ScriptMachine
