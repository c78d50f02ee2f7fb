import ScriptMachine.Proofs.Machine.Dispatch
import ScriptMachine.Proofs.Machine.Effects

/-!
How frames and regions change. A step of a live machine changes the topmost frame and no other:
the frame gives operands away, gets values, opens or closes a region of its own, calls, or ends.
What its open regions will find on its operand stack is never touched. All that is said of whole
runs about frames and regions is derived from this.
-/

namespace ScriptMachine

open ScriptMachine.Action

/-- The topmost frame went on to another instruction and gave operands away, but none that an
open region of its own will find. Or nothing of this happened. -/
inductive Spent (handlers : List Handler) : List Frame → List Frame → Prop where
  | nothing (frames : List Frame) : Spent handlers frames frames
  | operands {f : Frame} {rest : List Frame} {s : List Value} (ip : Nat) : s <:+ f.stack →
      (∀ h ∈ handlers, h.frameDepth = rest.length + 1 → h.stackHeight ≤ s.length) →
      Spent handlers (f :: rest) ({ f with ip, stack := s } :: rest)

/-- The frame with values on its operand stack. -/
def Frame.given (values : List Value) (f : Frame) : Frame :=
  { f with stack := values ++ f.stack }

/-- What an action that is carried out next does to frames and regions. -/
inductive Moves (m : Machine) : Except Raised Unit × Machine → Prop where
  | raises {n : Machine} {e : Raised} : Spent m.handlers m.frames n.frames →
      n.handlers = m.handlers → n.control = m.control → Moves m (.error e, n)
  | fills {n : Machine} {frames : List Frame} (values : List Value) :
      Spent m.handlers m.frames frames → n.frames = frames.modifyHead (·.given values) →
      n.handlers = m.handlers → Moves m (.ok (), n)
  | calls {n : Machine} {frames : List Frame} {f : Frame} : Spent m.handlers m.frames frames →
      frames.length < m.limits.frames →
      (f.returns.isNested = true → m.nesting < m.limits.nesting) →
      n.frames = f :: frames → n.handlers = m.handlers → Moves m (.ok (), n)
  | opens {n : Machine} {f : Frame} {rest : List Frame} {i : Instruction} :
      m.control = .running → m.frames = f :: rest → f.next? = some i →
      i.op = .pushExceptionHandler → n.frames = { f with ip := f.ip + 1 } :: rest →
      n.handlers = ⟨rest.length + 1, i.arg, f.stack.length⟩ :: m.handlers → Moves m (.ok (), n)
  | closes {n : Machine} {f : Frame} {rest : List Frame} {h : Handler} :
      m.frames = f :: rest → n.frames = { f with ip := f.ip + 1 } :: rest →
      h.frameDepth = rest.length + 1 → m.handlers = h :: n.handlers → Moves m (.ok (), n)
  | ends {n : Machine} {f : Frame} {rest : List Frame} (values : List Value) :
      m.control = .running → m.frames = f :: rest → f.next? = none →
      n.frames = rest.modifyHead (·.given values) →
      n.handlers = m.handlers.dropWhile (rest.length < ·.frameDepth) → Moves m (.ok (), n)

theorem modifyHead_given_nil (frames : List Frame) :
    frames.modifyHead (·.given []) = frames := by
  cases frames <;> rfl

namespace Machine

theorem frames_given (m : Machine) (values : List Value) :
    (m.withStack (values ++ m.stack)).frames = m.frames.modifyHead (·.given values) := by
  rw [frames_withStack, stack]
  cases m.frames <;> rfl

/-- The part of the operand stack that an open region will find is still there in the middle of
an instruction. -/
theorem Executing.floor {m : Machine} {i : Instruction} {l : Layout} {taken : Nat}
    (executing : m.Executing i l taken) :
    ∀ h ∈ m.handlers, h.frameDepth = m.frames.length → h.stackHeight ≤ m.stack.length := by
  obtain ⟨_, ⟨f, rest, below, top, executes, stacked, handlers⟩, _⟩ := executing
  intro h member own
  rw [top, List.length_cons] at own
  rw [handlers] at member
  rcases List.mem_append.1 member with here | lower
  · obtain ⟨r, opened, rfl⟩ := List.mem_map.1 here
    obtain ⟨pool, sketch, runs⟩ := executes.runs
    obtain ⟨_, _, _, fits⟩ := executes.fits runs
    have above : r.height + i.pops ≤ l.depth := fits.above r opened
    have depth := executes.depth
    have operands := executes.operands
    rw [stack, top]
    change r.height ≤ f.stack.length
    omega
  · have low := stacked.owned h lower
    omega

end Machine

/-- Whatever an operation comes to, it moves frames and regions in one of the ways. -/
theorem Upshot.moves {demand : Demand} {m n : Machine} {r : Except Raised Unit × Machine}
    (upshot : Upshot demand n r) (spent : Spent m.handlers m.frames n.frames)
    (handlers : n.handlers = m.handlers) (control : n.control = m.control)
    (nesting : n.nesting = m.nesting) (limits : n.limits = m.limits) : Moves m r := by
  cases upshot with
  | delivers v _ =>
      exact .fills [] spent (modifyHead_given_nil _).symm handlers
  | @calls f event starts _ =>
      have kept := Machine.keeps_note { n with calls := n.calls.push f, control := .running } event
      have room : n.frames.length < m.limits.frames := by
        rw [← limits]
        exact n.calls.depth_eq ▸ starts.room
      refine .calls (f := f) spent room (fun nested => ?_) kept.frames (kept.handlers.trans handlers)
      rw [← limits, ← nesting]
      exact starts.nested nested
  | raises _ => exact .raises spent handlers control
  | fills values _ => exact .fills values spent (Machine.frames_given _ values) handlers
  | halts v _ => exact .fills [] spent (modifyHead_given_nil _).symm handlers

namespace Dispatched

open Machine (Executing)

variable {m : Machine} {f : Frame} {rest : List Frame} {i : Instruction} {l : Layout}

/-- A frame that has fetched an instruction and given operands away. -/
theorem spent {m₁ : Machine} {operands s : List Value} (handlers : m₁.handlers = m.handlers)
    (top : m.frames = f :: rest) (fetched : m₁.frames = { f with ip := f.ip + 1 } :: rest)
    (executing : m₁.Executing i l 0) (found : m₁.stack = operands ++ s)
    (length : operands.length ≤ i.pops) (ip : Nat) :
    Spent m.handlers m.frames ({ f with ip, stack := s } :: rest) := by
  have own : m₁.stack = f.stack := by rw [Machine.stack, fetched]
  have floor := (executing.taken found length).floor
  have frames : (m₁.withStack s).frames = { f with ip := f.ip + 1, stack := s } :: rest := by
    rw [Machine.frames_withStack, fetched]
    rfl
  rw [top]
  refine .operands ip ⟨operands, by rw [← found, own]⟩ fun h member deep => ?_
  have high := floor h (by rw [← handlers] at member; exact member)
    (by rw [frames, List.length_cons]; exact deep)
  rw [Machine.stack, frames] at high
  exact high

/-- However an instruction is dispatched, it moves frames and regions in one of the ways. -/
theorem moves {m₁ : Machine} {r : Except Raised Unit × Machine} (dispatched : Dispatched m₁ i r)
    (executing : m₁.Executing i l 0) (running : m.control = .running) (top : m.frames = f :: rest)
    (next : f.next? = some i) (fetched : m₁.frames = { f with ip := f.ip + 1 } :: rest)
    (handlers : m₁.handlers = m.handlers) (nesting : m₁.nesting = m.nesting)
    (limits : m₁.limits = m.limits) : Moves m r := by
  have own : m₁.stack = f.stack := by rw [Machine.stack, fetched]
  have still : m₁.control = m.control := executing.running.trans running.symm
  have left (s : List Value) :
      (m₁.withStack s).frames = { f with ip := f.ip + 1, stack := s } :: rest := by
    rw [Machine.frames_withStack, fetched]
    rfl
  have spent {operands s : List Value} (found : m₁.stack = operands ++ s)
      (length : operands.length ≤ i.pops) (ip : Nat) :
      Spent m.handlers m.frames ({ f with ip, stack := s } :: rest) :=
    Dispatched.spent handlers top fetched executing found length ip
  cases dispatched with
  | @answers operands s a found length falls answers =>
      have sound : (m₁.withStack s).heap.Sound := executing.heap
      obtain ⟨n, kept, upshot⟩ := answers.upshot sound fun _ => executing.running
      have frames : n.frames = { f with ip := f.ip + 1, stack := s } :: rest :=
        kept.frames.trans (left s)
      have counted : n.nesting = m.nesting :=
        (congrArg CallStack.nesting kept.calls).trans
          ((CallStack.nesting_modifyTop _ _).trans nesting)
      refine upshot.moves ?_ (kept.handlers.trans handlers) (kept.control.trans still) counted
        (kept.limits.trans limits)
      rw [frames]
      exact spent found (Nat.le_of_eq length) _
  | @fills operands s values found length _ _ =>
      exact .fills values (spent found (Nat.le_of_eq length) _) (left _) handlers
  | @loads v _ _ =>
      refine .fills [v] (spent (List.nil_append _).symm (Nat.zero_le _) (f.ip + 1)) ?_ handlers
      rw [left]
      rfl
  | @stays operands s found length _ _ =>
      exact .fills [] (spent found length _) (left s) handlers
  | @jumps operands s target found length _ _ =>
      refine .fills [] (spent found length target) ?_ handlers
      rw [Machine.frames_withIp, left]
      rfl
  | @raises v s is found =>
      have one : [v].length ≤ i.pops := by simp [Instruction.pops, is]
      have quiet := exceptionOf_quiet v
      have kept := quiet.keeps (m₁.withStack s)
      have given : Spent m.handlers m.frames ({ f with ip := f.ip + 1, stack := s } :: rest) :=
        spent found one _
      unfold raiseValue
      rw [result_bind]
      rcases done : (exceptionOf v).result (m₁.withStack s) with ⟨e | id, n⟩
      all_goals
        rw [done] at kept
        have frames : n.frames = { f with ip := f.ip + 1, stack := s } :: rest :=
          kept.frames.trans (left s)
        refine .raises ?_ (kept.handlers.trans handlers) (kept.control.trans still)
        rw [frames]
        exact given
  | opens is =>
      have depth : m₁.calls.depth = rest.length + 1 := by
        rw [m₁.calls.depth_eq]
        exact congrArg List.length fetched
      refine .opens running top next is ((Machine.keeps_note _ _).frames.trans fetched) ?_
      · refine (Machine.keeps_note _ _).handlers.trans ?_
        change _ :: m₁.handlers = _
        rw [handlers, depth, fetched]
        rfl
  | closes is =>
      obtain ⟨h, hs, opened, deep⟩ := executing.closing is
      have after : (closeRegion.result m₁).2.handlers = m₁.handlers.tail :=
        (Machine.keeps_note _ _).handlers
      rw [opened] at after
      rw [fetched] at deep
      refine .closes (h := h) top ((Machine.keeps_note _ _).frames.trans fetched) deep ?_
      rw [← handlers, opened]
      exact congrArg (h :: ·) after.symm
  | returns is =>
      rw [execute_ret is]
      refine .fills [] (spent (List.nil_append _).symm (Nat.zero_le _) f.method.code.body.size) ?_ handlers
      change (m₁.calls.modifyTop _).frames = _
      rw [CallStack.frames_modifyTop]
      change m₁.frames.modifyHead _ = _
      rw [fetched, own]
      rfl

end Dispatched

namespace Machine

/-- Whoever gets what a frame returns gets it on the operand stack, or not at all. -/
theorem result_handOver (m : Machine) (returns : Returns) (v : Value) :
    ∃ n values, (handOver returns v).result m = (.ok (), n) ∧
      n.frames = m.frames.modifyHead (·.given values) ∧ n.handlers = m.handlers := by
  have idle : m.frames = m.frames.modifyHead (·.given []) := (modifyHead_given_nil m.frames).symm
  have pushed (v : Value) : ∃ n values, (push v).result m = (.ok (), n) ∧
      n.frames = m.frames.modifyHead (·.given values) ∧ n.handlers = m.handlers :=
    ⟨_, [v], result_push v m, frames_given m [v], rfl⟩
  cases returns with
  | value => exact pushed v
  | «instance» id => exact pushed _
  | nothing => exact ⟨m, [], rfl, idle, rfl⟩
  | resume pending => exact ⟨_, [], rfl, idle, rfl⟩

/-- A frame that ends goes with the regions it left open. -/
theorem result_end {m : Machine} {f : Frame} {rest : List Frame} (top : m.frames = f :: rest)
    (atEnd : f.next? = none) : ∃ n values, advance.result m = (.ok (), n) ∧
      n.frames = rest.modifyHead (·.given values) ∧
      n.handlers = m.handlers.dropWhile (rest.length < ·.frameDepth) := by
  have depth : m.calls.pop.depth = rest.length := by
    rw [m.calls.pop.depth_eq, CallStack.frames_pop, show m.calls.frames = f :: rest from top]
    rfl
  have frames : (ended m).frames = rest := by
    rw [(keeps_ended m).frames]
    change m.frames.tail = _
    rw [top]
    rfl
  have handlers : (ended m).handlers = m.handlers.dropWhile (rest.length < ·.frameDepth) := by
    rw [(keeps_ended m).handlers, ← depth]
    rfl
  obtain ⟨n, values, done, after, left⟩ := (ended m).result_handOver f.returns (f.stack.headD .null)
  refine ⟨n, values, ?_, frames ▸ after, left.trans handlers⟩
  rw [result_advance_end top atEnd, result_finish top, done]

/-- What is done next moves frames and regions in one of the ways. -/
theorem Live.moves {m : Machine} (live : m.Live) : Moves m (m.upcoming.result m) := by
  have idle : m.frames = m.frames.modifyHead (·.given []) :=
    (modifyHead_given_nil m.frames).symm
  unfold upcoming
  cases control : m.control with
  | running =>
      obtain ⟨f, rest, _, _, top, _⟩ := live.standing control
      cases next : f.next? with
      | none =>
          obtain ⟨n, values, done, after, left⟩ := result_end top next
          dsimp only
          rw [done]
          exact .ends values control top next after left
      | some i =>
          obtain ⟨l, executing, expects⟩ := fetched_executing live control top next
          have kept := m.keeps_note fun _ => .instruction f.ip i.op f.stack.length m.calls.depth
          dsimp only
          rw [result_advance top next]
          exact (execute_dispatched executing expects).moves executing control top next
            (frames_fetched top i) kept.handlers
            ((CallStack.nesting_modifyTop _ _).trans (congrArg CallStack.nesting kept.calls))
            kept.limits
  | delivering v pending =>
      have sound := live.1
      obtain ⟨n, kept, upshot⟩ := (resume_answers v pending).upshot sound Bool.noConfusion
      refine upshot.moves ?_ kept.handlers kept.control (congrArg CallStack.nesting kept.calls)
        kept.limits
      rw [kept.frames]
      exact .nothing _
  | returned v => exact .fills [] (.nothing _) idle rfl
  | uncaught id => exact .fills [] (.nothing _) idle rfl

end Machine

/-! ## What becomes of what is raised -/

namespace Machine

variable {m n : Machine} {a : Action Unit} {e : Raised}

theorem perform_handOver (m : Machine) (returns : Returns) (v : Value) :
    ∃ values, (m.perform (handOver returns v)).frames = m.frames.modifyHead (·.given values) ∧
      (m.perform (handOver returns v)).handlers = m.handlers := by
  obtain ⟨n, values, done, frames, handlers⟩ := m.result_handOver returns v
  rw [perform_of_ok done]
  exact ⟨values, frames, handlers⟩

theorem step_of_end {f : Frame} {rest : List Frame} (running : m.control = .running)
    (top : m.frames = f :: rest) (atEnd : f.next? = none) :
    ∃ values, m.step.frames = rest.modifyHead (·.given values) ∧
      m.step.handlers = m.handlers.dropWhile (rest.length < ·.frameDepth) := by
  obtain ⟨n, values, done, frames, handlers⟩ := result_end top atEnd
  unfold step upcoming
  rw [running, perform_of_ok done]
  exact ⟨values, frames, handlers⟩

theorem frames_raise_of_cons {h : Handler} {hs : List Handler} (opened : m.handlers = h :: hs)
    (id : ExceptionId) : (m.raise id).frames
      = (m.frames.drop (m.frames.length - h.frameDepth)).modifyHead (·.recover h) := by
  rw [raise_of_cons opened]
  change (unwind m.calls h).frames = _
  rw [unwind, CallStack.frames_modifyTop, CallStack.frames_cutTo]
  rfl

theorem frames_raise_of_nil (closed : m.handlers = []) (id : ExceptionId) :
    (m.raise id).frames = [] := by
  rw [raise_of_nil closed]
  rfl

end Machine

/-! ## What stays -/

/-- Only raising changes which exception was caught last, nothing changes the limits, the heap
loses nothing, and no module is forgotten. -/
structure Machine.Steady (m m' : Machine) : Prop where
  current : m'.current = m.current
  limits : m'.limits = m.limits
  heap : m.heap.Keeps m'.heap
  acquires : m.Acquires m'

namespace Machine.Steady

variable {m m' : Machine}

/-- Frames, regions and control do not matter. -/
theorem of_same (current : m'.current = m.current) (limits : m'.limits = m.limits)
    (heap : m'.heap = m.heap) (modules : m'.modules = m.modules)
    (observer : m'.observer = m.observer) : m.Steady m' :=
  ⟨current, limits, heap ▸ .refl _, .of_same modules observer⟩

theorem refl (m : Machine) : m.Steady m :=
  .of_same rfl rfl rfl rfl rfl

theorem trans {m'' : Machine} (first : m.Steady m') (second : m'.Steady m'') : m.Steady m'' :=
  ⟨second.current.trans first.current, second.limits.trans first.limits,
    first.heap.trans second.heap, first.acquires.trans second.acquires⟩

theorem of_quiet {α : Type} {a : Action α} (quiet : Quiet a) (m : Machine) :
    m.Steady (a.result m).2 :=
  ⟨(quiet.keeps m).current, (quiet.keeps m).limits, (quiet.keeps m).heap, quiet.acquires m⟩

theorem noted (steady : m.Steady m') (event : Unit → Event)
    (other : ∀ name, event () ≠ .load name) : m.Steady (m'.note event) := by
  have kept := m'.keeps_note event
  exact ⟨kept.current.trans steady.current, kept.limits.trans steady.limits,
    steady.heap.trans kept.heap, steady.acquires.noted event other⟩

end Machine.Steady

theorem Made.steady {α : Type} {a : Action α} (made : Made a) (m : Machine) :
    m.Steady (a.result m).2 := by
  have activated (call : Call) (returns : Returns) (m : Machine) :
      m.Steady ((Action.activate call returns).result m).2 := by
    have kept := Machine.Steady.of_quiet (newFrame_quiet call returns) m
    unfold Action.activate
    rw [result_bind]
    rcases done : (newFrame call returns).result m with ⟨e | f, n⟩ <;> rw [done] at kept
    · exact kept
    · have pushed : n.Steady { n with calls := n.calls.push f, control := .running } :=
        .of_same rfl rfl rfl rfl rfl
      exact (kept.trans pushed).noted
        (fun _ => .call f.method.code.name (n.calls.push f).depth) fun _ => Event.noConfusion
  induction made generalizing m with
  | quiet quiet => exact .of_quiet quiet m
  | @bind _ _ a f _ _ first next =>
      have before := first m
      rw [result_bind]
      rcases done : a.result m with ⟨e | x, n⟩ <;> rw [done] at before
      · exact before
      · exact before.trans (next x n)
  | throw e => exact .refl m
  | look seen sees blind => exact .refl m
  | changeFrame keeps commutes => exact .of_same rfl rfl rfl rfl rfl
  | control control => exact .of_same rfl rfl rfl rfl rfl
  | @note event other => exact (Machine.Steady.refl m).noted (fun _ => event m) (other m)
  | openRegion target =>
      have opened : m.Steady { m with handlers :=
          { frameDepth := m.calls.depth, target := target,
            stackHeight := (m.frames.head?.map (·.stack.length)).getD 0 } :: m.handlers } :=
        .of_same rfl rfl rfl rfl rfl
      exact opened.noted (fun _ => .enterRegion (m.handlers.length + 1)) fun _ => Event.noConfusion
  | activate call _ => exact activated call _ m
  | enter call pending =>
      unfold Action.enter
      rw [result_bind_ok (result_ask _ m), result_bind_ok (result_ask _ m)]
      dsimp only
      split
      · exact .refl m
      · exact activated call (.resume pending) m

/-- What is done next leaves the exception caught last as it is, unless it raises. -/
theorem Machine.upcoming_steady (m : Machine) : m.Steady (m.upcoming.result m).2 := by
  unfold upcoming
  cases m.control with
  | delivering v pending => exact (resume_answers v pending).made.steady m
  | returned v => exact .refl m
  | uncaught id => exact .refl m
  | running =>
      dsimp only
      cases top : m.frames with
      | nil =>
          rw [result_advance_nil top]
          exact .refl m
      | cons f rest =>
          cases next : f.next? with
          | none =>
              have popped : m.Steady (popped m) := .of_same rfl rfl rfl rfl rfl
              have handed := (handOver_answers f.returns (f.stack.headD .null)).made.steady (ended m)
              rw [result_advance_end top next, result_finish top]
              exact (popped.noted _ fun _ => Event.noConfusion).trans handed
          | some i =>
              have noted := (Steady.refl m).noted
                (fun _ => .instruction f.ip i.op f.stack.length m.calls.depth)
                fun _ => Event.noConfusion
              have moved : m.Steady (fetched m f i) := noted.trans (.of_same rfl rfl rfl rfl rfl)
              rw [result_advance top next]
              by_cases closes : i.op = .popExceptionHandler
              · have closed : m.Steady { fetched m f i with
                    handlers := (fetched m f i).handlers.tail } :=
                  moved.trans (.of_same rfl rfl rfl rfl rfl)
                rw [execute_popExceptionHandler closes]
                exact closed.noted (fun _ => .leaveRegion (fetched m f i).handlers.tail.length)
                  fun _ => Event.noConfusion
              · exact moved.trans ((execute_made i closes).steady _)

/-- Raising an exception forgets nothing. -/
theorem Machine.acquires_raise (m : Machine) (id : ExceptionId) : m.Acquires (m.raise id) := by
  have traced : m.Acquires { m with heap := m.heap.setTrace id m.trace } := .of_same rfl rfl
  have announced : m.Acquires (m.announced id) := by
    unfold Machine.announced Machine.tell
    exact traced.noted _ fun _ => Event.noConfusion
  cases opened : m.handlers with
  | nil =>
      rw [raise_of_nil opened]
      exact announced.trans (.of_same rfl rfl)
  | cons h hs =>
      rw [raise_of_cons opened]
      exact announced.trans (.of_same rfl rfl)

theorem Machine.keeps_heap_raise (m : Machine) (id : ExceptionId) :
    m.heap.Keeps (m.raise id).heap := by
  have announced := (m.keeps_announced id).heap
  cases opened : m.handlers with
  | nil =>
      rw [raise_of_nil opened]
      exact announced
  | cons h hs =>
      rw [raise_of_cons opened]
      exact announced

theorem Machine.Steady.keeps_heap_perform {m : Machine} {a : Action Unit}
    (steady : m.Steady (a.result m).2) : m.heap.Keeps (m.perform a).heap := by
  rcases done : a.result m with ⟨e | x, n⟩ <;> rw [done] at steady
  · rw [perform_of_error done]
    exact (steady.heap.trans (e.keeps_resolve n).heap).trans (keeps_heap_raise _ _)
  · rw [perform_of_ok done]
    exact steady.heap

theorem Machine.Steady.acquires_perform {m : Machine} {a : Action Unit}
    (steady : m.Steady (a.result m).2) : m.Acquires (m.perform a) := by
  rcases done : a.result m with ⟨e | x, n⟩ <;> rw [done] at steady
  · have resolved : n.Acquires (e.resolve n).2 := by
      cases e <;> exact .of_same rfl rfl
    rw [perform_of_error done]
    exact (steady.acquires.trans resolved).trans (acquires_raise _ _)
  · rw [perform_of_ok done]
    exact steady.acquires

/-- A step takes nothing away from the heap. -/
theorem Machine.keeps_heap_step (m : Machine) : m.heap.Keeps m.step.heap :=
  m.upcoming_steady.keeps_heap_perform

/-- A step forgets no module, and tells of one only when it is new. -/
theorem Machine.acquires_step (m : Machine) : m.Acquires m.step :=
  m.upcoming_steady.acquires_perform

theorem Machine.keeps_heap_run (m : Machine) (count : Nat) : m.heap.Keeps (m.run count).heap := by
  induction count with
  | zero => exact .refl _
  | succ count ih =>
      rw [run_succ]
      exact ih.trans (keeps_heap_step _)

end ScriptMachine
