import ScriptMachine.Proofs.Host.Defects

/-!
The control state over whole runs. Whatever a host has done before, at every step of the dispatch
loops of a call the open regions are nested as the frames are, each owned by a frame that is there;
the count of nested calls is the number of loops; frames and loops keep to the limits; a frame that
ends leaves the frames and regions as it found them; and a call that has ended leaves neither
frames nor regions nor loops behind. This includes the steps in which an exception is on its way
through operations and loops.
-/

namespace ScriptMachine

/-! ## Regions are nested as frames are -/

/-- The handlers belong to frames of a stack of this depth, those of higher frames first. -/
structure Nested (depth : Nat) (handlers : List Handler) : Prop where
  order : handlers.Pairwise fun inner outer => outer.frameDepth ≤ inner.frameDepth
  owned : ∀ h ∈ handlers, 1 ≤ h.frameDepth ∧ h.frameDepth ≤ depth

theorem Nested.nil (depth : Nat) : Nested depth [] :=
  ⟨.nil, fun _ member => absurd member List.not_mem_nil⟩

theorem Nested.frame {depth : Nat} {below : List Handler} (nested : Nested depth below)
    (l : Layout) : Nested (depth + 1) (l.handlers depth ++ below) := by
  have own : ∀ h ∈ l.handlers depth, h.frameDepth = depth + 1 := by
    intro h member
    obtain ⟨r, _, rfl⟩ := List.mem_map.1 member
    rfl
  refine ⟨List.pairwise_append.2 ⟨?_, nested.order, fun h member outer there => ?_⟩,
    fun h member => ?_⟩
  · rw [Layout.handlers, List.pairwise_map]
    exact List.pairwise_of_forall fun _ _ => Nat.le_refl _
  · have low := (nested.owned outer there).2
    rw [own h member]
    omega
  · rcases List.mem_append.1 member with here | there
    · rw [own h here]
      omega
    · have low := nested.owned h there
      omega

theorem Stacked.nested {heap : Heap} {demand : Demand} {frames : List Frame}
    {handlers : List Handler} (stacked : Stacked heap demand frames handlers) :
    Nested frames.length handlers := by
  induction stacked with
  | host => exact .nil 0
  | @frame f count l rest handlers _ _ ih => exact ih.frame l

namespace Machine

theorem Live.nested {m : Machine} (live : m.Live) : Nested m.frames.length m.handlers := by
  obtain ⟨_, shape⟩ := live
  split at shape
  · obtain ⟨f, rest, l, below, top, _, stacked, handlers⟩ := shape
    rw [top, handlers]
    exact stacked.nested.frame l
  · exact shape.nested
  · rw [shape.2]
    exact .nil _
  · rw [shape.2]
    exact .nil _

end Machine

/-! ## The control state -/

namespace Dispatcher

/-- What holds of the frames, the open regions and the dispatch loops at every step. -/
structure Orderly (d : Dispatcher) : Prop where
  /-- Regions of higher frames are further in, and every region has a frame that owns it. -/
  regions : Nested d.machine.frames.length d.machine.handlers
  frames : d.machine.frames.length ≤ d.machine.limits.frames
  counted : d.machine.nesting = d.loops.length
  loops : d.loops.length ≤ d.machine.limits.nesting

variable {m n : Machine} {a : Action Unit} {d : Dispatcher}

theorem orderly_driven (live : m.Live) (counted : m.Counted) (room : m.Roomy) :
    m.driven.Orderly where
  regions := live.nested
  frames := m.calls.depth_eq ▸ room.frames
  counted := Machine.counted_iff.1 counted
  loops := Machine.counted_iff.1 counted ▸ room.nesting

/-- While loops return, the frames are there that will be there in the end. -/
theorem Unwinding.orderly {gone : List DispatchLoop} (unwinding : d.Unwinding n gone)
    (live : n.Live) (room : n.Roomy) : d.Orderly := by
  have limits : d.machine.limits = n.limits := by
    have target := unwinding.target
    split at target
    · rw [← target.1]
    · rw [← target.2.2]
  refine ⟨?_, ?_, unwinding.counted, unwinding.counted ▸ unwinding.room⟩
  · have target := unwinding.target
    split at target
    · rw [unwinding.frames, show d.machine.handlers = n.handlers from target.1 ▸ rfl]
      exact live.nested
    · rw [target.2.1]
      exact .nil _
  · rw [unwinding.frames, limits]
    exact n.calls.depth_eq ▸ room.frames

/-- On the way to the end of an action the control state is orderly. -/
theorem Bound.orderly (ready : Ready m a) (nested : Nested m.frames.length m.handlers)
    (bound : Bound m a d) : d.Orderly := by
  cases bound with
  | arrived => exact orderly_driven ready.live ready.counted ready.room
  | unwinding _ unwinding => exact unwinding.orderly ready.live ready.room
  | @failing n e rest failed _ counted room _ =>
      have moves := ready.moves
      have steady := ready.steady
      rw [failed] at moves steady
      obtain ⟨links, handlers, _⟩ := moves.links_error
      have kept := e.keeps_resolve n
      have length : (e.resolve n).2.frames.length = m.frames.length := by
        have lengths := congrArg List.length (kept.links.trans links)
        rwa [Machine.links, Machine.links, List.length_map, List.length_map] at lengths
      have counted' : (e.resolve n).2.nesting = (entries (e.resolve n).2.links).length :=
        Machine.counted_iff.1 (counted.kept kept)
      have nesting : (e.resolve n).2.nesting = n.nesting := congrArg CallStack.nesting kept.calls
      refine ⟨?_, ?_, counted', ?_⟩
      · change Nested (e.resolve n).2.frames.length (e.resolve n).2.handlers
        rw [length, kept.handlers, handlers]
        exact nested
      · change (e.resolve n).2.frames.length ≤ (e.resolve n).2.limits.frames
        rw [length, kept.limits, steady.limits]
        exact m.calls.depth_eq ▸ ready.before.frames
      · change (entries (e.resolve n).2.links).length ≤ (e.resolve n).2.limits.nesting
        rw [← counted', nesting, kept.limits]
        exact room

end Dispatcher

/-- Whatever acts at a turn of a call, its regions are nested as its frames are. -/
theorem Machine.Vacant.turn_nested {m : Machine} (vacant : m.Vacant) (c : HostCall) (count : Nat) :
    Nested ((c.machine m).turn (c.action m) count).1.frames.length
      ((c.machine m).turn (c.action m) count).1.handlers := by
  cases count with
  | zero =>
      change Nested _ (c.machine m).handlers
      rw [(vacant.prepared c).handlers]
      exact .nil _
  | succ count => exact (vacant.after_live c count).nested

/-! ## Frames that end -/

namespace HostCall

/-- After `steps` steps of a call the topmost frame is new, with `base` below it. -/
structure Pushed (c : HostCall) (m : Machine) (steps : Nat) (f : Frame) (base : List Frame) :
    Prop where
  top : (c.dispatched m steps).machine.frames = f :: base
  new : ∀ k, steps = k + 1 → (c.dispatched m k).machine.frames.length = base.length

/-- After `steps` steps of a call the innermost loop finds the frame on top of `base` at its
end. -/
structure Ends (c : HostCall) (m : Machine) (steps : Nat) (base : List Frame) : Prop where
  acts : (c.dispatched m steps).Acts
  running : (c.dispatched m steps).machine.control = .running
  last : ∃ g rest, (c.dispatched m steps).machine.frames = g :: rest ∧
    rest.length = base.length ∧ g.next? = none

end HostCall

/-- No region is open that a new frame could have opened. -/
theorem Moves.low {m : Machine} {a : Action Unit} (moves : Moves m (a.result m))
    (nested : Nested m.frames.length m.handlers) {f : Frame} {base : List Frame}
    (top : (m.perform a).frames = f :: base) (new : m.frames.length ≤ base.length) :
    ∀ h ∈ (m.perform a).handlers, h.frameDepth ≤ base.length := by
  have length (m : Machine) : m.links.length = m.frames.length := List.length_map _
  have depth : (m.perform a).links.length = base.length + 1 := by
    rw [length, top]
    rfl
  rcases Machine.links_perform moves with ⟨count, dropped⟩ | ⟨r, _, kept, _⟩
  · rw [dropped, List.length_drop, length] at depth
    omega
  · intro h member
    rw [kept] at member
    exact Nat.le_trans (nested.owned h member).2 new

namespace Machine.Vacant

variable {m : Machine} {c : HostCall} {start stop : Nat} {f : Frame} {base : List Frame}

/-- Where a frame is new, the machine by itself has just pushed it. -/
theorem pushed_turn (vacant : m.Vacant) (pushed : c.Pushed m start f base) :
    ∃ count, c.dispatched m start = (c.after m count).driven ∧
      ((c.machine m).turn (c.action m) count).1.frames.length ≤ base.length := by
  have ready := vacant.ready c
  have more : (c.dispatched m start).machine.frames.length = base.length + 1 := by
    rw [pushed.top]
    rfl
  have pushes {count : Nat} (on : (c.dispatched m start).At (c.machine m) (c.action m) count)
      (few : ((c.machine m).turn (c.action m) count).1.frames.length ≤ base.length) :
      c.dispatched m start = (c.after m count).driven := by
    have there := Dispatcher.Bound.eq_driven_of_more (ready.turn count) on (by omega)
    rw [turn_perform] at there
    exact there
  cases start with
  | zero =>
      have few : (c.machine m).frames.length ≤ base.length := by
        rw [(vacant.prepared c).frames]
        exact Nat.zero_le _
      exact ⟨0, pushes (vacant.starts c) few, few⟩
  | succ k =>
      have before := pushed.new k rfl
      obtain ⟨count, _, on, _⟩ := vacant.on c k
      rw [c.dispatched_succ] at more pushes ⊢
      rcases Dispatcher.Bound.step (ready.turn count) on with there | ⟨_, _, fewer⟩
      · -- only a dispatcher that acts can have pushed the frame
        rw [turn_perform] at there
        have few : (c.after m count).frames.length ≤ base.length := by
          rw [← before, there]
          exact Nat.le_refl _
        have next := (ready.turn count).bound_step
        rw [turn_perform] at next
        have on : (c.dispatched m k).step.At (c.machine m) (c.action m) (count + 1) := by
          rw [there]
          exact next
        exact ⟨count + 1, pushes on few, few⟩
      · omega

/-- A frame that ends leaves the frames and the regions that it found. -/
theorem restores (vacant : m.Vacant) (pushed : c.Pushed m start f base) (order : start ≤ stop)
    (there : ∀ k, start ≤ k → k ≤ stop → base.length < (c.dispatched m k).machine.frames.length)
    (ends : c.Ends m stop base) :
    (c.dispatched m stop).machine.frames.tail = base ∧
      (∃ values, (c.dispatched m (stop + 1)).machine.frames = base.modifyHead (·.given values)) ∧
      (c.dispatched m (stop + 1)).machine.handlers = (c.dispatched m start).machine.handlers := by
  obtain ⟨steps, rfl⟩ := Nat.exists_eq_add_of_le order
  obtain ⟨first, begun, few⟩ := vacant.pushed_turn pushed
  have ready := vacant.ready c
  have live := vacant.after_live c first
  have top := pushed.top
  have low := (ready.turn first).moves.low (vacant.turn_nested c first)
    (by rw [turn_perform]; exact begun ▸ top) few
  rw [turn_perform] at low
  have on : (c.dispatched m start).At (c.machine m) (c.action m) first := by
    rw [begun]
    have bound : Dispatcher.Bound _ _ (((c.machine m).turn (c.action m) first).1.perform
      ((c.machine m).turn (c.action m) first).2).driven := .arrived
    rw [turn_perform] at bound
    exact bound
  obtain ⟨last, after, _, on, passed⟩ := vacant.course c on steps
  obtain ⟨count, rfl⟩ := Nat.exists_eq_add_of_le after
  have ended := on.eq_driven ready ends.acts
  have same : ((c.machine m).perform (c.action m)).run (first + count)
      = (c.after m first).run count := c.after_add m first count
  rw [same] at ended
  obtain ⟨running, ⟨g, rest, last, depth, atEnd⟩⟩ := ends.running, ends.last
  have deep : ∀ k ≤ count, base.length < ((c.after m first).run k).calls.depth := by
    intro k near
    rw [CallStack.depth_eq]
    change _ < ((c.after m first).run k).frames.length
    rcases Nat.lt_or_eq_of_le near with sooner | rfl
    · obtain ⟨s, before, at_⟩ := passed (first + k) (Nat.le_add_right _ _) (by omega)
      have high := there (start + s) (Nat.le_add_right _ _) (by omega)
      rw [at_, c.after_add] at high
      exact high
    · have high := there (start + steps) order (Nat.le_refl _)
      rw [ended] at high
      exact high
  rw [begun] at top
  rw [ended] at running last
  obtain ⟨below, _, frames, handlers⟩ :=
    Live.restores live top low deep running last atEnd depth
  have stepped : c.dispatched m (start + steps + 1)
      = ((c.after m first).run (count + 1)).driven := by
    rw [c.dispatched_succ, ended, Dispatcher.step_end (live.run count)
      ((vacant.after_counted c first).run count) running last atEnd, run_succ]
  rw [stepped, ended, begun]
  refine ⟨?_, frames, handlers⟩
  rw [← below]
  exact congrArg List.tail last

end Machine.Vacant

namespace Engine

/-- The control state is orderly at every step of the dispatch loops of every call that a host
makes. Whenever the loops act, they have the machine in a state of its own run, and they come to
all of those. A frame that ends restores the frames and the regions it found when it was pushed. A
call that has ended, with a value or with an exception, leaves no frame, no region and no loop. -/
theorem Hosted.control_state {e : Engine} (hosted : e.Hosted) (c : HostCall) :
    (∀ steps, (c.dispatched e.machine steps).Orderly) ∧
    (∀ steps, (c.dispatched e.machine steps).Acts →
      ∃ k ≤ steps, c.dispatched e.machine steps = (c.after e.machine k).driven) ∧
    (∀ k, ∃ steps, c.dispatched e.machine steps = (c.after e.machine k).driven) ∧
    (∀ start stop f base, c.Pushed e.machine start f base → start ≤ stop →
      (∀ k, start ≤ k → k ≤ stop →
        base.length < (c.dispatched e.machine k).machine.frames.length) →
      c.Ends e.machine stop base →
        (c.dispatched e.machine stop).machine.frames.tail = base ∧
        (∃ values, (c.dispatched e.machine (stop + 1)).machine.frames
          = base.modifyHead (·.given values)) ∧
        (c.dispatched e.machine (stop + 1)).machine.handlers
          = (c.dispatched e.machine start).machine.handlers) ∧
    ∀ steps, (c.dispatched e.machine steps).machine.isDone = true →
      (c.dispatched e.machine steps).machine.AtRest ∧
        (c.dispatched e.machine steps).machine.nesting = 0 ∧
        (c.dispatched e.machine steps).loops = [] ∧
        (c.dispatched e.machine steps).failure = none := by
  have vacant := hosted.vacant
  refine ⟨fun steps => ?_, fun steps => vacant.acting c, vacant.reaches c,
    fun start stop f base => vacant.restores, fun steps done => ?_⟩
  · obtain ⟨count, _, on, _⟩ := vacant.on c steps
    exact Dispatcher.Bound.orderly ((vacant.ready c).turn count) (vacant.turn_nested c count) on
  · obtain ⟨left, loops, quiet⟩ := vacant.ended c done
    exact ⟨left.toAtRest, left.nesting, loops, quiet⟩

end Engine

/-- In the middle of the loop one region is open, of the one frame there is, which one dispatch
loop runs. -/
theorem control_state_leavingLoop :
    let d := (HostCall.value (.method 0) [.tuple [.bool false, .int 3]]).dispatched
      (Engine.loaded loopUnit).machine 16
    (Engine.loaded loopUnit).Hosted ∧ d.Orderly ∧ d.loops.map (·.base) = [1] ∧
      d.machine.handlers.map (·.frameDepth) = [1] ∧ d.machine.frames.length = 1 := by
  intro d
  have hosted := Engine.hosted_loaded compile_loopUnit
  have orderly := (hosted.control_state (.value (.method 0) [.tuple [.bool false, .int 3]])).1 16
  exact ⟨hosted, orderly, by decide +kernel, by decide +kernel, by decide +kernel⟩

end ScriptMachine
