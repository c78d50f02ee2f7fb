import ScriptMachine.Proofs.Machine.Fetching

/-!
What frames are in the middle of. A frame that another one runs on top of, or that an operation
keeps waiting, stands one behind the instruction that it dispatched last. Jumps, returns and
handlers put a frame elsewhere only as long as it is the one that runs. So whatever is raised finds
every frame one behind the instruction it carries out.

What was dispatched last with so many frames below is given as a function, for a history of a
machine says what it is.
-/

namespace ScriptMachine

open ScriptMachine.Action

/-- The frame carries out an instruction: since it fetched it, it went on by one, and operands may
have changed. -/
structure Frame.Carries (g f : Frame) (i : Instruction) : Prop where
  fetched : f.next? = some i
  frame : g = { f with ip := f.ip + 1, stack := g.stack }

/-- Every frame carries out what was dispatched last with as many frames below. -/
def Carried (last : Nat → Option (Frame × Instruction)) (frames : List Frame) : Prop :=
  ∀ g rest, g :: rest <:+ frames → ∃ f i, last rest.length = some (f, i) ∧ g.Carries f i

theorem Frame.Carries.traceFrame {g f : Frame} {i : Instruction} (carries : g.Carries f i) :
    g.traceFrame = ⟨g.method.code.name, i.loc⟩ := by
  have found : g.method.code.body[g.ip - 1]? = some i := by
    rw [carries.frame]
    exact carries.fetched
  rw [Frame.traceFrame, Frame.location, found]
  rfl

namespace Carried

variable {last last' : Nat → Option (Frame × Instruction)} {frames rest : List Frame}
  {g f : Frame} {i : Instruction}

theorem nil : Carried last [] :=
  fun _ _ suffix => absurd (List.suffix_nil.1 suffix) (List.cons_ne_nil _ _)

theorem suffix (carried : Carried last frames) (suffix : rest <:+ frames) : Carried last rest :=
  fun g below inside => carried g below (inside.trans suffix)

theorem cons (found : last rest.length = some (f, i)) (carries : g.Carries f i)
    (below : Carried last rest) : Carried last (g :: rest) := by
  intro g' rest' inside
  rcases List.suffix_cons_iff.1 inside with same | inside
  · obtain ⟨rfl, rfl⟩ := List.cons.inj same
    exact ⟨f, i, found, carries⟩
  · exact below g' rest' inside

/-- The topmost frame may get values. -/
theorem given (carried : Carried last frames) (values : List Value) :
    Carried last (frames.modifyHead (·.given values)) := by
  cases frames with
  | nil => exact carried
  | cons g rest =>
      obtain ⟨f, i, found, fetched, frame⟩ := carried g rest List.suffix_rfl
      have carries : (g.given values).Carries f i := ⟨fetched, by rw [frame]; rfl⟩
      exact .cons found carries (carried.suffix (List.suffix_cons g rest))

/-- What is dispatched with more frames below does not matter. -/
theorem below (carried : Carried last frames)
    (same : ∀ depth < frames.length, last' depth = last depth) : Carried last' frames := by
  intro g rest inside
  have deep : rest.length < frames.length := inside.length_le
  rw [same rest.length deep]
  exact carried g rest inside

/-- One by one, innermost first. -/
theorem getElem? (carried : Carried last frames) {k : Nat} (there : frames[k]? = some g) :
    ∃ f i, last (frames.length - (k + 1)) = some (f, i) ∧ g.Carries f i := by
  obtain ⟨bound, rfl⟩ := List.getElem?_eq_some_iff.1 there
  have split : frames[k] :: frames.drop (k + 1) = frames.drop k :=
    (List.drop_eq_getElem_cons bound).symm
  have found := carried frames[k] (frames.drop (k + 1)) (split ▸ List.drop_suffix k frames)
  rwa [List.length_drop] at found

end Carried

theorem Spent.length_eq {handlers : List Handler} {frames frames' : List Frame}
    (spent : Spent handlers frames frames') : frames'.length = frames.length := by
  cases spent with
  | nothing => rfl
  | operands ip _ _ => rfl

/-- All frames carry out what they dispatched last, but one that runs may be elsewhere. -/
def Machine.Suspends (m : Machine) (last : Nat → Option (Frame × Instruction)) : Prop :=
  match m.control with
  | .running => Carried last m.frames.tail
  | _ => Carried last m.frames

/-- What an action came to: all frames carry out what they dispatched last if it raised, and all but
one that runs if it did not. -/
def Suspended (last : Nat → Option (Frame × Instruction)) : Except Raised Unit × Machine → Prop
  | (.ok (), n) => n.Suspends last
  | (.error _, n) => Carried last n.frames

theorem Suspended.ok {n : Machine} {last : Nat → Option (Frame × Instruction)}
    (suspends : n.Suspends last) : Suspended last (.ok (), n) :=
  suspends

namespace Machine

variable {m n : Machine} {last last' : Nat → Option (Frame × Instruction)}

theorem suspends_of_carried (carried : Carried last m.frames) : m.Suspends last := by
  unfold Suspends
  split
  · exact carried.suffix (List.tail_suffix _)
  · exact carried

theorem suspends_of_running (running : m.control = .running) (below : Carried last m.frames.tail) :
    m.Suspends last := by
  rw [Suspends, running]
  exact below

theorem Suspends.below (suspends : m.Suspends last) (running : m.control = .running) :
    Carried last m.frames.tail := by
  rw [Suspends, running] at suspends
  exact suspends

/-- A handler puts its frame elsewhere, which then runs, and leaves those below alone. -/
theorem suspends_raise (carried : Carried last n.frames) (id : ExceptionId) :
    (n.raise id).Suspends last := by
  cases opened : n.handlers with
  | nil =>
      refine suspends_of_carried ?_
      rw [frames_raise_of_nil opened]
      exact .nil
  | cons h hs =>
      have running : (n.raise id).control = .running := by rw [raise_of_cons opened]
      refine suspends_of_running running ?_
      rw [frames_raise_of_cons opened, List.tail_modifyHead]
      exact carried.suffix ((List.tail_suffix _).trans (List.drop_suffix _ _))

theorem suspends_perform {a : Action Unit} (suspended : Suspended last (a.result m)) :
    (m.perform a).Suspends last := by
  rcases done : a.result m with ⟨e | _, n⟩ <;> rw [done] at suspended
  · rw [perform_of_error done]
    refine suspends_raise ?_ _
    rw [frames, (e.keeps_resolve n).calls]
    exact suspended
  · rw [perform_of_ok done]
    exact suspended

end Machine

/-- Whatever an operation comes to, it suspends the frames it found. -/
theorem Upshot.suspended {demand : Demand} {n : Machine} {r : Except Raised Unit × Machine}
    {last : Nat → Option (Frame × Instruction)} (upshot : Upshot demand n r)
    (carried : Carried last n.frames) : Suspended last r := by
  cases upshot with
  | delivers v _ | halts v _ =>
      exact .ok (Machine.suspends_of_carried carried)
  | @calls f event _ _ =>
      have kept := Machine.keeps_note { n with calls := n.calls.push f, control := .running } event
      refine Machine.suspends_of_running kept.control ?_
      rw [Machine.frames, kept.calls]
      exact carried
  | raises _ => exact carried
  | fills values _ =>
      have filled := Machine.frames_given { n with control := .running } values
      refine .ok (Machine.suspends_of_carried ?_)
      exact filled.symm ▸ carried.given values

namespace Dispatched

variable {m : Machine} {f : Frame} {rest : List Frame} {i : Instruction}
  {last : Nat → Option (Frame × Instruction)} {r : Except Raised Unit × Machine}

/-- However an instruction is dispatched, its frame carries it out when it calls, waits or raises.
-/
theorem suspended (dispatched : Dispatched m i r) (running : m.control = .running)
    (sound : m.heap.Sound) (frames : m.frames = { f with ip := f.ip + 1 } :: rest)
    (next : f.next? = some i) (found : last rest.length = some (f, i))
    (below : Carried last rest) : Suspended last r := by
  have carried (s : List Value) : Carried last (m.withStack s).frames := by
    rw [Machine.frames_withStack, frames]
    exact .cons found ⟨next, rfl⟩ below
  have runs {n : Machine} (control : n.control = m.control) (tail : n.frames.tail = rest) :
      n.Suspends last :=
    Machine.suspends_of_running (control.trans running) (tail ▸ below)
  cases dispatched with
  | @answers operands s a _ _ _ answers =>
      obtain ⟨n, kept, upshot⟩ := answers.upshot (m := m.withStack s) sound fun _ => running
      refine upshot.suspended ?_
      rw [Machine.frames, kept.calls]
      exact carried s
  | fills values _ _ _ _ | loads _ _ | stays _ _ _ _ =>
      exact Machine.suspends_of_carried (carried _)
  | jumps _ _ _ _ =>
      refine runs rfl ?_
      rw [Machine.frames_withIp, Machine.frames_withStack, frames]
      rfl
  | @raises v s _ _ =>
      have kept := (exceptionOf_quiet v).keeps (m.withStack s)
      unfold raiseValue
      rw [result_bind]
      rcases done : (exceptionOf v).result (m.withStack s) with ⟨e | id, n⟩
      all_goals
        rw [done] at kept
        change Carried last n.frames
        rw [Machine.frames, kept.calls]
        exact carried s
  | opens _ | closes _ =>
      have kept (n : Machine) (event : Unit → Event) := Machine.keeps_note n event
      refine runs (kept _ _).control ?_
      rw [Machine.frames, (kept _ _).calls]
      exact congrArg List.tail frames
  | returns is =>
      rw [execute_ret is]
      refine runs rfl ?_
      change (m.calls.modifyTop _).frames.tail = rest
      rw [CallStack.frames_modifyTop, show m.calls.frames = _ from frames]
      rfl

end Dispatched

namespace Machine

variable {m : Machine} {last last' : Nat → Option (Frame × Instruction)}

/-- What is done next suspends frames where they are. It may dispatch an instruction of the topmost
frame, which is then what this frame dispatched last. -/
theorem Live.suspended (live : m.Live) (suspends : m.Suspends last)
    (dispatches : ∀ f rest i, m.Fetches f rest i → last' rest.length = some (f, i))
    (others : ∀ depth, m.fetch? = none ∨ depth + 1 < m.frames.length → last' depth = last depth) :
    Suspended last' (m.upcoming.result m) := by
  unfold upcoming
  cases control : m.control with
  | running =>
      obtain ⟨f, rest, _, _, top, _⟩ := live.standing control
      have below := suspends.below control
      rw [top, List.tail_cons] at below
      have below : Carried last' rest := below.below fun depth deep =>
        others depth (.inr (by rw [top, List.length_cons]; omega))
      cases next : f.next? with
      | none =>
          obtain ⟨n, values, done, frames, _⟩ := result_end top next
          dsimp only
          rw [done]
          refine suspends_of_carried ?_
          rw [frames]
          exact below.given values
      | some i =>
          obtain ⟨l, executing, expects⟩ := fetched_executing live control top next
          have kept := m.keeps_note fun _ => .instruction f.ip i.op f.stack.length m.calls.depth
          dsimp only
          rw [result_advance top next]
          have found : last' rest.length = some (f, i) := dispatches f rest i ⟨control, top, next⟩
          exact (execute_dispatched executing expects).suspended (kept.control.trans control)
            executing.heap (frames_fetched top i) next found below
  | delivering v pending =>
      rw [Suspends, control] at suspends
      have carried : Carried last' m.frames := suspends.below fun depth _ => others depth (.inl (by
        rw [fetch?, control]))
      obtain ⟨n, kept, upshot⟩ := (resume_answers v pending).upshot live.1 Bool.noConfusion
      refine upshot.suspended ?_
      rw [Machine.frames, kept.calls]
      exact carried
  | returned v | uncaught id =>
      rw [Suspends, control] at suspends
      exact suspends_of_carried (suspends.below fun depth _ => others depth (.inl (by
        rw [fetch?, control])))

end Machine
end ScriptMachine
