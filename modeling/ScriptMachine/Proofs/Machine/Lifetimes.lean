import ScriptMachine.Proofs.Machine.Delivery

/-!
How activations end. A step touches only the topmost frame, so what was called stays among the
frames, with its method, receiver, environment and what waits for it, until it is on top and its
code has ended, or until an exception is raised inside it and caught further down. Nothing else
can become of it.
-/

namespace ScriptMachine

open ScriptMachine.Action

/-- The activation that `f` belongs to is among the frames, on top of `rest`. -/
def Frame.Lasts (f : Frame) (rest frames : List Frame) : Prop :=
  ∃ us ip stack, frames = us ++ { f with ip, stack } :: rest

namespace Frame.Lasts

variable {f g : Frame} {rest frames frames' : List Frame}

theorem refl (f : Frame) (rest : List Frame) : f.Lasts rest (f :: rest) :=
  ⟨[], f.ip, f.stack, rfl⟩

/-- Where the topmost frame stands and what its operands are does not matter. -/
theorem moved (lasts : f.Lasts rest (g :: frames)) (ip : Nat) (stack : List Value) :
    f.Lasts rest ({ g with ip, stack } :: frames) := by
  obtain ⟨us, ip', stack', split⟩ := lasts
  cases us with
  | nil =>
      obtain ⟨rfl, rfl⟩ := List.cons.inj split
      exact ⟨[], ip, stack, rfl⟩
  | cons u us =>
      obtain ⟨_, rfl⟩ := List.cons.inj split
      exact ⟨{ g with ip, stack } :: us, ip', stack', rfl⟩

theorem given (lasts : f.Lasts rest frames) (values : List Value) :
    f.Lasts rest (frames.modifyHead (·.given values)) := by
  cases frames with
  | nil => exact lasts
  | cons g frames => exact lasts.moved g.ip _

theorem recovered (lasts : f.Lasts rest frames) (h : Handler) :
    f.Lasts rest (frames.modifyHead (·.recover h)) := by
  cases frames with
  | nil => exact lasts
  | cons g frames => exact lasts.moved h.target _

theorem spent {handlers : List Handler} (lasts : f.Lasts rest frames)
    (spent : Spent handlers frames frames') : f.Lasts rest frames' := by
  cases spent with
  | nothing => exact lasts
  | operands ip _ _ => exact lasts.moved ip _

theorem pushed (lasts : f.Lasts rest frames) (g : Frame) : f.Lasts rest (g :: frames) := by
  obtain ⟨us, ip, stack, rfl⟩ := lasts
  exact ⟨g :: us, ip, stack, rfl⟩

/-- The activation is still there when frames are taken away, or no frame above `rest` is left. -/
theorem dropped (lasts : f.Lasts rest frames) (count : Nat) :
    f.Lasts rest (frames.drop count) ∨ (frames.drop count).length ≤ rest.length := by
  obtain ⟨us, ip, stack, rfl⟩ := lasts
  by_cases few : count ≤ us.length
  · rw [List.drop_append_of_le_length few]
    exact .inl ⟨us.drop count, ip, stack, rfl⟩
  · right
    rw [List.length_drop, List.length_append, List.length_cons]
    omega

/-- If the topmost frame is taken away it was the activation itself, or the activation lasts. -/
theorem popped (lasts : f.Lasts rest (g :: frames)) :
    (∃ ip stack, g = { f with ip, stack } ∧ frames = rest) ∨ f.Lasts rest frames := by
  obtain ⟨us, ip, stack, split⟩ := lasts
  cases us with
  | nil =>
      obtain ⟨same, below⟩ := List.cons.inj split
      exact .inl ⟨ip, stack, same, below⟩
  | cons u us =>
      obtain ⟨_, rfl⟩ := List.cons.inj split
      exact .inr ⟨us, ip, stack, rfl⟩

end Frame.Lasts

/-- The activation is on top and its code has ended. -/
structure Machine.Concludes (m : Machine) (f : Frame) (rest : List Frame) : Prop where
  running : m.control = .running
  top : ∃ ip stack, m.frames = { f with ip, stack } :: rest ∧
    Frame.next? { f with ip, stack } = none

/-- What is done next raises. -/
def Machine.Raises (m : Machine) : Prop :=
  ∃ e n, m.upcoming.result m = (.error e, n)

instance (m : Machine) : Decidable m.Raises :=
  match done : m.upcoming.result m with
  | (.error e, n) => isTrue ⟨e, n, done⟩
  | (.ok _, _) => isFalse fun ⟨_, _, failed⟩ => by
      rw [done] at failed
      cases failed

/-- What is done next raises, and only frames of `rest` are left then. -/
structure Machine.Leaves (m : Machine) (rest : List Frame) : Prop where
  raises : m.Raises
  left : m.step.frames.length ≤ rest.length

/-- What may have become of an activation in so many steps. -/
inductive Fate (run : Nat → Machine) (f : Frame) (rest : List Frame) (steps : Nat) : Prop where
  | lasts : f.Lasts rest (run steps).frames → Fate run f rest steps
  /-- Its code came to an end. -/
  | returned {j : Nat} : j < steps → (run j).Concludes f rest → Fate run f rest steps
  /-- It was left by an exception. -/
  | unwound {j : Nat} : j < steps → f.Lasts rest (run j).frames → (run j).Leaves rest →
      Fate run f rest steps

namespace Machine

variable {m : Machine} {f : Frame} {rest : List Frame}

/-- What is raised leaves the lower frames there are, or fewer. -/
theorem frames_of_raised {e : Raised} {n : Machine} (failed : m.upcoming.result m = (.error e, n)) :
    m.step.frames = [] ∨ ∃ h : Handler, m.step.frames
      = (n.frames.drop (n.frames.length - h.frameDepth)).modifyHead (·.recover h) := by
  cases opened : n.handlers with
  | nil => exact .inl (perform_uncaught failed opened).1
  | cons h hs => exact .inr ⟨h, (perform_caught failed opened).1⟩

/-- An activation lasts for another step, unless it ends here or is left by an exception. -/
theorem Live.lasts_step (live : m.Live) (lasts : f.Lasts rest m.frames) :
    f.Lasts rest m.step.frames ∨ m.Concludes f rest ∨ m.Leaves rest := by
  have moves := live.moves
  generalize done : m.upcoming.result m = result at moves
  cases moves with
  | @raises n e spent _ =>
      rcases frames_of_raised done with none | ⟨h, frames⟩
      · refine .inr (.inr ⟨⟨e, n, done⟩, ?_⟩)
        rw [none]
        exact Nat.zero_le _
      · rcases (lasts.spent spent).dropped (n.frames.length - h.frameDepth) with still | few
        · left
          rw [frames]
          exact still.recovered h
        · refine .inr (.inr ⟨⟨e, n, done⟩, ?_⟩)
          rw [frames, List.length_modifyHead]
          exact few
  | @fills n frames values spent after _ =>
      rw [Machine.step, perform_of_ok done, after]
      exact .inl ((lasts.spent spent).given values)
  | @calls n frames g spent _ _ after _ =>
      rw [Machine.step, perform_of_ok done, after]
      exact .inl ((lasts.spent spent).pushed g)
  | @opens n g below i _ top _ _ after _ =>
      rw [Machine.step, perform_of_ok done, after]
      rw [top] at lasts
      exact .inl (lasts.moved _ g.stack)
  | @closes n g below h top after _ _ =>
      rw [Machine.step, perform_of_ok done, after]
      rw [top] at lasts
      exact .inl (lasts.moved _ g.stack)
  | @ends n g below values running top atEnd after _ =>
      rw [Machine.step, perform_of_ok done, after]
      rw [top] at lasts
      rcases lasts.popped with ⟨ip, stack, rfl, rfl⟩ | lasts
      · exact .inr (.inl ⟨running, ip, stack, top, atEnd⟩)
      · exact .inl (lasts.given values)

/-- Whatever a run does, an activation lasts, has returned, or was left by an exception. -/
theorem Live.fate (live : m.Live) (lasts : f.Lasts rest m.frames) (steps : Nat) :
    Fate m.run f rest steps := by
  induction steps with
  | zero => exact .lasts lasts
  | succ steps ih =>
      cases ih with
      | lasts here =>
          rcases (live.run steps).lasts_step here with next | concludes | leaves
          · refine .lasts ?_
            rw [run_succ]
            exact next
          · exact .returned (Nat.lt_succ_self steps) concludes
          · exact .unwound (Nat.lt_succ_self steps) here leaves
      | returned before concludes => exact .returned (Nat.lt_succ_of_lt before) concludes
      | unwound before here leaves => exact .unwound (Nat.lt_succ_of_lt before) here leaves

/-- What waits for an activation gets its result. -/
theorem Concludes.handsOn {pending : Pending} (concludes : m.Concludes f rest)
    (waits : f.returns = .resume pending) :
    ∃ v, m.step.control = .delivering v pending ∧ m.step.frames = rest := by
  obtain ⟨running, ip, stack, top, atEnd⟩ := concludes
  have frames : (ended m).frames = rest := by
    rw [(keeps_ended m).frames]
    change m.frames.tail = _
    rw [top]
    rfl
  have done : advance.result m
      = (.ok (), { ended m with control := .delivering (stack.headD .null) pending }) := by
    rw [result_advance_end top atEnd, result_finish top]
    change (handOver f.returns _).result _ = _
    rw [waits]
    rfl
  have stepped : m.step = { ended m with control := .delivering (stack.headD .null) pending } := by
    unfold step upcoming
    rw [running]
    exact perform_of_ok done
  rw [stepped]
  exact ⟨_, rfl, frames⟩

end Machine

/-! ## Calls -/

/-- The frame that a call is given. -/
structure Call.Starts (call : Call) (m n : Machine) (returns : Returns) (f : Frame) : Prop where
  method : f.method = m.heap.method call.method
  receiver : f.receiver = call.receiver
  returns : f.returns = returns
  beginning : f.ip = 0
  /-- The environment, in which there is room and the arguments have been put in place. -/
  placed : ∃ values h,
    (f.method.code.bind call.args).result (m.heap.makeRoom f.method.code call.env) =
      (.ok values, h) ∧
    (environment f.method.code call.env values).result h = (.ok f.env, n.heap)

namespace Action

theorem newFrame_starts {m n : Machine} {call : Call} {returns : Returns} {f : Frame}
    (made : (newFrame call returns).result m = (.ok f, n)) : call.Starts m n returns f := by
  unfold newFrame at made
  obtain ⟨limit, _, asked, made⟩ := result_bind_eq_ok made
  cases asked
  obtain ⟨depth, _, asked, made⟩ := result_bind_eq_ok made
  cases asked
  dsimp only at made
  split at made
  · cases made
  next room =>
  obtain ⟨method, _, asked, made⟩ := result_bind_eq_ok made
  cases asked
  obtain ⟨_, _, widened, made⟩ := result_bind_eq_ok made
  cases widened
  obtain ⟨values, _, bound, made⟩ := result_bind_eq_ok made
  obtain ⟨h₁, given, rfl⟩ := result_primitive_eq_ok bound
  obtain ⟨env, _, placed, made⟩ := result_bind_eq_ok made
  obtain ⟨h₂, put, rfl⟩ := result_primitive_eq_ok placed
  cases made
  exact ⟨rfl, rfl, rfl, rfl, values, h₁, given, put⟩

/-- A call puts a frame on top, unless it fails. -/
theorem activate_starts (m : Machine) (call : Call) (returns : Returns) :
    (∃ e n, (activate call returns).result m = (.error e, n) ∧ n.frames = m.frames) ∨
    ∃ f n, (activate call returns).result m = (.ok (), n) ∧ call.Starts m n returns f ∧
      n.frames = f :: m.frames ∧ n.control = .running := by
  have kept := (newFrame_quiet call returns).keeps m
  unfold activate
  rw [result_bind]
  rcases made : (newFrame call returns).result m with ⟨e | f, n⟩ <;> rw [made] at kept
  · exact .inl ⟨e, n, rfl, kept.frames⟩
  · have starts := newFrame_starts made
    have noted := Machine.keeps_note { n with calls := n.calls.push f, control := .running }
      fun _ => .call f.method.code.name (n.calls.push f).depth
    refine .inr ⟨f, _, rfl, ⟨starts.method, starts.receiver, starts.returns, starts.beginning, ?_⟩,
      ?_, ?_⟩
    · change ∃ values h, _ ∧ _ = (_, (Machine.note _ _).heap)
      rw [Machine.heap_note]
      exact starts.placed
    · rw [← kept.frames]
      exact noted.frames
    · exact noted.control

theorem enter_starts (m : Machine) (call : Call) (pending : Pending) :
    (∃ e n, (enter call pending).result m = (.error e, n) ∧ n.frames = m.frames) ∨
    ∃ f n, (enter call pending).result m = (.ok (), n) ∧ call.Starts m n (.resume pending) f ∧
      n.frames = f :: m.frames ∧ n.control = .running := by
  unfold enter
  rw [result_bind_ok (result_ask _ m), result_bind_ok (result_ask _ m)]
  dsimp only
  split
  · exact .inl ⟨_, m, rfl, rfl⟩
  · exact activate_starts m call (.resume pending)

end Action

end ScriptMachine
