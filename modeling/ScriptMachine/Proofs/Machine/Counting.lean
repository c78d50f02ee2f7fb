import ScriptMachine.Proofs.Machine.Isolation

/-!
The count of nested calls. It is kept beside the frames and changed when a nested call is entered
and when frames go. Whatever the machine does, the count is that of its nested frames, if it was so
before.
-/

namespace ScriptMachine

open ScriptMachine.Action

/-- The nested calls that are counted are those of the frames. -/
def CallStack.Counted (calls : CallStack) : Prop :=
  calls.nesting = calls.frames.countP (·.returns.isNested)

/-- The nested calls that are counted are those of the frames. -/
def Machine.Counted (m : Machine) : Prop :=
  m.calls.Counted

namespace CallStack

variable {calls : CallStack}

/-- A frame that is pushed is counted. -/
theorem Counted.push (counted : calls.Counted) (frame : Frame) : (calls.push frame).Counted := by
  unfold Counted at counted ⊢
  rw [nesting_push, counted, frames_push, List.countP_cons]

/-- A change of the topmost frame counts for nothing, unless it changes what the frame returns to.
-/
theorem counted_modifyTop {change : Frame → Frame} (returns : ∀ f, (change f).returns = f.returns) :
    (calls.modifyTop change).Counted ↔ calls.Counted := by
  suffices same : (calls.frames.modifyHead change).countP (·.returns.isNested)
      = calls.frames.countP (·.returns.isNested) by
    rw [Counted, Counted, nesting_modifyTop, frames_modifyTop, same]
  cases calls.frames with
  | nil => rfl
  | cons f rest => simp only [List.modifyHead_cons, List.countP_cons, returns]

theorem Counted.modifyTop (counted : calls.Counted) {change : Frame → Frame}
    (returns : ∀ f, (change f).returns = f.returns) : (calls.modifyTop change).Counted :=
  (counted_modifyTop returns).2 counted

/-- Popping counts the frames that are left. -/
theorem counted_pop (calls : CallStack) : calls.pop.Counted := nesting_pop calls

/-- So does dropping several frames at once. -/
theorem counted_cutTo (calls : CallStack) (count : Nat) : (calls.cutTo count).Counted :=
  nesting_cutTo calls count

/-- To count anew gives the number that was counted. -/
theorem Counted.recount (counted : calls.Counted) : calls.recount = calls :=
  CallStack.ext rfl counted.symm

section

variable {f : Frame} {rest : List Frame}

/-- A frame that is not nested may be dropped without counting. -/
theorem Counted.dropTop_plain (counted : calls.Counted) (top : calls.frames = f :: rest)
    (plain : f.returns.isNested = false) : calls.dropTop = calls.pop := by
  refine CallStack.ext rfl ?_
  rw [nesting_pop, frames_pop, top]
  change calls.nesting = _
  rw [counted, top, List.countP_cons, plain, List.tail_cons]
  rfl

/-- The loop of a nested call takes itself off the count. -/
theorem Counted.dropTop_nested (counted : calls.Counted) (top : calls.frames = f :: rest)
    (nested : f.returns.isNested = true) : calls.dropTop.leave = calls.pop := by
  refine CallStack.ext rfl ?_
  rw [nesting_pop, frames_pop, top]
  change calls.nesting - 1 = _
  rw [counted, top, List.countP_cons, if_pos nested, List.tail_cons, Nat.add_sub_cancel]

end

/-- Frames that are counted make the call stack. -/
theorem Counted.ext {calls' : CallStack} (counted : calls.Counted) (counted' : calls'.Counted)
    (same : calls.frames = calls'.frames) : calls = calls' := by
  refine CallStack.ext same ?_
  rw [counted, counted', same]

end CallStack

namespace Machine

variable {m m' : Machine}

theorem Counted.kept (counted : m.Counted) (keeps : m.Keeps m') : m'.Counted := by
  unfold Counted at counted ⊢
  rw [keeps.calls]
  exact counted

theorem Counted.note (counted : m.Counted) (event : Unit → Event) : (m.note event).Counted :=
  counted.kept (m.keeps_note event)

theorem counted_withStack (s : List Value) : (m.withStack s).Counted ↔ m.Counted :=
  CallStack.counted_modifyTop fun _ => rfl

/-- Raising counts anew. -/
theorem counted_raise (m : Machine) (id : ExceptionId) : (m.raise id).Counted := by
  cases opened : m.handlers with
  | nil =>
      rw [raise_of_nil opened]
      rfl
  | cons h hs =>
      rw [raise_of_cons opened]
      exact (m.calls.counted_cutTo h.frameDepth).modifyTop fun _ => rfl

/-- Raising drops frames and counts them. -/
theorem Counted.performed {a : Action Unit} (counted : (a.result m).2.Counted) :
    (m.perform a).Counted := by
  rcases done : a.result m with ⟨e | x, n⟩ <;> rw [done] at counted
  · rw [perform_of_error done]
    exact counted_raise _ _
  · rw [perform_of_ok done]
    exact counted

end Machine

/-- Every action keeps count. The induction is on how it is put together. -/
theorem Made.counted {α : Type} {a : Action α} (made : Made a) {m : Machine}
    (counted : m.Counted) : (a.result m).2.Counted := by
  have activated (call : Call) (returns : Returns) {m : Machine} (counted : m.Counted) :
      ((Action.activate call returns).result m).2.Counted := by
    have kept := counted.kept ((newFrame_quiet call returns).keeps m)
    unfold Action.activate
    rw [result_bind]
    rcases done : (newFrame call returns).result m with ⟨e | f, n⟩ <;> rw [done] at kept
    · exact kept
    · have pushed : Machine.Counted { n with calls := n.calls.push f, control := .running } :=
        CallStack.Counted.push kept f
      exact pushed.note _
  induction made generalizing m with
  | quiet quiet => exact counted.kept (quiet.keeps m)
  | @bind _ _ a f _ _ first next =>
      have before := first counted
      rw [result_bind]
      rcases done : a.result m with ⟨e | x, n⟩ <;> rw [done] at before
      · exact before
      · exact next x before
  | throw e => exact counted
  | look seen sees blind => exact counted
  | changeFrame keeps commutes => exact CallStack.Counted.modifyTop counted keeps
  | control control => exact counted
  | note other => exact counted.note _
  | openRegion target => exact Machine.Counted.note (m := { m with handlers := _ :: m.handlers }) counted _
  | activate call _ => exact activated call _ counted
  | enter call pending =>
      unfold Action.enter
      rw [result_bind_ok (result_ask _ m), result_bind_ok (result_ask _ m)]
      dsimp only
      split
      · exact counted
      · exact activated call (.resume pending) counted

namespace Machine

variable {m : Machine}

theorem Counted.fetched (counted : m.Counted) (f : Frame) (i : Instruction) :
    (fetched m f i).Counted :=
  CallStack.Counted.modifyTop (counted.note _) fun _ => rfl

theorem counted_ended (m : Machine) : (ended m).Counted :=
  Counted.note (m := popped m) m.calls.counted_pop _

/-- Whatever is done next, the count is right afterwards. -/
theorem Counted.upcoming (counted : m.Counted) : (m.upcoming.result m).2.Counted := by
  unfold Machine.upcoming
  cases m.control with
  | delivering v pending => exact (resume_answers v pending).made.counted counted
  | returned v => exact counted
  | uncaught id => exact counted
  | running =>
      dsimp only
      cases top : m.frames with
      | nil =>
          rw [result_advance_nil top]
          exact counted
      | cons f rest =>
          cases next : f.next? with
          | none =>
              rw [result_advance_end top next, result_finish top]
              exact (handOver_answers f.returns (f.stack.headD .null)).made.counted m.counted_ended
          | some i =>
              have moved := counted.fetched f i
              rw [result_advance top next]
              by_cases closes : i.op = .popExceptionHandler
              · rw [execute_popExceptionHandler closes]
                exact Counted.note (m := { Action.fetched m f i with
                  handlers := (Action.fetched m f i).handlers.tail }) moved _
              · exact (execute_made i closes).counted moved

theorem Counted.step (counted : m.Counted) : m.step.Counted :=
  Counted.performed counted.upcoming

/-- The count is right at every step of a run. -/
theorem Counted.run (counted : m.Counted) (count : Nat) : (m.run count).Counted := by
  induction count with
  | zero => exact counted
  | succ count ih =>
      rw [run_succ]
      exact ih.step

end Machine

/-! ## Two machines at a seam -/

namespace AtSeam

variable {c : Seam} {m m' : Machine}

/-- Two machines that are down to their bases differ in the count as their bases do. -/
theorem nesting_of_counted (counted : m.Counted) (counted' : m'.Counted) (frames : m.frames = c.base)
    (frames' : m'.frames = c.base') : m'.nesting + c.base.countP (·.returns.isNested)
      = m.nesting + c.base'.countP (·.returns.isNested) := by
  rw [← frames, ← frames']
  exact (congrArg₂ (· + ·) counted' counted.symm).trans (Nat.add_comm _ _)

/-- The count is right on both sides of a seam. -/
theorem counted (level : AtSeam c m m') (counted : m.Counted) : m'.Counted := by
  have counts := level.nesting
  have here : m.nesting = c.base.countP (·.returns.isNested) := by
    rw [← level.frames]
    exact counted
  change m'.nesting = m'.frames.countP (·.returns.isNested)
  rw [level.frames']
  omega

end AtSeam

end ScriptMachine
