import ScriptMachine.Proofs.Machine.Moves

/-!
Functions of the host in a run. A host may do anything, so what holds of every run says what its
functions have to keep to. Such a demand is met by the functions that are installed and by those that
are under way, which wait in a task for the value of a call.
-/

namespace ScriptMachine

variable {P : Routine → Prop}

/-- The functions of the host that the task goes on with meet a demand. -/
@[grind] def Task.Hosts (P : Routine → Prop) (task : Task) : Prop :=
  ∀ next, task = .proceed next → ∀ v, P (next v)

/-- The task meets the demand if the function does, whatever value it is given. -/
theorem Task.hosts_proceed {next : Value → Routine} :
    (Task.proceed next).Hosts P ↔ ∀ v, P (next v) := by
  refine ⟨fun hosts => hosts next rfl, fun each other same => ?_⟩
  cases same
  exact each

def Pending.Hosts (P : Routine → Prop) (pending : Pending) : Prop :=
  ∀ task ∈ pending.tasks, task.Hosts P

@[grind] def Returns.Hosts (P : Routine → Prop) : Returns → Prop
  | .resume pending => pending.Hosts P
  | _ => True

def Control.Hosts (P : Routine → Prop) : Control → Prop
  | .delivering _ pending => pending.Hosts P
  | _ => True

/-- All functions of the host do so, those that have been called included. -/
structure Machine.Hosts (P : Routine → Prop) (m : Machine) : Prop where
  foreign : ∀ fn receiver args, P (m.foreign fn receiver args)
  control : m.control.Hosts P
  frames : ∀ f ∈ m.frames, f.returns.Hosts P

theorem Returns.hosts_modifyHead {change : Frame → Frame}
    (returns : ∀ f, (change f).returns = f.returns) {frames : List Frame}
    (fine : ∀ f ∈ frames, f.returns.Hosts P) :
    ∀ f ∈ frames.modifyHead change, f.returns.Hosts P := by
  cases frames with
  | nil => exact fine
  | cons first rest =>
      obtain ⟨top, below⟩ := List.forall_mem_cons.1 fine
      exact List.forall_mem_cons.2 ⟨returns first ▸ top, below⟩

namespace Machine

/-- The functions that are installed do not change in a run. -/
theorem foreign_note (m : Machine) (event : Unit → Event) : (m.note event).foreign = m.foreign := by
  unfold note
  split <;> rfl

variable {m : Machine}

theorem Hosts.note (fine : m.Hosts P) (event : Unit → Event) : (m.note event).Hosts P where
  foreign := by
    rw [foreign_note]
    exact fine.foreign
  control := by
    rw [(m.keeps_note event).control]
    exact fine.control
  frames := by
    rw [(m.keeps_note event).frames]
    exact fine.frames

/-- Raising an exception drops frames with the functions that wait in them. -/
theorem Hosts.raise (fine : m.Hosts P) (id : ExceptionId) : (m.raise id).Hosts P := by
  have traced : ({ m with heap := m.heap.setTrace id m.trace } : Machine).Hosts P := { fine with }
  have after : (m.announced id).Hosts P := by
    unfold announced tell
    exact traced.note _
  cases opened : m.handlers with
  | nil =>
      rw [raise_of_nil opened]
      exact ⟨after.foreign, trivial, fun _ member => absurd member List.not_mem_nil⟩
  | cons h hs =>
      have frames := frames_raise_of_cons opened id
      rw [raise_of_cons opened] at frames ⊢
      refine ⟨after.foreign, trivial, ?_⟩
      rw [frames]
      have returns (f : Frame) : (f.recover h).returns = f.returns := rfl
      exact Returns.hosts_modifyHead returns
        fun f member => fine.frames f (List.mem_of_mem_drop member)

/-- A fault becomes an exception, and no function goes on with it. -/
theorem Hosts.resolve (fine : m.Hosts P) (e : Raised) : (e.resolve m).2.Hosts P := by
  cases e with
  | fault cause | defect cause => exact { fine with }
  | exception id => exact fine

/-- Whatever an action came to, raising what it raised included. -/
theorem Hosts.performed {a : Action Unit} (after : (a.result m).2.Hosts P) :
    (m.perform a).Hosts P := by
  rcases done : a.result m with ⟨e | _, n⟩ <;> rw [done] at after
  · rw [perform_of_error done]
    exact (after.resolve e).raise _
  · rw [perform_of_ok done]
    exact after

end Machine

end ScriptMachine
