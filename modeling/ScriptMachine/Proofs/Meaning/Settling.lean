import ScriptMachine.Proofs.Machine.Counterparts
import ScriptMachine.Proofs.Meaning.Evaluation

/-!
The same operation in two places. A frame in the middle of its code and the same frame standing
still differ in what is private to a frame and in the regions around them, and an operation sees
neither. So it takes the same steps in both machines: they are back after the same number of them
and with the same values, or the same exception leaves both.
-/

namespace ScriptMachine

open ScriptMachine.Action

/-! ## Operations -/

/-- Two machines at a seam carry the operation out alike. -/
def Mirrors (a : Action Unit) : Prop :=
  ∀ {c : Seam} {m m' : Machine}, c.Even → AtSeam c m m' → m.control = .running →
    m'.control = .running → Meets c Eq (a.result m) (a.result m')

/-- An action that answers is carried out alike at a seam, be the machines' frames what they may
below it. -/
theorem Answers.mirrors {demand : Demand} {a : Action Unit} (answers : Answers true demand a) :
    Mirrors a :=
  fun even level running running' =>
    answers.meets even (fun _ => rfl) level fun _ => ⟨running, running'⟩

theorem local?_quiet (slot : Nat) : Quiet (Action.ask (·.local? slot)) := by
  refine .ask fun {m m'} alike => ?_
  have same := alike.frames (fun face => (m.heap.env face.env)[slot]?) none
  unfold Machine.local?
  rw [← alike.heap]
  exact same

theorem readLocal_mirrors (slot : Nat) : Mirrors (readLocal slot) := by
  intro c m m' even level running running'
  refine .quietly (local?_quiet slot) even level fun found n n' kept kept' after => ?_
  cases found with
  | none => exact .raises _ after
  | some v =>
      dsimp only
      rw [result_push, result_push]
      exact .fills_running [v] after (kept.control.trans running) (kept'.control.trans running')

theorem writeLocal_mirrors (slot : Nat) (v : Value) : Mirrors (writeLocal slot v) :=
  (Answers.done (writeLocal_quiet slot v)).mirrors

/-! ## Steps -/

/-- Where the two machines are when the operation is over. -/
inductive Concludes (c : Seam) : Machine → Machine → Prop where
  | filled {m m' : Machine} (values : List Value) : AtSeam c m m' →
      Concludes c (Machine.withStack { m with control := .running } (values ++ m.stack))
        (Machine.withStack { m' with control := .running } (values ++ m'.stack))
  | raised {m m' : Machine} (id : ExceptionId) : Falls c m m' →
      Concludes c (m.raise id) (m'.raise id)

namespace Goes

variable {c : Seam} {m m' : Machine}

/-- Where both machines have as many nested calls to spare, none of them overruns. -/
theorem not_overruns {r : Returns} (even : c.Even) (outcome : Except Raised Unit) :
    ¬ (c.between r r).Overruns outcome := by
  rintro ⟨more, _⟩
  have same : Seam.nestingUpTo r c.base = Seam.nestingUpTo r c.base' := by
    rw [Seam.nestingUpTo, Seam.nestingUpTo, even.nested]
  exact Nat.lt_irrefl _ (same ▸ more)

/-- A machine is back when it runs with so many frames. -/
theorem isBack_of_frames {m : Machine} {depth : Nat} (running : m.control = .running)
    (length : m.frames.length = depth) : m.isBack depth = true := by
  rw [Machine.isBack, running, m.calls.depth_eq]
  exact decide_eq_true (Nat.le_of_eq length)

/-- The operation is over, or the machines are above the seam, or wait at it. -/
theorem concludes_or_step (goes : Goes c Eq m m') (even : c.Even) (some : c.base ≠ [])
    (closed : c.below' = []) (live : m.Live) :
    (m'.isBack c.base.length = true ∧ Concludes c m m') ∨
      (m'.isBack c.base.length = false ∧ c.base.length ≤ m.calls.depth ∧
        Goes c Eq m.step m'.step) := by
  have length : c.base'.length = c.base.length := (even.fits (r := .value) id).length.symm
  cases goes with
  | @waits _ _ pending pending' v same level control control' =>
      cases same
      right
      refine ⟨by rw [Machine.isBack, control'], ?_,
        .step_waits even (fun _ => rfl) level control control'⟩
      rw [m.calls.depth_eq]
      exact Nat.le_of_eq (congrArg List.length level.frames.symm)
  | @runs _ _ r r' same twin =>
      obtain rfl := same
      have deep : c.base.length < m.calls.depth := twin.depth_lt
      refine .inr ⟨?_, Nat.le_of_lt deep, ?_⟩
      · have going : ¬ m.isDone = true := by
          intro done
          have none := (live.atRest done).frames
          rw [m.calls.depth_eq, show m.calls.frames = [] from none] at deep
          exact Nat.not_lt_zero _ deep
        have deep' : ¬ m'.calls.depth ≤ c.base.length := by
          rw [← (twin.alike (even.fits id)).depth]
          exact Nat.not_le.2 deep
        rw [Machine.isDone, ← twin.control] at going
        unfold Machine.isBack
        cases control : m'.control with
        | running => exact decide_eq_false deep'
        | delivering v pending => rfl
        | returned v => simp [control] at going
        | uncaught id => simp [control] at going
      · rcases twin.onward (even.fits id) live with stopped | above |
          ⟨v, k, k', level, running, running', first, second⟩ | ⟨id, k, k', falls, first, second⟩
        · exact absurd stopped (not_overruns even _)
        · exact .runs rfl above
        · rw [first, second]
          exact .handOver even (fun _ => rfl) level running running' r v
        · rw [first, second]
          exact .raised id falls
  | @filled k k' values level =>
      refine .inl ⟨isBack_of_frames rfl ?_, .filled values level⟩
      rw [Machine.frames_withStack, List.length_modifyHead]
      exact (congrArg List.length level.frames').trans length
  | @raised k k' id falls =>
      refine .inl ⟨?_, .raised id falls⟩
      rw [Machine.raise_of_nil (falls.handlers'.trans closed)]
      rfl
  | @halted k k' v level =>
      obtain ⟨_, none, _⟩ := live
      exact absurd (level.frames.symm.trans none) some

/-- The operation runs out of fuel while the first machine is not below the seam, or both come to
its end. -/
theorem settles (goes : Goes c Eq m m') (even : c.Even) (some : c.base ≠ [])
    (closed : c.below' = []) (live : m.Live) (fuel : Nat) :
    (m'.settle? c.base.length fuel = none ∧
      ∀ k ≤ fuel, c.base.length ≤ (m.run k).calls.depth) ∨
    ∃ n' count, m'.settle? c.base.length fuel = .some n' ∧
      (∀ k < count, c.base.length ≤ (m.run k).calls.depth) ∧ Concludes c (m.run count) n' := by
  induction fuel generalizing m m' with
  | zero =>
      rcases goes.concludes_or_step even some closed live with ⟨back, concludes⟩ | ⟨away, deep, _⟩
      · refine .inr ⟨m', 0, ?_, fun k none => absurd none (Nat.not_lt_zero k), concludes⟩
        rw [Machine.settle?, if_pos back]
      · refine .inl ⟨?_, fun k few => ?_⟩
        · rw [Machine.settle?, away]
          rfl
        · rw [Nat.le_zero.1 few]
          exact deep
  | succ fuel ih =>
      rcases goes.concludes_or_step even some closed live with
        ⟨back, concludes⟩ | ⟨away, deep, next⟩
      · refine .inr ⟨m', 0, ?_, fun k none => absurd none (Nat.not_lt_zero k), concludes⟩
        rw [Machine.settle?, if_pos back]
      · have again : m'.settle? c.base.length (fuel + 1) = m'.step.settle? c.base.length fuel := by
          rw [Machine.settle?, away]
          rfl
        rw [again]
        rcases ih next live.step with ⟨out, inside⟩ | ⟨n', count, found, inside, concludes⟩
        · refine .inl ⟨out, fun k few => ?_⟩
          cases k with
          | zero => exact deep
          | succ k =>
              rw [Nat.add_comm k 1, Machine.run_add, Machine.run_one]
              exact inside k (Nat.le_of_succ_le_succ few)
        · refine .inr ⟨n', count + 1, found, fun k few => ?_, ?_⟩
          · cases k with
            | zero => exact deep
            | succ k =>
                rw [Nat.add_comm k 1, Machine.run_add, Machine.run_one]
                exact inside k (Nat.lt_of_succ_lt_succ few)
          · rw [Nat.add_comm, Machine.run_add, Machine.run_one]
            exact concludes

end Goes
end ScriptMachine
