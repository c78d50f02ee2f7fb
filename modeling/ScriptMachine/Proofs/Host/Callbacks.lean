import ScriptMachine.Proofs.Host.Exceptions
import ScriptMachine.Proofs.Machine.Abreast

/-!
Direct calls and callbacks. A frame calls a value, or it calls a function of the host which calls
the value for it. Both come to the same: the frame gets the same value, or the same exception goes
to the same handler, and all else is the same too. The one difference is that the function of the
host makes a nested call, of which there may be too many.
-/

namespace ScriptMachine

open ScriptMachine.Action

namespace Machine

variable {m m' : Machine} {depth : Nat}

theorem settles_step (going : ¬ m.Settled depth) (n : Machine) :
    m.Settles depth n ↔ m.step.Settles depth n := by
  have start : ∀ k < 1, ¬ (m.run k).Settled depth := by
    intro k few
    rw [Nat.lt_one_iff.1 few]
    exact going
  refine ⟨fun settles => ?_, fun settles => ?_⟩
  · obtain ⟨count, settles, rfl⟩ := settles
    obtain ⟨more, rfl, rest⟩ := settles.sub start
    rw [run_one] at rest
    refine ⟨more, rest, ?_⟩
    rw [run_add, run_one]
  · obtain ⟨count, settles, rfl⟩ := settles
    rw [← run_one] at settles
    refine ⟨1 + count, settles.add start, ?_⟩
    rw [run_add, run_one]

theorem settles_of_settled (settled : m.Settled depth) {n : Machine} :
    m.Settles depth n ↔ n = m := by
  refine ⟨fun settles => ?_, fun same => ?_⟩
  · obtain ⟨count, settles, rfl⟩ := settles
    have none : count = 0 := by
      by_contra some
      exact settles.first 0 (Nat.pos_of_ne_zero some) settled
    rw [none]
    rfl
  · subst same
    exact ⟨0, ⟨settled, fun k few => absurd few (Nat.not_lt_zero k)⟩, rfl⟩

theorem agree_of_settled (settled : m.Settled depth) (settled' : m'.Settled depth)
    (same : m.Same m') : m.Agree m' depth := by
  refine ⟨fun n settles => ?_, fun n' settles => ?_⟩
  · rw [(settles_of_settled settled).1 settles]
    exact ⟨m', (settles_of_settled settled').2 rfl, same⟩
  · rw [(settles_of_settled settled').1 settles]
    exact ⟨m, (settles_of_settled settled).2 rfl, same⟩

/-- The function of the host that calls the value it is given first makes it known which. -/
theorem perform_apply (m : Machine) {apply : NativeObject} (is : apply.fn = .host .apply)
    (callee : Value) (args : List Value) :
    m.perform (invoke (.native apply) (callee :: args))
      = { m with control := .delivering callee (Pending.push.before (.apply args)) } := by
  have done : (invoke (.native apply) (callee :: args)).result m
      = (.ok (), { m with control := .delivering callee (Pending.push.before (.apply args)) }) := by
    obtain ⟨fn, number⟩ := apply
    cases is
    rfl
  exact perform_of_ok done

/-- A call that the topmost frame makes and one that a function of the host makes for it agree,
unless the second is refused because too many calls are nested. -/
theorem Waits.callback_agrees (waits : m.Waits (.frame 1)) {apply : NativeObject}
    (is : apply.fn = .host .apply) (callee : Value) (args : List Value)
    (free : (m.perform (invoke (.native apply) (callee :: args))).Unrefused m.frames.length) :
    (m.perform (invoke callee args)).Agree (m.perform (invoke (.native apply) (callee :: args)))
      m.frames.length := by
  have even := waits.even
  have answers : Answers false (.frame 1) (invoke callee args) := invoke_answers callee args
  have live := (answers.safe waits nofun).perform
  rw [m.perform_apply is] at free ⊢
  generalize callback : ({ m with control := .delivering callee (Pending.push.before (.apply args)) } :
    Machine) = nested at free ⊢
  have control : nested.control = .delivering callee (Pending.push.before (.apply args)) := by
    rw [← callback]
  have level : AtSeam m.seam m nested := by
    rw [← callback]
    exact ⟨⟨rfl, rfl, rfl, rfl, rfl, rfl, rfl, rfl⟩, rfl, rfl, rfl, rfl, rfl⟩
  have going : ¬ nested.Settled m.frames.length := not_settled_of_delivering control
  have upcoming : nested.upcoming = call callee args .push := by
    rw [Machine.upcoming, control]
    rfl
  have accepted : ¬ Refused ((call callee args .push).result nested).1 := by
    rintro ⟨limit, stopped⟩
    rw [← upcoming] at stopped
    refine free 0 (fun k none => ?_) limit stopped
    rw [Nat.le_zero.1 none]
    exact going
  have goes : Goes m.seam Corresponds (m.perform (invoke callee args)) nested.step := by
    unfold Machine.step
    rw [upcoming]
    exact ((Meets.invoke even level callee args).resolve_left accepted).perform
  have onward : nested.step.Unrefused m.frames.length := by
    have start : ∀ k < 1, ¬ (nested.run k).Settled m.frames.length := by
      intro k few
      rw [Nat.lt_one_iff.1 few]
      exact going
    rw [← run_one]
    exact free.later start
  have agree : (m.perform (invoke callee args)).Agree nested.step m.frames.length := by
    rcases goes.abreast even live with abreast | ⟨settled, settled', same⟩
    · exact agree_of_advances (fun _ _ related free => related.advances even free) abreast onward
    · exact agree_of_settled settled settled' same
  obtain ⟨forth, back⟩ := agree
  refine ⟨fun n settles => ?_, fun n' settles => ?_⟩
  · obtain ⟨n', settles', same⟩ := forth n settles
    exact ⟨n', (settles_step going n').2 settles', same⟩
  · exact back n' ((settles_step going n').1 settles)

end Machine

/-- While a class is made ready for the topmost frame, the frame waits for the instance. -/
theorem Machine.Live.waits_instance {m : Machine} (live : m.Live)
    (constructs : (match m.control with
      | .delivering _ ⟨_, .construct _ _⟩ => true
      | _ => false) = true) : Machine.Waits { m with control := .running } (.frame 1) := by
  obtain ⟨sound, shape⟩ := live
  split at constructs
  · next control =>
    rw [control] at shape
    exact ⟨sound, shape⟩
  · cases constructs

/-- The number of steps after which a run comes back, found by computation. -/
theorem Machine.settlesIn_of_decide {m : Machine} {depth count : Nat}
    (going : (List.range count).all (fun k => match (m.run k).control with
      | .running => decide (depth < (m.run k).calls.depth)
      | .delivering _ _ => true
      | _ => false) = true)
    (back : (match (m.run count).control with
      | .running => decide ((m.run count).calls.depth ≤ depth)
      | _ => false) = true) : m.SettlesIn depth count := by
  refine ⟨?_, fun k few settled => ?_⟩
  · split at back
    · next control => exact .inr ⟨control, of_decide_eq_true back⟩
    · cases back
  · have holds := List.all_eq_true.1 going k (List.mem_range.2 few)
    split at holds
    · next control =>
      have deep := of_decide_eq_true holds
      rcases settled with done | ⟨_, low⟩
      · rw [isDone, control] at done
        cases done
      · omega
    · next control => exact not_settled_of_delivering control settled
    · cases holds

theorem Machine.SettlesIn.unrefused {m : Machine} {depth count : Nat}
    (settles : m.SettlesIn depth count)
    (fine : (List.range count).all (fun k => match ((m.run k).upcoming.result (m.run k)).1 with
      | .error (.fault (.nestingLimit _)) => false
      | _ => true) = true) : m.Unrefused depth := by
  intro k others limit stopped
  have few : k < count := by
    by_contra late
    exact others count (Nat.le_of_not_lt late) settles.settled
  have holds := List.all_eq_true.1 fine k (List.mem_range.2 few)
  rw [stopped] at holds
  cases holds

/-- The frame of `total` has given its operands away and is about to construct an instance, or to
let a function of the host do it. The second takes three steps more, and both get the instance. -/
theorem callback_agrees_raisingOperator :
    let m : Machine := { (HostCall.value (.method 2) [.tuple [.int 5]]).after
      (Engine.loaded (compiledUnit raisingOperator)).machine 18 with control := .running }
    m.Waits (.frame 1) ∧ m.frames.length = 1 ∧
      (m.perform (invoke (.native ⟨.host .apply, 0⟩) [.cls 0])).Unrefused 1 ∧
      (m.perform (invoke (.cls 0) [])).Agree
        (m.perform (invoke (.native ⟨.host .apply, 0⟩) [.cls 0])) 1 ∧
      (m.perform (invoke (.cls 0) [])).SettlesIn 1 3 ∧
      (m.perform (invoke (.native ⟨.host .apply, 0⟩) [.cls 0])).SettlesIn 1 6 := by
  intro m
  have rest := (Engine.hosted_loaded compile_raisingOperator).atRest
  have live := rest.after_live (.value (.method 2) [.tuple [.int 5]]) 18
  have waits : m.Waits (.frame 1) := live.waits_instance (by decide +kernel)
  have direct : (m.perform (invoke (.cls 0) [])).SettlesIn 1 3 :=
    Machine.settlesIn_of_decide (by decide +kernel) (by decide +kernel)
  have callback : (m.perform (invoke (.native ⟨.host .apply, 0⟩) [.cls 0])).SettlesIn 1 6 :=
    Machine.settlesIn_of_decide (by decide +kernel) (by decide +kernel)
  have free := callback.unrefused (by decide +kernel)
  have one : m.frames.length = 1 := by decide +kernel
  have is : (NativeObject.mk (.host .apply) 0).fn = .host .apply := rfl
  have agree := waits.callback_agrees is (.cls 0) [] (by rw [one]; exact free)
  rw [one] at agree
  exact ⟨waits, one, free, agree, direct, callback⟩

end ScriptMachine
