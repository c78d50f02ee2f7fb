import ScriptMachine.Proofs.Host.Exceptions

/-!
Which exception a handler sees. A handler asks the machine for the exception it handles once for
every type it tests, once for the name it binds and once to raise it again, and between these the
types are computed, which may run any code. What the machine remembers is the exception that was
caught last. So a handler is given the exception it was entered with as long as no other one is
raised in the meantime, even inside a call that catches it; if one is, the handler is given that one.
-/

namespace ScriptMachine

namespace Action

/-- What is seen of the exception caught last can be raised again, and is that exception. -/
theorem result_raiseValue_seen {m : Machine} {id : ExceptionId} (current : m.current = some id) :
    (raiseValue (m.heap.seen id)).result m = (.error (.exception id), m) := by
  have found : (exceptionOf (m.heap.seen id)).result m = (.ok id, m) := by
    unfold Heap.seen
    cases payload : (m.heap.exception id).payload with
    | none => rfl
    | some object =>
        have known : (m.current.filter fun e => (m.heap.exception e).payload == some object)
            = some id := by
          rw [current, Option.filter_some, payload, beq_self_eq_true, if_pos rfl]
        dsimp only
        unfold exceptionOf
        rw [result_bind_ok (result_ask _ m), known]
        rfl
  unfold raiseValue
  rw [result_bind_ok found]
  rfl

end Action

namespace Machine

open ScriptMachine.Action

variable {m n : Machine} {r : Raised} {f : Frame} {others : List Frame} {i : Instruction}

/-- After a step that raises, the exception is the one caught last, or the run has ended. -/
theorem step_of_raised (raises : m.upcoming.result m = (.error r, n)) :
    m.step.current = some (r.resolve n).1 ∨ m.step.isDone = true := by
  cases handlers : n.handlers with
  | nil =>
      obtain ⟨_, _, control⟩ := perform_uncaught raises handlers
      right
      unfold isDone step
      rw [control]
  | cons h hs =>
      obtain ⟨_, _, _, current⟩ := perform_caught raises handlers
      left
      exact current

/-- The exception caught last stays the same while no other is raised. -/
theorem current_run (m : Machine) {start : Nat} {id : ExceptionId}
    (first : (m.run (start + 1)).current = some id ∨ (m.run (start + 1)).isDone = true)
    (more : Nat) (calm : ∀ k, start < k → k < start + 1 + more → ∀ r n,
      (m.run k).upcoming.result (m.run k) = (.error r, n) → (r.resolve n).1 = id) :
    (m.run (start + 1 + more)).current = some id ∨ (m.run (start + 1 + more)).isDone = true := by
  induction more with
  | zero => exact first
  | succ more ih =>
      have before := ih fun k after earlier => calm k after (by omega)
      have steady := (m.run (start + 1 + more)).upcoming_steady
      rw [← Nat.add_assoc, run_succ]
      rcases before with current | done
      · rcases result : (m.run (start + 1 + more)).upcoming.result (m.run (start + 1 + more))
          with ⟨r | done, n⟩
        · have same := calm (start + 1 + more) (by omega) (by omega) r n result
          rw [← same]
          exact step_of_raised result
        · rw [result] at steady
          left
          unfold step
          rw [perform_of_ok result, steady.current, current]
      · right
        rw [step_of_isDone done]
        exact done

/-- An instruction that asks for the exception caught last is given it. -/
theorem step_loadException {id : ExceptionId} (running : m.control = .running)
    (top : m.frames = f :: others) (next : f.next? = some i) (reads : i.op = .loadException)
    (current : m.current = some id) :
    m.step = (fetched m f i).withStack (m.heap.seen id :: f.stack) := by
  have noted := m.keeps_note fun _ => .instruction f.ip i.op f.stack.length m.calls.depth
  have same : (fetched m f i).current = some id := noted.current.trans current
  have done := result_readCaught same
  rw [heap_fetched, stack_fetched top, ← execute_loadException reads, ← result_advance top next]
    at done
  have upcoming : m.upcoming = advance := by
    rw [Machine.upcoming, running]
  rw [← upcoming] at done
  exact perform_of_ok done

/-- Code that raises what it was given raises the exception caught last. -/
theorem raises_seen {id : ExceptionId} {s : List Value} (running : m.control = .running)
    (top : m.frames = f :: others) (next : f.next? = some i) (raises : i.op = .raise)
    (given : f.stack = m.heap.seen id :: s) (current : m.current = some id) :
    (m.upcoming.result m).1 = .error (.exception id) := by
  have noted := m.keeps_note fun _ => .instruction f.ip i.op f.stack.length m.calls.depth
  have stack : (fetched m f i).stack = m.heap.seen id :: s := (stack_fetched top i).trans given
  have same : ((fetched m f i).withStack s).current = some id := noted.current.trans current
  have again := result_raiseValue_seen same
  rw [heap_withStack, heap_fetched] at again
  have upcoming : m.upcoming = advance := by
    rw [Machine.upcoming, running]
  rw [upcoming, result_advance top next, execute_raise raises stack, again]

end Machine

/-- What an instruction is given that asks for the exception caught last, and what becomes of it
if the next instruction raises it. The exception is the one that was raised at an earlier step,
if every step in between that raised at all raised this same one. -/
theorem Machine.sees_caught (m : Machine) {start stop : Nat} {r : Raised} {n : Machine}
    (raises : (m.run start).upcoming.result (m.run start) = (.error r, n)) (later : start < stop)
    (calm : ∀ k, start < k → k < stop → ∀ r' n',
      (m.run k).upcoming.result (m.run k) = (.error r', n') → (r'.resolve n').1 = (r.resolve n).1)
    {f : Frame} {others : List Frame} {i : Instruction}
    (running : (m.run stop).control = .running) (top : (m.run stop).frames = f :: others)
    (next : f.next? = some i) (reads : i.op = .loadException) :
    (m.run (stop + 1)).frames
        = { f with ip := f.ip + 1, stack := (m.run stop).heap.seen (r.resolve n).1 :: f.stack }
          :: others ∧
      ∀ j, f.method.code.body[f.ip + 1]? = some j → j.op = .raise →
        ((m.run (stop + 1)).upcoming.result (m.run (stop + 1))).1
          = .error (.exception (r.resolve n).1) := by
  obtain ⟨more, rfl⟩ := Nat.exists_eq_add_of_le later
  have first : (m.run (start + 1)).current = some (r.resolve n).1
      ∨ (m.run (start + 1)).isDone = true := by
    rw [run_succ]
    exact step_of_raised raises
  have current : (m.run (start + 1 + more)).current = some (r.resolve n).1 := by
    rcases m.current_run first more calm with current | done
    · exact current
    · rw [isDone, running] at done
      cases done
  have stepped := step_loadException running top next reads current
  have frames : (m.run (start + 1 + more + 1)).frames = { f with
      ip := f.ip + 1
      stack := (m.run (start + 1 + more)).heap.seen (r.resolve n).1 :: f.stack } :: others := by
    rw [run_succ, stepped, frames_withStack, Action.frames_fetched top]
    rfl
  refine ⟨frames, fun j second again => ?_⟩
  have noted := (m.run (start + 1 + more)).keeps_note fun _ =>
    .instruction f.ip i.op f.stack.length (m.run (start + 1 + more)).calls.depth
  rw [← run_succ] at stepped
  have heap : (m.run (start + 1 + more + 1)).heap = (m.run (start + 1 + more)).heap := by
    rw [stepped, heap_withStack, Action.heap_fetched]
  have still : (m.run (start + 1 + more + 1)).current = some (r.resolve n).1 := by
    rw [stepped]
    exact noted.current.trans current
  have going : (m.run (start + 1 + more + 1)).control = .running := by
    rw [stepped]
    exact noted.control.trans running
  exact raises_seen going frames second again (by rw [heap]) still

/-- The handler around an operator that raises binds the instance that the operator raised. -/
theorem sees_caught_raisingOperator :
    let m : Machine := (HostCall.value (.method 2) [.tuple [.int 5]]).after
      (Engine.loaded (compiledUnit raisingOperator)).machine 0
    (∃ n, (m.run 25).upcoming.result (m.run 25) = (.error (.exception 0), n)) ∧
      ∃ f i, (m.run 26).frames = [f] ∧ f.next? = some i ∧ i.op = .loadException ∧
        (m.run 27).frames = [{ f with ip := f.ip + 1, stack := .instance 0 :: f.stack }] := by
  intro m
  have raises : (m.run 25).raises? = some 0 := by decide +kernel
  obtain ⟨n, raised⟩ := Machine.eq_of_raises? raises
  have running : (m.run 26).control = .running := by decide +kernel
  have shape : (m.run 26).frames.map (fun f => f.next?.map (·.op)) = [some .loadException] := by
    decide +kernel
  have payload : ((m.run 26).heap.exception 0).payload = some 0 := by decide +kernel
  obtain ⟨f, rest, top, head, tail⟩ := List.map_eq_cons_iff.1 shape
  obtain rfl := List.map_eq_nil_iff.1 tail
  obtain ⟨i, next, reads⟩ := Option.map_eq_some_iff.1 head
  have frames := (m.sees_caught raised (by decide) (fun k after before => by omega) running top next
    reads).1
  refine ⟨⟨_, raised⟩, f, i, top, next, reads, ?_⟩
  rw [frames, Raised.resolve, Heap.seen, payload]

/-- A handler whose type is the result of a function that catches an exception of its own. -/
def raisingType : List Stmt :=
  [.classDef {} (.mk {} "Outer" [] none []), .classDef {} (.mk {} "Inner" [] none []),
    .function {} (.mk { name := "pick" }
      [.tryExcept {} (.raise {} (.call {} (.name {} "Inner") [] [])) none [] (.block {} []),
        .ret {} (some (.name {} "Outer"))]),
    .function {} (.mk { name := "main" }
      [.tryExcept {} (.raise {} (.call {} (.name {} "Outer") [] [])) (some "e")
        [.call {} (.name {} "pick") [] []] (.ret {} (some (.name {} "e")))])]

/-- The instance that the run came to. -/
def Control.instance? : Control → Option InstanceId
  | .returned (.instance id) => some id
  | _ => none

theorem Control.eq_of_instance? {c : Control} {id : InstanceId} (returns : c.instance? = some id) :
    c = .returned (.instance id) := by
  unfold Control.instance? at returns
  split at returns
  · cases returns
    rfl
  · cases returns

/-- The body of the region raises instance 0, of the first class, and the handler is entered with
it. While the type is computed instance 1 is raised and caught. The name is bound to instance 1,
which is what the function returns. -/
theorem binds_other_raisingType :
    let m : Nat → Machine := (HostCall.value (.method 3) []).after
      (Engine.loaded (compiledUnit raisingType)).machine
    (∃ n, (m 7).upcoming.result (m 7) = (.error (.exception 0), n)) ∧
      ((m 8).heap.exception 0).payload = some 0 ∧ (m 8).current = some 0 ∧
      (m 8).frames.map (fun f => (f.ip, f.next?.map (·.op))) = [(6, some .loadException)] ∧
      (m 24).frames.map (fun f => (f.ip, f.next?.map (·.op))) = [(13, some .loadException)] ∧
      (m 30).control = .returned (.instance 1) := by
  intro m
  have raises : (m 7).raises? = some 0 := by decide +kernel
  have returns : (m 30).control.instance? = some 1 := by decide +kernel
  exact ⟨Machine.eq_of_raises? raises, by decide +kernel, by decide +kernel, by decide +kernel, by decide +kernel,
    Control.eq_of_instance? returns⟩

end ScriptMachine
