import ScriptMachine.Proofs.Host.Handling
import ScriptMachine.Proofs.Machine.Fetching
import ScriptMachine.Proofs.Machine.Recalling

/-!
Raising again what was caught. A handler that raises a built-in exception raises the very exception
it caught, with the trace it had, whatever happened in the meantime. An instance is only known by the
exception that was caught last. As long as this is the one it was caught with, that one is raised
again. If another one was caught in the meantime, even inside a call, the instance is raised with a
new exception, which has the trace of the place where it is raised again.
-/

namespace ScriptMachine

open ScriptMachine.Action

/-- The functions of the host meet a demand when a call begins if those do that are installed. -/
theorem HostCall.hosts_machine {P : Routine → Prop} {m : Machine}
    (foreign : ∀ fn receiver args, P (m.foreign fn receiver args)) (idle : m.frames = [])
    (c : HostCall) : (c.machine m).Hosts P := by
  have frames : ∀ f ∈ m.frames, f.returns.Hosts P := by
    rw [idle]
    exact fun _ member => absurd member List.not_mem_nil
  cases c with
  | module id | value callee args => exact ⟨foreign, trivial, frames⟩

/-- What a call of a host begins with leaves alone what is to stay. -/
theorem HostCall.action_respects {stays : Heap → Heap → Prop} [Lasting stays] (c : HostCall)
    (m : Machine) : Respects stays (c.action m) :=
  Careful.respects fun _ => c.careful m fun _ _ _ => ⟨trivial, fun _ _ => trivial⟩

/-- A call of a host keeps to what the functions of the host do. -/
theorem HostCall.respectful_after {m : Machine}
    (foreign : ∀ fn receiver args, (m.foreign fn receiver args).Respectful) (idle : m.frames = [])
    (c : HostCall) (steps : Nat) : (c.after m steps).Hosts Routine.Respectful :=
  (((c.hosts_machine foreign idle).perform_recalls (c.action_respects m)).1.run_recalls steps).1

namespace Machine

variable {m : Machine} {v : Value} {object : InstanceId} {id : ExceptionId}

/-- The value that the next instruction raises. -/
def raising? (m : Machine) : Option Value := do
  let (f, i) ← m.fetch?
  match i.op with
  | .raise => f.stack.head?
  | _ => none

theorem raising?_eq_some (raising : m.raising? = some v) :
    ∃ f rest i s, m.Fetches f rest i ∧ i.op = .raise ∧ f.stack = v :: s := by
  obtain ⟨f, rest, i, fetches, raising⟩ := fetches_of_bind_fetch? raising
  dsimp only at raising
  split at raising
  · next raises =>
      obtain ⟨s, stack⟩ := List.head?_eq_some_iff.1 raising
      exact ⟨f, rest, i, s, fetches, raises, stack⟩
  · cases raising

/-- The next step raises this exception, and has not changed the heap before. -/
def RaisesAgain (m : Machine) (id : ExceptionId) : Prop :=
  ∃ n, m.upcoming.result m = (.error (.exception id), n) ∧ n.heap = m.heap

/-- What the next instruction raises. -/
theorem upcoming_raising (raising : m.raising? = some v) : ∃ f rest i s, m.Fetches f rest i ∧
    m.upcoming.result m = (raiseValue v).result ((fetched m f i).withStack s) := by
  obtain ⟨f, rest, i, s, fetches, raises, stack⟩ := raising?_eq_some raising
  refine ⟨f, rest, i, s, fetches, ?_⟩
  rw [fetches.upcoming, execute_raise raises (fetches.stack.trans stack)]

/-- A built-in exception is raised as it is. -/
theorem raisesAgain_exception (raising : m.raising? = some (.exception id)) : m.RaisesAgain id := by
  obtain ⟨f, rest, i, s, fetches, upcoming⟩ := upcoming_raising raising
  exact ⟨_, upcoming, heap_fetched m f i⟩

/-- The exception that was caught last is raised for the instance it was raised with. -/
theorem raisesAgain_instance (raising : m.raising? = some (.instance object))
    (current : m.current = some id) (payload : (m.heap.exception id).payload = some object) :
    m.RaisesAgain id := by
  obtain ⟨f, rest, i, s, fetches, upcoming⟩ := upcoming_raising raising
  have heap : ((fetched m f i).withStack s).heap = m.heap := heap_fetched m f i
  have same : ((fetched m f i).withStack s).current = some id :=
    (m.keeps_note _).current.trans current
  have seen : ((fetched m f i).withStack s).heap.seen id = .instance object := by
    rw [heap, Heap.seen, payload]
  have again := result_raiseValue_seen same
  rw [seen, ← upcoming] at again
  exact ⟨_, again, heap⟩

/-- An instance is raised with a new exception if it was not what was caught last. -/
theorem raises_new (raising : m.raising? = some (.instance object))
    (other : ∀ e, m.current = some e → (m.heap.exception e).payload ≠ some object) :
    ∃ f rest i n, m.Fetches f rest i ∧
      m.upcoming.result m = (.error (.exception m.heap.exceptions.size), n) ∧
      n.heap = (m.heap.newException (exceptionOf.wrapped m.heap object)).2 ∧
      n.trace = ⟨f.method.code.name, i.loc⟩ :: rest.map Frame.traceFrame := by
  obtain ⟨f, rest, i, s, fetches, upcoming⟩ := upcoming_raising raising
  let n := (fetched m f i).withStack s
  have heap : n.heap = m.heap := heap_fetched m f i
  have unknown : (n.current.filter fun e => (n.heap.exception e).payload == some object) = none := by
    have same : n.current = m.current := (m.keeps_note _).current
    rw [heap, same, Option.filter_eq_none_iff]
    intro e last
    simpa using other e last
  have made : (exceptionOf (.instance object)).result n = (.ok n.heap.exceptions.size,
      { n with heap := (n.heap.newException (exceptionOf.wrapped n.heap object)).2 }) := by
    unfold exceptionOf
    rw [result_bind_ok (result_ask _ n), unknown]
    rfl
  have raised : (raiseValue (.instance object)).result n
      = (.error (.exception n.heap.exceptions.size),
      { n with heap := (n.heap.newException (exceptionOf.wrapped n.heap object)).2 }) := by
    unfold raiseValue
    rw [result_bind_ok made]
    rfl
  rw [heap] at raised
  refine ⟨f, rest, i, _, fetches, upcoming.trans raised, rfl, ?_⟩
  change n.frames.map Frame.traceFrame = _
  rw [fetches.frames_withStack, List.map_cons, Frame.traceFrame, Frame.location,
    Nat.add_sub_cancel]
  have next : f.method.code.body[f.ip]? = some i := fetches.next
  rw [next]
  rfl

/-! ## The exception that was raised -/

/-- There was a frame if there is one when the exception has been raised. -/
theorem frames_ne_nil_of_raise (caught : (m.raise id).frames ≠ []) : m.frames ≠ [] := by
  intro none
  apply caught
  cases opened : m.handlers with
  | nil => exact frames_raise_of_nil opened id
  | cons h hs =>
      rw [frames_raise_of_cons opened, none, List.drop_nil]
      rfl

/-- The exception that the next step raises, which is a new one if it fails. -/
def raisedNext? (m : Machine) : Option ExceptionId :=
  match m.upcoming.result m with
  | (.error r, n) => some (r.resolve n).1
  | _ => none

theorem raisedNext?_eq_some : m.raisedNext? = some id ↔
    ∃ r n, m.upcoming.result m = (.error r, n) ∧ (r.resolve n).1 = id := by
  unfold raisedNext?
  split
  · next r n failed =>
      rw [Option.some.injEq]
      refine ⟨fun same => ⟨r, n, failed, same⟩, fun ⟨r', n', failed', same⟩ => ?_⟩
      obtain ⟨⟨⟩, rfl⟩ := Prod.mk.inj (failed.symm.trans failed')
      exact same
  · next fine => exact ⟨nofun, fun ⟨r, n, failed, _⟩ => absurd failed (fine r n)⟩

/-- Between these steps no exception but this one is raised. -/
def Calm (m : Machine) (start stop : Nat) (id : ExceptionId) : Prop :=
  ∀ k, start < k → k < stop → ∀ other, (m.run k).raisedNext? = some other → other = id

/-- What is raised by a handler that raises what it was given. The exception that it caught stays as
it was. A built-in exception is raised again in any case. So is the exception that was caught with
an instance, if no other one has been caught since, for example because none was raised. Otherwise
the instance is raised with a new exception, and the trace of that begins where it is raised. -/
theorem reraises_caught (fine : m.Hosts Routine.Respectful) {start stop : Nat}
    (raised : (m.run start).raisedNext? = some id)
    (known : id < (m.run (start + 1)).heap.exceptions.size)
    (caught : (m.run (start + 1)).frames ≠ []) (later : start < stop)
    (raising : (m.run stop).raising? = some ((m.run (start + 1)).heap.seen id)) :
    let e := (m.run (start + 1)).heap.exception id
    (m.run (stop + 1)).heap.exception id = e ∧
    (e.payload = none → (m.run stop).RaisesAgain id) ∧
    ∀ object, e.payload = some object →
      (m.Calm start stop id → (m.run stop).current = some id) ∧
      ((m.run stop).current = some id → (m.run stop).RaisesAgain id) ∧
      ((∀ last, (m.run stop).current = some last →
          ((m.run stop).heap.exception last).payload ≠ some object) →
        ∃ f rest i, (m.run stop).Fetches f rest i ∧
          ((m.run stop).upcoming.result (m.run stop)).1
            = .error (.exception (m.run stop).heap.exceptions.size) ∧
          (m.run (stop + 1)).heap.exception (m.run stop).heap.exceptions.size
            = { exceptionOf.wrapped (m.run stop).heap object with
                trace := ⟨f.method.code.name, i.loc⟩ :: rest.map Frame.traceFrame }) := by
  intro e
  obtain ⟨more, rfl⟩ := Nat.exists_eq_add_of_le later
  obtain ⟨r, n, failed, same⟩ := raisedNext?_eq_some.1 raised
  have stepped : m.run (start + 1) = (r.resolve n).2.raise id := by
    rw [run_succ, step, perform_of_error failed, same]
  have traced : e.trace ≠ [] := by
    rw [stepped, heap_raise, Heap.setTrace, Array.size_modify] at known
    rw [stepped] at caught
    change ((m.run (start + 1)).heap.exception id).trace ≠ []
    rw [stepped]
    exact trace_raise known (frames_ne_nil_of_raise caught)
  have stays (k : Nat) : (m.run (start + 1 + k)).heap.exception id = e := by
    have recalls := ((fine.run_recalls (start + 1)).1.run_recalls k).2
    rw [← run_add] at recalls
    exact (recalls.becomes id known).eq traced
  refine ⟨stays (more + 1), fun plain => ?_,
    fun object payload => ⟨fun calm => ?_, fun current => ?_, fun other => ?_⟩⟩
  · have seen : (m.run (start + 1)).heap.seen id = .exception id := by
      rw [Heap.seen, plain]
    exact raisesAgain_exception (raising.trans (congrArg some seen))
  · obtain ⟨f, rest, i, s, fetches, _⟩ := raising?_eq_some raising
    have first : (m.run (start + 1)).current = some id ∨ (m.run (start + 1)).isDone = true := by
      rw [run_succ, ← same]
      exact step_of_raised failed
    rcases m.current_run first more fun k after before r' n' failed' =>
      calm k after before _ (raisedNext?_eq_some.2 ⟨r', n', failed', rfl⟩) with current | done
    · exact current
    · rw [isDone, fetches.control] at done
      cases done
  · have seen : (m.run (start + 1)).heap.seen id = .instance object := by
      rw [Heap.seen, payload]
    exact raisesAgain_instance (raising.trans (congrArg some seen)) current
      ((congrArg ExceptionObject.payload (stays more)).trans payload)
  · have seen : (m.run (start + 1)).heap.seen id = .instance object := by
      rw [Heap.seen, payload]
    obtain ⟨f, rest, i, k, fetches, upcoming, heap, trace⟩ :=
      raises_new (raising.trans (congrArg some seen)) other
    refine ⟨f, rest, i, fetches, congrArg Prod.fst upcoming, ?_⟩
    have fresh : k.heap.exception (m.run (start + 1 + more)).heap.exceptions.size
        = exceptionOf.wrapped (m.run (start + 1 + more)).heap object := by
      rw [heap]
      exact Heap.exception_newException _ _
    have made : (m.run (start + 1 + more)).heap.exceptions.size < k.heap.exceptions.size := by
      rw [heap]
      exact Heap.size_newException _ _
    rw [run_succ, step, perform_of_error upcoming]
    exact (exception_raise made).trans (by rw [fresh, trace]; rfl)

end Machine

/-- The exception that a value is. -/
def Value.exception? : Value → Option ExceptionId
  | .exception id => some id
  | _ => none

theorem Value.eq_of_exception? {v : Value} {id : ExceptionId} (is : v.exception? = some id) :
    v = .exception id := by
  unfold exception? at is
  split at is
  · cases is
    rfl
  · cases is

/-- The instance that a value is. -/
def Value.instance? : Value → Option InstanceId
  | .instance id => some id
  | _ => none

/-- Catches what the body raises, catches another exception, and raises the first one again. -/
def raisingAgain (body : Stmt) : List Stmt :=
  [.tryExcept {} body (some "e") [] (.block {}
    [.tryExcept {} (.expr ⟨2, 1⟩ (.name ⟨2, 1⟩ "missing")) none [] (.block {} []),
      .raise ⟨3, 1⟩ (.name ⟨3, 1⟩ "e")])]

/-- Two functions that raise again what they caught, a built-in exception and an instance. -/
def reraising : List Stmt :=
  [.classDef {} (.mk {} "E" [] none []),
    .function {} (.mk { name := "builtin" }
      (raisingAgain (.expr ⟨1, 1⟩ (.name ⟨1, 1⟩ "missing")))),
    .function {} (.mk { name := "main" }
      (raisingAgain (.raise ⟨1, 1⟩ (.call ⟨1, 1⟩ (.name ⟨1, 1⟩ "E") [] []))))]

/-- The machine of an engine that has loaded the unit runs one of its functions. -/
def reraisingMachine (id : MethodId) : Machine :=
  (HostCall.value (.method id) []).after (Engine.loaded (compiledUnit reraising)).machine 0

theorem respectful_reraisingMachine (id : MethodId) :
    (reraisingMachine id).Hosts Routine.Respectful :=
  HostCall.respectful_after (m := (Engine.loaded (compiledUnit reraising)).machine)
    (fun _ _ _ => trivial) rfl (.value (.method id) []) 0

/-- The built-in exception is raised again as it was. -/
theorem reraises_caught_builtin :
    let m := reraisingMachine 1
    (m.run 7).RaisesAgain 0 ∧ (m.run 8).heap.exception 0 = (m.run 2).heap.exception 0 ∧
      ((m.run 2).heap.exception 0).trace = [⟨"builtin", ⟨1, 1⟩⟩] := by
  intro m
  have fine : m.Hosts Routine.Respectful := respectful_reraisingMachine 1
  have raised : (m.run 1).raisedNext? = some 0 := by decide +kernel
  have known : 0 < (m.run (1 + 1)).heap.exceptions.size := by decide +kernel
  have caught : (m.run (1 + 1)).frames.isEmpty = false := by decide +kernel
  have builtin : ((m.run (1 + 1)).heap.exception 0).payload = none := by decide +kernel
  have value : (m.run 7).raising?.bind Value.exception? = some 0 := by decide +kernel
  obtain ⟨v, given, is⟩ := Option.bind_eq_some_iff.1 value
  have raising : (m.run 7).raising? = some ((m.run (1 + 1)).heap.seen 0) := by
    rw [given, Value.eq_of_exception? is, Heap.seen, builtin]
  obtain ⟨same, again, _⟩ := Machine.reraises_caught fine raised known
    (fun none => by rw [none] at caught; cases caught) (by decide) raising
  exact ⟨again builtin, same, by decide +kernel⟩

/-- The handler of the instance has caught another exception in the meantime. What it raises is a new
exception, which does not have the trace of the one that was caught. -/
theorem reraises_new_exception :
    let m := reraisingMachine 2
    (m.run 7).raisedNext? = some 0 ∧ (m.run 8).frames.length = 1 ∧
      ((m.run 8).heap.exception 0).payload = some 0 ∧
      ((m.run 8).heap.exception 0).trace = [⟨"main", ⟨1, 1⟩⟩] ∧
      (m.run 13).raising?.bind Value.instance? = some 0 ∧
      (m.run 13).raisedNext? = some 2 ∧
      ((m.run 14).heap.exception 2).trace = [⟨"main", ⟨3, 1⟩⟩] := by
  decide +kernel

end ScriptMachine
