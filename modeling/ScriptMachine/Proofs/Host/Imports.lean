import ScriptMachine.Proofs.Host.Defects
import ScriptMachine.Proofs.Machine.Lifetimes

/-!
Imports. A module is remembered under its name when its top level is called, and is not forgotten
if an exception leaves it. So the first use of a name goes on only when the top level of the module
has returned, but a later one goes on at once, whatever became of the first.
-/

namespace ScriptMachine

open ScriptMachine.Action

namespace Action

theorem modules_newFrame (call : Call) (returns : Returns) (m : Machine) :
    ((newFrame call returns).result m).2.modules = m.modules := by
  unfold newFrame
  rw [result_bind_ok (result_ask _ m), result_bind_ok (result_ask _ m)]
  dsimp only
  split
  · rfl
  · rw [result_bind_ok (result_askHeap _ m), result_bind_ok (result_changeHeap _ m), result_bind,
      result_primitive]
    rcases ((m.heap.method call.method).code.bind call.args).result
      (m.heap.makeRoom (m.heap.method call.method).code call.env) with ⟨e | values, h⟩
    · rfl
    · dsimp only
      rw [result_bind, result_primitive]
      rcases (environment (m.heap.method call.method).code call.env values).result h with
        ⟨e | env, h'⟩
      · rfl
      · rfl

theorem modules_enter (call : Call) (pending : Pending) (m : Machine) :
    ((enter call pending).result m).2.modules = m.modules := by
  have framed := modules_newFrame call (.resume pending) m
  unfold enter
  rw [result_bind_ok (result_ask _ m), result_bind_ok (result_ask _ m)]
  dsimp only
  split
  · rfl
  · unfold activate
    rw [result_bind]
    rcases made : (newFrame call (.resume pending)).result m with ⟨e | f, n⟩ <;> rw [made] at framed
    · exact framed
    · exact ((Machine.World.refl _).noted _).modules.trans framed

end Action

namespace Machine

theorem modules_raise (m : Machine) (id : ExceptionId) : (m.raise id).modules = m.modules := by
  have told := ((World.refl { m with heap := m.heap.setTrace id m.trace }).noted fun _ =>
    .raise ((m.heap.setTrace id m.trace).exception id).type (!m.handlers.isEmpty)).modules
  rw [raise_eq]
  split
  · exact told
  · exact told

/-- Raising forgets no module. -/
theorem modules_perform (m : Machine) (a : Action Unit) :
    (m.perform a).modules = (a.result m).2.modules := by
  rcases done : a.result m with ⟨e | x, n⟩
  · rw [perform_of_error done, modules_raise]
    cases e <;> rfl
  · rw [perform_of_ok done]

/-- The name of the module that the next instruction uses. -/
def usedName? (m : Machine) : Option String :=
  match m.control, m.frames with
  | .running, f :: _ => do
      let i ← f.next?
      match i.op, (m.heap.module f.method.module).constants[i.arg]? with
      | .importModule, some (.str name) | .importFrom, some (.str name)
      | .importAll, some (.str name) => some name
      | _, _ => none
  | _, _ => none

variable {m : Machine} {name : String}

theorem usedName?_eq_some (uses : m.usedName? = some name) :
    m.control = .running ∧ ∃ f rest i, m.frames = f :: rest ∧ f.next? = some i ∧
      (i.op = .importModule ∨ i.op = .importFrom ∨ i.op = .importAll) ∧
      (m.heap.module f.method.module).constants[i.arg]? = some (.str name) := by
  unfold usedName? at uses
  split at uses
  · next f rest running top =>
      obtain ⟨i, next, uses⟩ := Option.bind_eq_some_iff.1 uses
      refine ⟨running, f, rest, i, top, next, ?_⟩
      split at uses
      · next is held => cases uses; exact ⟨.inl is, held⟩
      · next is held => cases uses; exact ⟨.inr (.inl is), held⟩
      · next is held => cases uses; exact ⟨.inr (.inr is), held⟩
      · cases uses
  · cases uses

/-- An instruction that uses a module has it loaded, and does something with it then. -/
theorem Live.loads (live : m.Live) (uses : m.usedName? = some name) : ∃ pending n,
    m.upcoming.result m = (loadModule name pending).result n ∧
      n.heap = m.heap ∧ n.modules = m.modules ∧ n.loader = m.loader := by
  obtain ⟨running, f, rest, i, top, next, imports, named⟩ := usedName?_eq_some uses
  obtain ⟨l, executing, expects⟩ := fetched_executing live running top next
  have held : (fetched m f i).constant? i.arg = some (.str name) := by
    rw [constant?, frames_fetched top, heap_fetched]
    exact named
  have upcoming : m.upcoming.result m = (execute i).result (fetched m f i) := by
    rw [upcoming, running]
    exact result_advance top next
  have world := (World.refl m).fetched f i
  rcases imports with is | is | is
  · exact ⟨_, _, upcoming.trans (execute_importModule is held), world.heap, world.modules,
      world.loader⟩
  · rw [Instruction.Expects, is] at expects
    obtain ⟨items, s, found⟩ := expects
    exact ⟨_, _, upcoming.trans (execute_importFrom is held found), world.heap, world.modules,
      world.loader⟩
  · exact ⟨_, _, upcoming.trans (execute_importAll is held), world.heap, world.modules,
      world.loader⟩

/-- What becomes of a use of a module. Is its name remembered, the use goes on with the module at
once, whatever became of the top level of the module. Is it new, it is remembered from now on and
the top level of the module that the loader finds is called, and this call lasts, has returned or
was left by an exception, however long one waits. The name of a module that is not found is not
remembered. -/
theorem Live.use_outcome (live : m.Live) (uses : m.usedName? = some name) :
    (∀ id, m.modules.get? name = some id →
      ∃ pending, m.step.control = .delivering (.module id) pending ∧ m.step.modules = m.modules) ∧
    (∀ id, m.modules.get? name = none → m.loader name = some id →
      m.step.modules.get? name = some id ∧
        (m.Raises ∨ ∃ f rest, ∃ pending : Pending, m.step.frames = f :: rest ∧
          f.method = m.heap.method (m.heap.module id).topLevel ∧ f.ip = 0 ∧
          f.returns = .resume (pending.before (.answer (.module id))) ∧
          ∀ steps, Fate m.step.run f rest steps)) ∧
    (m.modules.get? name = none → m.loader name = none →
      m.Raises ∧ m.step.modules = m.modules) := by
  obtain ⟨pending, n, loads, heap, modules, loader⟩ := live.loads uses
  refine ⟨fun id known => ?_, fun id new found => ?_, fun new missing => ?_⟩
  · have done : m.upcoming.result m
        = (.ok (), { n with control := .delivering (.module id) pending }) := by
      rw [loads, loadModule, result_bind_ok (result_askFor (modules ▸ known))]
      rfl
    rw [Machine.step, perform_of_ok done]
    exact ⟨pending, rfl, modules⟩
  · let n' := { n with modules := n.modules.set name id }.note fun _ => .load name
    have world : n'.World { n with modules := n.modules.set name id } := (World.refl _).noted _
    have heap' : n'.heap = m.heap := world.heap.trans heap
    have enters : m.upcoming.result m = (enter { method := (n'.heap.module id).topLevel }
        (pending.before (.answer (.module id)))).result n' := by
      rw [loads, loadModule, result_bind_ok (result_askFor (modules ▸ new)),
        result_bind_ok (result_askFor (loader ▸ found)), result_bind_ok (result_change _ n),
        result_bind_ok (result_askHeap _ n')]
    refine ⟨?_, ?_⟩
    · rw [Machine.step, modules_perform, enters, modules_enter, world.modules]
      exact Bindings.get?_set_self _ _ _
    · rcases enter_starts n' { method := (n'.heap.module id).topLevel }
        (pending.before (.answer (.module id))) with
          ⟨e, k, failed, _⟩ | ⟨f, k, done, starts, top, _⟩
      · exact .inl ⟨e, k, enters.trans failed⟩
      · have stepped : m.step = k := perform_of_ok (enters.trans done)
        have method : f.method = m.heap.method (m.heap.module id).topLevel := by
          rw [starts.method, heap']
        refine .inr ⟨f, n'.frames, pending, ?_, method, starts.beginning, starts.returns,
          fun steps => ?_⟩
        · rw [stepped, top]
        · refine live.step.fate ?_ steps
          rw [stepped, top]
          exact .refl f _
  · have failed : m.upcoming.result m = (.error (.fault (.moduleNotFound name)), n) := by
      rw [loads, loadModule, result_bind_ok (result_askFor (modules ▸ new)),
        result_bind_ok (result_askFor (loader ▸ missing))]
      rfl
    refine ⟨⟨_, _, failed⟩, ?_⟩
    rw [Machine.step, modules_perform, failed]
    exact modules

end Machine

/-- A unit whose top level raises, and one that uses it. -/
def failingUnit : List Stmt :=
  [.expr {} (.call {} (.null {}) [] [])]

def usingUnit : List Stmt :=
  [.use {} { module := "failing" }]

theorem compile_failingUnit : compile "m" "m" failingUnit = .ok (compiledUnit failingUnit) :=
  compile_compiledUnit rfl

theorem compile_usingUnit : compile "m" "m" usingUnit = .ok (compiledUnit usingUnit) :=
  compile_compiledUnit rfl

/-- An engine that has loaded both and finds the first by its name. -/
def usingEngine : Engine :=
  { machine := {
      heap := ((({} : Heap).load (compiledUnit failingUnit)).2.load (compiledUnit usingUnit)).2
      loader := fun name => if name = "failing" then some 0 else none } }

theorem hosted_usingEngine : usingEngine.Hosted :=
  ((Engine.hosted_loaded compile_failingUnit).load compile_usingUnit).adjust rfl rfl (.refl _)

/-- The first use calls the top level of the module, and remembers it. -/
theorem use_outcome_usingEngine :
    let m := (HostCall.module 1).after usingEngine.machine 0
    m.usedName? = some "failing" ∧ m.modules.get? "failing" = none ∧ m.loader "failing" = some 0 ∧
      m.step.modules.get? "failing" = some 0 ∧
      ∃ f rest, m.step.frames = f :: rest ∧ ∀ steps, Fate m.step.run f rest steps := by
  intro m
  have live : m.Live := hosted_usingEngine.after_live (.module 1) 0
  have uses : m.usedName? = some "failing" := by decide +kernel
  have new : m.modules.get? "failing" = none := by decide +kernel
  have found : m.loader "failing" = some 0 := by decide +kernel
  obtain ⟨remembered, raises | ⟨f, rest, _, top, _, _, _, fate⟩⟩ :=
    (live.use_outcome uses).2.1 0 new found
  · exact absurd raises (by decide +kernel)
  · exact ⟨uses, new, found, remembered, f, rest, top, fate⟩

/-- The module and the rest of the code of the topmost frame. -/
def Machine.topmost? (m : Machine) : Option (ModuleId × Bool) :=
  m.frames.head?.map fun f => (f.method.module, f.next?.isNone)

theorem Machine.Concludes.topmost? {m : Machine} {f : Frame} {rest : List Frame}
    (concludes : m.Concludes f rest) : m.topmost? = some (f.method.module, true) := by
  obtain ⟨ip, stack, top, atEnd⟩ := concludes.top
  rw [Machine.topmost?, top]
  simp [atEnd]

namespace Control

/-- The run ended with null. -/
def isNull : Control → Bool
  | .returned .null => true
  | _ => false

theorem eq_of_isNull {c : Control} (ended : c.isNull = true) : c = .returned .null := by
  unfold isNull at ended
  split at ended
  · rfl
  · cases ended

end Control

/-- The host runs the second module twice. The first time its use of the first module ends with
the exception that the top level of that module raises. The second time the use goes on at once
with the module whose top level has never come to its end, and the run ends well. -/
theorem use_remembers_failing :
    let first := (HostCall.module 1).after usingEngine.machine
    let second := (HostCall.module 1).after (first 3)
    (first 0).usedName? = some "failing" ∧ (first 3).control = .uncaught 0 ∧
      (∀ k < 4, ∀ f rest, (first k).Concludes f rest → f.method.module ≠ 0) ∧
      (second 0).usedName? = some "failing" ∧ (second 6).control = .returned .null ∧
      ∀ k < 7, ∀ f ∈ (second k).frames, f.method.module ≠ 0 := by
  intro first second
  have never : ∀ k < 4, (first k).topmost? ≠ some (0, true) := by decide +kernel
  have raised : (first 3).control.uncaught? = some 0 := by decide +kernel
  have ended : (second 6).control.isNull = true := by decide +kernel
  refine ⟨by decide +kernel, Control.eq_of_uncaught? raised, fun k small f rest concludes is => ?_,
    by decide +kernel, Control.eq_of_isNull ended, by decide +kernel⟩
  exact never k small (is ▸ concludes.topmost?)

end ScriptMachine
