import ScriptMachine.Proofs.Host.Session

/-!
Runs find no defect. Whatever a host has loaded and called before, no run of compiled code finds
an operand, a constant, a slot or an operator missing, and the machine never runs without a frame.
The operand stack at an instruction is always as deep as control flow says, so the depth belongs
to the instruction and not to the frame, the call or the run.
-/

namespace ScriptMachine

/-- Control flow reaches an instruction, and on every path with this many operands. -/
def Method.DepthAt (code : Method) (ip depth : Nat) : Prop :=
  (∃ l, Flow code.body ip l) ∧ ∀ l, Flow code.body ip l → l.depth = depth

theorem Method.DepthAt.unique {code : Method} {ip depth depth' : Nat}
    (first : code.DepthAt ip depth) (second : code.DepthAt ip depth') : depth = depth' := by
  obtain ⟨⟨l, flow⟩, same⟩ := first
  rw [← same l flow]
  exact second.2 l flow

/-- A frame that is about to fetch an instruction has the operands control flow says. -/
theorem Frame.Ready.depthAt {h : Heap} {f : Frame} {l : Layout} (ready : f.Ready h l) :
    f.method.code.DepthAt f.ip f.stack.length := by
  obtain ⟨⟨pool, sketch, runs, _⟩, flow, depth⟩ := ready
  obtain ⟨top, here⟩ := runs.admits.charted.follows flow
  refine ⟨⟨l, flow⟩, fun l' flow' => ?_⟩
  obtain ⟨top', here'⟩ := runs.admits.charted.follows flow'
  have same : l = l' := congrArg View.layout (Option.some.inj (here.symm.trans here'))
  rw [← same, depth]

theorem Machine.Live.dispatches {m : Machine} (live : m.Live) (running : m.control = .running) :
    ∃ f rest, m.frames = f :: rest ∧
      ∀ i, f.next? = some i → f.method.code.DepthAt f.ip f.stack.length := by
  obtain ⟨f, rest, l, below, top, stands, _, _⟩ := live.standing running
  refine ⟨f, rest, top, fun i next => ?_⟩
  rcases stands with atEnd | ready
  · cases atEnd.symm.trans next
  · exact ready.depthAt

namespace Engine

/-- No call that a host makes finds a defect, neither when it starts nor at any step of its run.
While the machine runs there is a frame to run, and an instruction that is dispatched finds its
operand stack at the one depth that control flow gives it. -/
theorem Hosted.no_defect {e : Engine} (hosted : e.Hosted) (c : HostCall) (steps : Nat) :
    (∀ d, ((c.action e.machine).result (c.machine e.machine)).1 ≠ .error (.defect d)) ∧
      (∀ d, ((c.after e.machine steps).upcoming.result (c.after e.machine steps)).1
        ≠ .error (.defect d)) ∧
      ((c.after e.machine steps).control = .running →
        ∃ f rest, (c.after e.machine steps).frames = f :: rest ∧
          ∀ i, f.next? = some i → f.method.code.DepthAt f.ip f.stack.length) := by
  have live := hosted.after_live c steps
  refine ⟨fun d => (hosted.atRest.call_safe c).not_defect d, fun d => ?_, live.dispatches⟩
  exact live.upcoming_safe.not_defect d

/-- An engine of a host that has loaded one unit and done nothing else. -/
def loaded (u : CompiledUnit) : Engine :=
  { machine := { heap := (({} : Heap).load u).2 } }

theorem hosted_loaded {name file : String} {unit : List Stmt} {u : CompiledUnit}
    (compiled : compile name file unit = .ok u) : (loaded u).Hosted :=
  .load (e := { machine := {} }) (.new rfl rfl rfl) compiled

end Engine

namespace Control

/-- The exception that nothing caught. -/
def uncaught? : Control → Option ExceptionId
  | .uncaught id => some id
  | _ => none

theorem eq_of_uncaught? {c : Control} {id : ExceptionId} (ended : c.uncaught? = some id) :
    c = .uncaught id := by
  unfold uncaught? at ended
  split at ended
  · cases ended
    rfl
  · cases ended

end Control

/-- The compiled form of a unit that compiles. -/
def compiledUnit (unit : List Stmt) : CompiledUnit :=
  (compile "m" "m" unit).toOption.getD default

theorem compile_compiledUnit {unit : List Stmt}
    (fine : (compile "m" "m" unit).toOption.isSome = true) :
    compile "m" "m" unit = .ok (compiledUnit unit) := by
  unfold compiledUnit
  cases found : compile "m" "m" unit with
  | ok u => rfl
  | error log =>
      rw [found] at fine
      cases fine

instance (c : Control) : Decidable (c = .running) :=
  match c with
  | .running => isTrue rfl
  | .delivering _ _ | .returned _ | .uncaught _ => isFalse Control.noConfusion

/-- The unit that holds `leavingLoop`. -/
def loopUnit : CompiledUnit :=
  compiledUnit [.function {} leavingLoop]

theorem compile_loopUnit : compile "m" "m" [.function {} leavingLoop] = .ok loopUnit :=
  compile_compiledUnit (by decide +kernel)

/-- Inside the loop and the region, before the branch, the iterator and the condition are on the
stack. -/
theorem no_defect_leavingLoop :
    let m := (HostCall.value (.method 0) [.tuple [.bool false, .int 3]]).after
      (Engine.loaded loopUnit).machine 16
    (Engine.loaded loopUnit).Hosted ∧ (∀ d, (m.upcoming.result m).1 ≠ .error (.defect d)) ∧
      ∃ f, m.frames = [f] ∧ (f.next?.map (·.op)) = some .jumpIfFalse ∧ f.stack.length = 2 ∧
        f.method.code.DepthAt f.ip 2 := by
  intro m
  have hosted := Engine.hosted_loaded compile_loopUnit
  obtain ⟨_, fine, dispatches⟩ :=
    hosted.no_defect (.value (.method 0) [.tuple [.bool false, .int 3]]) 16
  refine ⟨hosted, fine, ?_⟩
  have running : m.control = .running := by decide +kernel
  have shape : m.frames.map (fun f => (f.next?.map (·.op), f.stack.length))
      = [(some .jumpIfFalse, 2)] := by decide +kernel
  obtain ⟨f, rest, top, depth⟩ := dispatches running
  have top : m.frames = f :: rest := top
  rw [top, List.map_cons] at shape
  obtain ⟨head, tail⟩ := List.cons.inj shape
  obtain ⟨next, two⟩ := Prod.mk.inj head
  obtain ⟨i, found, _⟩ := Option.map_eq_some_iff.1 next
  refine ⟨f, ?_, next, two, ?_⟩
  · rw [top, List.map_eq_nil_iff.1 tail]
  · rw [← two]
    exact depth i found

end ScriptMachine
