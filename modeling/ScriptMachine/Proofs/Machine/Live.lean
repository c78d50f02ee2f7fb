import ScriptMachine.Proofs.Machine.Frames
import ScriptMachine.Proofs.Machine.Instructions

/-!
The invariant of runs. A machine is live if the frames and regions are as its control says: the
topmost frame is ready while the machine runs, or waits for the value that is being delivered;
a run that ended leaves no frame. Whatever answers a demand comes to one of few upshots, all of
which keep the machine live, and so does raising an exception, since every handler finds its
frame as it was recorded.
-/

namespace ScriptMachine

namespace Machine

/-- Somebody waits for the end of an operation. -/
structure Waits (m : Machine) (demand : Demand) : Prop where
  heap : m.heap.Sound
  stacked : Stacked m.heap demand m.frames m.handlers

/-- An exception may be raised. -/
structure Guards (m : Machine) : Prop where
  heap : m.heap.Sound
  catches : Catches m.heap m.frames m.handlers

/-- The frames are as the control says. -/
def Live (m : Machine) : Prop :=
  m.heap.Sound ∧
    match m.control with
    | .running => Standing m.heap m.frames m.handlers
    | .delivering _ pending => Stacked m.heap pending.finish.demand m.frames m.handlers
    | .returned _ | .uncaught _ => m.frames = [] ∧ m.handlers = []

/-- A machine that runs and whose frames stand is live. -/
theorem Live.of_standing {m : Machine} (sound : m.heap.Sound) (running : m.control = .running)
    (standing : Standing m.heap m.frames m.handlers) : m.Live := by
  refine ⟨sound, ?_⟩
  rw [running]
  exact standing

/-- In a machine that runs, the frames stand. -/
theorem Live.standing {m : Machine} (live : m.Live) (running : m.control = .running) :
    Standing m.heap m.frames m.handlers := by
  have standing := live.2
  rw [running] at standing
  exact standing

/-- What is waited for does not depend on what quiet work changes. -/
theorem Waits.kept {m m' : Machine} {demand : Demand} (waits : m.Waits demand)
    (keeps : m.Keeps m') : m'.Waits demand := by
  refine ⟨keeps.heap.sound waits.heap, ?_⟩
  rw [frames, keeps.calls, keeps.handlers]
  exact waits.stacked.kept keeps.heap

theorem Waits.guards {m : Machine} {demand : Demand} (waits : m.Waits demand) : m.Guards :=
  ⟨waits.heap, waits.stacked.catches⟩

/-- Quiet work leaves frames and regions as they are. -/
theorem Guards.kept {m m' : Machine} (guards : m.Guards) (keeps : m.Keeps m') : m'.Guards := by
  refine ⟨keeps.heap.sound guards.heap, ?_⟩
  rw [frames, keeps.calls, keeps.handlers]
  exact guards.catches.kept keeps.heap

theorem Live.noted {m : Machine} (live : m.Live) (event : Unit → Event) : (m.note event).Live := by
  unfold note
  split
  · exact live
  · exact live

/-- Announcing an exception sets its trace and leaves the rest. -/
theorem keeps_announced (m : Machine) (id : ExceptionId) : m.Keeps (m.announced id) := by
  have traced : m.Keeps { m with heap := m.heap.setTrace id m.trace } :=
    ⟨rfl, rfl, rfl, rfl, rfl, .of_tables rfl rfl rfl rfl⟩
  unfold announced tell
  exact traced.trans (keeps_note _ _)

/-- The same trace is taken in the same world. -/
theorem World.announced {m m' : Machine} (world : m.World m') (trace : m.trace = m'.trace)
    (id : ExceptionId) : (m.announced id).World (m'.announced id) := by
  have heaps : m.heap.setTrace id m.trace = m'.heap.setTrace id m'.trace := by
    rw [world.heap, trace]
  have traced : World { m with heap := m.heap.setTrace id m.trace }
      { m' with heap := m'.heap.setTrace id m'.trace } := { world with heap := heaps }
  unfold Machine.announced Machine.tell
  exact world_note traced _ _

theorem raise_eq (m : Machine) (id : ExceptionId) : m.raise id =
    match (m.announced id).handlers with
    | [] => { m.announced id with calls := .empty, current := none, control := .uncaught id }
    | h :: hs =>
        { m.announced id with
          calls := unwind (m.announced id).calls h
          handlers := hs
          current := some id
          control := .running } := rfl

/-- An exception that no region catches takes all frames with it. -/
theorem raise_of_nil {m : Machine} (closed : m.handlers = []) (id : ExceptionId) : m.raise id =
    { m.announced id with calls := .empty, current := none, control := .uncaught id } := by
  rw [raise_eq, (m.keeps_announced id).handlers, closed]

/-- An exception goes to the innermost region, which is closed. -/
theorem raise_of_cons {m : Machine} {h : Handler} {hs : List Handler}
    (opened : m.handlers = h :: hs) (id : ExceptionId) : m.raise id =
    { m.announced id with
      calls := unwind m.calls h, handlers := hs, current := some id, control := .running } := by
  rw [raise_eq, (m.keeps_announced id).handlers, opened]
  simp only [(m.keeps_announced id).calls]

/-- Raising an exception keeps the machine live. -/
theorem Guards.raise {m : Machine} (guards : m.Guards) (id : ExceptionId) : (m.raise id).Live := by
  have kept := m.keeps_announced id
  cases opened : m.handlers with
  | nil =>
      rw [raise_of_nil opened]
      exact ⟨kept.heap.sound guards.heap, rfl, kept.handlers.trans opened⟩
  | cons h hs =>
      obtain ⟨_, standing⟩ := (guards.kept kept).catches h hs (kept.handlers.trans opened)
      rw [raise_of_cons opened]
      refine ⟨kept.heap.sound guards.heap, ?_⟩
      change Standing (m.announced id).heap (unwind m.calls h).frames hs
      rw [unwind, CallStack.frames_modifyTop, CallStack.frames_cutTo, ← kept.calls]
      exact standing

/-- What an action came to is sound: the machine is live, or something other than a defect is
raised and may be. -/
def Safe : Except Raised Unit × Machine → Prop
  | (.ok (), m) => m.Live
  | (.error (.defect _), _) => False
  | (.error _, m) => m.Guards

/-- What an action raises leaves a live machine as well. -/
theorem Safe.perform {m : Machine} {a : Action Unit} (safe : Safe (a.result m)) :
    (m.perform a).Live := by
  rcases done : a.result m with ⟨e | x, m'⟩ <;> rw [done] at safe
  · have guards : m'.Guards := by
      cases e with
      | fault cause => exact safe
      | defect cause => exact safe.elim
      | exception id => exact safe
    rw [perform_of_error done]
    exact (guards.kept (e.keeps_resolve m')).raise _
  · rw [perform_of_ok done]
    exact safe

/-- A safe action finds no defect. -/
theorem Safe.not_defect {m : Machine} {a : Action Unit} (safe : Safe (a.result m)) (d : Defect) :
    (a.result m).1 ≠ .error (.defect d) := by
  rcases done : a.result m with ⟨e | x, m'⟩ <;> rw [done] at safe
  · intro wrong
    cases Except.error.inj wrong
    exact safe.elim
  · exact fun wrong => nomatch wrong

end Machine

/-! ## Activation -/

namespace Method

theorem size_place (code : Method) (values : List Value) (slots : Array Value) :
    (code.place values slots).size = slots.size := by
  unfold place
  generalize code.parameters.zip values = pairs
  induction pairs generalizing slots with
  | nil => rfl
  | cons pair rest ih =>
      rw [List.foldl_cons, ih, Array.size_setIfInBounds]

/-- An environment that is widened has all slots that the method needs. -/
theorem localCount_le_widen (code : Method) (slots : Array Value) :
    code.localCount ≤ (code.widen slots).size := by
  rw [widen, Array.size_append, Array.size_replicate]
  omega

theorem bind_keeps (code : Method) (args : List Value) : KeepsHeap (code.bind args) := by
  unfold Method.bind
  extract_lets positional surplus finish rest
  have kept : KeepsHeap (rest ()) := by
    dsimp only [rest]
    split
    · split
      · exact .pure _
      · exact .bind (.make fun _ => .of_tables rfl rfl rfl rfl) fun _ => .pure _
    · exact .pure _
  split
  · exact kept
  · exact .bind (.throw _) fun _ => kept

/-- Binding arguments makes no environment. -/
theorem envs_bind {code : Method} {args values : List Value} {h h' : Heap}
    (bound : (code.bind args).result h = (.ok values, h')) : h'.envs = h.envs := by
  have same : ((code.bind args).result h).2.envs = h.envs := by
    unfold Method.bind
    extract_lets positional surplus finish rest
    have kept : ((rest ()).result h).2.envs = h.envs := by
      dsimp only [rest]
      split
      · split
        · rfl
        · rfl
      · rfl
    split
    · exact kept
    · rfl
  rw [bound] at same
  exact same

end Method

namespace Heap

theorem keeps_makeRoom (h : Heap) (code : Method) (env : Option EnvId) :
    h.Keeps (h.makeRoom code env) := by
  cases env with
  | none => exact .refl h
  | some id =>
      refine Heap.keeps_modifyEnv fun slots => ?_
      rw [Method.widen, Array.size_append]
      exact Nat.le_add_right _ _

/-- The environment has a slot for every local variable of the method, if there is one. -/
def Wide (h : Heap) (code : Method) (env : Option EnvId) : Prop :=
  ∀ id ∈ env, id < h.envs.size → code.localCount ≤ (h.env id).size

/-- Room is made before arguments are bound. -/
theorem wide_makeRoom (h : Heap) (code : Method) (env : Option EnvId) :
    (h.makeRoom code env).Wide code env := by
  rintro id rfl known
  have known : id < h.envs.size := by
    simpa [makeRoom, modifyEnv] using known
  rw [makeRoom, env_modifyEnv_self known]
  exact code.localCount_le_widen _

theorem Wide.of_envs {h h' : Heap} {code : Method} {env : Option EnvId} (wide : h.Wide code env)
    (same : h'.envs = h.envs) : h'.Wide code env := by
  unfold Wide Heap.env at wide ⊢
  rw [same]
  exact wide

end Heap

namespace Action

open Machine (Safe)

/-- The environment of an activation has a slot for every local variable, if one that was brought
had them. -/
theorem environment_result (code : Method) (env : Option EnvId) (values : List Value) (h : Heap) :
    ∃ id h', (environment code env values).result h = (.ok id, h') ∧ h.Keeps h' ∧
      (h.Wide code env → code.localCount ≤ (h'.env id).size) := by
  cases given : env.filter (· < h.envs.size) with
  | some id =>
      obtain ⟨brought, small⟩ := Option.filter_eq_some_iff.1 given
      have known : id < h.envs.size := of_decide_eq_true small
      refine ⟨id, h.modifyEnv id (code.place values), ?_, ?_, fun wide => ?_⟩
      · unfold environment
        rw [Primitive.result_bind_ask given]
        rfl
      · exact Heap.keeps_modifyEnv fun slots => Nat.le_of_eq (code.size_place values slots).symm
      · rw [Heap.env_modifyEnv_self known, code.size_place]
        exact wide id brought known
  | none =>
      refine ⟨h.envs.size, _, ?_, h.keeps_newEnv (code.place values (code.widen #[])), fun _ => ?_⟩
      · unfold environment
        rw [Primitive.result_bind_ask given]
        rfl
      · simp only [Heap.newEnv, Heap.env, Array.getD_eq_getD_getElem?, Array.getElem?_push_size,
          Option.getD_some, code.size_place]
        exact code.localCount_le_widen _

/-- A frame is made before it is pushed, and to make one is quiet. -/
theorem newFrame_quiet (call : Call) (returns : Returns) : Quiet (newFrame call returns) := by
  have rest : Quiet (do
      let method ← askHeap (·.method call.method)
      changeHeap (·.makeRoom method.code call.env)
      let values ← primitive (method.code.bind call.args)
      let env ← primitive (environment method.code call.env values)
      return ({ method, receiver := call.receiver, env, owner := call.owner, returns } : Frame)) := by
    refine .bind (.askHeap _) fun method => ?_
    refine .bind (.changeHeap fun h => h.keeps_makeRoom method.code call.env) fun _ => ?_
    refine .bind (.primitive (method.code.bind_keeps _)) fun values => ?_
    refine .bind (.primitive fun h => ?_) fun env => .pure _
    obtain ⟨id, h', done, kept, _⟩ := environment_result method.code call.env values h
    rw [done]
    exact kept
  refine .bind (.ask fun alike => by rw [alike.limits]) fun limit => ?_
  refine .bind (.ask fun alike => alike.depth) fun depth => ?_
  dsimp only
  split
  · exact .bind (.fault _) fun _ => rest
  · exact rest

/-- A new frame stands at the beginning of its method, and there is room for it. -/
theorem newFrame_ready {m m' : Machine} {call : Call} {returns : Returns} {f : Frame}
    (done : (newFrame call returns).result m = (.ok f, m')) (sound : m.heap.Sound) :
    f.returns = returns ∧ f.Ready m'.heap {} ∧ m.calls.depth < m.limits.frames := by
  unfold newFrame at done
  obtain ⟨limit, _, asked, done⟩ := result_bind_eq_ok done
  cases asked
  obtain ⟨depth, _, asked, done⟩ := result_bind_eq_ok done
  cases asked
  dsimp only at done
  split at done
  · cases done
  next room =>
  obtain ⟨method, _, asked, done⟩ := result_bind_eq_ok done
  cases asked
  let code := (m.heap.method call.method).code
  let h₀ := m.heap.makeRoom code call.env
  obtain ⟨_, _, widened, done⟩ := result_bind_eq_ok done
  cases widened
  obtain ⟨values, _, bound, done⟩ := result_bind_eq_ok done
  obtain ⟨h₁, found, rfl⟩ := result_primitive_eq_ok bound
  have bound : (code.bind call.args).result h₀ = (.ok values, h₁) := found
  obtain ⟨env, _, made, done⟩ := result_bind_eq_ok done
  obtain ⟨h₂, found, rfl⟩ := result_primitive_eq_ok made
  cases done
  have kept : h₀.Keeps ((code.bind call.args).result h₀).2 := code.bind_keeps call.args h₀
  rw [bound] at kept
  obtain ⟨id, h', made', keeps, slots⟩ := environment_result code call.env values h₁
  cases made'.symm.trans found
  have kept : m.heap.Keeps h₁ := (m.heap.keeps_makeRoom code call.env).trans kept
  have slots : code.localCount ≤ (h₂.env env).size :=
    slots ((m.heap.wide_makeRoom code call.env).of_envs (Method.envs_bind bound))
  obtain ⟨pool, sketch, admits⟩ := sound.admits call.method
  have admits : h₂.Admits (m.heap.method call.method) pool sketch := (kept.trans keeps).admits admits
  refine ⟨rfl, ⟨⟨pool, sketch, ⟨admits, slots⟩, fun top there => ?_⟩, .start, rfl⟩,
    Nat.lt_of_not_le room⟩
  have same : Top.any = top :=
    congrArg View.top (Option.some.inj (admits.charted.start.symm.trans there))
  rw [← same]
  trivial

end Action

open ScriptMachine.Action in
/-- A quiet action that fails may raise what it fails with. -/
theorem Quiet.safe_error {α : Type} {a : Action α} (quiet : Quiet a) {m m' : Machine} {e : Raised}
    (guards : m.Guards) (failed : a.result m = (.error e, m')) :
    Machine.Safe (.error e, m') := by
  have kept := quiet.keeps m
  have fine := quiet.sound m
  rw [failed] at kept fine
  cases e with
  | fault cause => exact guards.kept kept
  | defect cause => exact absurd rfl (fine cause)
  | exception id => exact guards.kept kept

/-! ## Upshots -/

/-- The frame is about to start, and may. -/
structure Frame.Starts (n : Machine) (f : Frame) : Prop where
  ready : f.Ready n.heap {}
  room : n.calls.depth < n.limits.frames
  nested : f.returns.isNested = true → n.nesting < n.limits.nesting

/-- What an operation that meets a demand comes to when its quiet work has led to `n`. -/
inductive Upshot (demand : Demand) (n : Machine) : Except Raised Unit × Machine → Prop where
  | delivers {pending : Pending} (v : Value) : pending.finish.demand = demand →
      Upshot demand n (.ok (), { n with control := .delivering v pending })
  | calls {f : Frame} (event : Unit → Event) : f.Starts n → f.returns.demand = demand →
      Upshot demand n
        (.ok (), Machine.note { n with calls := n.calls.push f, control := .running } event)
  | raises {e : Raised} : (∀ d, e ≠ .defect d) → Upshot demand n (.error e, n)
  /-- The topmost frame gets what it waits for. -/
  | fills (values : List Value) : .frame values.length = demand →
      Upshot demand n
        (.ok (), Machine.withStack { n with control := .running } (values ++ n.stack))
  | halts (v : Value) : .host = demand →
      Upshot demand n (.ok (), { n with control := .returned v })

theorem Machine.withControl_self {m : Machine} {control : Control} (same : m.control = control) :
    { m with control } = m := by
  rw [← same]

namespace Upshot

open Machine (Safe)

variable {demand : Demand} {n : Machine} {r : Except Raised Unit × Machine}

/-- Every upshot leaves the machine live if somebody waited for it. -/
theorem safe (upshot : Upshot demand n r) (waits : n.Waits demand) : Safe r := by
  cases upshot with
  | delivers v meets =>
      subst meets
      exact ⟨waits.heap, waits.stacked⟩
  | @calls f event starts meets =>
      subst meets
      have live : Machine.Live { n with calls := n.calls.push f, control := .running } :=
        ⟨waits.heap, f, n.frames, {}, n.handlers, rfl, .inr starts.ready, waits.stacked, rfl⟩
      exact live.noted event
  | @raises e fine =>
      cases e with
      | defect d => exact absurd rfl (fine d)
      | fault cause => exact waits.guards
      | exception id => exact waits.guards
  | fills values meets =>
      subst meets
      have standing := waits.stacked.filled values rfl
      have same : (Machine.withStack { n with control := .running } (values ++ n.stack)).frames
          = n.frames.modifyHead fun f => { f with stack := values ++ f.stack } := by
        rw [Machine.frames_withStack, Machine.stack]
        change n.frames.modifyHead _ = _
        cases n.frames <;> rfl
      refine Machine.Live.of_standing waits.heap rfl ?_
      rw [same]
      exact standing
  | halts v meets =>
      subst meets
      obtain ⟨sound, stacked⟩ := waits
      generalize frames : n.frames = fs, handlers : n.handlers = hs at stacked
      cases stacked
      exact ⟨sound, frames, rfl⟩

/-- What runs already need not be told to. -/
theorem fills_running (values : List Value) (meets : .frame values.length = demand)
    (running : n.control = .running) :
    Upshot demand n (.ok (), n.withStack (values ++ n.stack)) := by
  have upshot := Upshot.fills (n := n) values meets
  rw [Machine.withControl_self running] at upshot
  exact upshot

end Upshot

/-- A quiet action that fails does so with something that may be raised. -/
theorem Quiet.upshot_error {α : Type} {a : Action α} {demand : Demand} (quiet : Quiet a)
    {m n : Machine} {e : Raised} (failed : a.result m = (.error e, n)) :
    m.Keeps n ∧ Upshot demand n (.error e, n) := by
  have kept := quiet.keeps m
  have fine := quiet.sound m
  rw [failed] at kept fine
  exact ⟨kept, .raises fun d same => fine d (congrArg Except.error same)⟩

namespace Action

/-- A call pushes a frame that is ready, or raises because of its arguments or of a limit. -/
theorem activate_upshot {m : Machine} {returns : Returns} (sound : m.heap.Sound) (call : Call)
    (room : returns.isNested = true → m.nesting < m.limits.nesting) :
    ∃ n, m.Keeps n ∧ Upshot returns.demand n ((activate call returns).result m) := by
  have quiet := newFrame_quiet call returns
  unfold activate
  rw [result_bind]
  rcases done : (newFrame call returns).result m with ⟨e | f, n⟩
  · exact ⟨n, quiet.upshot_error done⟩
  · obtain ⟨rfl, ready, space⟩ := newFrame_ready done sound
    have kept := quiet.keeps m
    rw [done] at kept
    refine ⟨n, kept, .calls _ ⟨ready, ?_, fun nested => ?_⟩ rfl⟩
    · rw [kept.calls, kept.limits]
      exact space
    · rw [Machine.nesting, kept.calls, kept.limits]
      exact room nested

/-- A nested call does the same with the limit of nested calls. -/
theorem enter_upshot {m : Machine} {pending : Pending} (sound : m.heap.Sound) (call : Call) :
    ∃ n, m.Keeps n ∧ Upshot pending.finish.demand n ((enter call pending).result m) := by
  unfold enter
  rw [result_bind_ok (result_ask _ m), result_bind_ok (result_ask _ m)]
  dsimp only
  split
  · exact ⟨m, .refl m, .raises nofun⟩
  · next room =>
    exact @activate_upshot m (.resume pending) sound call fun _ => Nat.lt_of_not_le room

end Action

open ScriptMachine.Action in
/-- What answers a demand comes to one of the upshots. -/
theorem Answers.upshot {live : Bool} {demand : Demand} {a : Action Unit}
    (answers : Answers live demand a) {m : Machine} (sound : m.heap.Sound)
    (running : live = true → m.control = .running) :
    ∃ n, m.Keeps n ∧ Upshot demand n (a.result m) := by
  induction answers generalizing m with
  | deliver v meets => exact ⟨m, .refl m, .delivers v meets⟩
  | activate call meets plain =>
      subst meets
      exact activate_upshot sound call fun nested => absurd (plain.symm.trans nested) Bool.noConfusion
  | enter call meets =>
      subst meets
      exact enter_upshot sound call
  | @quietly _ _ α a f quiet _ ih =>
      rw [result_bind]
      rcases done : a.result m with ⟨e | x, m'⟩
      · exact ⟨m', quiet.upshot_error done⟩
      · have kept := quiet.keeps m
        rw [done] at kept
        obtain ⟨n, after, upshot⟩ :=
          ih x (kept.heap.sound sound) fun live => kept.control.trans (running live)
        exact ⟨n, kept.trans after, upshot⟩
  | fault cause => exact ⟨m, .refl m, .raises nofun⟩
  | exception id => exact ⟨m, .refl m, .raises nofun⟩
  | push v =>
      rw [result_push]
      exact ⟨m, .refl m, .fills_running [v] rfl (running rfl)⟩
  | nothing =>
      have upshot := Upshot.fills_running (n := m) [] rfl (running rfl)
      rw [List.nil_append, Machine.withStack_self] at upshot
      exact ⟨m, .refl m, upshot⟩
  | proceed =>
      have same : Machine.withStack { m with control := .running } ([] ++ m.stack)
          = { m with control := .running } := Machine.withStack_self { m with control := .running }
      have upshot := Upshot.fills (n := m) [] rfl
      rw [same] at upshot
      exact ⟨m, .refl m, upshot⟩
  | proceedWith v =>
      refine ⟨m, .refl m, ?_⟩
      have pushed : (Action.proceed >>= fun _ => Action.push v).result m
          = (Action.push v).result { m with control := .running } := rfl
      rw [pushed, result_push]
      exact .fills [v] rfl
  | halt v => exact ⟨m, .refl m, .halts v rfl⟩

/-- What answers a demand keeps the machine live. -/
theorem Answers.safe {live : Bool} {demand : Demand} {a : Action Unit}
    (answers : Answers live demand a) {m : Machine} (waits : m.Waits demand)
    (running : live = true → m.control = .running) : Machine.Safe (a.result m) := by
  obtain ⟨n, kept, upshot⟩ := answers.upshot waits.heap running
  exact upshot.safe (waits.kept kept)

/-! ## Runs that have ended -/

/-- Nothing runs, and what is there can be run. -/
structure Machine.AtRest (m : Machine) : Prop where
  heap : m.heap.Sound
  frames : m.frames = []
  handlers : m.handlers = []

/-- A live machine that is done is at rest. -/
theorem Machine.Live.atRest {m : Machine} (live : m.Live) (done : m.isDone = true) : m.AtRest := by
  obtain ⟨sound, frames⟩ := live
  unfold isDone at done
  split at done
  · next ended =>
    rw [ended] at frames
    exact ⟨sound, frames.1, frames.2⟩
  · next ended =>
    rw [ended] at frames
    exact ⟨sound, frames.1, frames.2⟩
  · cases done

end ScriptMachine
