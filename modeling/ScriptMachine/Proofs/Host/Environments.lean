import ScriptMachine.Proofs.Host.Defects
import ScriptMachine.Proofs.Machine.Lifetimes

/-!
Whose variables an activation uses. A function of a module gets variables of its own each time it is
called: none is shared with what was called before, and all but its parameters start as null. A
function that was declared inside another one uses the variables of the activation that declared
it, and finds them as they were left; its parameters are among them. So an activation of such a
function that calls the function again loses its own parameters.
-/

namespace ScriptMachine

open ScriptMachine.Action

/-! ## Binding arguments -/

namespace Method

variable {code : Method} {values : List Value} {slots : Array Value} {slot : Nat}

/-- The slot is the place of a parameter. -/
def HoldsParameter (code : Method) (slot : Nat) : Prop :=
  slot ∈ code.parameters.map (·.2)

/-- Placing parameters leaves other slots alone. -/
theorem getElem?_place (other : ¬ code.HoldsParameter slot) :
    (code.place values slots)[slot]? = slots[slot]? := by
  have apart : ∀ pair ∈ code.parameters.zip values, pair.1.2 ≠ slot := by
    intro pair member same
    exact other (List.mem_map.2 ⟨pair.1, (List.of_mem_zip member).1, same⟩)
  unfold place
  generalize code.parameters.zip values = pairs at apart
  induction pairs generalizing slots with
  | nil => rfl
  | cons pair rest ih =>
      rw [List.foldl_cons, ih fun p member => apart p (List.mem_cons_of_mem _ member)]
      rw [Array.getElem?_setIfInBounds_ne (apart pair List.mem_cons_self)]

theorem getElem?_widen (there : slot < slots.size) : (code.widen slots)[slot]? = slots[slot]? := by
  rw [widen, Array.getElem?_append_left there]

theorem getElem?_widen_empty (small : slot < code.localCount) :
    (code.widen #[])[slot]? = some .null := by
  rw [widen, Array.empty_append, Array.getElem?_replicate, if_pos (by simpa using small)]

end Method

namespace Heap

theorem env_newEnv {h : Heap} (slots : Array Value) :
    (h.newEnv slots).2.env h.envs.size = slots := by
  simp [newEnv, env]

theorem env_newEnv_of_lt {h : Heap} {id : EnvId} (known : id < h.envs.size) (slots : Array Value) :
    (h.newEnv slots).2.env id = h.env id := by
  simp only [newEnv, env, Array.getD_eq_getD_getElem?, Array.getElem?_push_lt known]
  rw [Array.getElem?_eq_getElem known]

theorem env_modifyEnv_of_ne {h : Heap} {id other : EnvId} (ne : id ≠ other)
    (change : Array Value → Array Value) : (h.modifyEnv id change).env other = h.env other := by
  simp only [env, modifyEnv, Array.getD_eq_getD_getElem?, Array.getElem?_modify, if_neg ne]

theorem env_of_envs {h h' : Heap} (same : h'.envs = h.envs)
    (id : EnvId) : h'.env id = h.env id := by
  rw [env, env, same]

end Heap

/-! ## Starting an activation -/

/-- The activation has variables of its own: an environment that was not there before, in which all
but the parameters are null. -/
structure Frame.Alone (f : Frame) (before after : Heap) : Prop where
  env : f.env = before.envs.size
  room : f.method.code.localCount ≤ (after.env f.env).size
  locals : ∀ slot < f.method.code.localCount, ¬ f.method.code.HoldsParameter slot →
    (after.env f.env)[slot]? = some .null
  others : ∀ id < before.envs.size, after.env id = before.env id

/-- The activation uses variables that are there already, and finds all but its parameters as they
were left. -/
structure Frame.Shares (f : Frame) (shared : EnvId) (before after : Heap) : Prop where
  env : f.env = shared
  locals : ∀ slot < (before.env shared).size, ¬ f.method.code.HoldsParameter slot →
    (after.env shared)[slot]? = (before.env shared)[slot]?
  others : ∀ id, shared ≠ id → after.env id = before.env id

namespace Call.Starts

variable {call : Call} {m n : Machine} {returns : Returns} {f : Frame}

theorem alone (starts : call.Starts m n returns f) (free : call.env = none) :
    f.Alone m.heap n.heap := by
  obtain ⟨values, h, bound, placed⟩ := starts.placed
  rw [free] at bound placed
  have same : h.envs = m.heap.envs := Method.envs_bind bound
  have made : (environment f.method.code none values).result h =
      (.ok h.envs.size, (h.newEnv (f.method.code.place values (f.method.code.widen #[]))).2) := rfl
  obtain ⟨env, heap⟩ := Prod.mk.inj (made.symm.trans placed)
  have env : f.env = h.envs.size := (Except.ok.inj env).symm
  refine ⟨env.trans (by rw [same]), ?_, fun slot small other => ?_, fun id known => ?_⟩
  · rw [← heap, env, Heap.env_newEnv, Method.size_place]
    exact Method.localCount_le_widen _ _
  · rw [← heap, env, Heap.env_newEnv, Method.getElem?_place other,
      Method.getElem?_widen_empty small]
  · rw [← heap, Heap.env_newEnv_of_lt (by rw [same]; exact known), Heap.env_of_envs same]

theorem shares {id : EnvId} (starts : call.Starts m n returns f) (given : call.env = some id)
    (known : id < m.heap.envs.size) : f.Shares id m.heap n.heap := by
  obtain ⟨values, h, bound, placed⟩ := starts.placed
  rw [given] at bound placed
  have same : h.envs = (m.heap.modifyEnv id f.method.code.widen).envs := Method.envs_bind bound
  have known' : id < h.envs.size := by
    rw [same, Heap.modifyEnv, Array.size_modify]
    exact known
  have chosen : (some id).filter (· < h.envs.size) = some id := by simp [known']
  have made : (environment f.method.code (some id) values).result h = (.ok id,
      h.modifyEnv id (f.method.code.place values)) := by
    unfold environment
    rw [Primitive.result_bind_ask chosen]
    rfl
  obtain ⟨env, heap⟩ := Prod.mk.inj (made.symm.trans placed)
  refine ⟨(Except.ok.inj env).symm, fun slot small other => ?_, fun other ne => ?_⟩
  · rw [← heap, Heap.env_modifyEnv_self known', Method.getElem?_place other, Heap.env_of_envs same,
      Heap.env_modifyEnv_self known, Method.getElem?_widen small]
  · rw [← heap, Heap.env_modifyEnv_of_ne ne, Heap.env_of_envs same, Heap.env_modifyEnv_of_ne ne]

end Call.Starts

/-! ## Calls -/

namespace Machine

variable {m : Machine}

/-- The value that the next instruction calls. -/
def callee? (m : Machine) : Option Value :=
  match m.control, m.frames with
  | .running, f :: _ => do
      let i ← f.next?
      match i.op with
      | .invoke => f.stack.head?
      | _ => none
  | _, _ => none

theorem callee?_eq_some {v : Value} (calls : m.callee? = some v) :
    m.control = .running ∧ ∃ f rest i s, m.frames = f :: rest ∧ f.next? = some i ∧
      i.op = .invoke ∧ f.stack = v :: s := by
  unfold callee? at calls
  split at calls
  · next f rest running top =>
      obtain ⟨i, next, calls⟩ := Option.bind_eq_some_iff.1 calls
      split at calls
      · next is =>
          obtain ⟨s, stack⟩ := List.head?_eq_some_iff.1 calls
          exact ⟨running, f, rest, i, s, top, next, is, stack⟩
      · cases calls
  · cases calls

/-- The next instruction puts a frame for its call on top, unless the call fails. -/
theorem Live.starts (live : m.Live) {v : Value} (calls : m.callee? = some v)
    (call : List Value → Call) (plain : ∀ args, callOf? m.heap v args = some (call args)) :
    m.Raises ∨ ∃ args f rest n, m.step.frames = f :: rest ∧
      (call args).Starts n m.step .value f ∧ n.heap = m.heap := by
  obtain ⟨running, g, others, i, s, top, next, is, stack⟩ := callee?_eq_some calls
  obtain ⟨l, executing, _⟩ := fetched_executing live running top next
  obtain ⟨operands, s', found, length⟩ := executing.operands_found
  rw [Instruction.pops, is] at length
  obtain ⟨callee, args, rfl⟩ := List.exists_cons_of_length_eq_add_one length
  obtain rfl : callee = v :=
    (List.cons.inj (found.symm.trans ((stack_fetched top i).trans stack))).1
  let n := (fetched m g i).withStack s'
  have heap : n.heap = m.heap := heap_fetched m g i
  have asked : (askHeap (callOf? · callee args.reverse)).result n
      = (.ok (some (call args.reverse)), n) := by
    rw [result_askHeap, heap, plain]
  have upcoming : m.upcoming.result m = (activate (call args.reverse) .value).result n := by
    rw [Machine.upcoming, running]
    refine (result_advance top next).trans ((execute_invoke is found (Nat.succ.inj length)).trans ?_)
    unfold invoke
    rw [result_bind_ok asked]
  rcases activate_starts n (call args.reverse) .value with
    ⟨e, k, failed, _⟩ | ⟨f, k, done, starts, frames, _⟩
  · exact .inl ⟨e, k, upcoming.trans failed⟩
  · have stepped : m.step = k := perform_of_ok (upcoming.trans done)
    refine .inr ⟨args.reverse, f, n.frames, n, ?_, ?_, heap⟩
    · rw [stepped, frames]
    · rw [stepped]
      exact starts

theorem Live.calls_method (live : m.Live) {id : MethodId} (calls : m.callee? = some (.method id)) :
    m.Raises ∨ ∃ f rest, m.step.frames = f :: rest ∧ f.method = m.heap.method id ∧
      f.Alone m.heap m.step.heap := by
  rcases live.starts calls (fun args => { method := id, args }) fun _ => rfl with
    raises | ⟨args, f, rest, n, top, starts, heap⟩
  · exact .inl raises
  · exact .inr ⟨f, rest, top, heap ▸ starts.method, heap ▸ starts.alone rfl⟩

theorem Live.calls_closure (live : m.Live) {id : ClosureId} (calls : m.callee? = some (.closure id))
    (known : (m.heap.closure id).env < m.heap.envs.size) :
    m.Raises ∨ ∃ f rest, m.step.frames = f :: rest ∧
      f.method = m.heap.method (m.heap.closure id).method ∧
      f.Shares (m.heap.closure id).env m.heap m.step.heap := by
  rcases live.starts calls (fun args =>
      { method := (m.heap.closure id).method, receiver := (m.heap.closure id).receiver, args
        env := some (m.heap.closure id).env }) fun _ => rfl with
    raises | ⟨args, f, rest, n, top, starts, heap⟩
  · exact .inl raises
  · have shares := starts.shares rfl (by rw [heap]; exact known)
    rw [heap] at shares
    exact .inr ⟨f, rest, top, heap ▸ starts.method, shares⟩

/-- An environment that was made stays apart from those that are made later. -/
theorem apart {f g : Frame} {before : Heap} (alone : f.Alone before m.heap)
    (some : 0 < f.method.code.localCount) (steps : Nat) {after : Heap}
    (later : g.Alone (m.run steps).heap after) : g.env ≠ f.env := by
  intro same
  have kept := (m.keeps_heap_run steps).slots f.env
  have none : (m.run steps).heap.env f.env = #[] := by
    rw [← same, later.env, Heap.env, Array.getD_eq_getD_getElem?, Array.getElem?_size]
    rfl
  have room := alone.room
  rw [none] at kept
  change _ ≤ 0 at kept
  omega

/-- The variables of an activation. Those of a function of a module are its own: they start as null,
but for the parameters, nothing that is there already is touched, and no function of a module that
is called later gets them again. Those of a function declared inside another are the variables of
the activation that declared it: they are found as they were left, but for the parameters. -/
theorem Live.activation_variables (live : m.Live) :
    (∀ id, m.callee? = some (.method id) → m.Raises ∨ ∃ f rest, m.step.frames = f :: rest ∧
      f.method = m.heap.method id ∧ f.Alone m.heap m.step.heap ∧
      (0 < f.method.code.localCount → ∀ steps id', (m.step.run steps).callee? = some (.method id') →
        (m.step.run steps).Raises ∨ ∃ g rest', (m.step.run steps).step.frames = g :: rest' ∧
          g.method = (m.step.run steps).heap.method id' ∧ g.env ≠ f.env)) ∧
    (∀ id, m.callee? = some (.closure id) → (m.heap.closure id).env < m.heap.envs.size →
      m.Raises ∨ ∃ f rest, m.step.frames = f :: rest ∧
        f.method = m.heap.method (m.heap.closure id).method ∧
        f.Shares (m.heap.closure id).env m.heap m.step.heap) := by
  refine ⟨fun id calls => ?_, fun id calls known => live.calls_closure calls known⟩
  rcases live.calls_method calls with raises | ⟨f, rest, top, method, alone⟩
  · exact .inl raises
  refine .inr ⟨f, rest, top, method, alone, fun some steps id' calls' => ?_⟩
  rcases (live.step.run steps).calls_method calls' with raises | ⟨g, rest', top', method', later⟩
  · exact .inl raises
  · exact .inr ⟨g, rest', top', method', apart alone some steps later⟩

end Machine

/-- A function that calls itself and reads its parameter afterwards. -/
def factorial : FuncDecl :=
  .mk { name := "f", params := ["n"] }
    [.ifElse {} (.binary {} .lessThanOrEqu (.name {} "n") (.int {} 1)) (.ret {} (some (.int {} 1))) none,
      .ret {} (some (.binary {} .mul
        (.call {} (.name {} "f") [.binary {} .sub (.name {} "n") (.int {} 1)] []) (.name {} "n")))]

/-- It is declared in the module and called from another function. -/
def outerFactorial : List Stmt :=
  [.function {} factorial, .function {} (.mk { name := "main" }
    [.ret {} (some (.call {} (.name {} "f") [.int {} 2] []))])]

/-- It is declared and called in another function. -/
def innerFactorial : List Stmt :=
  [.function {} (.mk { name := "main" }
    [.function {} factorial, .ret {} (some (.call {} (.name {} "f") [.int {} 2] []))])]

theorem compile_outerFactorial :
    compile "m" "m" outerFactorial = .ok (compiledUnit outerFactorial) :=
  compile_compiledUnit (by decide +kernel)

/-- The method that a value is. -/
def Value.method? : Value → Option MethodId
  | .method id => some id
  | _ => none

theorem Value.eq_of_method? {v : Value} {id : MethodId} (is : v.method? = some id) :
    v = .method id := by
  unfold method? at is
  split at is
  · cases is
    rfl
  · cases is

theorem Machine.callee?_of_method {m : Machine} {id : MethodId}
    (calls : m.callee?.bind Value.method? = some id) : m.callee? = some (.method id) := by
  obtain ⟨v, found, is⟩ := Option.bind_eq_some_iff.1 calls
  rw [found, Value.eq_of_method? is]

/-- The function of the module gets a variable of its own when it is called, and another one when it
calls itself. -/
theorem activation_variables_outerFactorial :
    let m := (HostCall.value (.method 1) []).after
      (Engine.loaded (compiledUnit outerFactorial)).machine 2
    m.callee? = some (.method 0) ∧ ∃ f rest, m.step.frames = f :: rest ∧
      f.Alone m.heap m.step.heap ∧
      ∃ g rest', (m.step.run 8).step.frames = g :: rest' ∧ g.env ≠ f.env := by
  intro m
  have live : m.Live :=
    (Engine.hosted_loaded compile_outerFactorial).after_live (.value (.method 1) []) 2
  have calls : m.callee? = some (.method 0) := Machine.callee?_of_method (by decide +kernel)
  have again : (m.step.run 8).callee? = some (.method 0) :=
    Machine.callee?_of_method (by decide +kernel)
  have shape : m.step.frames.head?.map (·.method.code.localCount) = some 1 := by decide +kernel
  rcases live.activation_variables.1 0 calls with raises | ⟨f, rest, top, _, alone, later⟩
  · exact absurd raises (by decide +kernel)
  have some : 0 < f.method.code.localCount := by
    rw [top] at shape
    have one : f.method.code.localCount = 1 := Option.some.inj shape
    omega
  rcases later some 8 0 again with raises | ⟨g, rest', top', _, apart⟩
  · exact absurd raises (by decide +kernel)
  · exact ⟨calls, f, rest, top, alone, g, rest', top', apart⟩

/-- The integer that the run came to. -/
def Control.int? : Control → Option Int64
  | .returned (.int value) => some value
  | _ => none

theorem Control.eq_of_int? {c : Control} {value : Int64} (returns : c.int? = some value) :
    c = .returned (.int value) := by
  unfold int? at returns
  split at returns
  · cases returns
    rfl
  · cases returns

/-- The same function, called with the same argument, comes to 2 if it is declared in the module and
to 1 if it is declared where it is called: there both activations use one environment, and the
parameter of the first is gone when the second has returned. -/
theorem innerFactorial_differs :
    let outer := (HostCall.value (.method 1) []).after
      (Engine.loaded (compiledUnit outerFactorial)).machine
    let inner := (HostCall.value (.method 1) []).after
      (Engine.loaded (compiledUnit innerFactorial)).machine
    (outer 26).control = .returned (.int 2) ∧ (inner 29).control = .returned (.int 1) ∧
      (outer 12).frames.map (fun f => (f.method.code.name, f.env)) =
        [("f", 2), ("f", 1), ("main", 0)] ∧
      (inner 15).frames.map (fun f => (f.method.code.name, f.env)) =
        [("f", 0), ("f", 0), ("main", 0)] := by
  intro outer inner
  have two : (outer 26).control.int? = some 2 := by decide +kernel
  have one : (inner 29).control.int? = some 1 := by decide +kernel
  exact ⟨Control.eq_of_int? two, Control.eq_of_int? one, by decide +kernel, by decide +kernel⟩

end ScriptMachine
