import ScriptMachine.Host.Engine
import ScriptMachine.Proofs.Code.WellFormed
import ScriptMachine.Proofs.Machine.Driving
import ScriptMachine.Proofs.Machine.Upkeep

/-!
Sessions of a host. A host loads compiled units and modules of functions, runs modules and
calls functions, one after the other; between two calls it may change its settings, its global
variables and its data. Every machine it comes to own is at rest with sound methods, so every
run it starts stays live however long it is: no instruction finds a defect, the machine never
runs without a frame, and an instruction is dispatched with the operands that control flow
says. The dispatch loops of a call take the machine through the states it has by itself.
-/

namespace ScriptMachine

/-! ## Loading -/

/-- Constants that are there stay. -/
theorem Heap.Admits.of_constants {h h' : Heap} {method : LoadedMethod} {pool : Array Constant}
    {sketch : Sketch} (admits : h.Admits method pool sketch)
    (stay : ∀ (id : ModuleId) (k : Nat) (v : Value), (h.module id).constants[k]? = some v →
      (h'.module id).constants[k]? = some v) : h'.Admits method pool sketch where
  charted := admits.charted
  grounded := admits.grounded
  constants k c found := by
    obtain ⟨o, held⟩ := admits.constants k c found
    exact ⟨o, stay _ _ _ held⟩

/-- A new module takes no constant away. -/
theorem Heap.constants_push {h h' : Heap} {module : ModuleObject}
    (modules : h'.modules = h.modules.push module) (id : ModuleId) (k : Nat) (v : Value)
    (held : (h.module id).constants[k]? = some v) : (h'.module id).constants[k]? = some v := by
  by_cases known : id < h.modules.size
  · have same : h'.module id = h.module id := by
      simp only [Heap.module, modules, Array.getD_eq_getD_getElem?, Array.getElem?_push,
        Nat.ne_of_lt known, if_false]
    rw [same]
    exact held
  · have empty : h.module id = default := by simp [Heap.module, known]
    rw [empty] at held
    cases (Array.getElem?_eq_none (Nat.zero_le k)).symm.trans held

theorem Heap.module_push {h : Heap} {modules : Array ModuleObject} {module : ModuleObject}
    (pushed : h.modules = modules.push module) : h.module modules.size = module := by
  simp [Heap.module, pushed]

/-- The code of a compiled unit can be run with the constants of the unit. -/
theorem compile_charted {name file : String} {unit : List Stmt} {u : CompiledUnit}
    (compiled : compile name file unit = .ok u) {code : Method}
    (part : code = u.topLevel ∨ code ∈ u.methods) :
    (∃ sketch, Charted u.constants code.body sketch) ∧
      ∀ (ip : Nat) (i : Instruction), code.body[ip]? = some i →
        i.Grounded u.constants code.localCount := by
  obtain ⟨⟨top, certified⟩, bodies⟩ := compile_certified compiled
  obtain ⟨directory, clean, fine, constants, methods, topLevel⟩ := compile_ok compiled
  obtain ⟨carries, valid⟩ := @generate_fits _ clean directory true fun _ => fine
  rcases part with rfl | member
  · refine ⟨⟨top, certified.toCharted⟩, fun ip i found => ?_⟩
    rw [topLevel] at found ⊢
    rw [constants]
    exact (Linked.codeUnit_tidy valid).grounded found
  · obtain ⟨sketch, certified⟩ := bodies code member
    refine ⟨⟨sketch, certified.toCharted⟩, fun ip i found => ?_⟩
    rw [methods] at member
    obtain ⟨f, added, rfl⟩ := Array.mem_map.1 member
    rw [constants]
    exact (Linked.Body.tidy (carries.functions f added).valid).grounded found

/-- Loading compiled code keeps the heap sound, since the code was checked. -/
theorem Heap.Sound.load {h : Heap} (sound : h.Sound) {name file : String} {unit : List Stmt}
    {u : CompiledUnit} (compiled : compile name file unit = .ok u) : (h.load u).2.Sound := by
  have stay := @Heap.constants_push h (h.load u).2 _ rfl
  have own : ((h.load u).2.module h.modules.size).constants
      = (u.constants.toList.map h.offsets.constant).toArray := by
    rw [@Heap.module_push (h.load u).2 _ _ rfl]
  have new (code : Method) (part : code = u.topLevel ∨ code ∈ u.methods) :
      ∃ pool sketch, (h.load u).2.Admits ⟨code, h.modules.size⟩ pool sketch := by
    obtain ⟨⟨sketch, charted⟩, grounded⟩ := compile_charted compiled part
    refine ⟨u.constants, sketch, charted, grounded, fun k c found => ⟨h.offsets, ?_⟩⟩
    rw [own, List.getElem?_toArray, List.getElem?_map, Array.getElem?_toList, found]
    rfl
  intro method member
  change method ∈ (h.methods ++ u.methods.toList.map (LoadedMethod.mk · h.modules.size)).push _
    at member
  rcases Array.mem_push.1 member with earlier | rfl
  · rw [← Array.mem_toList_iff, Array.toList_appendList, List.mem_append] at earlier
    rcases earlier with old | added
    · obtain ⟨pool, sketch, admits⟩ := sound method (Array.mem_toList_iff.1 old)
      exact ⟨pool, sketch, admits.of_constants stay⟩
    · obtain ⟨code, part, rfl⟩ := List.mem_map.1 added
      exact new code (.inr (Array.mem_toList_iff.1 part))
  · exact new u.topLevel (.inl rfl)

theorem Heap.keeps_newNatives (h : Heap) (fns : List Native) : h.Keeps (h.newNatives fns).2 := by
  refine List.foldlRecOn (motive := fun made : Bindings Value × Heap => h.Keeps made.2) fns _ (.refl h) ?_
  exact fun _ kept _ _ => kept.trans (.of_tables rfl rfl rfl rfl)

/-- The top level of a module of functions gives null. -/
theorem Heap.admits_natives (h : Heap) (id : ModuleId) :
    ∃ pool sketch, h.Admits ⟨Method.moduleBody #[{ op := .loadNull }], id⟩ pool sketch := by
  let sketch : Sketch := fun ip => if ip = 0 then some (view 0 []) else some (view 1 [])
  have only (ip : Nat) (i : Instruction) (found : #[({ op := .loadNull } : Instruction)][ip]? = some i) :
      ip = 0 ∧ i = { op := .loadNull } := by
    cases ip with
    | zero => exact ⟨rfl, (Option.some.inj found).symm⟩
    | succ ip => simp at found
  refine ⟨#[], sketch, ⟨rfl, fun ip i found => ?_, fun ip i found opens => ?_⟩,
    fun ip i found => ?_, fun k c found => ?_⟩
  · obtain ⟨rfl, rfl⟩ := only ip i found
    refine ⟨view 0 [], rfl, Nat.zero_le _, nofun, trivial, fun p member => ?_, fun r rest suffix => ?_⟩
    · obtain rfl := List.mem_singleton.1 member
      exact ⟨.any, rfl, fun known => absurd rfl known⟩
    · exact absurd (List.suffix_nil.1 suffix) (List.cons_ne_nil r rest)
  · obtain ⟨rfl, rfl⟩ := only ip i found
    cases opens
  · obtain ⟨rfl, rfl⟩ := only ip i found
    trivial
  · simp at found

/-- Functions of the host bring no code with them. -/
theorem Heap.Sound.loadNatives {h : Heap} (sound : h.Sound) (name : String) (fns : List Native) :
    (h.loadNatives name fns).2.Sound := by
  have kept := h.keeps_newNatives fns
  have stay := @Heap.constants_push (h.newNatives fns).2 (h.loadNatives name fns).2 _ rfl
  intro method member
  change method ∈ (h.newNatives fns).2.methods.push _ at member
  rcases Array.mem_push.1 member with old | rfl
  · obtain ⟨pool, sketch, admits⟩ := kept.sound sound method old
    exact ⟨pool, sketch, admits.of_constants stay⟩
  · exact Heap.admits_natives _ _

/-! ## Values of the host -/

namespace HostValue

theorem make_keeps {α : Type} {action : Heap → α × Heap}
    (keeps : ∀ h : Heap, h.Keeps (action h).2) : KeepsHeap (HostValue.make action) :=
  keeps

mutual

/-- Bringing in a value makes objects and changes none. -/
theorem toValue_keeps : (v : HostValue) → KeepsHeap v.toValue
  | .null | .bool _ | .int _ | .float _ | .str _ => .pure _
  | .tuple items => .bind (toValues_keeps items) fun _ => .pure _
  | .list items => .bind (toValues_keeps items) fun _ => make_keeps fun _ => .of_tables rfl rfl rfl rfl
  | .map entries =>
      .bind (toTable_keeps .empty entries) fun _ => make_keeps fun _ => .of_tables rfl rfl rfl rfl
  | .exception _ _ => .bind (make_keeps fun _ => .of_tables rfl rfl rfl rfl) fun _ => .pure _
  | .repr _ => .throw _

theorem toValues_keeps : (values : List HostValue) → KeepsHeap (toValues values)
  | [] => .pure _
  | item :: rest => .bind (toValue_keeps item) fun _ => .bind (toValues_keeps rest) fun _ => .pure _

theorem toTable_keeps (table : Table) :
    (entries : List (HostValue × HostValue)) → KeepsHeap (toTable table entries)
  | [] => .pure _
  | (key, value) :: rest => by
      refine .bind (toValue_keeps key) fun k => ?_
      dsimp only
      split
      · exact .bind (toValue_keeps value) fun v => toTable_keeps _ rest
      · exact .bind (.throw _) fun _ => .bind (toValue_keeps value) fun v => toTable_keeps _ rest

end

end HostValue

/-! ## Calls of the host -/

/-- What a host has done: the top level of a module is run, or a value is called. -/
inductive HostCall where
  | module (id : ModuleId)
  | value (callee : Value) (args : List Value)

namespace HostCall

/-- The machine that is told to carry the call out. -/
def machine (c : HostCall) (m : Machine) : Machine :=
  match c with
  | .module id =>
      { m with modules := m.modules.set (m.heap.module id).name id, control := .running }
  | .value _ _ => { m with control := .running }

/-- What the machine is told to do. -/
def action (c : HostCall) (m : Machine) : Action Unit :=
  match c with
  | .module id => Action.enter { method := (m.heap.module id).topLevel } { finish := .halt }
  | .value callee args => Action.call callee args { finish := .halt }

/-- The machine by itself after at most `steps` steps of the run. -/
def after (c : HostCall) (m : Machine) (steps : Nat) : Machine :=
  ((c.machine m).perform (c.action m)).run steps

/-- The machine and the dispatch loops of the call after at most `steps` steps of theirs. -/
def dispatched (c : HostCall) (m : Machine) (steps : Nat) : Dispatcher :=
  (Dispatcher.start (c.machine m) (c.action m)).run steps

/-- Whatever the host calls for, an operation gives it. -/
theorem answers (c : HostCall) (m : Machine) : Answers true .host (c.action m) := by
  cases c with
  | module id => exact .enter _ rfl
  | value callee args => exact Action.call_answers callee args rfl

/-- What is called keeps to a discipline, if the host passes what passes. -/
theorem careful {D : Discipline} [D.Instructs] (c : HostCall) (m : Machine)
    (given : ∀ callee args, c = .value callee args → D.Allows callee ∧ D.Allows args) :
    Careful D (c.action m) := by
  have halts : D.Allows ({ finish := .halt } : Pending) := ⟨passes_nil, trivial⟩
  cases c with
  | module id => exact (Action.enter_obeys ⟨passes_none, passes_nil⟩ halts).careful
  | value callee args =>
      obtain ⟨known, args⟩ := given callee args rfl
      exact Action.call_careful known args halts

theorem running (c : HostCall) (m : Machine) : (c.machine m).control = .running := by
  cases c <;> rfl

/-- A call of the host begins with the frames that are there. -/
theorem frames_machine (c : HostCall) (m : Machine) : (c.machine m).frames = m.frames := by
  cases c <;> rfl

theorem heap_machine (c : HostCall) (m : Machine) : (c.machine m).heap = m.heap := by
  cases c <;> rfl

theorem after_succ (c : HostCall) (m : Machine) (steps : Nat) :
    c.after m (steps + 1) = (c.after m steps).step :=
  Machine.run_succ steps _

/-- Steps may be taken in two goes. -/
theorem after_add (c : HostCall) (m : Machine) (first second : Nat) :
    c.after m (first + second) = (c.after m first).run second :=
  Machine.run_add first second _

theorem dispatched_succ (c : HostCall) (m : Machine) (steps : Nat) :
    c.dispatched m (steps + 1) = (c.dispatched m steps).step :=
  Dispatcher.run_succ steps _

/-- The dispatcher's steps may be taken in two goes as well. -/
theorem dispatched_add (c : HostCall) (m : Machine) (first second : Nat) :
    c.dispatched m (first + second) = (c.dispatched m first).run second :=
  Dispatcher.run_add first second _

end HostCall

/-- Running a module is what the dispatcher comes to with all its fuel. -/
theorem Machine.runModule_eq (m : Machine) (id : ModuleId) :
    m.runModule id = ((HostCall.module id).dispatched m fuel).machine := rfl

theorem Machine.callValue_eq (m : Machine) (callee : Value) (args : List Value) :
    m.callValue callee args = ((HostCall.value callee args).dispatched m fuel).machine := rfl

/-- The engines that hosts come to own. A call is made only when the one before it has ended. -/
inductive Engine.Hosted : Engine → Prop where
  | new {e : Engine} : e.machine.heap = {} → e.machine.calls = .empty →
      e.machine.handlers = [] → Hosted e
  | load {e : Engine} {name file : String} {unit : List Stmt} {u : CompiledUnit} :
      Hosted e → compile name file unit = .ok u →
      Hosted { e with machine := { e.machine with heap := (e.machine.heap.load u).2 } }
  | loadNatives {e : Engine} (name : String) (fns : List Native) :
      Hosted e →
      Hosted { e with machine := { e.machine with heap := (e.machine.heap.loadNatives name fns).2 } }
  /-- Settings, global variables and data are the host's; code and frames are not. -/
  | adjust {e e' : Engine} : Hosted e → e'.machine.calls = e.machine.calls →
      e'.machine.handlers = e.machine.handlers → e.machine.heap.Keeps e'.machine.heap → Hosted e'
  | runModule {e : Engine} (id : ModuleId) : Hosted e →
      (e.runModule id).2.machine.isDone = true → Hosted (e.runModule id).2
  | runMain {e : Engine} (id : ModuleId) (args : List HostValue) : Hosted e →
      (e.runMain id args).2.machine.isDone = true → Hosted (e.runMain id args).2
  | call {e : Engine} (name : String) (args : List HostValue) : Hosted e →
      (e.call name args).2.machine.isDone = true → Hosted (e.call name args).2
  | callValue {e : Engine} (callee : Value) (args : List Value) : Hosted e →
      (e.callValue callee args).2.machine.isDone = true → Hosted (e.callValue callee args).2

namespace Machine.AtRest

variable {m m' : Machine}

theorem kept (rest : m.AtRest) (calls : m'.calls = m.calls) (handlers : m'.handlers = m.handlers)
    (heap : m.heap.Keeps m'.heap) : m'.AtRest where
  heap := heap.sound rest.heap
  frames := (congrArg CallStack.frames calls).trans rest.frames
  handlers := handlers.trans rest.handlers

/-- A machine at rest waits for the host. -/
theorem waits (rest : m.AtRest) : m.Waits .host := by
  refine ⟨rest.heap, ?_⟩
  rw [rest.frames, rest.handlers]
  exact .host

/-- To prepare a call changes no frame and no region. -/
theorem prepared (rest : m.AtRest) (c : HostCall) : (c.machine m).AtRest := by
  cases c with
  | module id => exact rest.kept rfl rfl (.refl _)
  | value callee args => exact rest.kept rfl rfl (.refl _)

/-- A call that a host makes finds no defect. -/
theorem call_safe (rest : m.AtRest) (c : HostCall) : Safe ((c.action m).result (c.machine m)) :=
  (c.answers m).safe (rest.prepared c).waits fun _ => c.running m

/-- However far the run of a call has come, the machine is live. -/
theorem after_live (rest : m.AtRest) (c : HostCall) (steps : Nat) : (c.after m steps).Live :=
  (rest.call_safe c).perform.run steps

/-- What the call does first moves frames and regions in one of the ways. -/
theorem call_moves (rest : m.AtRest) (c : HostCall) :
    Moves (c.machine m) ((c.action m).result (c.machine m)) := by
  obtain ⟨n, kept, upshot⟩ := (c.answers m).upshot (rest.prepared c).heap fun _ => c.running m
  refine upshot.moves ?_ kept.handlers kept.control (congrArg CallStack.nesting kept.calls)
    kept.limits
  rw [kept.frames]
  exact .nothing _

end Machine.AtRest

/-! ## Dispatch loops of a call -/

/-- Nothing runs, what is there can be run, and no nested call is counted. -/
structure Machine.Vacant (m : Machine) : Prop extends m.AtRest where
  calls : m.calls = .empty

namespace Machine.Vacant

variable {m m' : Machine}

/-- A machine at rest that has kept count has no nested call. -/
theorem of_counted (rest : m.AtRest) (counted : m.Counted) : m.Vacant where
  toAtRest := rest
  calls := CallStack.Counted.ext counted rfl rest.frames

theorem kept (vacant : m.Vacant) (calls : m'.calls = m.calls) (handlers : m'.handlers = m.handlers)
    (heap : m.heap.Keeps m'.heap) : m'.Vacant where
  toAtRest := vacant.toAtRest.kept calls handlers heap
  calls := calls.trans vacant.calls

theorem counted (vacant : m.Vacant) : m.Counted := by
  rw [Counted, vacant.calls]
  rfl

/-- Between two calls there is no nested one. -/
theorem nesting (vacant : m.Vacant) : m.nesting = 0 :=
  congrArg CallStack.nesting vacant.calls

/-- Between two calls there is room for nested ones. -/
theorem room (vacant : m.Vacant) : m.Roomy := by
  refine ⟨?_, ?_⟩
  · rw [vacant.calls]
    exact Nat.zero_le _
  · rw [vacant.nesting]
    exact Nat.zero_le _

theorem prepared (vacant : m.Vacant) (c : HostCall) : (c.machine m).Vacant := by
  cases c with
  | module id => exact vacant.kept rfl rfl (.refl _)
  | value callee args => exact vacant.kept rfl rfl (.refl _)

/-- The call can be carried out. -/
theorem ready (vacant : m.Vacant) (c : HostCall) :
    Dispatcher.Ready (c.machine m) (c.action m) := by
  have prepared := vacant.prepared c
  have moves := vacant.call_moves c
  have steady := (c.answers m).made.steady (c.machine m)
  have counted := (c.answers m).made.counted prepared.counted
  exact {
    busy := fun _ _ _ => by rw [isDone, c.running]
    moves
    steady
    before := prepared.room
    live := vacant.after_live c 0
    counted := .performed counted
    room := prepared.room.perform prepared.counted moves counted steady }

theorem after_counted (vacant : m.Vacant) (c : HostCall) (steps : Nat) :
    (c.after m steps).Counted :=
  (vacant.ready c).counted.run steps

/-- The dispatcher begins the call. -/
theorem starts (vacant : m.Vacant) (c : HostCall) :
    (c.dispatched m 0).At (c.machine m) (c.action m) 0 := by
  have prepared := vacant.prepared c
  have ready := vacant.ready c
  have idle : entries (c.machine m).links = [] := by
    rw [links, prepared.frames]
    rfl
  have alone : (c.machine m).driven = { machine := c.machine m } := by
    rw [driven, idle]
  change Dispatcher.Bound (c.machine m) (c.action m)
    (Dispatcher.attempt { machine := c.machine m } _ _)
  rw [← alone]
  refine Dispatcher.bound_attempt rfl prepared.counted
    ((c.answers m).made.counted prepared.counted) prepared.room ready.moves ready.steady ?_ ?_
    fun _ => ⟨prepared.frames, prepared.handlers⟩
  · intro _ f below top
    cases top.symm.trans prepared.frames
  · rw [idle]
    exact ⟨⟨fun _ => rfl, fun _ => rfl⟩, trivial⟩

/-- Wherever the dispatcher is, it is on its way to the end of a turn that the machine takes by
itself, and has been through the turns since any earlier state. -/
theorem course (vacant : m.Vacant) (c : HostCall) {start first : Nat}
    (on : (c.dispatched m start).At (c.machine m) (c.action m) first) (steps : Nat) :
    ∃ count, first ≤ count ∧ count ≤ first + steps ∧
      (c.dispatched m (start + steps)).At (c.machine m) (c.action m) count ∧
      ∀ j, first ≤ j → j < count →
        ∃ s < steps, c.dispatched m (start + s) = (c.after m j).driven := by
  obtain ⟨count, after, near, there, passed⟩ := on.course (vacant.ready c) steps
  rw [← c.dispatched_add] at there
  refine ⟨count, after, near, there, fun j late early => ?_⟩
  obtain ⟨s, before, same⟩ := passed j late early
  rw [← c.dispatched_add] at same
  exact ⟨s, before, same⟩

/-- The dispatcher follows the machine through a call. Each of the machine's steps takes it at least
one of its own. -/
theorem on (vacant : m.Vacant) (c : HostCall) (steps : Nat) :
    ∃ count ≤ steps, (c.dispatched m steps).At (c.machine m) (c.action m) count ∧
      ∀ j < count, ∃ s < steps, c.dispatched m s = (c.after m j).driven := by
  obtain ⟨count, _, near, there, passed⟩ := vacant.course c (vacant.starts c) steps
  simp only [Nat.zero_add] at near there passed
  exact ⟨count, near, there, fun j early => passed j (Nat.zero_le _) early⟩

/-- A dispatcher that acts is where the machine gets by itself. -/
theorem acting (vacant : m.Vacant) (c : HostCall) {steps : Nat} (acts : (c.dispatched m steps).Acts) :
    ∃ count ≤ steps, c.dispatched m steps = (c.after m count).driven := by
  obtain ⟨count, near, there, _⟩ := vacant.on c steps
  exact ⟨count, near, there.eq_driven (vacant.ready c) acts⟩

/-- The dispatcher comes to every state that the machine has by itself. -/
theorem reaches (vacant : m.Vacant) (c : HostCall) (count : Nat) :
    ∃ steps, c.dispatched m steps = (c.after m count).driven :=
  (vacant.starts c).reaches (vacant.ready c) count

/-- A call that has ended leaves the machine vacant. -/
theorem ended (vacant : m.Vacant) (c : HostCall) {steps : Nat}
    (done : (c.dispatched m steps).machine.isDone = true) :
    (c.dispatched m steps).machine.Vacant ∧ (c.dispatched m steps).loops = [] ∧
      (c.dispatched m steps).failure = none := by
  obtain ⟨count, _, on, _⟩ := vacant.on c steps
  have there := on.eq_driven (vacant.ready c) (on.acts_of_isDone (vacant.ready c) done)
  rw [there] at done ⊢
  have rest := (vacant.after_live c count).atRest done
  refine ⟨.of_counted rest (vacant.after_counted c count), ?_, rfl⟩
  change entries (c.after m count).links = []
  rw [links, rest.frames]
  rfl

end Machine.Vacant

namespace Engine

variable {e : Engine}

theorem isDone_of_outcome {v : HostValue} (ended : e.outcome = .value v) :
    e.machine.isDone = true := by
  rw [outcome] at ended
  rw [Machine.isDone]
  cases control : e.machine.control with
  | returned v => rfl
  | uncaught id => rfl
  | running =>
      rw [control] at ended
      cases ended
  | delivering v pending =>
      rw [control] at ended
      cases ended

theorem importValues_vacant (vacant : e.machine.Vacant) (values : List HostValue) :
    (e.importValues values).2.machine.Vacant :=
  vacant.kept rfl rfl (HostValue.toValues_keeps values e.machine.heap)

/-- When a call is over, the machine is as vacant as before. -/
theorem callValue_vacant (vacant : e.machine.Vacant) (callee : Value) (args : List Value)
    (done : (e.callValue callee args).2.machine.isDone = true) :
    (e.callValue callee args).2.machine.Vacant :=
  (vacant.ended (.value callee args) done).1

theorem runModule_vacant (vacant : e.machine.Vacant) (id : ModuleId)
    (done : (e.runModule id).2.machine.isDone = true) : (e.runModule id).2.machine.Vacant :=
  (vacant.ended (.module id) done).1

/-- A function that is not there is not called at all. -/
theorem call_vacant (vacant : e.machine.Vacant) (name : String) (args : List HostValue)
    (done : (e.call name args).2.machine.isDone = true) :
    (e.call name args).2.machine.Vacant := by
  have imported := importValues_vacant vacant args
  unfold call at done ⊢
  cases found : e.lookup? name with
  | none => exact vacant
  | some callee =>
      rw [found] at done
      rcases taken : e.importValues args with ⟨cause | values, e'⟩ <;> rw [taken] at imported
      · exact imported
      · simp only [taken] at done ⊢
        exact callValue_vacant imported callee values done

/-- The module runs first, and then its main function is called. -/
theorem runMain_vacant (vacant : e.machine.Vacant) (id : ModuleId) (args : List HostValue)
    (done : (e.runMain id args).2.machine.isDone = true) :
    (e.runMain id args).2.machine.Vacant := by
  have first := runModule_vacant vacant id
  have ended : (e.runModule id).1 = (e.runModule id).2.outcome := rfl
  unfold runMain at done ⊢
  rcases ran : e.runModule id with ⟨outcome, e'⟩
  simp only [ran] at first ended done ⊢
  cases outcome with
  | uncaught cause => exact first done
  | unfinished => exact first done
  | value result =>
      have vacant' : e'.machine.Vacant := first (isDone_of_outcome ended.symm)
      dsimp only at done ⊢
      cases named : (e'.machine.heap.module id).attributes.get? "main" with
      | none => exact vacant'
      | some main =>
          simp only [named] at done
          by_cases wants : wantsArguments e'.machine.heap main = true
          · have imported := importValues_vacant vacant' args
            simp only [wants, if_true] at done ⊢
            rcases taken : e'.importValues args with ⟨cause | values, e''⟩ <;>
              rw [taken] at imported
            · exact imported
            · simp only [taken] at done ⊢
              have listed : Machine.Vacant { e''.machine with
                  heap := (e''.machine.heap.newList values.toArray).2 } :=
                imported.kept rfl rfl (.of_tables rfl rfl rfl rfl)
              exact callValue_vacant listed main _ done
          · simp only [wants] at done ⊢
            exact callValue_vacant vacant' main [] done

/-- Between two calls of its host an engine is vacant. -/
theorem Hosted.vacant (hosted : e.Hosted) : e.machine.Vacant := by
  induction hosted with
  | new heap calls handlers =>
      refine ⟨⟨fun method member => ?_, congrArg CallStack.frames calls, handlers⟩, calls⟩
      rw [heap] at member
      exact absurd member (Array.not_mem_empty method)
  | load _ compiled ih => exact ⟨⟨ih.heap.load compiled, ih.frames, ih.handlers⟩, ih.calls⟩
  | loadNatives name fns _ ih =>
      exact ⟨⟨ih.heap.loadNatives name fns, ih.frames, ih.handlers⟩, ih.calls⟩
  | adjust _ calls handlers heap ih => exact ih.kept calls handlers heap
  | runModule id _ done ih => exact runModule_vacant ih id done
  | runMain id args _ done ih => exact runMain_vacant ih id args done
  | call name args _ done ih => exact call_vacant ih name args done
  | callValue callee args _ done ih => exact callValue_vacant ih callee args done

theorem Hosted.atRest (hosted : e.Hosted) : e.machine.AtRest :=
  hosted.vacant.toAtRest

/-- However far the run of a call has come, the machine is live. -/
theorem Hosted.after_live (hosted : e.Hosted) (c : HostCall) (steps : Nat) :
    (c.after e.machine steps).Live :=
  hosted.atRest.after_live c steps

/-- During a call the count of nested calls is right at every step. -/
theorem Hosted.after_counted (hosted : e.Hosted) (c : HostCall) (steps : Nat) :
    (c.after e.machine steps).Counted :=
  hosted.vacant.after_counted c steps

end Engine

end ScriptMachine
