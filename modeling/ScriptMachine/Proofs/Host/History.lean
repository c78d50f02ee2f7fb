import ScriptMachine.Proofs.Heap.ClassGraph
import ScriptMachine.Proofs.Host.Defects
import ScriptMachine.Proofs.Machine.Moves

/-!
Histories. What a machine has been through since it was made: its host loads units and modules of
functions, changes its own settings and data while no run is under way, and has modules run and
values called; every run is taken step by step, and may end, fail or last. A history has all moves
the machine made, latest first, so it can say what happened how often and what has stayed since.

Class graphs are a first example. Whatever was declared and in whatever order classes were used, the
graph has no cycle, and what derives from a class once derives from it ever after.
-/

namespace ScriptMachine

open ScriptMachine.Action

/-- A move of a machine: a step, or what a call of the host begins with. -/
structure Move where
  before : Machine
  after : Machine

/-- No run is under way. -/
def Machine.isIdle (m : Machine) : Bool :=
  match m.control with
  | .running => m.frames.isEmpty
  | .delivering _ _ => false
  | .returned _ | .uncaught _ => true

/-- The machines that hosts come to own, with the moves these have made. -/
inductive History : List Move → Machine → Prop where
  | new {m : Machine} : m.heap = {} → m.frames = [] → m.handlers = [] → m.modules = [] →
      m.isIdle = true → History [] m
  | load {moves : List Move} {m : Machine} {name file : String} {unit : List Stmt}
      {u : CompiledUnit} : History moves m → m.isIdle = true → compile name file unit = .ok u →
      History moves { m with heap := (m.heap.load u).2 }
  | loadNatives {moves : List Move} {m : Machine} (name : String) (fns : List Native) :
      History moves m → m.isIdle = true →
      History moves { m with heap := (m.heap.loadNatives name fns).2 }
  /-- Settings, global variables and data are the host's; code, frames and the names of modules are
  not. -/
  | adjust {moves : List Move} {m m' : Machine} : History moves m → m.isIdle = true →
      m'.calls = m.calls → m'.handlers = m.handlers → m'.control = m.control →
      m'.modules = m.modules → m.heap.Keeps m'.heap → History moves m'
  | call {moves : List Move} {m : Machine} (c : HostCall) : History moves m → m.isIdle = true →
      History (⟨c.machine m, (c.machine m).perform (c.action m)⟩ :: moves)
        ((c.machine m).perform (c.action m))
  | step {moves : List Move} {m : Machine} : History moves m → m.isIdle = false →
      History (⟨m, m.step⟩ :: moves) m.step

/-! ## Runs -/

/-- The moves of a run in so many steps, latest first. -/
def HostCall.moves (c : HostCall) (m : Machine) : Nat → List Move
  | 0 => [⟨c.machine m, (c.machine m).perform (c.action m)⟩]
  | steps + 1 =>
      if (c.after m steps).isIdle then c.moves m steps
      else ⟨c.after m steps, (c.after m steps).step⟩ :: c.moves m steps

namespace Machine

/-- A live machine without a run under way has ended its run: one that runs has a frame. -/
theorem Live.isDone_of_isIdle {m : Machine} (live : m.Live) (idle : m.isIdle = true) :
    m.isDone = true := by
  rw [isIdle] at idle
  rw [isDone]
  cases control : m.control with
  | running =>
      obtain ⟨f, rest, _, _, top, _⟩ := live.standing control
      rw [control, top] at idle
      cases idle
  | delivering v pending =>
      rw [control] at idle
      cases idle
  | returned v => rfl
  | uncaught id => rfl

/-- The machine is at rest between two runs, or live. -/
def Composed (m : Machine) : Prop :=
  (m.isIdle = true ∧ m.AtRest) ∨ m.Live

theorem Composed.atRest {m : Machine} (composed : m.Composed) (idle : m.isIdle = true) :
    m.AtRest := by
  rcases composed with ⟨_, rest⟩ | live
  · exact rest
  · exact live.atRest (live.isDone_of_isIdle idle)

theorem Composed.live {m : Machine} (composed : m.Composed) (busy : m.isIdle = false) :
    m.Live := by
  rcases composed with ⟨idle, _⟩ | live
  · cases busy.symm.trans idle
  · exact live

end Machine

namespace History

variable {moves : List Move} {m : Machine}

theorem composed (past : History moves m) : m.Composed := by
  induction past with
  | new heap frames handlers _ idle =>
      refine .inl ⟨idle, fun method member => ?_, frames, handlers⟩
      rw [heap] at member
      exact absurd member (Array.not_mem_empty method)
  | load _ idle compiled ih =>
      have rest := ih.atRest idle
      exact .inl ⟨idle, rest.heap.load compiled, rest.frames, rest.handlers⟩
  | loadNatives name fns _ idle ih =>
      have rest := ih.atRest idle
      exact .inl ⟨idle, rest.heap.loadNatives name fns, rest.frames, rest.handlers⟩
  | adjust _ idle calls handlers control _ heap ih =>
      refine .inl ⟨?_, (ih.atRest idle).kept calls handlers heap⟩
      rw [Machine.isIdle, Machine.frames, calls, control]
      exact idle
  | call c _ idle ih => exact .inr ((ih.atRest idle).after_live c 0)
  | step _ busy ih => exact .inr (ih.live busy).step

/-- The run of a call, taken as far as one likes, continues a history. -/
theorem after (past : History moves m) (idle : m.isIdle = true) (c : HostCall) (steps : Nat) :
    History (c.moves m steps ++ moves) (c.after m steps) := by
  induction steps with
  | zero => exact past.call c idle
  | succ steps ih =>
      rw [HostCall.moves, c.after_succ]
      cases busy : (c.after m steps).isIdle with
      | false => exact ih.step busy
      | true =>
          -- a run that has ended makes no more moves
          have live := (past.composed.atRest idle).after_live c steps
          rw [Machine.step_of_isDone (live.isDone_of_isIdle busy)]
          exact ih

end History

/-! ## What stays -/

/-- Classes are only linked to further bases, and no name of a module is forgotten. -/
structure Machine.Later (m m' : Machine) : Prop where
  links : m.heap.Links m'.heap
  remembered : ∀ name, m.remembers name = true → m'.remembers name = true

namespace Machine.Later

variable {m m' : Machine}

theorem refl (m : Machine) : m.Later m :=
  ⟨.same fun _ => rfl, fun _ => id⟩

theorem trans {m'' : Machine} (first : m.Later m') (second : m'.Later m'') : m.Later m'' :=
  ⟨first.links.trans second.links, fun name known => second.remembered name (first.remembered name known)⟩

/-- The host keeps the names of modules as they are. -/
theorem of_modules (links : m.heap.Links m'.heap) (modules : m'.modules = m.modules) :
    m.Later m' := by
  refine ⟨links, fun name known => ?_⟩
  rwa [remembers, modules]

theorem loadNatives (m : Machine) (name : String) (fns : List Native) :
    m.Later { m with heap := (m.heap.loadNatives name fns).2 } := by
  have made := (m.heap.keeps_newNatives fns).links
  exact .of_modules (made.trans (.same fun _ => rfl)) rfl

/-- A module that is run is remembered, and others stay. -/
theorem machine (c : HostCall) (m : Machine) : m.Later (c.machine m) := by
  cases c with
  | value callee args => exact .of_modules (.same fun _ => rfl) rfl
  | module id =>
      refine ⟨.same fun _ => rfl, fun name known => ?_⟩
      change ((m.modules.set (m.heap.module id).name id).get? name).isSome = true
      by_cases same : name = (m.heap.module id).name
      · rw [same, Bindings.get?_set_self]
        rfl
      · rw [Bindings.get?_set_of_ne m.modules same]
        exact known

theorem perform {a : Action Unit} (steady : m.Steady (a.result m).2) : m.Later (m.perform a) :=
  ⟨steady.keeps_heap_perform.links, fun _ => steady.acquires_perform.remembered⟩

end Machine.Later

/-- What every move does: a call of the host finds no frame, and all else is a step of a live
machine. -/
structure Move.Proper (move : Move) : Prop where
  later : move.before.Later move.after
  acquires : move.before.Acquires move.after
  origin : move.before.frames = [] ∨ (move.before.Live ∧ move.after = move.before.step)

namespace History

variable {moves : List Move} {m : Machine}

/-- What holds of a new machine and stays, whatever the host does between two runs and whatever
move the machine makes, holds in every history. -/
theorem along {P : List Move → Machine → Prop} (past : History moves m)
    (new : ∀ {m : Machine}, m.heap = {} → P [] m)
    (host : ∀ {moves : List Move} {m m' : Machine}, m.Later m' → P moves m → P moves m')
    (move : ∀ {moves : List Move} {move : Move}, move.Proper → P moves move.before →
      P (move :: moves) move.after) : P moves m := by
  induction past with
  | new heap => exact new heap
  | @load _ m _ _ _ u _ _ _ ih => exact host (.of_modules (m.heap.links_load u) rfl) ih
  | loadNatives name fns _ _ ih => exact host (.loadNatives _ name fns) ih
  | adjust _ _ _ _ _ modules heap ih => exact host (.of_modules heap.links modules) ih
  | @call _ m c before idle ih =>
      have steady := (c.answers m).made.steady (c.machine m)
      have frames : (c.machine m).frames = [] := by
        have none := (before.composed.atRest idle).frames
        cases c <;> exact none
      exact move ⟨.perform steady, steady.acquires_perform, .inl frames⟩ (host (.machine c m) ih)
  | @step _ m before busy ih =>
      have live := before.composed.live busy
      exact move ⟨.perform m.upcoming_steady, m.acquires_step, .inr ⟨live, rfl⟩⟩ ih

theorem proper (past : History moves m) : ∀ move ∈ moves, move.Proper := by
  apply past.along (P := fun moves _ => ∀ move ∈ moves, move.Proper)
  · simp
  · exact fun _ so => so
  · exact fun proper so => List.forall_mem_cons.2 ⟨proper, so⟩

/-- What held of a machine before or after a move has lasted since. -/
theorem later (past : History moves m) :
    ∀ move ∈ moves, move.before.Later m ∧ move.after.Later m := by
  have onward {n n' : Machine} {moves : List Move} (change : n.Later n')
      (so : ∀ move ∈ moves, move.before.Later n ∧ move.after.Later n) :
      ∀ move ∈ moves, move.before.Later n' ∧ move.after.Later n' :=
    fun move member => ⟨(so move member).1.trans change, (so move member).2.trans change⟩
  apply past.along (P := fun moves m => ∀ move ∈ moves, move.before.Later m ∧ move.after.Later m)
  · simp
  · exact onward
  · intro moves move proper so
    exact List.forall_mem_cons.2 ⟨⟨proper.later, .refl _⟩, onward proper.later so⟩

/-! ## Class graphs -/

theorem orderly (past : History moves m) : m.heap.Orderly := by
  apply past.along (P := fun _ m => m.heap.Orderly)
  · intro m heap
    rw [heap]
    exact Heap.orderly_empty
  · exact fun change orderly => change.links.orderly orderly
  · exact fun proper orderly => proper.later.links.orderly orderly

/-- At every moment of every history no class derives from itself through a base and none has a
base twice. Every walk along bases ends, and what is asked of a class is answered by the class, or
else by its bases in order. A class counts as a subclass of exactly those that its bases lead to,
and of all that it has ever counted as a subclass of. -/
theorem class_graph (past : History moves m) :
    (∀ c, ¬ Relation.TransGen m.heap.HasBase c c) ∧ (∀ c, (m.heap.cls c).bases.Nodup) ∧
    (WellFounded fun base c => m.heap.HasBase c base) ∧
    (∀ c name, m.heap.findMember? c name = (m.heap.ownMember? name c).or
      ((m.heap.cls c).bases.findSome? (m.heap.findMember? · name))) ∧
    (∀ c name id, m.heap.findInstanceMethod? c name = some id ↔
      m.heap.findMember? c name = some (.method id)) ∧
    (∀ c, m.heap.exceptionBase? c = (m.heap.cls c).exceptionBase.or
      ((m.heap.cls c).bases.findSome? m.heap.exceptionBase?)) ∧
    (∀ c other, m.heap.isSubclass c other
      = (c == other || (m.heap.cls c).bases.any (m.heap.isSubclass · other))) ∧
    (∀ c other, m.heap.isSubclass c other = true ↔
      Relation.ReflTransGen m.heap.HasBase c other) ∧
    ∀ move ∈ moves, ∀ c other, (move.before.heap.isSubclass c other = true ∨
      move.after.heap.isSubclass c other = true) → m.heap.isSubclass c other = true := by
  have orderly := past.orderly
  refine ⟨orderly.acyclic, orderly.nodup, orderly.wellFounded, orderly.findMember?_eq,
    fun c name id => ?_, orderly.exceptionBase?_eq, orderly.isSubclass_eq,
    fun c other => orderly.isSubclass_iff, fun move member c other was => ?_⟩
  · unfold Heap.findInstanceMethod?
    split <;> simp_all
  · obtain ⟨before, after⟩ := past.later move member
    rw [orderly.isSubclass_iff]
    rcases was with was | was
    · exact before.links.derives (Heap.derives_of_isSubclass was)
    · exact after.links.derives (Heap.derives_of_isSubclass was)

end History

/-- Two classes that are declared to derive from each other, and a use of the first. -/
def circularClasses : List Stmt :=
  [.classDef {} (.mk {} "A" ["B"] none []), .classDef {} (.mk {} "B" ["A"] none []),
    .expr {} (.attr {} (.name {} "A") "x")]

/-- The first class is linked to the second, which is used for this and is not linked in turn. -/
theorem class_graph_circularClasses : ∃ moves,
    let m := (HostCall.module 0).after (Engine.loaded (compiledUnit circularClasses)).machine 8
    History moves m ∧ m.heap.HasBase 0 1 ∧ ¬ Relation.TransGen m.heap.HasBase 0 0 ∧
      m.heap.isSubclass 0 1 = true ∧ m.heap.isSubclass 1 0 = false := by
  have compiled : compile "m" "m" circularClasses = .ok (compiledUnit circularClasses) :=
    compile_compiledUnit (by decide +kernel)
  have start : History [] (Engine.loaded (compiledUnit circularClasses)).machine :=
    .load (m := {}) (.new rfl rfl rfl rfl rfl) rfl compiled
  have past := start.after rfl (.module 0) 8
  obtain ⟨acyclic, _⟩ := past.class_graph
  refine ⟨_, past, ?_, acyclic 0, by decide +kernel, by decide +kernel⟩
  rw [Heap.HasBase]
  decide +kernel

end ScriptMachine
