import Mathlib.Algebra.GroupWithZero.Nat
import ScriptMachine.Proofs.Host.History
import ScriptMachine.Proofs.Host.Imports
import ScriptMachine.Proofs.Machine.Loops

/-!
Modules are initialized once. The loader is asked for a module only when no module of its name is
remembered, and what it finds is remembered before anything of it runs; names are never forgotten.
So in the whole history of a machine, whatever modules use each other and whatever fails, there is
for each name at most one use that asks with success, at most one that calls the top level of the
module, and at most one that the observer is told of. Every other use takes the module as it is.
-/

namespace ScriptMachine

open ScriptMachine.Action

/-! ## The loader -/

/-- The machine with another loader. -/
def Machine.withLoader (m : Machine) (loader : String → Option ModuleId) : Machine :=
  { m with loader }

/-- The action does not ask the loader. -/
def Blind {α : Type} (a : Action α) : Prop :=
  ∀ (m : Machine) (loader : String → Option ModuleId),
    a.result (m.withLoader loader) = ((a.result m).1, (a.result m).2.withLoader loader)

namespace Blind

variable {α β : Type}

theorem pure (x : α) : Blind (pure x) :=
  fun _ _ => rfl

theorem fault (cause : Fault) : Blind (fault cause : Action α) :=
  fun _ _ => rfl

theorem askHeap (question : Heap → α) : Blind (askHeap question) :=
  fun _ _ => rfl

theorem change {f : Machine → Machine}
    (commutes : ∀ m loader, f (m.withLoader loader) = (f m).withLoader loader) :
    Blind (change f) := by
  intro m loader
  rw [result_change, result_change, commutes]

theorem bind {a : Action α} {f : α → Action β} (first : Blind a) (next : ∀ x, Blind (f x)) :
    Blind (a >>= f) := by
  intro m loader
  rw [result_bind, result_bind, first m loader]
  rcases a.result m with ⟨e | x, n⟩
  · rfl
  · exact next x n loader

end Blind

namespace Action

theorem deliver_blind (v : Value) (pending : Pending) : Blind (deliver v pending) :=
  .change fun _ _ => rfl

theorem bindHere_blind (name : String) (v : Value) : Blind (bindHere name v) := by
  apply Blind.change
  intro m loader
  have frames : (m.withLoader loader).frames = m.frames := rfl
  rw [frames]
  cases m.frames with
  | nil => rfl
  | cons f rest => rfl

theorem bindNames_blind (source : String) (module : ModuleId) (names : List String) :
    Blind (bindNames source module names) := by
  induction names with
  | nil => exact .pure _
  | cons name rest ih =>
      refine .bind (.askHeap _) fun found => ?_
      cases found with
      | some v => exact .bind (bindHere_blind name v) fun _ => ih
      | none => exact .bind (.fault _) fun _ => ih

theorem bindAll_blind (bindings : List (String × Value)) : Blind (bindAll bindings) := by
  induction bindings with
  | nil => exact .pure _
  | cons binding rest ih => exact .bind (bindHere_blind _ _) fun _ => ih

end Action

namespace Machine

theorem note_withLoader (m : Machine) (loader : String → Option ModuleId) (event : Unit → Event) :
    (m.withLoader loader).note event = (m.note event).withLoader loader := by
  change (if m.observer.isSilent then _ else _) = (if m.observer.isSilent then _ else _ : Machine).withLoader _
  split <;> rfl

theorem raise_withLoader (m : Machine) (loader : String → Option ModuleId) (id : ExceptionId) :
    (m.withLoader loader).raise id = (m.raise id).withLoader loader := by
  have announced : (m.withLoader loader).announced id = (m.announced id).withLoader loader := by
    unfold Machine.announced Machine.tell
    exact note_withLoader { m with heap := m.heap.setTrace id m.trace } loader _
  have handlers : (m.withLoader loader).handlers = m.handlers := rfl
  cases opened : m.handlers with
  | nil =>
      rw [raise_of_nil opened, raise_of_nil (handlers.trans opened), announced]
      rfl
  | cons h hs =>
      rw [raise_of_cons opened, raise_of_cons (handlers.trans opened), announced]
      rfl

theorem perform_withLoader {a : Action Unit} (blind : Blind a) (m : Machine)
    (loader : String → Option ModuleId) :
    (m.withLoader loader).perform a = (m.perform a).withLoader loader := by
  have same := blind m loader
  rcases done : a.result m with ⟨e | x, n⟩ <;> rw [done] at same
  · have resolved : e.resolve (n.withLoader loader)
        = ((e.resolve n).1, (e.resolve n).2.withLoader loader) := by
      cases e <;> rfl
    rw [perform_of_error done, perform_of_error same, resolved, raise_withLoader]
  · rw [perform_of_ok done, perform_of_ok same]

end Machine

/-! ## Uses of a module that is remembered -/

/-- What an instruction that uses a module does with it, and the operand stack it leaves. -/
inductive Instruction.Binds (i : Instruction) (name : String) (stack : List Value) :
    List Value → Task → Prop where
  | module : i.op = .importModule → Binds i name stack stack (.bindModule (bindingName name))
  | names {s : List Value} {items : List String} : i.op = .importFrom →
      stack = .tuple (items.map .str) :: s → Binds i name stack s (.importNames name items)
  | all : i.op = .importAll → Binds i name stack stack .importAll

/-- Binding is quiet and does not ask the loader. -/
theorem Instruction.Binds.binding {i : Instruction} {name : String} {stack s : List Value}
    {task : Task} (binds : i.Binds name stack s task) (id : ModuleId) :
    ∃ binding : Action Unit, Quiet binding ∧ Blind binding ∧ ∀ pending,
      performTask task (.module id) pending = binding >>= fun _ => deliver .null pending := by
  cases binds with
  | module => exact ⟨_, bindHere_quiet _ _, bindHere_blind _ _, fun _ => rfl⟩
  | names => exact ⟨_, bindNames_quiet _ id _, bindNames_blind _ id _, fun _ => rfl⟩
  | all =>
      refine ⟨askHeap (fun h => (h.module id).attributes) >>= bindAll,
        .bind (.askHeap _) bindAll_quiet, .bind (.askHeap _) bindAll_blind, fun pending => ?_⟩
      exact (bind_assoc _ _ _).symm

namespace Machine

variable {m : Machine} {name : String} {id : ModuleId}

/-- The machine that hands a module to what binds it. -/
def handing (m : Machine) (f : Frame) (i : Instruction) (s : List Value) (id : ModuleId)
    (task : Task) : Machine :=
  { (fetched m f i).withStack s with
    control := .delivering (.module id) (Pending.discard.before task) }

/-- A use of a remembered module hands it to what binds it. -/
theorem step_handing {f : Frame} {rest : List Frame} {i : Instruction} {s : List Value}
    {task : Task} (running : m.control = .running) (top : m.frames = f :: rest)
    (next : f.next? = some i)
    (named : (m.heap.module f.method.module).constants[i.arg]? = some (.str name))
    (known : m.modules.get? name = some id) (binds : i.Binds name f.stack s task) :
    m.step = m.handing f i s id task := by
  have held : (fetched m f i).constant? i.arg = some (.str name) := by
    rw [constant?, frames_fetched top, heap_fetched]
    exact named
  have stack := stack_fetched top i
  have loads : (execute i).result (fetched m f i)
      = (loadModule name (Pending.discard.before task)).result ((fetched m f i).withStack s) := by
    cases binds with
    | module is => rw [execute_importModule is held, ← stack, withStack_self]
    | names is found => exact execute_importFrom is held (stack.trans found)
    | all is => rw [execute_importAll is held, ← stack, withStack_self]
  have remembered : ((fetched m f i).withStack s).modules.get? name = some id := by
    rw [← known]
    exact congrArg (·.get? name) ((World.refl m).fetched f i).modules
  have done : m.upcoming.result m = (.ok (), m.handing f i s id task) := by
    rw [upcoming, running]
    refine (result_advance top next).trans (loads.trans ?_)
    rw [loadModule, result_bind_ok (result_askFor remembered)]
    rfl
  exact perform_of_ok done

theorem handing_withLoader (m : Machine) (loader : String → Option ModuleId) (f : Frame)
    (i : Instruction) (s : List Value) (id : ModuleId) (task : Task) :
    (m.withLoader loader).handing f i s id task = (m.handing f i s id task).withLoader loader := by
  unfold handing fetched
  rw [note_withLoader]
  rfl

/-- What is done next is to bind. -/
theorem upcoming_handing (m : Machine) (f : Frame) (i : Instruction) (s : List Value)
    (id : ModuleId) (task : Task) :
    (m.handing f i s id task).upcoming = performTask task (.module id) .discard := rfl

/-- A use of a module goes on with a module that is there: it is handed to what binds it, which
takes two more steps unless a name is missing. No frame is pushed meanwhile, and every loader leads
to the same. -/
structure UsesAtOnce (m : Machine) (id : ModuleId) : Prop where
  hands : ∃ pending, m.step.control = .delivering (.module id) pending
  modules : m.step.modules = m.modules
  frames : ∃ f g rest, m.frames = f :: rest ∧ m.step.frames = g :: rest
  ends : m.step.Raises ∨ (m.step.step.frames = m.step.frames ∧
    m.step.step.step.frames = m.step.frames ∧ m.step.step.step.control = .running)
  blind : ∀ loader, (m.withLoader loader).step = m.step.withLoader loader ∧
    (m.withLoader loader).step.step = m.step.step.withLoader loader ∧
    (m.step.Raises ∨ (m.withLoader loader).step.step.step = m.step.step.step.withLoader loader)

theorem Live.uses_at_once (live : m.Live) (uses : m.usedName? = some name)
    (known : m.modules.get? name = some id) : m.UsesAtOnce id := by
  obtain ⟨running, f, rest, i, top, next, imports, named⟩ := usedName?_eq_some uses
  obtain ⟨s, task, binds⟩ : ∃ s task, i.Binds name f.stack s task := by
    obtain ⟨l, executing, expects⟩ := fetched_executing live running top next
    rcases imports with is | is | is
    · exact ⟨_, _, .module is⟩
    · rw [Instruction.Expects, is] at expects
      obtain ⟨items, s, found⟩ := expects
      exact ⟨_, _, .names is ((stack_fetched top i).symm.trans found)⟩
    · exact ⟨_, _, .all is⟩
  obtain ⟨binding, quiet, blind, performs⟩ := binds.binding id
  have first : m.step = m.handing f i s id task := step_handing running top next named known binds
  have firstOf (loader : String → Option ModuleId) :
      (m.withLoader loader).step = m.step.withLoader loader := by
    rw [first, ← handing_withLoader]
    exact step_handing running top next named known binds
  have upcoming : m.step.upcoming = binding >>= fun _ => deliver .null .discard := by
    rw [first, upcoming_handing, performs]
  have secondOf (loader : String → Option ModuleId) :
      (m.withLoader loader).step.step = m.step.step.withLoader loader := by
    have blind' : Blind m.step.upcoming := upcoming ▸ blind.bind fun _ => deliver_blind _ _
    rw [firstOf]
    exact perform_withLoader blind' m.step loader
  -- binding is quiet: it either raises or leaves every frame as it is
  have ends : m.step.Raises ∨ ∃ n, m.step.Keeps n ∧
      m.step.step = { n with control := .delivering .null .discard } := by
    have kept := quiet.keeps m.step
    rcases done : binding.result m.step with ⟨e | x, n⟩ <;> rw [done] at kept
    · left
      exact ⟨e, n, by rw [upcoming, result_bind, done]⟩
    · right
      refine ⟨n, kept, perform_of_ok ?_⟩
      rw [upcoming, result_bind_ok done]
      rfl
  refine ⟨⟨_, by rw [first]; rfl⟩, ?_, ?_, ?_, fun loader => ⟨firstOf loader, secondOf loader, ?_⟩⟩
  · rw [first]
    exact ((World.refl m).fetched f i).modules
  · refine ⟨f, { f with ip := f.ip + 1, stack := s }, rest, top, ?_⟩
    rw [first]
    change ((fetched m f i).withStack s).frames = _
    rw [frames_withStack, frames_fetched top]
    rfl
  · apply ends.imp_right
    rintro ⟨n, kept, second⟩
    rw [second]
    exact ⟨kept.frames, kept.frames, rfl⟩
  · apply ends.imp_right
    rintro ⟨n, kept, second⟩
    rw [secondOf, second]
    rfl

/-! ## Uses of a module that is new -/

/-- What the loader finds is remembered, whatever becomes of it. -/
theorem Live.remembers_found (live : m.Live) (uses : m.usedName? = some name)
    (found : (m.loader name).isSome = true) : m.step.remembers name = true := by
  obtain ⟨pending, n, loads, _, modules, loader⟩ := live.loads uses
  obtain ⟨id, found⟩ := Option.isSome_iff_exists.1 found
  rw [remembers, Machine.step, modules_perform, loads, loadModule]
  cases known : n.modules.get? name with
  | some _ =>
      rw [result_bind_ok (result_askFor known)]
      exact Option.isSome_iff_exists.2 ⟨_, known⟩
  | none =>
      rw [result_bind_ok (result_askFor known), result_bind_ok (result_askFor (loader ▸ found)),
        result_bind_ok (result_change _ n), result_bind_ok (result_askHeap _ _), modules_enter,
        modules_note, Bindings.get?_set_self]
      rfl

/-- A use of a module that is nowhere to be found raises. -/
theorem Live.raises_missing (live : m.Live) (uses : m.usedName? = some name)
    (new : m.modules.get? name = none) (missing : m.loader name = none) : m.Raises := by
  obtain ⟨pending, n, loads, _, modules, loader⟩ := live.loads uses
  refine ⟨.fault (.moduleNotFound name), n, ?_⟩
  rw [loads, loadModule, result_bind_ok (result_askFor (modules ▸ new)),
    result_bind_ok (result_askFor (loader ▸ missing))]
  rfl

theorem Live.frames_le_of_raises (live : m.Live) (raises : m.Raises) :
    m.step.frames.length ≤ m.frames.length := by
  obtain ⟨e, n, failed⟩ := raises
  have moves := live.moves
  rw [failed] at moves
  cases moves with
  | raises spent _ =>
      have same := congrArg List.length spent.links
      rw [List.length_map, List.length_map] at same
      rcases frames_of_raised failed with none | ⟨h, frames⟩
      · rw [none]
        exact Nat.zero_le _
      · rw [frames, List.length_modifyHead, List.length_drop]
        omega

end Machine

/-! ## How often -/

namespace Move

/-- The loader is asked for a module of this name, and finds one. -/
def asks (name : String) (move : Move) : Bool :=
  move.before.usedName? == some name && !move.before.remembers name
    && (move.before.loader name).isSome

/-- A use of a module of this name calls something. -/
def starts (name : String) (move : Move) : Bool :=
  move.before.usedName? == some name && move.before.frames.length < move.after.frames.length

/-- How often the observer is told that a module of this name was loaded. -/
def tells (name : String) (move : Move) : Nat :=
  move.after.observer.loads name - move.before.observer.loads name

variable {move : Move} {name : String}

/-- Only steps use modules. -/
theorem Proper.uses (proper : move.Proper) (uses : move.before.usedName? = some name) :
    move.before.Live ∧ move.after = move.before.step := by
  rcases proper.origin with none | step
  · obtain ⟨_, f, rest, _, top, _⟩ := Machine.usedName?_eq_some uses
    cases none.symm.trans top
  · exact step

theorem tells_le (proper : move.Proper) :
    move.tells name + (move.before.remembers name).toNat ≤ (move.after.remembers name).toNat := by
  have told := proper.acquires.told name
  have known : (move.before.remembers name).toNat ≤ (move.after.remembers name).toNat :=
    Bool.toNat_le_toNat proper.acquires.remembered
  rw [tells]
  omega

theorem remembers_of_asks (proper : move.Proper) (asked : move.asks name = true) :
    move.after.remembers name = true := by
  simp only [asks, Bool.and_eq_true, beq_iff_eq] at asked
  obtain ⟨⟨uses, _⟩, found⟩ := asked
  obtain ⟨live, after⟩ := proper.uses uses
  rw [after]
  exact live.remembers_found uses found

theorem asks_le (proper : move.Proper) :
    (move.asks name).toNat + (move.before.remembers name).toNat
      ≤ (move.after.remembers name).toNat := by
  cases asked : move.asks name with
  | false =>
      rw [Bool.toNat_false, Nat.zero_add]
      exact Bool.toNat_le_toNat proper.acquires.remembered
  | true =>
      rw [remembers_of_asks proper asked]
      simp only [asks, Bool.and_eq_true, Bool.not_eq_true'] at asked
      rw [asked.1.2]
      exact Nat.le_refl 1

/-- Nothing is called for a module that is remembered or nowhere to be found. -/
theorem asks_of_starts (proper : move.Proper) (starts : move.starts name = true) :
    move.asks name = true := by
  simp only [Move.starts, Bool.and_eq_true, beq_iff_eq, decide_eq_true_eq] at starts
  obtain ⟨uses, grows⟩ := starts
  obtain ⟨live, after⟩ := proper.uses uses
  rw [after] at grows
  cases known : move.before.modules.get? name with
  | some id =>
      obtain ⟨f, g, rest, top, top'⟩ := (live.uses_at_once uses known).frames
      rw [top, top'] at grows
      exact absurd grows (Nat.lt_irrefl _)
  | none =>
      cases found : move.before.loader name with
      | none =>
          have fewer := live.frames_le_of_raises (live.raises_missing uses known found)
          exact absurd grows (Nat.not_lt.2 fewer)
      | some id => simp [asks, uses, Machine.remembers, known, found]

end Move

namespace History

variable {moves : List Move} {m : Machine}

/-- What only moves do that make a name known is done once in a history. -/
theorem sum_le (past : History moves m) (name : String) (q : Move → Nat)
    (learns : ∀ move : Move, move.Proper →
      q move + (move.before.remembers name).toNat ≤ (move.after.remembers name).toNat) :
    (moves.map q).sum ≤ (m.remembers name).toNat := by
  apply past.along (P := fun moves m => (moves.map q).sum ≤ (m.remembers name).toNat)
  · simp
  · -- a name that the host makes known leaves less for moves to learn
    intro moves m m' change so
    exact so.trans (Bool.toNat_le_toNat (change.remembered name))
  · intro moves move proper so
    have now := learns move proper
    rw [List.map_cons, List.sum_cons]
    omega

theorem countP_le_one (past : History moves m) (name : String) (p : Move → Bool)
    (learns : ∀ move : Move, move.Proper →
      (p move).toNat + (move.before.remembers name).toNat ≤ (move.after.remembers name).toNat) :
    moves.countP p ≤ 1 := by
  have counted (moves : List Move) :
      moves.countP p = (moves.map fun move => (p move).toNat).sum := by
    induction moves with
    | nil => rfl
    | cons move rest ih =>
        rw [List.countP_cons, List.map_cons, List.sum_cons, ih]
        cases p move <;> simp [Nat.add_comm]
  rw [counted]
  exact (past.sum_le name _ learns).trans (Bool.toNat_le _)

/-- For each name at most one use in a history asks the loader with success, at most one calls the
top level of a module, and the observer is told at most once. The name is remembered from then on,
or from when the host runs a module of this name. A use of a name that is remembered goes on at
once with the module that is there. -/
theorem initializes_once (past : History moves m) (name : String) :
    moves.countP (·.asks name) ≤ 1 ∧ moves.countP (·.starts name) ≤ 1 ∧
    (moves.map (·.tells name)).sum ≤ 1 ∧
    (∀ id, ((HostCall.module id).machine m).modules.get? (m.heap.module id).name = some id) ∧
    (∀ move ∈ moves, (move.asks name = true ∨ move.before.remembers name = true ∨
      move.after.remembers name = true) → m.remembers name = true) ∧
    (m.usedName? = some name → m.remembers name = true →
      ∃ id, m.modules.get? name = some id ∧ m.UsesAtOnce id) := by
  have asked := past.countP_le_one name (·.asks name) fun _ => Move.asks_le
  refine ⟨asked, ?_, ?_, fun id => Bindings.get?_set_self _ _ _, fun move member was => ?_,
    fun uses known => ?_⟩
  · exact (List.countP_mono_left fun move member =>
      Move.asks_of_starts (past.proper move member)).trans asked
  · exact (past.sum_le name _ fun _ => Move.tells_le).trans (Bool.toNat_le _)
  · obtain ⟨before, after⟩ := past.later move member
    rcases was with asks | known | known
    · exact after.remembered name (Move.remembers_of_asks (past.proper move member) asks)
    · exact before.remembered name known
    · exact after.remembered name known
  · obtain ⟨id, found⟩ := Option.isSome_iff_exists.1 known
    have live : m.Live := by
      obtain ⟨running, f, rest, _, top, _⟩ := Machine.usedName?_eq_some uses
      apply past.composed.live
      rw [Machine.isIdle, running, top]
      rfl
    exact ⟨id, found, live.uses_at_once uses found⟩

end History

/-- The engine with a recording. -/
def recordedUse : Machine :=
  { usingEngine.machine with observer := .record {} }

theorem history_recordedUse : History [] recordedUse := by
  have empty : History [] {} := .new rfl rfl rfl rfl rfl
  have loaded := (empty.load rfl compile_failingUnit).load rfl compile_usingUnit
  exact loaded.adjust rfl rfl rfl rfl rfl (.refl _)

/-- The first run asks for the module and calls its top level, and the exception that this raises
ends the run. The second run uses at once what the first has left. -/
theorem initializes_once_recordedUse :
    let first := (HostCall.module 1).after recordedUse
    let second := (HostCall.module 1).after (first 3)
    ∃ moves, History moves (second 0) ∧ moves.countP (·.asks "failing") = 1 ∧
      moves.countP (·.starts "failing") = 1 ∧ (moves.map (·.tells "failing")).sum = 1 ∧
      (second 0).usedName? = some "failing" ∧
      ∃ id, (second 0).modules.get? "failing" = some id ∧ (second 0).UsesAtOnce id := by
  intro first second
  have past : History ((HostCall.module 1).moves (first 3) 0
      ++ ((HostCall.module 1).moves recordedUse 3 ++ [])) (second 0) :=
    (history_recordedUse.after rfl (.module 1) 3).after (by decide +kernel) (.module 1) 0
  obtain ⟨_, _, _, _, _, later⟩ := past.initializes_once "failing"
  have uses : (second 0).usedName? = some "failing" := by decide +kernel
  exact ⟨_, past, by decide +kernel, by decide +kernel, by decide +kernel, uses,
    later uses (by decide +kernel)⟩

end ScriptMachine
