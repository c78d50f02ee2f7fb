import ScriptMachine.Proofs.Heap.Discipline
import ScriptMachine.Proofs.Machine.Hosting
import ScriptMachine.Proofs.Machine.Positions

/-!
Disciplines for machines. A machine keeps a discipline if its heap does, and if all values pass that
lie in frames, in what is being delivered, and in the globals. The lowest operands of one frame may
be left out. An action that keeps a discipline does so from every machine that keeps it. Actions are
put together from few that ask, change and deliver; for those it is said here.
-/

namespace ScriptMachine

open ScriptMachine.Action

/-! ## What is under way -/

/-- What a task has at hand passes the standard. -/
@[grind =]
def Task.Held (E : Standard) : Task → Prop
  | .apply args | .construct _ args => Passes E args
  | .answer v => Passes E v
  | .collectMove it items | .collectTest it items | .collectItem it items =>
      Passes E it ∧ Passes E items
  | .showRest _ rest => Passes E rest
  | .appendItems receiver | .joinTexts receiver => Passes E receiver
  | .proceed next => ∀ v, Passes E v → Passes E (next v)
  | .text | .truth | .linkBases _ _ | .follow _ | .baseFound _ _ | .classAttribute _ _
  | .iterate _ _ | .collect | .showItems | .makeList | .makeException _ | .setMessage _ | .fail
  | .print | .bindModule _ | .importNames _ _ | .importAll => True

instance : Holder Task :=
  ⟨Task.Held⟩

instance : Holder Finish :=
  ⟨fun E finish =>
    match finish with
    | .construct _ args | .constructBase _ args => Passes E args
    | .halt | .push | .discard => True⟩

instance : Holder Pending :=
  ⟨fun E pending => Passes E pending.tasks ∧ Passes E pending.finish⟩

instance : Holder Returns :=
  ⟨fun E returns =>
    match returns with
    | .resume pending => Passes E pending
    | _ => True⟩

instance : Holder Control :=
  ⟨fun E control =>
    match control with
    | .delivering v pending => Passes E v ∧ Passes E pending
    | .returned v => Passes E v
    | .running | .uncaught _ => True⟩

instance : Holder Call :=
  ⟨fun E call => Passes E call.receiver ∧ Passes E call.args⟩

instance : Holder Frame :=
  ⟨fun E f => Passes E f.receiver ∧ Passes E f.stack ∧ Passes E f.returns⟩

section

variable {E : Standard}

@[grind =] theorem passes_task (task : Task) : Passes E task ↔ task.Held E :=
  Iff.rfl

namespace Pending

variable {pending : Pending}

/-- What is put before an operation has to pass as well. -/
@[grind =] theorem passes_before (task : Task) :
    Passes E (pending.before task) ↔ task.Held E ∧ Passes E pending := by
  refine ⟨fun passes => ?_, fun passes => ?_⟩
  · exact ⟨(passes_cons.1 passes.1).1, (passes_cons.1 passes.1).2, passes.2⟩
  · exact ⟨passes_cons.2 ⟨passes.1, passes.2.1⟩, passes.2.2⟩

/-- An operation that waits for one value only has nothing else at hand. -/
@[grind .] theorem passes_push : Passes E Pending.push :=
  ⟨passes_nil, trivial⟩

@[grind .] theorem passes_discard : Passes E Pending.discard :=
  ⟨passes_nil, trivial⟩

/-- Without tasks there is only the final use of the value. -/
@[grind =] theorem passes_finish (finish : Finish) :
    Passes E (⟨[], finish⟩ : Pending) ↔ Passes E finish :=
  ⟨fun passes => passes.2, fun passes => ⟨passes_nil, passes⟩⟩

end Pending

@[grind =] theorem Finish.passes_construct (c : ClassId) (args : List Value) :
    Passes E (Finish.construct c args) ↔ Passes E args :=
  Iff.rfl

@[grind =] theorem Finish.passes_constructBase (c : ClassId) (args : List Value) :
    Passes E (Finish.constructBase c args) ↔ Passes E args :=
  Iff.rfl

/-- A frame called by an instruction has nothing at hand for its caller. -/
@[grind .] theorem Returns.passes_value : Passes E Returns.value :=
  trivial

@[grind .] theorem Returns.passes_nothing : Passes E Returns.nothing :=
  trivial

@[grind .] theorem Returns.passes_instance (id : InstanceId) : Passes E (Returns.instance id) :=
  trivial

/-- A nested frame has at hand what remains of the operation that called it. -/
@[grind =] theorem Returns.passes_resume (pending : Pending) :
    Passes E (Returns.resume pending) ↔ Passes E pending :=
  Iff.rfl

/-- A call brings a receiver and arguments. Its environment is on the heap. -/
@[grind =] theorem Call.passes_mk (method : MethodId) (receiver : Option Value) (args : List Value)
    (env : Option EnvId) (owner : Option ClassId) :
    Passes E (⟨method, receiver, args, env, owner⟩ : Call) ↔ Passes E receiver ∧ Passes E args :=
  Iff.rfl

end

/-! ## Machines -/

/-- What the frame holds passes, but for the lowest operands, which are these. -/
structure Frame.Held (E : Standard) (low : List Value) (f : Frame) : Prop where
  receiver : Passes E f.receiver
  operands : ∃ above, f.stack = above ++ low ∧ Passes E above
  returns : Passes E f.returns

/-- In a frame that passes nothing is left out. -/
theorem Frame.held_of_passes {E : Standard} {f : Frame} (passes : Passes E f) : f.Held E [] :=
  ⟨passes.1, ⟨f.stack, (List.append_nil _).symm, passes.2.1⟩, passes.2.2⟩

namespace Discipline

variable (D : Discipline)

/-- The operands that are left out at a depth. -/
def low (depth : Nat) : List Value :=
  if depth = D.depth then D.operands else []

/-- The frames hold nothing else that does not pass. -/
def Within : List Frame → Prop
  | [] => True
  | f :: rest => f.Held D.toStandard (D.low rest.length) ∧ Within rest

/-- The machine keeps the discipline, and functions of the host will. -/
structure Kept (m : Machine) : Prop where
  heap : D.MetBy m.heap
  frames : D.Within m.frames
  control : D.Allows m.control
  globals : D.Allows m.globals
  foreign : ∀ fn receiver args, D.Allows receiver → D.Allows args →
    D.routine (m.foreign fn receiver args)
  there : D.operands ≠ [] → D.depth < m.frames.length

/-- What functions of the host do is as the discipline has it. Once it is too late for that, they at
least remove no iterator. -/
class Instructs : Prop extends D.Lawful where
  give {v : Value} : D.routine (.give v) → D.Allows v
  edit {change : Heap.Edit} {next : Heap → Routine} {h : Heap} : D.routine (.edit change next) →
    D.MetBy h →
    D.MetBy (change.apply h) ∧ D.routine (next (change.apply h)) ∨
      ∀ pending m, m.heap = change.apply h →
        D.lost ((carryOut pending (next (change.apply h))).result m).2.heap
  overlooks {change : Heap.Edit} {next : Heap → Routine} : D.routine (.edit change next) →
    ∀ h : Heap, change.apply (h.viewed D.blind) = (change.apply h).viewed D.blind ∧
      next (h.viewed D.blind) = next h
  global {name : String} {next : Option Value → Routine} {v : Option Value} :
    D.routine (.global name next) → D.Allows v → D.routine (next v)
  setGlobal {name : String} {v : Value} {next : Routine} : D.routine (.setGlobal name v next) →
    D.Allows v ∧ D.routine next
  call {callee : Value} {args : List Value} {next : Value → Routine} :
    D.routine (.call callee args next) →
      D.Allows callee ∧ D.Allows args ∧ ∀ v, D.Allows v → D.routine (next v)

variable {D}

/-- A change of the topmost frame leaves the lowest operands of all frames alone, if it does so. -/
theorem Within.modifyHead {frames : List Frame} (within : D.Within frames) {change : Frame → Frame}
    (keeps : ∀ f low, f.Held D.toStandard low → (change f).Held D.toStandard low) :
    D.Within (frames.modifyHead change) := by
  cases frames with
  | nil => exact within
  | cons f rest => exact ⟨keeps f _ within.1, within.2⟩

/-- Frames keep the number of frames below them when those above are dropped. -/
theorem Within.of_suffix {frames shorter : List Frame} (within : D.Within frames)
    (suffix : shorter <:+ frames) : D.Within shorter := by
  induction frames with
  | nil => exact List.suffix_nil.1 suffix ▸ within
  | cons f rest ih =>
      rcases List.suffix_cons_iff.1 suffix with rfl | suffix
      · exact within
      · exact ih within.2 suffix

namespace Kept

variable {m : Machine} {f : Frame} {rest : List Frame}

/-- The observer of a run is no data. -/
theorem note (kept : D.Kept m) (event : Unit → Event) : D.Kept (m.note event) := by
  unfold Machine.note
  split
  · exact kept
  · exact { kept with }

theorem top (kept : D.Kept m) (top : m.frames = f :: rest) :
    f.Held D.toStandard (D.low rest.length) := by
  have within := kept.frames
  rw [top] at within
  exact within.1

/-- A change of the topmost frame keeps the discipline if it leaves the lowest operands alone. -/
theorem modifyTop (kept : D.Kept m) {change : Frame → Frame}
    (keeps : ∀ f low, f.Held D.toStandard low → (change f).Held D.toStandard low) :
    D.Kept { m with calls := m.calls.modifyTop change } := by
  have frames : (m.calls.modifyTop change).frames = m.frames.modifyHead change :=
    CallStack.frames_modifyTop _ _
  refine { kept with frames := ?_, there := fun some => ?_ }
  · change D.Within (m.calls.modifyTop change).frames
    rw [frames]
    exact kept.frames.modifyHead keeps
  · change D.depth < (m.calls.modifyTop change).frames.length
    rw [frames, List.length_modifyHead]
    exact kept.there some

/-- Nothing is left out among the operands of a frame that is not there yet. -/
theorem low_length (kept : D.Kept m) : D.low m.frames.length = [] := by
  unfold low
  split
  · next same =>
      by_contra some
      exact absurd (kept.there some) (same ▸ Nat.lt_irrefl _)
  · rfl

end Kept
end Discipline

/-! ## Actions -/

variable {D : Discipline}

/-- The second action does the first, on a machine as the discipline sees it. What the first one
does keeps to the discipline, and what it gives passes. -/
def Parallels (D : Discipline) {α : Type} [Holder α] (a a' : Action α) : Prop :=
  ∀ m : Machine, D.Kept m →
    a'.result (m.viewed D.blind) = ((a.result m).1, (a.result m).2.viewed D.blind) ∧
      D.Kept (a.result m).2 ∧ D.Allows (a.result m).1

/-- The action keeps to the discipline, and does not look further than it does. -/
def Obeys (D : Discipline) {α : Type} [Holder α] (a : Action α) : Prop :=
  Parallels D a a

/-- The action keeps to the discipline, unless it is too late then. -/
def Careful (D : Discipline) (a : Action Unit) : Prop :=
  ∀ m : Machine, D.Kept m →
    (a.result (m.viewed D.blind) = ((a.result m).1, (a.result m).2.viewed D.blind) ∧
      D.Kept (a.result m).2) ∨ D.lost (a.result m).2.heap

/-- What keeps to a discipline is never too late. -/
@[grind ←] theorem Obeys.careful {a : Action Unit} (obeys : Obeys D a) : Careful D a :=
  fun m kept => .inl ⟨(obeys m kept).1, (obeys m kept).2.1⟩

/-- It may become too late by what comes last, and then nothing is done that would need the
discipline. -/
@[grind ←] theorem Careful.bind {α : Type} [Holder α] {a : Action α} {f : α → Action Unit}
    (first : Obeys D a) (next : ∀ x, D.Allows x → Careful D (f x)) : Careful D (a >>= f) := by
  intro m kept
  obtain ⟨same, after, given⟩ := first m kept
  rw [result_bind, result_bind, same]
  rcases done : a.result m with ⟨e | x, m'⟩ <;> rw [done] at after given
  · exact .inl ⟨rfl, after⟩
  · exact next x (passes_ok.1 given) m' after

namespace Parallels

variable {α β : Type} [Holder α] [Holder β]

/-- What comes first hands the same on to what follows in either action. -/
theorem bind {a a' : Action α} {f f' : α → Action β} (first : Parallels D a a')
    (next : ∀ x, D.Allows x → Parallels D (f x) (f' x)) : Parallels D (a >>= f) (a' >>= f') := by
  intro m kept
  obtain ⟨same, after, given⟩ := first m kept
  rw [result_bind, result_bind, same]
  rcases done : a.result m with ⟨e | x, m'⟩ <;> rw [done] at after given
  · exact ⟨rfl, after, passes_error⟩
  · exact next x (passes_ok.1 given) m' after

omit [Holder α] in
/-- The answer to a question may have positions. -/
theorem asking {question : Machine → α} (change : α → α) {f f' : α → Action β}
    (same : ∀ m : Machine, question (m.viewed D.blind) = change (question m))
    (next : ∀ x, Parallels D (f x) (f' (change x))) :
    Parallels D (Action.ask question >>= f) (Action.ask question >>= f') := by
  intro m kept
  rw [result_bind_ok (result_ask question m),
    result_bind_ok (result_ask question (m.viewed D.blind)), same]
  exact next _ m kept

end Parallels

namespace Obeys

variable {α β : Type} [Holder α] [Holder β]

/-- What passes may be given. -/
@[grind ←] theorem pure {x : α} (passes : D.Allows x) : Obeys D (Pure.pure x : Action α) :=
  fun _ kept => ⟨rfl, kept, passes_ok.2 passes⟩

/-- Whatever is raised, it is not a value. -/
@[grind ←] theorem throw (e : Raised) : Obeys D (MonadExcept.throw e : Action α) :=
  fun _ kept => ⟨rfl, kept, passes_error⟩

@[grind ←] theorem fault (cause : Fault) : Obeys D (fault cause : Action α) :=
  throw _

@[grind ←] theorem defect (cause : Defect) : Obeys D (defect cause : Action α) :=
  throw _

/-- What comes first hands on what passes. -/
@[grind ←] theorem bind {a : Action α} {f : α → Action β} (first : Obeys D a)
    (next : ∀ x, D.Allows x → Obeys D (f x)) : Obeys D (a >>= f) :=
  Parallels.bind first next

/-- An action may look at the machine, but only for what passes and not for positions. -/
@[grind ←] theorem ask {question : Machine → α}
    (same : ∀ m : Machine, question m.unplaced = question m)
    (passes : ∀ m : Machine, D.Kept m → D.Allows (question m)) : Obeys D (Action.ask question) :=
  fun m kept => ⟨Prod.ext (congrArg Except.ok (m.ask_viewed same)) rfl, kept,
    passes_ok.2 (passes m kept)⟩

@[grind ←] theorem askHeap {question : Heap → α}
    (same : ∀ h : Heap, question h.unplaced = question h)
    (passes : ∀ h : Heap, h.Meets D.toStandard → D.Allows (question h)) :
    Obeys D (askHeap question) :=
  .ask (fun m => same m.heap) fun m kept => passes m.heap kept.heap.toMeets

/-- An action may look at the topmost frame, of which some operands may be left out. -/
@[grind ←] theorem askFrame {question : Frame → α} {none : α}
    (same : ∀ f : Frame, question f.unplaced = question f)
    (passes : ∀ f low, f.Held D.toStandard low → D.Allows (question f))
    (otherwise : D.Allows none) : Obeys D (askFrame question none) := by
  refine .ask (fun m => ?_) fun m kept => ?_
  · rw [Machine.frames_unplaced]
    cases m.frames with
    | nil => rfl
    | cons f rest => exact same f
  · split
    · next f rest top => exact passes f _ (kept.top top)
    · exact otherwise

@[grind ←] theorem faultWith {cause : Heap → Fault}
    (same : ∀ h : Heap, cause h.unplaced = cause h) : Obeys D (faultWith cause : Action α) :=
  bind (.askHeap same fun _ _ => trivial) fun _ _ => .fault _

/-- An answer may be a fault. -/
@[grind ←] theorem consult {question : Heap → Except Fault α}
    (same : ∀ h : Heap, question h.unplaced = question h)
    (passes : ∀ h : Heap, h.Meets D.toStandard → D.Allows (question h)) :
    Obeys D (consult question) := by
  refine bind (.askHeap same passes) fun answer known => ?_
  cases answer with
  | ok x => exact .pure (passes_ok.1 known)
  | error cause => exact .fault cause

/-- A primitive has the heap of the machine at hand. -/
@[grind ←] theorem primitive {p : Primitive α} (heeds : Heeds D p) : Obeys D (primitive p) := by
  intro m kept
  obtain ⟨same, after, given⟩ := heeds m.heap kept.heap
  rw [result_primitive, result_primitive, Machine.heap_viewed, same]
  rcases done : p.result m.heap with ⟨e | x, heap⟩ <;> rw [done] at after given
  · exact ⟨Prod.ext rfl (m.withHeap_viewed heap), { kept with heap := after }, passes_error⟩
  · exact ⟨Prod.ext rfl (m.withHeap_viewed heap), { kept with heap := after },
      passes_ok.2 (passes_ok.1 given)⟩

/-- An action may make an object if the heap with the object in it is as it should be. -/
@[grind ←] theorem make {action : Heap → α × Heap}
    (same : ∀ h : Heap, action h.unplaced = ((action h).1, (action h).2.unplaced))
    (keeps : ∀ h : Heap, D.MetBy h → D.MetBy (action h).2)
    (passes : ∀ h : Heap, D.MetBy h → D.Allows (action h).1) : Obeys D (make action) :=
  .primitive (.make same keeps passes)

/-- An exception of a kind that depends on the heap, which has no trace yet. -/
theorem newException [D.Lawful] {object : Heap → ExceptionObject}
    (same : ∀ h : Heap, object h.unplaced = object h) (untraced : ∀ h, (object h).trace = []) :
    Obeys D (Action.make fun h => h.newException (object h)) := by
  refine .make (fun h => ?_) (fun h on => on.newException (untraced h)) fun _ _ => trivial
  rw [same]
  refine h.newException_unplaced ?_
  rw [ExceptionObject.unplaced, untraced, List.map_nil, ← untraced h]

/-- A new exception has no trace, and no positions therefore. -/
theorem makeException [D.Lawful] {e : ExceptionObject} (untraced : e.trace = []) :
    Obeys D (Action.make (·.newException e)) :=
  newException (fun _ => rfl) fun _ => untraced

/-- An action may change the machine if it keeps the discipline afterwards. -/
theorem change {action : Machine → Machine}
    (same : ∀ m : Machine, action m.unplaced = (action m).unplaced)
    (keeps : ∀ m, D.Kept m → D.Kept (action m)) : Obeys D (Action.change action) :=
  fun m kept => ⟨Prod.ext rfl (m.change_viewed same), keeps m kept, fun _ _ => trivial⟩

/-- Frames, globals and what is under way are not on the heap. -/
@[grind ←] theorem changeHeap {f : Heap → Heap}
    (same : ∀ h : Heap, f h.unplaced = (f h).unplaced)
    (keeps : ∀ h : Heap, D.MetBy h → D.MetBy (f h)) : Obeys D (changeHeap f) :=
  .change (fun m => congrArg (fun heap => { m.unplaced with heap }) (same m.heap))
    fun m kept => { kept with heap := keeps m.heap kept.heap }

/-- What is under way may be set to what passes. -/
theorem control {control : Control} (passes : D.Allows control) :
    Obeys D (Action.change ({ · with control })) :=
  .change (fun _ => rfl) fun _ kept => { kept with control := passes }

/-- A value is delivered to what waits for it. -/
@[grind ←] theorem deliver {v : Value} {pending : Pending} (first : D.Allows v)
    (rest : D.Allows pending) : Obeys D (deliver v pending) :=
  .control ⟨first, rest⟩

@[grind .] theorem proceed : Obeys D proceed :=
  .control trivial

theorem note (event : Machine → Event) (same : ∀ m : Machine, event m.unplaced = event m) :
    Obeys D (Action.change fun m => m.note fun _ => event m) :=
  .change (fun m => m.note_unplaced (same m)) fun _ kept => kept.note _

/-- The topmost frame may be changed if its lowest operands are left alone. -/
theorem changeFrame {change : Frame → Frame}
    (same : ∀ f : Frame, change f.unplaced = (change f).unplaced)
    (keeps : ∀ f low, f.Held D.toStandard low → (change f).Held D.toStandard low) :
    Obeys D (changeFrame change) :=
  .change (Machine.modifyTop_unplaced same) fun _ kept => kept.modifyTop keeps

/-- An operand is pushed above all others. -/
@[grind ←] theorem push {v : Value} (passes : D.Allows v) : Obeys D (push v) :=
  changeFrame (fun _ => rfl) fun f low before => by
    obtain ⟨above, same, fine⟩ := before.operands
    exact { before with
      operands := ⟨v :: above, congrArg (v :: ·) same, passes_cons.2 ⟨passes, fine⟩⟩ }

@[grind .] theorem jump (target : Nat) : Obeys D (jump target) :=
  changeFrame (fun _ => rfl) fun _ _ before => { before with }

end Obeys

/-- A new frame runs the code as the discipline sees it. -/
theorem Parallels.pushFrame {frame : Frame} (passes : D.Allows frame) :
    Parallels D (pushFrame frame) (pushFrame (frame.viewed D.blind)) := by
  have pushed (m : Machine) (kept : D.Kept m) :
      D.Kept { m with calls := m.calls.push frame, control := .running } :=
    { kept with
      frames := ⟨kept.low_length ▸ Frame.held_of_passes passes, kept.frames⟩
      control := trivial
      there := fun some => Nat.lt_succ_of_lt (kept.there some) }
  intro m kept
  obtain ⟨same, after, given⟩ := Obeys.note (fun n => .call frame.method.code.name n.calls.depth)
    (fun _ => rfl) _ (pushed m kept)
  refine ⟨Eq.trans ?_ same, after, given⟩
  cases D.blind <;> rfl

/-! ## Functions of the host -/

section

variable {E : Standard} (all : ∀ v, E.value v)

include all

/-- Where every value passes, all that is asked of data is about functions of the host. -/
theorem Heap.meets_of_all (h : Heap) : h.Meets E where
  lists _ v _ := all v
  maps _ e _ := ⟨all e.1, all e.2⟩
  envs _ v _ := all v
  closures _ v _ := all v
  classes _ e _ := ⟨trivial, all e.2⟩
  instances _ e _ := ⟨trivial, all e.2⟩
  constants _ v _ := all v
  globals _ e _ := ⟨trivial, all e.2⟩
  iterators id := by
    cases h.iterator id with
    | list _ _ item | range _ _ _ _ item => exact all item
    | items visits rest item => exact ⟨fun v _ => all v, fun v _ => all v, all item⟩

/-- Of tasks only one is about a function of the host: the one that goes on with it. -/
theorem Task.held_iff (task : Task) : task.Held E ↔ task.Hosts E.routine := by
  have list (vs : List Value) : Passes E vs := fun v _ => all v
  have option (v : Option Value) : Passes E v := fun v _ => all v
  have still {task : Task} (held : task.Held E) (other : ∀ next, task ≠ .proceed next) :
      task.Held E ↔ task.Hosts E.routine :=
    ⟨fun _ next same => absurd same (other next), fun _ => held⟩
  cases task with
  | proceed next =>
      rw [hosts_proceed]
      exact ⟨fun held v => held v (all v), fun hosts v _ => hosts v⟩
  | collectMove it items | collectTest it items | collectItem it items =>
      exact still ⟨all it, list items⟩ (by simp)
  | apply args | construct c args => exact still (list args) (by simp)
  | showRest texts rest => exact still (list rest) (by simp)
  | answer v => exact still (all v) (by simp)
  | appendItems receiver | joinTexts receiver => exact still (option receiver) (by simp)
  | _ => exact still trivial (by simp)

/-- An operation passes if the functions of the host that it goes on with do. -/
theorem Pending.passes_iff (pending : Pending) : Passes E pending ↔ pending.Hosts E.routine := by
  have finish : Passes E pending.finish := by
    cases pending.finish with
    | construct c args | constructBase c args => exact fun v _ => all v
    | halt | push | discard => trivial
  exact ⟨fun passes task member => (task.held_iff all).1 (passes.1 task member),
    fun hosts => ⟨fun task member => (task.held_iff all).2 (hosts task member), finish⟩⟩

/-- A caller that is no operation goes on with no function of the host. -/
theorem Returns.passes_iff (returns : Returns) : Passes E returns ↔ returns.Hosts E.routine := by
  cases returns with
  | resume pending => exact pending.passes_iff all
  | _ => exact Iff.rfl

/-- What is under way passes if the functions of the host do that it goes on with. -/
theorem Control.passes_iff (control : Control) : Passes E control ↔ control.Hosts E.routine := by
  cases control with
  | delivering v pending =>
      exact ⟨fun passes => (pending.passes_iff all).1 passes.2,
        fun hosts => ⟨all v, (pending.passes_iff all).2 hosts⟩⟩
  | returned v => exact ⟨fun _ => trivial, fun _ => all v⟩
  | running | uncaught id => exact Iff.rfl

end

namespace Discipline

variable {D : Discipline} {m : Machine}

/-- Where every value passes, all that a discipline asks of a machine is about its heap and about
functions of the host. -/
theorem kept_iff (all : ∀ v, D.value v) (none : D.operands = []) :
    D.Kept m ↔ D.heap m.heap ∧ m.Hosts D.routine := by
  have low (depth : Nat) : D.low depth = [] := by
    unfold Discipline.low
    rw [none]
    exact ite_self []
  have list (vs : List Value) : D.Allows vs := fun v _ => all v
  refine ⟨fun kept => ⟨kept.heap.own, fun fn receiver args => ?_, ?_, ?_⟩, fun ⟨own, hosts⟩ => ?_⟩
  · exact kept.foreign fn receiver args (fun v _ => all v) (list args)
  · exact (Control.passes_iff all m.control).1 kept.control
  · -- nothing is left out in any frame, so only the callers that wait are about functions
    have within := kept.frames
    generalize m.frames = frames at within ⊢
    induction frames with
    | nil => exact fun _ member => absurd member List.not_mem_nil
    | cons f rest ih =>
        exact List.forall_mem_cons.2 ⟨(Returns.passes_iff all _).1 within.1.returns, ih within.2⟩
  · refine ⟨⟨m.heap.meets_of_all all, own⟩, ?_, (Control.passes_iff all m.control).2 hosts.control,
      fun e _ => ⟨trivial, all e.2⟩, fun fn receiver args _ _ => hosts.foreign fn receiver args,
      fun some => absurd none some⟩
    have waits := hosts.frames
    generalize m.frames = frames at waits ⊢
    induction frames with
    | nil => trivial
    | cons f rest ih =>
        obtain ⟨top, below⟩ := List.forall_mem_cons.1 waits
        refine ⟨⟨fun v _ => all v, ⟨f.stack, ?_, list f.stack⟩,
          (Returns.passes_iff all _).2 top⟩, ih below⟩
        rw [low, List.append_nil]

end Discipline

end ScriptMachine
