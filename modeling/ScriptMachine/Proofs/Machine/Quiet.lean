import ScriptMachine.Machine.Execution
import ScriptMachine.Proofs.Heap.Keeping

/-!
Quiet actions. An action is quiet if it leaves the frames, the open regions and the control of
the machine as they are, makes no claim on the code that runs, and depends on nothing that is
private to a frame: its operand stack, the index of its next instruction, its code and what it
returns to. Most of what an instruction does is quiet; what is not is said in few places.
-/

namespace ScriptMachine

/-! ## Machines -/

/-- The frames, the open regions, the control, the exception caught last and the limits are the
same, and the heap lost nothing. -/
structure Machine.Keeps (m m' : Machine) : Prop where
  calls : m'.calls = m.calls
  handlers : m'.handlers = m.handlers
  control : m'.control = m.control
  current : m'.current = m.current
  limits : m'.limits = m.limits
  heap : m.heap.Keeps m'.heap

theorem Machine.Keeps.refl (m : Machine) : m.Keeps m :=
  ⟨rfl, rfl, rfl, rfl, rfl, .refl _⟩

/-- What is kept twice is kept. -/
theorem Machine.Keeps.trans {m₁ m₂ m₃ : Machine} (first : m₁.Keeps m₂) (second : m₂.Keeps m₃) :
    m₁.Keeps m₃ where
  calls := second.calls.trans first.calls
  handlers := second.handlers.trans first.handlers
  control := second.control.trans first.control
  current := second.current.trans first.current
  limits := second.limits.trans first.limits
  heap := first.heap.trans second.heap

/-- A machine that is kept has the same frames. -/
theorem Machine.Keeps.frames {m m' : Machine} (keeps : m.Keeps m') : m'.frames = m.frames :=
  congrArg CallStack.frames keeps.calls

/-- What others can see of a frame. -/
structure Face where
  receiver : Option Value
  env : EnvId
  owner : Option ClassId
  module : ModuleId
  name : String
  location : Location

def Frame.face (f : Frame) : Face :=
  { receiver := f.receiver
    env := f.env
    owner := f.owner
    module := f.method.module
    name := f.method.code.name
    location := f.location }

/-- The machines differ only in their frames, open regions, controls and observers. -/
structure Machine.World (m m' : Machine) : Prop where
  heap : m.heap = m'.heap
  current : m.current = m'.current
  globals : m.globals = m'.globals
  modules : m.modules = m'.modules
  loader : m.loader = m'.loader
  foreign : m.foreign = m'.foreign
  sink : m.sink = m'.sink
  limits : m.limits = m'.limits

/-- The frames, too, differ only in what is private to them. -/
structure Machine.Alike (m m' : Machine) : Prop extends Machine.World m m' where
  faces : m.frames.map Frame.face = m'.frames.map Frame.face

namespace Machine

theorem World.refl (m : Machine) : m.World m :=
  ⟨rfl, rfl, rfl, rfl, rfl, rfl, rfl, rfl⟩

/-- Machines that are alike have as many frames live. -/
theorem Alike.depth {m m' : Machine} (alike : m.Alike m') : m.calls.depth = m'.calls.depth := by
  have length := congrArg List.length alike.faces
  rw [List.length_map, List.length_map] at length
  rw [m.calls.depth_eq, m'.calls.depth_eq]
  exact length

/-- A question about the faces of frames has the same answer. -/
theorem Alike.frames {α : Type} {m m' : Machine} (alike : m.Alike m') (question : Face → α)
    (none : α) :
    (match m.frames with | f :: _ => question f.face | [] => none)
      = match m'.frames with | f :: _ => question f.face | [] => none := by
  have faces := alike.faces
  cases first : m.frames with
  | nil =>
      rw [first] at faces
      rw [List.map_eq_nil_iff.1 faces.symm]
  | cons f rest =>
      rw [first, List.map_cons] at faces
      obtain ⟨g, others, second, same, _⟩ := List.map_eq_cons_iff.1 faces.symm
      simp only [second, same]

/-- Telling the observer changes nothing else. -/
theorem keeps_note (m : Machine) (event : Unit → Event) : m.Keeps (m.note event) := by
  unfold note
  split
  · exact .refl m
  · exact ⟨rfl, rfl, rfl, rfl, rfl, .refl _⟩

@[simp] theorem heap_note (m : Machine) (event : Unit → Event) :
    (m.note event).heap = m.heap := by
  unfold note
  split <;> rfl

/-- The observer is no part of the world that code sees. -/
theorem world_note {m m' : Machine} (world : m.World m') (event event' : Unit → Event) :
    (m.note event).World (m'.note event') := by
  obtain ⟨h₁, h₂, h₃, h₄, h₅, h₆, h₇, h₈⟩ := world
  unfold note
  split <;> split <;> exact ⟨h₁, h₂, h₃, h₄, h₅, h₆, h₇, h₈⟩

theorem World.noted {m m' : Machine} (world : m.World m') (event : Unit → Event) :
    (m.note event).World m' := by
  obtain ⟨h₁, h₂, h₃, h₄, h₅, h₆, h₇, h₈⟩ := world
  unfold note
  split <;> exact ⟨h₁, h₂, h₃, h₄, h₅, h₆, h₇, h₈⟩

/-- Machines that are alike stay so, whatever their observers are told. -/
theorem alike_note {m m' : Machine} (alike : m.Alike m') (event event' : Unit → Event) :
    (m.note event).Alike (m'.note event') where
  toWorld := world_note alike.toWorld event event'
  faces := by
    rw [frames, frames, (m.keeps_note event).calls, (m'.keeps_note event').calls]
    exact alike.faces

end Machine

/-! ## Modules -/

/-- How often a recording has the event that a module of this name was loaded. -/
def Observer.loads (name : String) : Observer → Nat
  | .record r => r.events.toList.count (.load name)
  | _ => 0

/-- An observer counts a load when it is told of one, and at no other time. -/
theorem Observer.loads_note (name : String) (o : Observer) (event : Event) :
    (o.note event).loads name ≤ o.loads name + [event].count (.load name) := by
  cases o with
  | record r =>
      change (r.note event).events.toList.count (.load name) ≤ r.events.toList.count (.load name) + _
      unfold Recording.note
      split
      · exact Nat.le_add_right _ _
      · exact Nat.le_of_eq (by rw [Array.toList_push, List.count_append])
  | _ => exact Nat.zero_le _

namespace Machine

@[simp] theorem modules_note (m : Machine) (event : Unit → Event) :
    (m.note event).modules = m.modules := by
  unfold note
  split <;> rfl

/-- What one observer is told is counted once at most. -/
theorem loads_note (m : Machine) (event : Unit → Event) (name : String) :
    (m.note event).observer.loads name
      ≤ m.observer.loads name + [event ()].count (.load name) := by
  unfold note
  split
  · exact Nat.le_add_right _ _
  · exact m.observer.loads_note name (event ())

/-- There is a module of this name. -/
def remembers (m : Machine) (name : String) : Bool :=
  (m.modules.get? name).isSome

/-- No module is forgotten or taken for another, and an observer is told that a module was loaded
only when its name is new. -/
structure Acquires (m m' : Machine) : Prop where
  known : ∀ {name id}, m.modules.get? name = some id → m'.modules.get? name = some id
  told : ∀ name, m'.observer.loads name + (m.remembers name).toNat
    ≤ m.observer.loads name + (m'.remembers name).toNat

namespace Acquires

variable {m m' : Machine}

/-- Where modules and observer are the same, nothing was loaded. -/
theorem of_same (modules : m'.modules = m.modules) (observer : m'.observer = m.observer) :
    m.Acquires m' where
  known found := by rw [modules, found]
  told name := Nat.le_of_eq (by rw [remembers, remembers, modules, observer])

theorem refl (m : Machine) : m.Acquires m :=
  .of_same rfl rfl

/-- What is remembered first is still remembered later. -/
theorem trans {m'' : Machine} (first : m.Acquires m') (second : m'.Acquires m'') :
    m.Acquires m'' where
  known found := second.known (first.known found)
  told name := by
    have before := first.told name
    have after := second.told name
    omega

/-- Other events may be told at any time. -/
theorem noted (acquires : m.Acquires m') (event : Unit → Event)
    (other : ∀ name, event () ≠ .load name) : m.Acquires (m'.note event) := by
  refine acquires.trans ⟨fun found => by rw [modules_note, found], fun name => ?_⟩
  have told := m'.loads_note event name
  have none : [event ()].count (.load name) = 0 := by simp [other name]
  rw [Machine.remembers, Machine.remembers, modules_note]
  omega

/-- A module that is remembered stays so. -/
theorem remembered (acquires : m.Acquires m') {name : String} (known : m.remembers name = true) :
    m'.remembers name = true := by
  obtain ⟨id, found⟩ := Option.isSome_iff_exists.1 known
  exact Option.isSome_iff_exists.2 ⟨id, acquires.known found⟩

/-- A module of a new name is remembered, and the observer is told. -/
theorem load {name : String} (new : m.modules.get? name = none) (id : ModuleId) :
    m.Acquires ({ m with modules := m.modules.set name id }.note fun _ => .load name) where
  known {other id'} found := by
    have differ : other ≠ name := by
      rintro rfl
      cases new.symm.trans found
    rw [modules_note, ← found]
    exact Bindings.get?_set_of_ne m.modules differ id
  told other := by
    have told := loads_note { m with modules := m.modules.set name id } (fun _ => .load name) other
    rw [Machine.remembers, Machine.remembers, modules_note]
    by_cases same : other = name
    · subst same
      have now : ((m.modules.set other id).get? other).isSome = true := by simp
      rw [new, now]
      simpa using told
    · have event : [Event.load name].count (.load other) = 0 := by simp [Ne.symm same]
      have kept := Bindings.get?_set_of_ne m.modules same id
      change _ + _ ≤ _ + ((m.modules.set name id).get? other).isSome.toNat
      rw [kept]
      rw [event] at told
      exact Nat.add_le_add_right told _

end Acquires
end Machine

/-! ## Actions -/

namespace Action

variable {α β : Type}

/-- What an action gives or raises, and the machine after it. -/
def result (a : Action α) (m : Machine) : Except Raised α × Machine :=
  a.run.run m

@[simp] theorem result_pure (x : α) (m : Machine) : result (pure x) m = (.ok x, m) := rfl

@[simp] theorem result_modifyGet (f : Machine → α × Machine) (m : Machine) :
    result (modifyGet f) m = (.ok (f m).1, (f m).2) := rfl

@[simp] theorem result_ask (question : Machine → α) (m : Machine) :
    result (ask question) m = (.ok (question m), m) := rfl

@[simp] theorem result_askHeap (question : Heap → α) (m : Machine) :
    result (askHeap question) m = (.ok (question m.heap), m) := rfl

@[simp] theorem result_change (f : Machine → Machine) (m : Machine) :
    result (change f) m = (.ok (), f m) := rfl

@[simp] theorem result_changeHeap (f : Heap → Heap) (m : Machine) :
    (changeHeap f).result m = (.ok (), { m with heap := f m.heap }) := rfl

/-- A primitive works on the heap, and its fault is a fault of the action. -/
theorem result_primitive (p : Primitive α) (m : Machine) :
    result (primitive p) m =
      match p.result m.heap with
      | (.ok a, heap) => (.ok a, { m with heap })
      | (.error cause, heap) => (.error (.fault cause), { m with heap }) := rfl

/-- What comes first hands on its value and its machine, or ends the action. -/
theorem result_bind (a : Action α) (f : α → Action β) (m : Machine) :
    result (a >>= f) m =
      match result a m with
      | (.ok x, m') => result (f x) m'
      | (.error e, m') => (.error e, m') := by
  change (match result a m with | (r, m') => (ExceptT.bindCont f r) m') = _
  rcases result a m with ⟨e | x, m'⟩ <;> rfl

/-- An action succeeds in two parts. -/
theorem result_bind_eq_ok {a : Action α} {f : α → Action β} {m m' : Machine} {y : β}
    (done : result (a >>= f) m = (.ok y, m')) :
    ∃ x m₁, result a m = (.ok x, m₁) ∧ result (f x) m₁ = (.ok y, m') := by
  rw [result_bind] at done
  rcases first : result a m with ⟨e | x, m₁⟩ <;> rw [first] at done
  · cases done
  · exact ⟨x, m₁, rfl, done⟩

/-- A primitive that succeeds has changed the heap and nothing else. -/
theorem result_primitive_eq_ok {p : Primitive α} {m m' : Machine} {x : α}
    (done : result (primitive p) m = (.ok x, m')) :
    ∃ heap, p.result m.heap = (.ok x, heap) ∧ m' = { m with heap } := by
  rw [result_primitive] at done
  rcases first : p.result m.heap with ⟨e | y, heap⟩ <;> rw [first] at done
  · cases done
  · cases done
    exact ⟨heap, rfl, rfl⟩

theorem result_askFor {question : Machine → α} {m : Machine} {x : α} (answer : question m = x) :
    result (ask question) m = (.ok x, m) := by
  rw [result_ask, answer]

theorem result_bind_ok {a : Action α} {f : α → Action β} {m m' : Machine} {x : α}
    (ok : result a m = (.ok x, m')) : result (a >>= f) m = result (f x) m' := by
  rw [result_bind, ok]

end Action

/-- What an action raises is made an exception and raised. -/
theorem Machine.perform_eq (m : Machine) (a : Action Unit) :
    m.perform a =
      match a.result m with
      | (.ok (), m) => m
      | (.error e, m) => (e.resolve m).2.raise (e.resolve m).1 := rfl

theorem Machine.perform_of_ok {m n : Machine} {a : Action Unit} (done : a.result m = (.ok (), n)) :
    m.perform a = n := by
  rw [perform_eq, done]

theorem Machine.perform_of_error {m n : Machine} {a : Action Unit} {e : Raised}
    (failed : a.result m = (.error e, n)) :
    m.perform a = (e.resolve n).2.raise (e.resolve n).1 := by
  rw [perform_eq, failed]

/-- The same exception is raised in the same world. -/
theorem Machine.World.resolve {m m' : Machine} (world : m.World m') (e : Raised) :
    (e.resolve m').1 = (e.resolve m).1 ∧ (e.resolve m).2.World (e.resolve m').2 := by
  have heaps := world.heap
  cases e with
  | exception id => exact ⟨rfl, world⟩
  | fault cause | defect cause =>
      simp only [Raised.resolve, heaps, true_and]
      exact { world with heap := rfl }

/-- A fault becomes a new exception, and nothing else changes. -/
theorem Raised.keeps_resolve (n : Machine) (e : Raised) : n.Keeps (e.resolve n).2 := by
  cases e with
  | fault cause => exact ⟨rfl, rfl, rfl, rfl, rfl, .of_tables rfl rfl rfl rfl⟩
  | defect cause => exact ⟨rfl, rfl, rfl, rfl, rfl, .of_tables rfl rfl rfl rfl⟩
  | exception id => exact .refl n

/-- The action touches neither frames nor regions nor control, finds no defect, sees nothing
that is private to a frame, and forgets no module. -/
structure Quiet {α : Type} (a : Action α) : Prop where
  keeps : ∀ m : Machine, m.Keeps (a.result m).2
  acquires : ∀ m : Machine, m.Acquires (a.result m).2
  alike : ∀ {m m' : Machine}, m.Alike m' →
    (a.result m).1 = (a.result m').1 ∧ (a.result m).2.Alike (a.result m').2
  sound : ∀ (m : Machine) (d : Defect), (a.result m).1 ≠ .error (.defect d)

namespace Quiet

open ScriptMachine.Action

variable {α β : Type}

theorem pure (x : α) : Quiet (pure x) where
  keeps m := .refl m
  acquires m := .refl m
  alike alike := ⟨rfl, alike⟩
  sound _ _ wrong := nomatch wrong

/-- Quiet work goes on quietly. -/
theorem bind {a : Action α} {f : α → Action β} (first : Quiet a) (next : ∀ x, Quiet (f x)) :
    Quiet (a >>= f) where
  keeps m := by
    have kept := first.keeps m
    rw [result_bind]
    rcases done : result a m with ⟨e | x, m'⟩ <;> rw [done] at kept
    · exact kept
    · exact kept.trans ((next x).keeps m')
  acquires m := by
    have acquired := first.acquires m
    rw [result_bind]
    rcases done : result a m with ⟨e | x, m'⟩ <;> rw [done] at acquired
    · exact acquired
    · exact acquired.trans ((next x).acquires m')
  alike {m m'} alike := by
    obtain ⟨same, after⟩ := first.alike alike
    rw [result_bind, result_bind]
    generalize result a m = first, result a m' = second at same after ⊢
    obtain ⟨r, n⟩ := first
    obtain ⟨r', n'⟩ := second
    obtain rfl : r = r' := same
    cases r with
    | error e => exact ⟨rfl, after⟩
    | ok x => exact (next x).alike after
  sound m d := by
    have fine := first.sound m d
    rw [result_bind]
    rcases done : result a m with ⟨e | x, m'⟩ <;> rw [done] at fine
    · intro wrong
      exact fine (congrArg Except.error (Except.error.inj wrong))
    · exact (next x).sound m' d

theorem fault (cause : Fault) : Quiet (fault cause : Action α) where
  keeps m := .refl m
  acquires m := .refl m
  alike alike := ⟨rfl, alike⟩
  sound _ _ wrong := nomatch wrong

/-- Questions are quiet if machines that are alike answer them alike. -/
theorem ask {question : Machine → α}
    (respects : ∀ {m m' : Machine}, m.Alike m' → question m = question m') :
    Quiet (ask question) where
  keeps m := .refl m
  acquires m := .refl m
  alike alike := ⟨congrArg Except.ok (respects alike), alike⟩
  sound _ _ wrong := nomatch wrong

theorem askHeap (question : Heap → α) : Quiet (askHeap question) :=
  .ask fun alike => congrArg question alike.heap

/-- Of a frame only its face may be asked for. -/
theorem askFrame {question : Frame → α} {none : α} (seen : Face → α)
    (sees : ∀ f : Frame, question f = seen f.face) : Quiet (askFrame question none) := by
  refine .ask fun alike => ?_
  simp only [sees]
  exact alike.frames seen none

/-- A change that frames and control have no part in. -/
theorem change {f : Machine → Machine} (keeps : ∀ m : Machine, m.Keeps (f m))
    (respects : ∀ {m m' : Machine}, m.Alike m' → (f m).Alike (f m'))
    (acquires : ∀ m : Machine, m.Acquires (f m) := by exact fun _ => .of_same rfl rfl) :
    Quiet (change f) where
  keeps := keeps
  acquires := acquires
  alike alike := ⟨rfl, respects alike⟩
  sound _ _ wrong := nomatch wrong

/-- A change of the heap is quiet if it keeps what running code relies on. -/
theorem changeHeap {f : Heap → Heap} (keeps : ∀ h : Heap, h.Keeps (f h)) :
    Quiet (changeHeap f) := by
  refine .change (fun m => ⟨rfl, rfl, rfl, rfl, rfl, keeps m.heap⟩) fun alike => ?_
  exact { alike with heap := congrArg f alike.heap }

theorem faultWith (cause : Heap → Fault) : Quiet (faultWith cause : Action α) :=
  .bind (.askHeap cause) fun c => .fault c

theorem consult (question : Heap → Except Fault α) : Quiet (consult question) := by
  refine .bind (.askHeap question) fun answer => ?_
  cases answer with
  | ok x => exact .pure x
  | error cause => exact .fault cause

/-- A primitive is quiet if it keeps what running code relies on. -/
theorem primitive {p : Primitive α} (keeps : ∀ h : Heap, h.Keeps (p.result h).2) :
    Quiet (primitive p) where
  keeps m := by
    have kept := keeps m.heap
    rw [result_primitive]
    rcases done : p.result m.heap with ⟨e | x, heap⟩ <;> rw [done] at kept <;>
      exact ⟨rfl, rfl, rfl, rfl, rfl, kept⟩
  acquires m := by
    rw [result_primitive]
    rcases p.result m.heap with ⟨e | x, heap⟩ <;> exact .of_same rfl rfl
  alike {m m'} alike := by
    rw [result_primitive, result_primitive, ← alike.heap]
    rcases p.result m.heap with ⟨e | x, heap⟩ <;> exact ⟨rfl, { alike with heap := rfl }⟩
  sound m d := by
    rw [result_primitive]
    rcases p.result m.heap with ⟨e | x, heap⟩ <;> exact fun wrong => nomatch wrong

theorem make {action : Heap → α × Heap} (keeps : ∀ h : Heap, h.Keeps (action h).2) :
    Quiet (make action) :=
  .primitive keeps

end Quiet
end ScriptMachine
