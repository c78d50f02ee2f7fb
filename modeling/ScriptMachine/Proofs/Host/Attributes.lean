import ScriptMachine.Proofs.Host.FirstUse
import ScriptMachine.Proofs.Host.Globals

/-!
Attributes. An assignment sets the attribute of the object itself: an instance, a class or a module.
An instance and a module give what was assigned when the attribute is read. A class gives an
instance method of its own before an attribute of that name, and it is made ready before it gives
anything: on the first use this may set the attribute again.
-/

namespace ScriptMachine

open ScriptMachine.Action

namespace Heap

/-- The object is there and has attributes that can be assigned. -/
def Holds (h : Heap) : Value → Prop
  | .instance id => id < h.instances.size
  | .cls c => c < h.classes.size
  | .module id => id < h.modules.size
  | _ => False

/-- What was last assigned to an attribute of the object itself. -/
def assigned? (h : Heap) (target : Value) (name : String) : Option Value :=
  match target with
  | .instance id => (h.inst id).attributes.get? name
  | .cls c => (h.cls c).attributes.get? name
  | .module id => (h.module id).attributes.get? name
  | _ => none

/-- What a class gives for a name under which an attribute holds a value. -/
def gives (h : Heap) (c : ClassId) (name : String) (v : Value) : Value :=
  (((h.cls c).instanceMethods.get? name).map .method).getD v

/-- The members of the class itself come before those of its bases, whatever these are. -/
theorem findAttribute?_gives {h : Heap} {c : ClassId} {name : String} {v : Value}
    (held : h.assigned? (.cls c) name = some v) :
    h.findAttribute? c name = some (h.gives c name v) := by
  have held : (h.cls c).attributes.get? name = some v := held
  unfold findAttribute? findMember? search searchUp ownMember? gives
  cases (h.cls c).instanceMethods.get? name with
  | some id => rfl
  | none =>
      rw [held]
      rfl

end Heap

namespace Action

/-- An assignment sets the attribute, and does nothing else. -/
theorem writeAttribute_assigns {m : Machine} {target : Value} (there : m.heap.Holds target)
    (name : String) (v : Value) : ∃ h : Heap,
      (writeAttribute target name v).result m = (.ok (), { m with heap := h }) ∧
        h.assigned? target name = some v := by
  cases target with
  | «instance» id =>
      refine ⟨_, rfl, ?_⟩
      have known : id < m.heap.instances.size := there
      simp [Heap.assigned?, Heap.inst, Heap.setInstanceAttribute, Array.getElem_modify, known]
  | cls c =>
      refine ⟨_, rfl, ?_⟩
      have changed := Heap.cls_modifyClass there
        fun k => { k with attributes := k.attributes.set name v }
      exact (congrArg (·.attributes.get? name) changed).trans (Bindings.get?_set_self _ _ _)
  | module id =>
      refine ⟨_, rfl, ?_⟩
      have known : id < m.heap.modules.size := there
      simp [Heap.assigned?, Heap.module, Heap.setModuleAttribute, Array.getElem_modify, known]
  | _ => exact there.elim

/-- What an instance or a module holds itself comes before anything else. -/
theorem readAttribute_assigned {m : Machine} {target : Value} {name : String} {v : Value}
    (held : m.heap.assigned? target name = some v) (other : ∀ c, target ≠ .cls c)
    (pending : Pending) : (readAttribute target name pending).result m
      = (.ok (), { m with control := .delivering v pending }) := by
  cases target with
  | cls c => exact absurd rfl (other c)
  | «instance» id =>
      have own : ownAttribute? m.heap (.instance id) name = some v := by
        have held : (m.heap.inst id).attributes.get? name = some v := held
        rw [ownAttribute?, held]
      unfold readAttribute
      rw [result_bind_ok (result_askHeap _ m), own]
      rfl
  | module id =>
      have own : ownAttribute? m.heap (.module id) name = some v := held
      unfold readAttribute
      rw [result_bind_ok (result_askHeap _ m), own]
      rfl
  | _ => cases held

end Action

/-- The work that made the class ready ends with going on. -/
theorem Readies.exists_delivers {m : Machine} {c : ClassId} {below : List Frame} {pending : Pending}
    {paths : List String} {l : Nat} (readies : Readies c below pending m paths l) :
    ∃ w, (m.run l).Delivers below pending w := by
  induction readies with
  | @fieldless m _ w _ _ delivers =>
      rw [← Machine.run_step]
      exact ⟨w, delivers⟩
  | @fields m _ w _ _ j _ _ _ _ _ _ delivers =>
      rw [← Machine.run_step]
      exact ⟨w, delivers⟩
  | @base m _ _ k l _ _ ih =>
      obtain ⟨w, delivers⟩ := ih
      rw [Machine.run_step, ← Machine.run_add] at delivers
      exact ⟨w, delivers⟩

namespace Machine

variable {m n : Machine} {target : Value} {name : String} {v w : Value} {c : ClassId}
  {below : List Frame} {pending : Pending}

theorem run_two (m : Machine) : m.run 2 = m.step.step := by
  rw [run_succ, run_succ]
  rfl

/-! ## What is handed on -/

/-- A class that is ready hands on what it gives for the name. -/
theorem Delivers.reads (delivers : m.Delivers below (pending.before (.classAttribute c name)) w)
    (held : m.heap.assigned? (.cls c) name = some v) :
    m.step.Delivers below pending (m.heap.gives c name v) := by
  have done : m.upcoming.result m
      = (.ok (), { m with control := .delivering (m.heap.gives c name v) pending }) := by
    rw [delivers.upcoming, performTask, readClassAttribute, result_bind_ok (result_askHeap _ m),
      Heap.findAttribute?_gives held]
    rfl
  have stepped : m.step = _ := perform_of_ok done
  rw [stepped]
  exact ⟨rfl, delivers.frames⟩

/-- A value that is handed to the operands takes the place of those that were taken off. -/
theorem Delivers.yields {f : Frame} {rest : List Frame} {taken : Nat}
    (frames : m.frames = f :: rest)
    (delivers : n.Delivers ({ f with ip := f.ip + 1, stack := f.stack.drop taken } :: rest) .push
      v) :
    m.Yields n.step taken v := by
  let k : Machine := { n with control := .running }
  have here : k.frames = { f with ip := f.ip + 1, stack := f.stack.drop taken } :: rest :=
    delivers.frames
  have done : n.upcoming.result n = (.ok (), k.withStack (v :: f.stack.drop taken)) := by
    rw [Machine.upcoming, delivers.control]
    change (push v).result k = _
    rw [result_push, Machine.stack, here]
  have stepped : n.step = _ := perform_of_ok done
  rw [stepped]
  refine ⟨rfl, f, rest, frames, ?_⟩
  rw [Machine.frames_withStack, here]
  rfl

/-! ## Instructions on attributes -/

/-- The assignment of an attribute that comes next: the object, the name and the value. -/
def assignedAttribute? (m : Machine) : Option (Value × String × Value) := do
  let (f, i) ← m.fetch?
  match i.op, m.constant? i.arg, f.stack with
  | .storeAttribute, some (.str name), target :: v :: _ => some (target, name, v)
  | _, _, _ => none

/-- The reading of an attribute that comes next: the object and the name. -/
def readAttribute? (m : Machine) : Option (Value × String) := do
  let (f, i) ← m.fetch?
  match i.op, m.constant? i.arg, f.stack with
  | .loadAttribute, some (.str name), target :: _ => some (target, name)
  | _, _, _ => none

theorem assignedAttribute?_eq_some (assigns : m.assignedAttribute? = some (target, name, v)) :
    ∃ f rest i s, m.Fetches f rest i ∧ i.op = .storeAttribute ∧
      m.constant? i.arg = some (.str name) ∧ f.stack = target :: v :: s := by
  obtain ⟨f, rest, i, fetches, assigns⟩ := fetches_of_bind_fetch? assigns
  dsimp only at assigns
  split at assigns
  · next s stores named stack =>
      cases assigns
      exact ⟨f, rest, i, s, fetches, stores, named, stack⟩
  · cases assigns

theorem readAttribute?_eq_some (reads : m.readAttribute? = some (target, name)) :
    ∃ f rest i s, m.Fetches f rest i ∧ i.op = .loadAttribute ∧
      m.constant? i.arg = some (.str name) ∧ f.stack = target :: s := by
  obtain ⟨f, rest, i, fetches, reads⟩ := fetches_of_bind_fetch? reads
  dsimp only at reads
  split at reads
  · next s loads named stack =>
      cases reads
      exact ⟨f, rest, i, s, fetches, loads, named, stack⟩
  · cases reads

/-- The assignment succeeds, and the object holds the value. -/
theorem step_assignedAttribute (assigns : m.assignedAttribute? = some (target, name, v))
    (there : m.heap.Holds target) :
    m.step.control = .running ∧ m.step.heap.assigned? target name = some v := by
  obtain ⟨f, rest, i, s, fetches, stores, named, stack⟩ := assignedAttribute?_eq_some assigns
  have heap : ((fetched m f i).withStack s).heap = m.heap := heap_fetched m f i
  have there : ((fetched m f i).withStack s).heap.Holds target := heap ▸ there
  obtain ⟨h, written, held⟩ := writeAttribute_assigns there name v
  have done : (execute i).result (fetched m f i) = _ :=
    (execute_storeAttribute stores ((fetches.constant? _).trans named)
      (fetches.stack.trans stack)).trans written
  rw [fetches.step done]
  exact ⟨fetches.running, held⟩

/-- The machine when the object has been taken off and is asked for the attribute. -/
theorem readAttribute?_upcoming (reads : m.readAttribute? = some (target, name)) :
    ∃ f rest n, m.frames = f :: rest ∧
      n.frames = { f with ip := f.ip + 1, stack := f.stack.drop 1 } :: rest ∧ n.heap = m.heap ∧
      m.upcoming.result m = (Action.readAttribute target name .push).result n := by
  obtain ⟨f, rest, i, s, fetches, loads, named, stack⟩ := readAttribute?_eq_some reads
  refine ⟨f, rest, (fetched m f i).withStack s, fetches.frames, ?_, heap_fetched m f i, ?_⟩
  · rw [fetches.frames_withStack, stack]
    rfl
  · rw [fetches.upcoming, execute_loadAttribute loads ((fetches.constant? _).trans named)
      (fetches.stack.trans stack)]

/-- An instance or a module gives what was assigned. -/
theorem yields_attribute (reads : m.readAttribute? = some (target, name))
    (held : m.heap.assigned? target name = some v) (other : ∀ c, target ≠ .cls c) :
    m.Yields (m.run 2) 1 v := by
  obtain ⟨f, rest, n, frames, below, heap, upcoming⟩ := readAttribute?_upcoming reads
  rw [← heap] at held
  have stepped : m.step = _ :=
    perform_of_ok (upcoming.trans (readAttribute_assigned held other .push))
  have delivers : m.step.Delivers n.frames .push v := by
    rw [stepped]
    exact ⟨rfl, rfl⟩
  rw [below] at delivers
  rw [run_two]
  exact delivers.yields frames

/-- What is done when the class is ready: the attribute is read from it and goes on the operands. -/
def reading (c : ClassId) (name : String) : Pending :=
  Pending.push.before (.classAttribute c name)

/-- A class that is ready gives what it holds. -/
theorem Delivers.yields_class {f : Frame} {rest : List Frame} (frames : m.frames = f :: rest)
    (delivers : n.Delivers ({ f with ip := f.ip + 1, stack := f.stack.drop 1 } :: rest)
      (reading c name) w)
    (held : n.heap.assigned? (.cls c) name = some v) :
    m.Yields (n.run 2) 1 (n.heap.gives c name v) := by
  rw [run_two]
  exact (delivers.reads held).yields frames

/-- A class that has been used before gives what it holds. -/
theorem yields_attribute_prepared (reads : m.readAttribute? = some (.cls c, name))
    (held : m.heap.assigned? (.cls c) name = some v) (prepared : (m.heap.cls c).prepared = true) :
    m.Yields (m.run 3) 1 (m.heap.gives c name v) := by
  obtain ⟨f, rest, n, frames, below, heap, upcoming⟩ := readAttribute?_upcoming reads
  rw [← heap] at held prepared ⊢
  have stepped : m.step = _ :=
    perform_of_ok (upcoming.trans (prepare_marked prepared (reading c name)))
  have delivers : m.step.Delivers n.frames (reading c name) .null := by
    rw [stepped]
    exact ⟨rfl, rfl⟩
  have same : m.step.heap = n.heap := by rw [stepped]
  rw [below] at delivers
  rw [← run_step, ← same]
  exact delivers.yields_class frames (same ▸ held)

/-- A class that has not been used is made ready first, and then gives what it holds by then. -/
theorem yields_attribute_new (live : m.Live) (reads : m.readAttribute? = some (.cls c, name))
    (new : (m.heap.cls c).prepared = false) :
    (∀ steps, Progress c m.step.frames (reading c name) m.step (m.heap.cls c).declaredBases steps) ∧
    ∀ l, Readies c m.step.frames (reading c name) m.step (m.heap.cls c).declaredBases l →
      ∀ w, (m.step.run l).heap.assigned? (.cls c) name = some w →
        m.Yields (m.run (l + 3)) 1 ((m.step.run l).heap.gives c name w) := by
  obtain ⟨f, rest, n, frames, below, heap, upcoming⟩ := readAttribute?_upcoming reads
  rw [← heap] at new
  have stepped : m.step = _ :=
    perform_of_ok (upcoming.trans (prepare_new new (reading c name)))
  have paths : ((n.heap.mark c).cls c).declaredBases = (m.heap.cls c).declaredBases := by
    rw [heap]
    exact m.heap.declaredBases_mark c
  have top : m.step.frames = { f with ip := f.ip + 1, stack := f.stack.drop 1 } :: rest := by
    rw [stepped]
    exact below
  have starts : m.step.Delivers m.step.frames
      ((reading c name).before (.linkBases c (m.heap.cls c).declaredBases)) .null :=
    ⟨by rw [stepped, ← paths], rfl⟩
  refine ⟨fun steps => live.step.progress starts (known_after_step m) steps, fun l readies w held => ?_⟩
  obtain ⟨_, delivers⟩ := readies.exists_delivers
  rw [top] at delivers
  have yields := delivers.yields_class frames held
  rw [← run_add, run_step] at yields
  exact yields

/-- What becomes of a value that is assigned to an attribute of an instance, a class or a module. The
object holds it from then on, and as long as it does, this is what reading the attribute gives, but
for two cases. A class with an instance method of its own under the name gives the method. A class
that has not been used before is made ready by the reading, which goes on when all bases are taken
and the fields are set: it gives what the class holds by then. -/
theorem assigned_attribute (assigns : m.assignedAttribute? = some (target, name, v))
    (there : m.heap.Holds target) :
    m.step.control = .running ∧ m.step.heap.assigned? target name = some v ∧
    ∀ n : Machine, n.heap.assigned? target name = m.step.heap.assigned? target name →
      n.readAttribute? = some (target, name) →
      ((∀ c, target ≠ .cls c) → n.Yields (n.run 2) 1 v) ∧
      ∀ c, target = .cls c →
        ((n.heap.cls c).prepared = true → n.Yields (n.run 3) 1 (n.heap.gives c name v)) ∧
        ((n.heap.cls c).prepared = false → n.Live →
          (∀ steps, Progress c n.step.frames (reading c name) n.step
            (n.heap.cls c).declaredBases steps) ∧
          ∀ l, Readies c n.step.frames (reading c name) n.step (n.heap.cls c).declaredBases l →
            ∀ w, (n.step.run l).heap.assigned? (.cls c) name = some w →
              n.Yields (n.run (l + 3)) 1 ((n.step.run l).heap.gives c name w)) := by
  obtain ⟨running, held⟩ := step_assignedAttribute assigns there
  refine ⟨running, held, fun n same reads => ⟨fun other => ?_, ?_⟩⟩
  · exact yields_attribute reads (same.trans held) other
  · rintro c rfl
    exact ⟨fun prepared => yields_attribute_prepared reads (same.trans held) prepared,
      fun new live => yields_attribute_new live reads new⟩

end Machine

/-- A class with a field and an instance method, and a function that assigns attributes of these
names and reads them. The first assignment comes before the class is used. -/
def overlappingClass : List Stmt :=
  [.classDef {} (.mk {} "C" [] none
      [.expr {} (.assign {} (.name {} "x") none (.int {} 1)),
        .function {} (.mk { name := "m" } [])]),
    .function {} (.mk { name := "main" }
      [.expr {} (.assign {} (.attr {} (.name {} "C") "x") none (.int {} 5)),
        .expr {} (.attr {} (.name {} "C") "x"),
        .expr {} (.assign {} (.attr {} (.name {} "C") "x") none (.int {} 6)),
        .expr {} (.attr {} (.name {} "C") "x"),
        .expr {} (.assign {} (.attr {} (.name {} "C") "m") none (.int {} 7)),
        .ret {} (some (.attr {} (.name {} "C") "m"))])]

/-- The class that a value is. -/
def Value.cls? : Value → Option ClassId
  | .cls c => some c
  | _ => none

theorem Value.eq_of_cls? {v : Value} {c : ClassId} (is : v.cls? = some c) : v = .cls c := by
  unfold cls? at is
  split at is
  · cases is
    rfl
  · cases is

theorem Machine.assignedAttribute?_of_cls {m : Machine} {c : ClassId} {name : String}
    {value : Int64}
    (assigns : m.assignedAttribute?.map (fun (target, name, v) => (target.cls?, name, v.int?))
      = some (some c, name, some value)) :
    m.assignedAttribute? = some (.cls c, name, .int value) := by
  obtain ⟨⟨target, _, v⟩, found, same⟩ := Option.map_eq_some_iff.1 assigns
  obtain ⟨is, rfl, is'⟩ : target.cls? = some c ∧ _ = name ∧ v.int? = some value := by
    simpa using same
  rw [found, Value.eq_of_cls? is, Value.eq_of_int? is']

theorem Machine.readAttribute?_of_cls {m : Machine} {c : ClassId} {name : String}
    (reads : m.readAttribute?.map (fun (target, name) => (target.cls?, name))
      = some (some c, name)) : m.readAttribute? = some (.cls c, name) := by
  obtain ⟨⟨target, _⟩, found, same⟩ := Option.map_eq_some_iff.1 reads
  obtain ⟨is, rfl⟩ : target.cls? = some c ∧ _ = name := by simpa using same
  rw [found, Value.eq_of_cls? is]

/-- The method that the run came to. -/
def Control.method? : Control → Option MethodId
  | .returned (.method id) => some id
  | _ => none

theorem Control.eq_of_method? {c : Control} {id : MethodId} (returns : c.method? = some id) :
    c = .returned (.method id) := by
  unfold method? at returns
  split at returns
  · cases returns
    rfl
  · cases returns

/-- The first reading makes the class ready; the second one gives what was assigned before it. -/
theorem assigned_attribute_overlappingClass :
    let m := (HostCall.value (.method 3) []).after
      (Engine.loaded (compiledUnit overlappingClass)).machine
    (∀ steps, Machine.Progress 0 (m 6).step.frames (Machine.reading 0 "x") (m 6).step
      ((m 6).heap.cls 0).declaredBases steps) ∧
    (m 19).assignedAttribute? = some (.cls 0, "x", .int 6) ∧
      (m 22).readAttribute? = some (.cls 0, "x") ∧
      (m 22).Yields ((m 22).run 3) 1 ((m 22).heap.gives 0 "x" (.int 6)) := by
  intro m
  have compiled : compile "m" "m" overlappingClass = .ok (compiledUnit overlappingClass) :=
    compile_compiledUnit (by decide +kernel)
  have live : (m 6).Live :=
    (Engine.hosted_loaded compiled).after_live (.value (.method 3) []) 6
  have first : (m 3).assignedAttribute? = some (.cls 0, "x", .int 5) :=
    Machine.assignedAttribute?_of_cls (by decide +kernel)
  have second : (m 19).assignedAttribute? = some (.cls 0, "x", .int 6) :=
    Machine.assignedAttribute?_of_cls (by decide +kernel)
  have there : 0 < (m 3).heap.classes.size := by decide +kernel
  have there' : 0 < (m 19).heap.classes.size := by decide +kernel
  have reads : (m 6).readAttribute? = some (.cls 0, "x") :=
    Machine.readAttribute?_of_cls (by decide +kernel)
  have reads' : (m 22).readAttribute? = some (.cls 0, "x") :=
    Machine.readAttribute?_of_cls (by decide +kernel)
  have held : (m 6).heap.assigned? (.cls 0) "x" = some (.int 5) :=
    Value.held_of_int? (by decide +kernel)
  have held' : (m 22).heap.assigned? (.cls 0) "x" = some (.int 6) :=
    Value.held_of_int? (by decide +kernel)
  have new : ((m 6).heap.cls 0).prepared = false := by decide +kernel
  have prepared : ((m 22).heap.cls 0).prepared = true := by decide +kernel
  obtain ⟨_, stored, later⟩ := Machine.assigned_attribute first there
  obtain ⟨_, stored', later'⟩ := Machine.assigned_attribute second there'
  have progress := (((later (m 6) (held.trans stored.symm) reads).2 0 rfl).2 new live).1
  have yields := ((later' (m 22) (held'.trans stored'.symm) reads').2 0 rfl).1 prepared
  exact ⟨progress, second, reads', yields⟩

/-- The first assignment is lost: the class holds 5 when its attribute is read, which makes it ready
and gives 1. The last one goes unseen: the class holds 7 under the name of its method, which is what
it gives. -/
theorem overlappingClass_differs :
    let m := (HostCall.value (.method 3) []).after
      (Engine.loaded (compiledUnit overlappingClass)).machine
    (m 3).assignedAttribute? = some (.cls 0, "x", .int 5) ∧
      (m 6).heap.assigned? (.cls 0) "x" = some (.int 5) ∧
      (m 6).readAttribute? = some (.cls 0, "x") ∧
      (m 15).stack.head? = some (.int 1) ∧ (∀ n, ¬ (m 6).Yields (m 15) n (.int 5)) ∧
      (m 29).assignedAttribute? = some (.cls 0, "m", .int 7) ∧
      (m 32).heap.assigned? (.cls 0) "m" = some (.int 7) ∧
      (m 32).readAttribute? = some (.cls 0, "m") ∧ (m 38).control = .returned (.method 2) := by
  intro m
  have one : (m 15).stack.head? = some (.int 1) := Value.held_of_int? (by decide +kernel)
  have returns : (m 38).control.method? = some 2 := by decide +kernel
  refine ⟨Machine.assignedAttribute?_of_cls (by decide +kernel),
    Value.held_of_int? (by decide +kernel), Machine.readAttribute?_of_cls (by decide +kernel), one,
    fun n yields => ?_, Machine.assignedAttribute?_of_cls (by decide +kernel),
    Value.held_of_int? (by decide +kernel), Machine.readAttribute?_of_cls (by decide +kernel),
    Control.eq_of_method? returns⟩
  obtain ⟨f, rest, _, frames⟩ := yields.frames
  rw [Machine.stack, frames] at one
  cases one

end ScriptMachine
