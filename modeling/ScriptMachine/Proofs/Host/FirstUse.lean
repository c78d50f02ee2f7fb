import ScriptMachine.Proofs.Host.Handling
import ScriptMachine.Proofs.Machine.Lifetimes
import ScriptMachine.Proofs.Machine.Preparation

/-!
The first use of a class. It marks the class, finds and links the declared bases one after another
and sets the fields, and only then goes on. Any of this may run code, and an exception that leaves
it leaves the class marked. So whoever has the class made ready goes on with a class that is
complete, or not at all; but a use of a class that is marked already goes on at once.
-/

namespace ScriptMachine

open ScriptMachine.Action

/-! ## Work in front of what waits -/

namespace Machine

/-- A value is handed to what remains of an operation, on top of these frames. -/
structure Delivers (m : Machine) (below : List Frame) (pending : Pending) (v : Value) : Prop where
  control : m.control = .delivering v pending
  frames : m.frames = below

/-- Classes are being made ready on top of these frames, and then it will be gone on with what
waits: a task of this kind is to be done, or a method that sets fields is running. -/
inductive Readying (m : Machine) (below : List Frame) (pending : Pending) : Prop where
  | task {t : Task} {tasks : List Task} (v : Value) : (∀ u ∈ t :: tasks, u.Prepares) →
      m.Delivers below (pending.after (t :: tasks)) v → Readying m below pending
  | call {f : Frame} {tasks : List Task} : (∀ u ∈ tasks, u.Prepares) →
      f.returns = .resume (pending.after tasks) → f.Lasts below m.frames →
      Readying m below pending

variable {m : Machine} {below : List Frame} {pending : Pending}

theorem after_after (pending : Pending) (first second : List Task) :
    (pending.after second).after first = pending.after (first ++ second) := by
  simp only [Pending.after, List.append_assoc]

/-- Tasks of this kind that are left to do are work as well. -/
theorem Delivers.readying {tasks : List Task} {v : Value}
    (delivers : m.Delivers below (pending.after tasks) v) (all : ∀ u ∈ tasks, u.Prepares) :
    m.Delivers below pending v ∨ m.Readying below pending := by
  cases tasks with
  | nil => exact .inl delivers
  | cons t tasks => exact .inr (.task v all delivers)

/-- Work in front of a task of this kind is work in front of what waits for the task. -/
theorem Readying.outer {task : Task} (readying : m.Readying below (pending.before task))
    (prepares : task.Prepares) : m.Readying below pending := by
  have extended {tasks : List Task} (all : ∀ u ∈ tasks, u.Prepares) :
      ∀ u ∈ tasks ++ [task], u.Prepares := by
    intro u member
    rcases List.mem_append.1 member with there | last
    · exact all u there
    · rw [List.mem_singleton.1 last]
      exact prepares
  have same (tasks : List Task) :
      (pending.before task).after tasks = pending.after (tasks ++ [task]) :=
    after_after pending tasks [task]
  cases readying with
  | task v all delivers =>
      rw [same] at delivers
      exact .task v (extended all) delivers
  | call all returns lasts =>
      rw [same] at returns
      exact .call (extended all) returns lasts

end Machine

namespace Hands

/-- What becomes of an operation that hands on what it comes to. -/
theorem outcome {a : Pending → Action Unit} (hands : Hands a) (pending : Pending) (m : Machine) :
    (∃ e n, (a pending).result m = (.error e, n) ∧ n.frames = m.frames) ∨
    ∃ n tasks, (a pending).result m = (.ok (), n) ∧ (∀ t ∈ tasks, t.Prepares) ∧
      ((∃ v, n.Delivers m.frames (pending.after tasks) v) ∨
        ∃ f, n.frames = f :: m.frames ∧ f.returns = .resume (pending.after tasks)) := by
  induction hands generalizing m with
  | deliver v all => exact .inr ⟨_, _, rfl, all, .inl ⟨v, rfl, rfl⟩⟩
  | @enter call tasks all =>
      rcases enter_starts m call (pending.after tasks) with
        ⟨e, n, failed, frames⟩ | ⟨f, n, done, starts, top, _⟩
      · exact .inl ⟨e, n, failed, frames⟩
      · exact .inr ⟨n, tasks, done, all, .inr ⟨f, top, starts.returns⟩⟩
  | @quietly _ b f quiet _ ih =>
      have kept := quiet.keeps m
      rw [result_bind]
      rcases done : b.result m with ⟨e | x, n⟩ <;> rw [done] at kept
      · exact .inl ⟨e, n, rfl, kept.frames⟩
      · dsimp only
        rw [← kept.frames]
        exact ih x n
  | fault cause => exact .inl ⟨_, m, rfl, rfl⟩

end Hands

namespace Machine

variable {m : Machine} {below : List Frame} {pending : Pending}

/-- An exception that is raised on top of these frames leaves at most them. -/
theorem leaves_of_raised {e : Raised} {n : Machine} (failed : m.upcoming.result m = (.error e, n))
    (frames : n.frames = below) : m.Leaves below := by
  refine ⟨⟨e, n, failed⟩, ?_⟩
  rcases frames_of_raised failed with none | ⟨h, left⟩
  · rw [none]
    exact Nat.zero_le _
  · rw [left, List.length_modifyHead, List.length_drop, frames]
    omega

/-- The work goes on for another step, or it is done, or an exception leaves it. -/
theorem Live.readying_step (live : m.Live) (readying : m.Readying below pending) :
    (m.step.Readying below pending ∨ ∃ v, m.step.Delivers below pending v) ∨ m.Leaves below := by
  cases readying with
  | @task t tasks v all delivers =>
      have rest : ∀ u ∈ tasks, u.Prepares := fun u member => all u (List.mem_cons_of_mem t member)
      have upcoming : m.upcoming = performTask t v (pending.after tasks) := by
        rw [Machine.upcoming, delivers.control]
        rfl
      rcases (performTask_hands (all t List.mem_cons_self) v).outcome (pending.after tasks) m with
        ⟨e, n, failed, frames⟩ | ⟨n, more, done, prepare, next⟩
      · rw [← upcoming] at failed
        exact .inr (leaves_of_raised failed (frames.trans delivers.frames))
      · have stepped : m.step = n := perform_of_ok (upcoming ▸ done)
        have both : ∀ u ∈ more ++ tasks, u.Prepares := fun u member =>
          (List.mem_append.1 member).elim (prepare u) (rest u)
        rw [after_after, delivers.frames] at next
        rw [stepped]
        left
        rcases next with ⟨v', delivers'⟩ | ⟨f, top, returns⟩
        · exact (delivers'.readying both).symm.imp_right fun handed => ⟨v', handed⟩
        · refine .inl (.call both returns ?_)
          rw [top]
          exact .refl f below
  | @call f tasks all returns lasts =>
      rcases live.lasts_step lasts with still | concludes | leaves
      · exact .inl (.inl (.call all returns still))
      · obtain ⟨v, control, frames⟩ := concludes.handsOn returns
        have delivers : m.step.Delivers below (pending.after tasks) v := ⟨control, frames⟩
        exact .inl ((delivers.readying all).symm.imp_right fun handed => ⟨v, handed⟩)
      · exact .inr leaves

/-- What may have become of the work in so many steps. -/
inductive Course (m : Machine) (below : List Frame) (pending : Pending) (steps : Nat) : Prop where
  | going : (m.run steps).Readying below pending → Course m below pending steps
  | reached {j : Nat} {v : Value} : j ≤ steps → (m.run j).Delivers below pending v →
      Course m below pending steps
  | left {j : Nat} : j < steps → (m.run j).Leaves below → Course m below pending steps

/-- Work that makes classes ready goes on, or is done and what waits is gone on with, or it is left
by an exception. -/
theorem Live.course (live : m.Live)
    (start : m.Readying below pending ∨ ∃ v, m.Delivers below pending v) (steps : Nat) :
    Course m below pending steps := by
  induction steps with
  | zero =>
      rcases start with readying | ⟨v, delivers⟩
      · exact .going readying
      · exact .reached (Nat.le_refl 0) delivers
  | succ steps ih =>
      cases ih with
      | going readying =>
          rcases (live.run steps).readying_step readying with next | leaves
          · rw [← run_succ] at next
            rcases next with readying | ⟨v, delivers⟩
            · exact .going readying
            · exact .reached (Nat.le_refl _) delivers
          · exact .left (Nat.lt_succ_self steps) leaves
      | reached before delivers => exact .reached (Nat.le_succ_of_le before) delivers
      | left before leaves => exact .left (Nat.lt_succ_of_lt before) leaves

end Machine

/-! ## The steps of the work -/

namespace Heap

/-- The class with its first use begun. -/
def mark (h : Heap) (c : ClassId) : Heap :=
  h.modifyClass c ({ · with prepared := true })

theorem cls_modifyClass {h : Heap} {c : ClassId} (known : c < h.classes.size)
    (change : ClassObject → ClassObject) : (h.modifyClass c change).cls c = change (h.cls c) := by
  simp [cls, modifyClass, Array.getElem_modify, known]

/-- Only a class that is there declares bases. -/
theorem known_of_declaredBases {h : Heap} {c : ClassId} (some : (h.cls c).declaredBases ≠ []) :
    c < h.classes.size := by
  by_contra unknown
  refine some ?_
  rw [cls, Array.getD_eq_getD_getElem?, Array.getElem?_eq_none (Nat.le_of_not_lt unknown)]
  rfl

theorem declaredBases_mark (h : Heap) (c : ClassId) :
    ((h.mark c).cls c).declaredBases = (h.cls c).declaredBases := by
  by_cases known : c < h.classes.size
  · rw [mark, cls_modifyClass known]
  · simp [mark, cls, modifyClass, known]

theorem bases_mark (h : Heap) (c d : ClassId) : ((h.mark c).cls d).bases = (h.cls d).bases := by
  by_cases known : d < h.classes.size
  · by_cases same : c = d
    · subst same
      rw [mark, cls_modifyClass known]
    · simp [mark, cls, modifyClass, Array.getElem_modify, known, same]
  · simp [mark, cls, modifyClass, known]

/-- A value has been taken as a base of a class: a class is linked, unless the class would become
its own ancestor, and a built-in exception type is recorded. -/
def Takes (h h' : Heap) (c : ClassId) : Value → Prop
  | .cls base => h.isSubclass base c = true ∨ base ∈ (h'.cls c).bases
  | .exceptionType type => (h'.cls c).exceptionBase = some type
  | _ => True

theorem takes_linkBase {h : Heap} {c : ClassId} (known : c < h.classes.size) (base : ClassId) :
    h.Takes (h.linkBase c base) c (.cls base) := by
  unfold linkBase
  split
  · next derives => exact .inl derives
  · right
    rw [cls_modifyClass known]
    split
    · next there => exact List.contains_iff_mem.1 there
    · exact List.mem_append_right _ (List.mem_singleton.2 rfl)

end Heap

namespace Action

variable {m : Machine} {c : ClassId}

/-- A class that is marked is not made ready again. -/
theorem prepare_marked (marked : (m.heap.cls c).prepared = true) (pending : Pending) :
    (prepare c pending).result m = (.ok (), { m with control := .delivering .null pending }) := by
  unfold prepare
  rw [result_bind_ok (result_askHeap _ m), marked]
  rfl

theorem prepare_new (new : (m.heap.cls c).prepared = false) (pending : Pending) :
    (prepare c pending).result m = (.ok (), { m with
      heap := m.heap.mark c
      control := .delivering .null
        (pending.before (.linkBases c ((m.heap.mark c).cls c).declaredBases)) }) := by
  unfold prepare
  rw [result_bind_ok (result_askHeap _ m), new]
  rfl

/-- Making a class ready leaves which bases are linked as it is, for now. -/
theorem prepare_outcome (m : Machine) (c : ClassId) (pending : Pending) :
    ∃ n tasks, (prepare c pending).result m = (.ok (), n) ∧ (∀ t ∈ tasks, t.Prepares) ∧
      n.Delivers m.frames (pending.after tasks) .null ∧
      ∀ d, (n.heap.cls d).bases = (m.heap.cls d).bases := by
  cases marked : (m.heap.cls c).prepared with
  | true =>
      exact ⟨_, [], prepare_marked marked pending, fun _ member => absurd member List.not_mem_nil,
        ⟨rfl, rfl⟩, fun d => rfl⟩
  | false =>
      refine ⟨_, [.linkBases c _], prepare_new marked pending, fun t member => ?_, ⟨rfl, rfl⟩,
        fun d => m.heap.bases_mark c d⟩
      rw [List.mem_singleton.1 member]
      exact .linkBases c _

/-- What was found is taken as a base, and then the next base is looked for. -/
theorem baseFound_outcome (m : Machine) (c : ClassId) (paths : List String) (v : Value)
    (pending : Pending) : ∃ n tasks, (baseFound c paths v pending).result m = (.ok (), n) ∧
      (∀ t ∈ tasks, t.Prepares) ∧
      n.Delivers m.frames ((pending.before (.linkBases c paths)).after tasks) .null ∧
      (c < m.heap.classes.size → m.heap.Takes n.heap c v) := by
  have none : ∀ t ∈ ([] : List Task), t.Prepares := fun _ member => absurd member List.not_mem_nil
  cases v with
  | cls base =>
      obtain ⟨n, tasks, done, all, delivers, same⟩ :=
        prepare_outcome { m with heap := m.heap.linkBase c base } base
          (pending.before (.linkBases c paths))
      refine ⟨n, tasks, done, all, delivers, fun known => ?_⟩
      refine (Heap.takes_linkBase known base).imp_right fun linked => ?_
      rw [same]
      exact linked
  | exceptionType type =>
      refine ⟨_, [], rfl, none, ⟨rfl, rfl⟩, fun known => ?_⟩
      change ((m.heap.setExceptionBase c type).cls c).exceptionBase = _
      rw [Heap.setExceptionBase, Heap.cls_modifyClass known]
  | _ => exact ⟨_, [], rfl, none, ⟨rfl, rfl⟩, fun _ => trivial⟩

end Action

/-! ## Complete classes -/

/-- The next base of a class is looked up where the class was declared, what is found is taken as a
base, and so many steps after the first it is gone on with the bases behind it. -/
structure Links (c : ClassId) (below : List Frame) (pending : Pending) (m : Machine) (path : String)
    (paths : List String) (steps : Nat) : Prop where
  starts : ∃ v, m.Delivers below (pending.before (.linkBases c (path :: paths))) v
  looksUp : ∃ first, m.global? (m.heap.method (m.heap.cls c).constructor).module
      ((Text.pieces '.' path).headD "") = some first ∧
    m.step.Delivers below ((pending.before (.baseFound c paths)).before
      (.follow ((Text.pieces '.' path).drop 1))) first
  takes : ∃ j < steps, ∃ found,
    (m.step.run j).Delivers below (pending.before (.baseFound c paths)) found ∧
    (m.step.run j).heap.Takes (m.step.run (j + 1)).heap c found
  goesOn : ∃ v, (m.step.run steps).Delivers below (pending.before (.linkBases c paths)) v

/-- From this machine on the bases with these names are found and taken as bases of the class one
after another, its fields are set, and after so many steps what waits is gone on with. -/
inductive Readies (c : ClassId) (below : List Frame) (pending : Pending) :
    Machine → List String → Nat → Prop where
  | fieldless {m : Machine} {v w : Value} :
      m.Delivers below (pending.before (.linkBases c [])) v →
      (m.heap.cls c).fieldSetter = none → m.step.Delivers below pending w →
      Readies c below pending m [] 1
  | fields {m : Machine} {v w : Value} {method : MethodId} {f : Frame} {j : Nat} :
      m.Delivers below (pending.before (.linkBases c [])) v →
      (m.heap.cls c).fieldSetter = some method → m.step.frames = f :: below →
      f.method = m.heap.method method → f.receiver = some (.cls c) →
      (m.step.run j).Concludes f below → (m.step.run (j + 1)).Delivers below pending w →
      Readies c below pending m [] (j + 2)
  | base {m : Machine} {path : String} {paths : List String} {k l : Nat} :
      Links c below pending m path paths k → Readies c below pending (m.step.run k) paths l →
      Readies c below pending m (path :: paths) (k + 1 + l)

namespace Machine

variable {m : Machine} {below : List Frame} {pending : Pending} {c : ClassId}

theorem run_step (m : Machine) (steps : Nat) : m.step.run steps = m.run (steps + 1) := by
  rw [Nat.add_comm, run_add, run_one]

/-- What may have become of the work on one class in so many steps. -/
inductive Progress (c : ClassId) (below : List Frame) (pending : Pending) (m : Machine)
    (paths : List String) (steps : Nat) : Prop where
  | complete {l : Nat} : l ≤ steps → Readies c below pending m paths l →
      Progress c below pending m paths steps
  | going : (m.run steps).Readying below pending → Progress c below pending m paths steps
  | left {j : Nat} : j < steps → (m.run j).Leaves below → Progress c below pending m paths steps

theorem Delivers.upcoming {v : Value} {task : Task}
    (delivers : m.Delivers below (pending.before task) v) :
    m.upcoming = performTask task v pending := by
  rw [Machine.upcoming, delivers.control]
  rfl

/-- When the bases are taken the fields are set, if there are any. -/
theorem Live.sets_fields (live : m.Live) {v : Value}
    (start : m.Delivers below (pending.before (.linkBases c [])) v) (steps : Nat) :
    Progress c below pending m [] (steps + 1) := by
  have upcoming : m.upcoming = setFields c pending := start.upcoming
  cases setter : (m.heap.cls c).fieldSetter with
  | none =>
      have done :
          m.upcoming.result m = (.ok (), { m with control := .delivering .null pending }) := by
        rw [upcoming, setFields, result_bind_ok (result_askHeap _ m), setter]
        rfl
      have stepped : m.step = _ := perform_of_ok done
      have delivers : m.step.Delivers below pending .null := by
        rw [stepped]
        exact ⟨rfl, start.frames⟩
      exact .complete (Nat.succ_le_succ (Nat.zero_le _)) (.fieldless start setter delivers)
  | some method =>
      have enters : m.upcoming.result m
          = (enter { method, receiver := some (.cls c) } pending).result m := by
        rw [upcoming, setFields, result_bind_ok (result_askHeap _ m), setter]
      rcases enter_starts m { method, receiver := some (.cls c) } pending with
        ⟨e, n, failed, frames⟩ | ⟨f, n, done, starts, top, _⟩
      · exact .left (Nat.succ_pos _) (leaves_of_raised (enters.trans failed) (frames.trans start.frames))
      · have stepped : m.step = n := perform_of_ok (enters.trans done)
        have frames : m.step.frames = f :: below := by rw [stepped, top, start.frames]
        have lasts : f.Lasts below m.step.frames := by
          rw [frames]
          exact .refl f below
        cases live.step.fate lasts steps with
        | lasts still =>
            rw [run_step] at still
            exact .going (.call (fun _ member => absurd member List.not_mem_nil) starts.returns still)
        | @returned j before concludes =>
            obtain ⟨w, control, after⟩ := concludes.handsOn starts.returns
            rw [← run_succ] at control after
            exact .complete (by omega) (.fields start setter frames starts.method starts.receiver
              concludes ⟨control, after⟩)
        | @unwound j before _ leaves =>
            rw [run_step] at leaves
            exact .left (Nat.succ_lt_succ before) leaves

/-- The next base is looked up where the class was declared, or the lookup fails. -/
theorem looks_up {v : Value} {path : String} {paths : List String}
    (start : m.Delivers below (pending.before (.linkBases c (path :: paths))) v) :
    m.Leaves below ∨ ∃ first,
      m.global? (m.heap.method (m.heap.cls c).constructor).module
        ((Text.pieces '.' path).headD "") = some first ∧
      m.step.Delivers below ((pending.before (.baseFound c paths)).before
        (.follow ((Text.pieces '.' path).drop 1))) first := by
  have upcoming : m.upcoming = linkBases c (path :: paths) pending := start.upcoming
  cases found : m.global? (m.heap.method (m.heap.cls c).constructor).module
      ((Text.pieces '.' path).headD "") with
  | none =>
      left
      have failed : m.upcoming.result m
          = (.error (.fault (.undefinedName ((Text.pieces '.' path).headD ""))), m) := by
        rw [upcoming, linkBases, result_bind_ok (result_askHeap _ m), result_bind, global,
          result_bind_ok (result_askFor found)]
        rfl
      exact leaves_of_raised failed start.frames
  | some first =>
      refine .inr ⟨first, rfl, ?_⟩
      have done : m.upcoming.result m = (.ok (), { m with
          control := (.delivering first ((pending.before (.baseFound c paths)).before
            (.follow ((Text.pieces '.' path).drop 1)))) }) := by
        rw [upcoming, linkBases, result_bind_ok (result_askHeap _ m), result_bind, global,
          result_bind_ok (result_askFor found)]
        rfl
      have stepped : m.step = _ := perform_of_ok done
      rw [stepped]
      exact ⟨rfl, start.frames⟩

/-- What was found is taken as a base, and work goes on until the next base is looked for. -/
theorem takes_base {found : Value} {paths : List String}
    (start : m.Delivers below (pending.before (.baseFound c paths)) found) :
    (m.step.Readying below (pending.before (.linkBases c paths)) ∨
      ∃ v, m.step.Delivers below (pending.before (.linkBases c paths)) v) ∧
      (c < m.heap.classes.size → m.heap.Takes m.step.heap c found) := by
  obtain ⟨n, tasks, done, all, delivers, takes⟩ := baseFound_outcome m c paths found pending
  have upcoming : m.upcoming = baseFound c paths found pending := start.upcoming
  have stepped : m.step = n := perform_of_ok (upcoming ▸ done)
  rw [start.frames] at delivers
  rw [stepped]
  exact ⟨(delivers.readying all).symm.imp_right fun handed => ⟨_, handed⟩, takes⟩

/-- A base is linked, unless the work still goes on or an exception has left it. -/
theorem Live.links (live : m.Live) {v : Value} {path : String} {paths : List String}
    (start : m.Delivers below (pending.before (.linkBases c (path :: paths))) v)
    (known : c < m.heap.classes.size) (steps : Nat) :
    (m.run (steps + 1)).Readying below pending ∨ (∃ j < steps + 1, (m.run j).Leaves below) ∨
      ∃ k ≤ steps, Links c below pending m path paths k := by
  rcases looks_up start with leaves | ⟨first, global, delivers⟩
  · exact .inr (.inl ⟨0, Nat.succ_pos steps, leaves⟩)
  have finding : m.step.Readying below (pending.before (.baseFound c paths)) :=
    .task first (fun u member => List.mem_singleton.1 member ▸ .follow _) delivers
  cases live.step.course (.inl finding) steps with
  | going readying =>
      rw [run_step] at readying
      exact .inl (readying.outer (.baseFound c paths))
  | @left j before leaves =>
      rw [run_step] at leaves
      exact .inr (.inl ⟨j + 1, Nat.succ_lt_succ before, leaves⟩)
  | @reached j found before delivers' =>
      rcases Nat.eq_or_lt_of_le before with rfl | before
      · rw [run_step] at delivers'
        exact .inl (.task found
          (fun u member => List.mem_singleton.1 member ▸ .baseFound c paths) delivers')
      obtain ⟨next, takes⟩ := takes_base delivers'
      have still : c < (m.step.run j).heap.classes.size :=
        Nat.lt_of_lt_of_le known (m.keeps_heap_step.trans (m.step.keeps_heap_run j)).classes
      obtain ⟨more, rfl⟩ := Nat.exists_eq_add_of_le (Nat.succ_le_of_lt before)
      have index (k : Nat) : (m.step.run j).step.run k = m.step.run (j + 1 + k) := by
        rw [run_add, run_succ]
      rw [← run_succ] at takes
      cases (live.step.run j).step.course next more with
      | going readying =>
          rw [index, run_step] at readying
          exact .inl (readying.outer (.linkBases c paths))
      | @left i few leaves =>
          rw [index, run_step] at leaves
          exact .inr (.inl ⟨j + 1 + i + 1, by omega, leaves⟩)
      | @reached k w few delivers'' =>
          rw [index] at delivers''
          exact .inr (.inr ⟨j + 1 + k, by omega, ⟨v, start⟩, ⟨first, global, delivers⟩,
            ⟨j, by omega, found, delivers', takes still⟩, ⟨w, delivers''⟩⟩)

/-- Whoever has a class made ready goes on when all bases are taken and the fields are set, unless
the work still goes on or an exception has left it. -/
theorem Live.progress (live : m.Live) {v : Value} {paths : List String}
    (start : m.Delivers below (pending.before (.linkBases c paths)) v)
    (known : paths ≠ [] → c < m.heap.classes.size) (steps : Nat) :
    Progress c below pending m paths steps := by
  induction paths generalizing m v steps with
  | nil =>
      cases steps with
      | zero => exact .going (.task v (fun u member => List.mem_singleton.1 member ▸ .linkBases c _) start)
      | succ steps => exact live.sets_fields start steps
  | cons path paths ih =>
      cases steps with
      | zero => exact .going (.task v (fun u member => List.mem_singleton.1 member ▸ .linkBases c _) start)
      | succ steps =>
          have there := known (List.cons_ne_nil path paths)
          rcases live.links start there steps with readying | ⟨j, before, leaves⟩ | ⟨k, before, links⟩
          · exact .going readying
          · exact .left before leaves
          obtain ⟨more, rfl⟩ := Nat.exists_eq_add_of_le before
          obtain ⟨w, delivers⟩ := links.goesOn
          have index (l : Nat) : (m.step.run k).run l = m.run (k + l + 1) := by
            rw [← run_add, run_step]
          have still : c < (m.step.run k).heap.classes.size :=
            Nat.lt_of_lt_of_le there (m.keeps_heap_step.trans (m.step.keeps_heap_run k)).classes
          cases ih (live.step.run k) delivers (fun _ => still) more with
          | @complete l few readies => exact .complete (by omega) (.base links readies)
          | going readying =>
              rw [index] at readying
              exact .going readying
          | left few leaves =>
              rw [index] at leaves
              exact .left (by omega) leaves

/-! ## Uses of a class -/

/-- The class that the next instruction calls or reads an attribute of. -/
def usedClass? (m : Machine) : Option ClassId :=
  match m.control, m.frames with
  | .running, f :: _ => do
      let i ← f.next?
      match i.op, f.stack with
      | .invoke, .cls c :: _ | .loadAttribute, .cls c :: _ => some c
      | _, _ => none
  | _, _ => none

theorem usedClass?_eq_some (uses : m.usedClass? = some c) :
    m.control = .running ∧ ∃ f rest i s, m.frames = f :: rest ∧ f.next? = some i ∧
      (i.op = .invoke ∨ i.op = .loadAttribute) ∧ f.stack = .cls c :: s := by
  unfold usedClass? at uses
  split at uses
  · next f rest running top =>
      obtain ⟨i, next, uses⟩ := Option.bind_eq_some_iff.1 uses
      split at uses
      · next s is stack => cases uses; exact ⟨running, f, rest, i, s, top, next, .inl is, stack⟩
      · next s is stack => cases uses; exact ⟨running, f, rest, i, s, top, next, .inr is, stack⟩
      · cases uses
  · cases uses

/-- What a use of a class does when the class is ready: it makes an instance or reads an attribute. -/
def UseOf (c : ClassId) (pending : Pending) : Prop :=
  (∃ args, pending = { finish := .construct c args }) ∨
    ∃ name, pending = Pending.push.before (.classAttribute c name)

/-- A use of a class has it made ready first. -/
theorem Live.prepares (live : m.Live) (uses : m.usedClass? = some c) : ∃ pending n,
    UseOf c pending ∧ m.upcoming.result m = (prepare c pending).result n ∧ n.heap = m.heap := by
  obtain ⟨running, f, rest, i, s, top, next, op, stack⟩ := usedClass?_eq_some uses
  obtain ⟨l, executing, _⟩ := fetched_executing live running top next
  obtain ⟨operands, s', found, length⟩ := executing.operands_found
  have held : (fetched m f i).stack = .cls c :: s := (stack_fetched top i).trans stack
  have upcoming : m.upcoming.result m = (execute i).result (fetched m f i) := by
    rw [Machine.upcoming, running]
    exact result_advance top next
  rcases op with is | is
  · rw [Instruction.pops, is] at length
    obtain ⟨callee, args, rfl⟩ := List.exists_cons_of_length_eq_add_one length
    obtain rfl : callee = .cls c := (List.cons.inj (found.symm.trans held)).1
    refine ⟨_, (fetched m f i).withStack s', .inl ⟨args.reverse, rfl⟩, upcoming.trans ?_,
      heap_fetched m f i⟩
    rw [execute_invoke is found (Nat.succ.inj length)]
    rfl
  · obtain ⟨pool, slots, grounded, constants, _⟩ := executing.grounded
    rw [Instruction.Grounded, is] at grounded
    obtain ⟨name, held'⟩ := grounded
    obtain ⟨o, named⟩ := constants _ _ held'
    refine ⟨_, (fetched m f i).withStack s, .inr ⟨name, rfl⟩, upcoming.trans ?_, heap_fetched m f i⟩
    rw [execute_loadAttribute is named held]
    rfl

/-- A class that declares bases is there, also when the next step is taken. -/
theorem known_after_step (m : Machine) (some : (m.heap.cls c).declaredBases ≠ []) :
    c < m.step.heap.classes.size :=
  Nat.lt_of_lt_of_le (Heap.known_of_declaredBases some) m.keeps_heap_step.classes

/-- What becomes of a use of a class. If the first use has begun already it goes on at once, whatever
became of that. Otherwise it goes on when every declared base has been looked up and taken, in
order, and the method that sets the fields has returned; until then this work goes on, unless an
exception leaves it. -/
theorem Live.class_use_outcome (live : m.Live) (uses : m.usedClass? = some c) :
    ∃ pending, UseOf c pending ∧
      ((m.heap.cls c).prepared = true → m.step.control = .delivering .null pending ∧
        m.step.heap = m.heap) ∧
      ((m.heap.cls c).prepared = false → ∀ steps,
        Progress c m.step.frames pending m.step (m.heap.cls c).declaredBases steps) := by
  obtain ⟨pending, n, use, prepares, heap⟩ := live.prepares uses
  refine ⟨pending, use, fun marked => ?_, fun new steps => ?_⟩
  · rw [← heap] at marked
    have stepped : m.step = _ := perform_of_ok (prepares.trans (prepare_marked marked pending))
    rw [stepped]
    exact ⟨rfl, heap⟩
  · rw [← heap] at new
    have stepped : m.step = _ := perform_of_ok (prepares.trans (prepare_new new pending))
    have paths : ((n.heap.mark c).cls c).declaredBases = (m.heap.cls c).declaredBases := by
      rw [heap]
      exact m.heap.declaredBases_mark c
    have starts : m.step.control = .delivering .null
        (pending.before (.linkBases c (m.heap.cls c).declaredBases)) := by
      rw [stepped, ← paths]
    exact live.step.progress ⟨starts, rfl⟩ (known_after_step m) steps

end Machine

/-- A class whose field cannot be set, and a function that makes an instance of it, catches what is
raised, and makes one again. -/
def failingClass : List Stmt :=
  [.classDef {} (.mk {} "C" [] none
      [.expr {} (.assign {} (.name {} "x") none (.call {} (.null {}) [] []))]),
    .function {} (.mk { name := "main" }
      [.tryExcept {} (.expr {} (.call {} (.name {} "C") [] [])) none [] (.block {} []),
        .ret {} (some (.call {} (.name {} "C") [] []))])]

/-- The first use of the class waits until the class is complete. -/
theorem class_use_outcome_failingClass :
    let m := (HostCall.value (.method 2) []).after
      (Engine.loaded (compiledUnit failingClass)).machine 2
    m.usedClass? = some 0 ∧ (m.heap.cls 0).prepared = false ∧
      ∃ pending, Machine.UseOf 0 pending ∧ ∀ steps,
        Machine.Progress 0 m.step.frames pending m.step (m.heap.cls 0).declaredBases steps := by
  intro m
  have compiled : compile "m" "m" failingClass = .ok (compiledUnit failingClass) :=
    compile_compiledUnit (by decide +kernel)
  have live : m.Live :=
    (Engine.hosted_loaded compiled).after_live (.value (.method 2) []) 2
  have uses : m.usedClass? = some 0 := by decide +kernel
  have new : (m.heap.cls 0).prepared = false := by decide +kernel
  obtain ⟨pending, use, _, progress⟩ := live.class_use_outcome uses
  exact ⟨uses, new, pending, use, progress new⟩

/-- The name of the method of the topmost frame, and whether its code has ended. -/
def Machine.topmostMethod? (m : Machine) : Option (String × Bool) :=
  m.frames.head?.map fun f => (f.method.code.name, f.next?.isNone)

/-- The first use of the class is left by an exception, which is caught. The second one goes on at
once and the run ends with an instance of the class, although the method that sets its fields has
never come to its end and the class has no field. -/
theorem class_use_failingClass :
    let m : Nat → Machine := (HostCall.value (.method 2) []).after
      (Engine.loaded (compiledUnit failingClass)).machine
    (m 2).usedClass? = some 0 ∧ ((m 2).heap.cls 0).prepared = false ∧ (m 5).Raises ∧
      (m 7).usedClass? = some 0 ∧ ((m 7).heap.cls 0).prepared = true ∧
      (m 14).control = .returned (.instance 0) ∧ ((m 14).heap.inst 0).cls = 0 ∧
      ((m 14).heap.cls 0).attributes.get? "x" = none ∧
      ∀ k < 15, (m k).topmostMethod? ≠ some ("C.<fields>", true) := by
  intro m
  have returns : (m 14).control.instance? = some 0 := by decide +kernel
  have fieldless : (((m 14).heap.cls 0).attributes.get? "x").isNone = true := by decide +kernel
  exact ⟨by decide +kernel, by decide +kernel, by decide +kernel, by decide +kernel,
    by decide +kernel, Control.eq_of_instance? returns, by decide +kernel,
    Option.isNone_iff_eq_none.1 fieldless, by decide +kernel⟩

end ScriptMachine
