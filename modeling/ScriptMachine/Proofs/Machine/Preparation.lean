import ScriptMachine.Proofs.Machine.Counterparts

/-!
Making a class ready for use in the middle of different operations. What the work does is the same
whatever waits for its end: `Hands` says so of the tasks it consists of. They leave more of their
kind to do, in front of what waits, or call the method that sets the fields of the class.
-/

namespace ScriptMachine

open ScriptMachine.Action

/-- Tasks that make a class ready for use. -/
inductive Task.Prepares : Task → Prop where
  | linkBases (c : ClassId) (paths : List String) : Prepares (.linkBases c paths)
  | follow (path : List String) : Prepares (.follow path)
  | baseFound (c : ClassId) (paths : List String) : Prepares (.baseFound c paths)
  | classAttribute (c : ClassId) (name : String) : Prepares (.classAttribute c name)

/-- Puts tasks in front. -/
def Pending.after (pending : Pending) (tasks : List Task) : Pending :=
  { pending with tasks := tasks ++ pending.tasks }

/-- The operation hands its value to tasks that make a class ready, and then to what waits. -/
inductive Hands : (Pending → Action Unit) → Prop where
  | deliver (v : Value) {tasks : List Task} : (∀ t ∈ tasks, t.Prepares) →
      Hands fun pending => deliver v (pending.after tasks)
  | enter (call : Call) {tasks : List Task} : (∀ t ∈ tasks, t.Prepares) →
      Hands fun pending => enter call (pending.after tasks)
  | quietly {α : Type} {a : Action α} {f : α → Pending → Action Unit} : Quiet a →
      (∀ x, Hands (f x)) → Hands fun pending => a >>= fun x => f x pending
  | fault (cause : Fault) : Hands fun _ => fault cause

namespace Hands

/-- A delivery hands on whatever waits. -/
theorem toWaiting (v : Value) : Hands fun pending => Action.deliver v pending :=
  @Hands.deliver v [] fun _ member => absurd member List.not_mem_nil

theorem faultWith (cause : Heap → Fault) : Hands fun _ => Action.faultWith cause :=
  .quietly (.askHeap cause) fun c => .fault c

/-- With one more task in front of what waits. -/
theorem before {a : Pending → Action Unit} (hands : Hands a) {task : Task} (prepares : task.Prepares) :
    Hands fun pending => a (pending.before task) := by
  have extended {tasks : List Task} (all : ∀ t ∈ tasks, t.Prepares) :
      ∀ t ∈ tasks ++ [task], t.Prepares := by
    intro t member
    rcases List.mem_append.1 member with there | last
    · exact all t there
    · rw [List.mem_singleton.1 last]
      exact prepares
  have same (pending : Pending) (tasks : List Task) :
      (pending.before task).after tasks = pending.after (tasks ++ [task]) := by
    simp only [Pending.after, Pending.before, List.append_assoc, List.singleton_append]
  induction hands with
  | deliver v all =>
      simp only [same]
      exact .deliver v (extended all)
  | enter call all =>
      simp only [same]
      exact .enter call (extended all)
  | quietly quiet _ ih => exact .quietly quiet ih
  | fault cause => exact .fault cause

end Hands

namespace Action

/-- Preparing a class hands on what waits for it. -/
theorem prepare_hands (c : ClassId) : Hands (prepare c) := by
  refine .quietly (.askHeap _) fun prepared => ?_
  cases prepared with
  | true => exact .toWaiting _
  | false =>
      refine .quietly (.changeHeap fun _ => Heap.keeps_modifyClass fun _ => rfl) fun _ => ?_
      refine .quietly (.askHeap _) fun paths => ?_
      exact (Hands.toWaiting Value.null).before (.linkBases c paths)

theorem setFields_hands (c : ClassId) : Hands (setFields c) := by
  refine .quietly (.askHeap _) fun setter => ?_
  cases setter with
  | some method =>
      exact @Hands.enter _ [] fun _ member => absurd member List.not_mem_nil
  | none => exact .toWaiting _

/-- Each base is followed with the same operation waiting. -/
theorem linkBases_hands (c : ClassId) (paths : List String) : Hands (linkBases c paths) := by
  cases paths with
  | nil => exact setFields_hands c
  | cons path paths =>
      refine .quietly (.askHeap _) fun module => ?_
      refine .quietly (global_quiet _ _) fun first => ?_
      exact ((Hands.toWaiting first).before (.follow _)).before (.baseFound c paths)

theorem baseFound_hands (c : ClassId) (paths : List String) (v : Value) :
    Hands (baseFound c paths v) := by
  have linking := Task.Prepares.linkBases c paths
  have passed : Hands fun pending => deliver .null (pending.before (.linkBases c paths)) :=
    (Hands.toWaiting Value.null).before linking
  cases v with
  | cls base =>
      refine .quietly (.changeHeap fun h => h.keeps_linkBase _ _) fun _ => ?_
      exact (prepare_hands base).before linking
  | exceptionType type =>
      exact .quietly (.changeHeap fun _ => Heap.keeps_modifyClass fun _ => rfl) fun _ => passed
  | _ => exact passed

/-- What waits for an attribute is handed on, be the class prepared before or not. -/
theorem readAttribute_hands (v : Value) (name : String) : Hands (readAttribute v name) := by
  cases v with
  | cls c => exact (prepare_hands c).before (.classAttribute c name)
  | _ =>
      refine .quietly (.askHeap _) fun own => ?_
      cases own with
      | some value => exact .toWaiting value
      | none =>
          dsimp only
          generalize builtinMethod? _ name = method
          cases method with
          | some found =>
              refine .quietly (.make fun _ => .of_tables rfl rfl rfl rfl) fun object => ?_
              exact .toWaiting (.bound found.1 (.native object))
          | none => exact .faultWith _

theorem readClassAttribute_hands (c : ClassId) (name : String) :
    Hands (readClassAttribute c name) := by
  refine .quietly (.askHeap _) fun found => ?_
  cases found with
  | some v => exact .toWaiting v
  | none => exact .faultWith _

/-- A task that makes a class ready hands on what it comes to. -/
theorem performTask_hands {task : Task} (prepares : task.Prepares) (v : Value) :
    Hands (performTask task v) := by
  cases prepares with
  | linkBases c paths => exact linkBases_hands c paths
  | follow path =>
      cases path with
      | nil => exact .toWaiting v
      | cons name path => exact (readAttribute_hands v name).before (.follow path)
  | baseFound c paths => exact baseFound_hands c paths v
  | classAttribute c name => exact readClassAttribute_hands c name

end Action

/-- The same preparation on two machines at a seam, whatever waits for it. -/
theorem Hands.meets {a : Pending → Action Unit} {c : Seam} {rel : Returns → Returns → Prop}
    (hands : Hands a) (even : c.Even) {pending pending' : Pending}
    (related : ∀ tasks : List Task, (∀ t ∈ tasks, t.Prepares) →
      rel (.resume (pending.after tasks)) (.resume (pending'.after tasks)))
    {m m' : Machine} (level : AtSeam c m m') :
    Meets c rel ((a pending).result m) ((a pending').result m') := by
  induction hands generalizing m m' with
  | deliver v all => exact .delivers v (related _ all) level
  | enter call all => exact .enter even (related _ all) level call
  | quietly quiet _ ih =>
      exact .quietly quiet even level fun x n n' _ _ after => ih x after
  | fault cause => exact .raises _ level

end ScriptMachine
