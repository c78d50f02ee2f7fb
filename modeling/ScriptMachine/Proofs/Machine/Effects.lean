import ScriptMachine.Proofs.Machine.Answers

/-!
What actions are made of. Every operation and every instruction is put together from quiet work,
from looks at the topmost frame and changes of it, from frames that are pushed and from regions
that are opened. What an invariant asks of all of them is shown for these parts alone.
-/

namespace ScriptMachine

open ScriptMachine.Action

/-- The action is put together from parts that leave all frames but the topmost alone. What a
frame returns to is neither looked at nor changed. -/
inductive Made : {α : Type} → Action α → Prop where
  | quiet {α : Type} {a : Action α} : Quiet a → Made a
  | bind {α β : Type} {a : Action α} {f : α → Action β} :
      Made a → (∀ x, Made (f x)) → Made (a >>= f)
  | throw {α : Type} (e : Raised) : Made (throw e : Action α)
  /-- Asks about the heap and the topmost frame. -/
  | look {α : Type} {question : Machine → α} (seen : Heap → Frame → α) :
      (∀ m f rest, m.frames = f :: rest → question m = seen m.heap f) →
      (∀ h f r, seen h { f with returns := r } = seen h f) → Made (ask question)
  | changeFrame {f : Frame → Frame} : (∀ g, (f g).returns = g.returns) →
      (∀ g r, f { g with returns := r } = { f g with returns := r }) → Made (changeFrame f)
  | control (control : Control) : Made (change ({ · with control }))
  | note {event : Machine → Event} : (∀ m name, event m ≠ .load name) →
      Made (change fun m => m.note fun _ => event m)
  | openRegion (target : Nat) : Made (openRegion target)
  | activate {returns : Returns} (call : Call) : returns.isNested = false →
      Made (activate call returns)
  | enter (call : Call) (pending : Pending) : Made (enter call pending)

namespace Made

variable {α : Type}

theorem pure (x : α) : Made (pure x) :=
  .quiet (.pure x)

theorem defect (cause : Defect) : Made (defect cause : Action α) :=
  .throw _

/-- Of a frame anything may be asked but what its caller waits for. -/
theorem askFrame {question : Frame → α} {none : α}
    (blind : ∀ f r, question { f with returns := r } = question f) :
    Made (askFrame question none) := by
  refine .look (fun _ f => question f) (fun m f rest top => ?_) fun _ => blind
  rw [top]

/-- A delivery changes what is under way. -/
theorem deliver (v : Value) (pending : Pending) : Made (deliver v pending) :=
  .control _

theorem proceed : Made proceed :=
  .control _

theorem push (v : Value) : Made (push v) :=
  .changeFrame (fun _ => rfl) fun _ _ => rfl

theorem jump (target : Nat) : Made (jump target) :=
  .changeFrame (fun _ => rfl) fun _ _ => rfl

theorem pop : Made pop := by
  refine .bind (.askFrame fun _ _ => rfl) fun stack => ?_
  cases stack with
  | nil => exact .defect _
  | cons v rest => exact .bind (.changeFrame (fun _ => rfl) fun _ _ => rfl) fun _ => .pure v

theorem peek : Made peek := by
  refine .bind (.askFrame fun _ _ => rfl) fun stack => ?_
  cases stack with
  | nil => exact .defect _
  | cons v rest => exact .pure v

theorem popMany (count : Nat) : Made (popMany count) := by
  refine .bind (.askFrame fun _ _ => rfl) fun stack => ?_
  have rest : Made (do
      Action.changeFrame ({ · with stack := stack.drop count })
      return (stack.take count).reverse) :=
    .bind (.changeFrame (fun _ => rfl) fun _ _ => rfl) fun _ => .pure _
  dsimp only
  split
  · exact .bind (.defect _) fun _ => rest
  · exact rest

theorem constant (index : Nat) : Made (constant index) := by
  refine .bind (.look (fun h f => (h.module f.method.module).constants[index]?) ?_ ?_) fun found => ?_
  · intro m f rest top
    rw [top]
  · intro h f r
    rfl
  · cases found with
    | none => exact .defect _
    | some v => exact .pure v

theorem nameConstant (index : Nat) : Made (nameConstant index) := by
  refine .bind (.constant index) fun v => ?_
  split
  · exact .pure _
  · exact .bind (.quiet (.askHeap _)) fun _ => .defect _

theorem readLocal (slot : Nat) : Made (readLocal slot) := by
  refine .bind (.look (fun h f => (h.env f.env)[slot]?) ?_ ?_) fun found => ?_
  · intro m f rest top
    rw [top]
  · intro h f r
    rfl
  · cases found with
    | none => exact .defect _
    | some v => exact .push v

/-- A closure takes the environment of the topmost frame. -/
theorem captureLocals (v : Value) : Made (captureLocals v) := by
  have other : Made (Action.defect .notAMethod : Action Unit) := .defect _
  cases v with
  | method id =>
      refine .bind (.note fun _ _ => Event.noConfusion) fun _ => ?_
      refine .bind (.askFrame fun _ _ => rfl) fun env => ?_
      refine .bind (.askFrame fun _ _ => rfl) fun receiver => ?_
      refine .bind (.quiet (.make fun _ => .of_tables rfl rfl rfl rfl)) fun closure => .push closure
  | _ => exact other

end Made

/-- Whatever answers a demand is made of these parts. -/
theorem Answers.made {live : Bool} {demand : Demand} {a : Action Unit}
    (answers : Answers live demand a) : Made a := by
  induction answers with
  | deliver v _ => exact .deliver v _
  | activate call _ plain => exact .activate call plain
  | enter call _ => exact .enter call _
  | quietly quiet _ ih => exact .bind (.quiet quiet) ih
  | fault cause => exact .throw _
  | exception id => exact .throw _
  | push v => exact .push v
  | nothing => exact .pure _
  | proceed => exact .proceed
  | proceedWith v => exact .bind .proceed fun _ => .push v
  | halt v => exact .control _

/-- Closing a region is left out: it is the one instruction that reaches for what another
instruction left behind. -/
theorem Action.execute_made (i : Instruction) (other : i.op ≠ .popExceptionHandler) :
    Made (execute i) := by
  obtain ⟨op, arg, loc⟩ := i
  cases op with
  | nop => exact .pure _
  | binOp =>
      dsimp only [execute]
      split
      · exact .defect _
      · exact .bind .pop fun _ => .bind .pop fun _ => (binary_answers _ _ _).made
  | unaryOp =>
      dsimp only [execute]
      split
      · exact .defect _
      · exact .bind .pop fun _ => (unary_answers _ _).made
  | pop => exact .bind .pop fun _ => .pure _
  | dup => exact .bind .peek fun v => .push v
  | dup3 => exact .bind .peek fun v => .bind (.push v) fun _ => .push v
  | loadConst => exact .bind (.constant arg) fun v => .push v
  | loadNull => exact .push _
  | loadSelf => exact readSelf_answers.made
  | loadTrue => exact .push _
  | loadFalse => exact .push _
  | loadLocal => exact .readLocal arg
  | storeLocal => exact .bind .pop fun v => .quiet (writeLocal_quiet arg v)
  | loadGlobal =>
      exact .bind (.nameConstant arg) fun name => (readGlobal_answers name).made
  | storeGlobal =>
      refine .bind .pop fun v => .bind (.nameConstant arg) fun name => ?_
      exact (writeGlobal_answers name v).made
  | loadAttribute =>
      refine .bind .pop fun v => .bind (.nameConstant arg) fun name => ?_
      have answers : Answers true (.frame 1) (readAttribute v name .push) :=
        readAttribute_answers v name rfl
      exact answers.made
  | storeAttribute =>
      refine .bind .pop fun target => .bind .pop fun v => ?_
      exact .bind (.nameConstant arg) fun name => .quiet (writeAttribute_quiet target name v)
  | loadIndex =>
      exact .bind .pop fun index => .bind .pop fun container =>
        (readItem_answers container index).made
  | storeIndex =>
      refine .bind .pop fun index => .bind .pop fun container => .bind .pop fun v => ?_
      exact (writeItem_answers container index v).made
  | invoke =>
      refine .bind .pop fun callee => .bind (.popMany arg) fun args => ?_
      have answers : Answers true (.frame 1) (invoke callee args) := invoke_answers callee args
      exact answers.made
  | invokeSuper =>
      refine .bind .pop fun base => .bind (.popMany arg) fun args => ?_
      exact (invokeSuper_answers base args).made
  | ret => exact .changeFrame (fun _ => rfl) fun _ _ => rfl
  | jumpIfTrue =>
      refine .bind .pop fun v => .bind (.quiet (.askHeap _)) fun holds => ?_
      split
      · exact .jump arg
      · exact .pure _
  | jumpIfFalse =>
      refine .bind .pop fun v => .bind (.quiet (.askHeap _)) fun holds => ?_
      split
      · exact .pure _
      · exact .jump arg
  | jump => exact .jump arg
  | buildList => exact .bind (.popMany arg) fun items => (buildList_answers items).made
  | buildTuple => exact .bind (.popMany arg) fun items => .push _
  | buildHash => exact .bind (.popMany _) fun items => (buildMap_answers items).made
  | buildClosure => exact .bind .pop fun v => .captureLocals v
  | getIter =>
      refine .bind .pop fun v => ?_
      have answers : Answers true (.frame 1) (iterate v maxDelegation .push) :=
        iterate_answers v _ rfl
      exact answers.made
  | iterGetNext =>
      refine .bind .pop fun v => ?_
      have answers : Answers true (.frame 1) (iterItem v .push) := iterItem_answers v rfl
      exact answers.made
  | iterMoveNext =>
      refine .bind .pop fun v => ?_
      have answers : Answers true (.frame 1) (moveIter v .push) := moveIter_answers v rfl
      exact answers.made
  | iterReset =>
      refine .bind .pop fun v => ?_
      have answers : Answers true (.frame 0) (resetIter v .discard) := resetIter_answers v rfl
      exact answers.made
  | raise => exact .bind .pop fun v => .bind (.quiet (exceptionOf_quiet v)) fun _ => .throw _
  | pushExceptionHandler => exact .openRegion arg
  | popExceptionHandler => exact absurd rfl other
  | loadException => exact readCaught_answers.made
  | instanceOf =>
      exact .bind .pop fun type => .bind .pop fun v => (testType_answers v type).made
  | dynamicCast =>
      exact .bind .pop fun type => .bind .pop fun v => (castType_answers v type).made
  | nullCoalesce =>
      refine .bind .peek fun v => ?_
      split
      · exact .bind .pop fun _ => .pure _
      · exact .jump arg
  | importModule =>
      refine .bind (.nameConstant arg) fun name => ?_
      have answers : Answers true (.frame 0)
          (loadModule name (Pending.discard.before (.bindModule (bindingName name)))) :=
        loadModule_answers name rfl
      exact answers.made
  | importFrom =>
      refine .bind .pop fun names => .bind (.nameConstant arg) fun name => ?_
      split
      · next items _ =>
        have answers : Answers true (.frame 0)
            (loadModule name (Pending.discard.before (.importNames name items))) :=
          loadModule_answers name rfl
        exact answers.made
      · exact .defect _
  | importAll =>
      refine .bind (.nameConstant arg) fun name => ?_
      have answers : Answers true (.frame 0)
          (loadModule name (Pending.discard.before .importAll)) := loadModule_answers name rfl
      exact answers.made

end ScriptMachine
