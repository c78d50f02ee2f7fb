import ScriptMachine.Proofs.Machine.Quiet

/-!
What instructions do with their operands. An instruction that finds its operands on the stack,
and its constant or slot, takes them off and does its work on the values alone: one equation for
each instruction.
-/

namespace ScriptMachine

namespace CallStack

/-- Two call stacks are the same if their frames are, and as many of them are nested. -/
theorem ext {calls calls' : CallStack} (same : calls.frames = calls'.frames)
    (nesting : calls.nesting = calls'.nesting) : calls = calls' := by
  obtain ⟨frames, depth, depth_eq, count⟩ := calls
  obtain ⟨frames', depth', depth_eq', count'⟩ := calls'
  cases same
  cases nesting
  cases depth_eq.trans depth_eq'.symm
  rfl

/-- Two changes of the topmost frame are one. -/
theorem modifyTop_modifyTop (calls : CallStack) (first second : Frame → Frame) :
    (calls.modifyTop first).modifyTop second = calls.modifyTop fun f => second (first f) := by
  refine ext ?_ (by simp only [nesting_modifyTop])
  rw [frames_modifyTop, frames_modifyTop, frames_modifyTop]
  cases calls.frames <;> rfl

/-- Only what a change does to the topmost frame matters. -/
theorem modifyTop_congr {calls : CallStack} {change change' : Frame → Frame}
    (same : ∀ f rest, calls.frames = f :: rest → change f = change' f) :
    calls.modifyTop change = calls.modifyTop change' := by
  refine ext ?_ (by simp only [nesting_modifyTop])
  rw [frames_modifyTop, frames_modifyTop]
  cases top : calls.frames with
  | nil => rfl
  | cons f rest => rw [List.modifyHead_cons, List.modifyHead_cons, same f rest top]

end CallStack

namespace Machine

/-- The operand stack of the topmost frame. -/
def stack (m : Machine) : List Value :=
  match m.frames with
  | f :: _ => f.stack
  | [] => []

/-- The machine with another operand stack in its topmost frame. -/
def withStack (m : Machine) (s : List Value) : Machine :=
  { m with calls := m.calls.modifyTop ({ · with stack := s }) }

/-- The machine with another next instruction in its topmost frame. -/
def withIp (m : Machine) (ip : Nat) : Machine :=
  { m with calls := m.calls.modifyTop ({ · with ip }) }

/-- A constant of the module of the topmost frame. -/
def constant? (m : Machine) (index : Nat) : Option Value :=
  match m.frames with
  | f :: _ => (m.heap.module f.method.module).constants[index]?
  | [] => none

/-- A local variable of the topmost frame. -/
def local? (m : Machine) (slot : Nat) : Option Value :=
  match m.frames with
  | f :: _ => (m.heap.env f.env)[slot]?
  | [] => none

@[simp] theorem frames_withStack (m : Machine) (s : List Value) :
    (m.withStack s).frames = m.frames.modifyHead ({ · with stack := s }) :=
  CallStack.frames_modifyTop _ _

@[simp] theorem frames_withIp (m : Machine) (ip : Nat) :
    (m.withIp ip).frames = m.frames.modifyHead ({ · with ip }) :=
  CallStack.frames_modifyTop _ _

@[simp] theorem heap_withStack (m : Machine) (s : List Value) : (m.withStack s).heap = m.heap := rfl

@[simp] theorem constant?_withStack (m : Machine) (s : List Value) (index : Nat) :
    (m.withStack s).constant? index = m.constant? index := by
  simp only [constant?, frames_withStack, heap_withStack]
  cases m.frames <;> rfl

/-- Of several operand stacks the last one counts. -/
@[simp] theorem withStack_withStack (m : Machine) (s t : List Value) :
    (m.withStack s).withStack t = m.withStack t := by
  simp only [withStack, CallStack.modifyTop_modifyTop]

/-- A machine has its own operand stack. -/
theorem withStack_self (m : Machine) : m.withStack m.stack = m := by
  have same : m.calls.modifyTop ({ · with stack := m.stack }) = m.calls := by
    refine CallStack.ext ?_ (CallStack.nesting_modifyTop _ _)
    rw [CallStack.frames_modifyTop, stack, frames]
    cases m.calls.frames <;> rfl
  rw [withStack, same]

/-- Where a frame is live, its operand stack can be replaced. -/
theorem stack_withStack {m : Machine} (some : m.frames ≠ []) (s : List Value) :
    (m.withStack s).stack = s := by
  rw [stack, frames_withStack]
  cases top : m.frames with
  | nil => exact absurd top some
  | cons f rest => rfl

/-- Operands lie in a frame. -/
theorem frames_ne_nil {m : Machine} {v : Value} {s : List Value} (stack : m.stack = v :: s) :
    m.frames ≠ [] := by
  intro none
  rw [Machine.stack, none] at stack
  cases stack

end Machine

/-- What code is given that asks for an exception: the instance that was raised, or the exception
itself. -/
def Heap.seen (h : Heap) (id : ExceptionId) : Value :=
  match (h.exception id).payload with
  | some object => .instance object
  | none => .exception id

namespace Action

variable {m : Machine} {v : Value} {s : List Value}

theorem result_askStack (m : Machine) : (askFrame (·.stack) []).result m = (.ok m.stack, m) := by
  rfl

/-- An operand that is looked at stays on the stack. -/
theorem result_peek (stack : m.stack = v :: s) : peek.result m = (.ok v, m) := by
  unfold peek
  rw [result_bind_ok (result_askStack m), stack]
  rfl

theorem result_pop (stack : m.stack = v :: s) : pop.result m = (.ok v, m.withStack s) := by
  unfold pop
  rw [result_bind_ok (result_askStack m), stack]
  rfl

/-- Operands are popped in the order in which they were pushed, the first one first. -/
theorem result_popMany {count : Nat} (enough : count ≤ m.stack.length) :
    (popMany count).result m = (.ok (m.stack.take count).reverse, m.withStack (m.stack.drop count)) := by
  unfold popMany
  rw [result_bind_ok (result_askStack m)]
  dsimp only
  rw [if_neg (Nat.not_lt.2 enough)]
  rfl

theorem result_push (v : Value) (m : Machine) :
    (push v).result m = (.ok (), m.withStack (v :: m.stack)) := by
  have same : (m.calls.modifyTop fun f => { f with stack := v :: f.stack })
      = m.calls.modifyTop ({ · with stack := v :: m.stack }) := by
    refine CallStack.modifyTop_congr fun f rest top => ?_
    rw [Machine.stack, Machine.frames, top]
  unfold push changeFrame
  rw [result_change, same]
  rfl

theorem result_jump (target : Nat) (m : Machine) :
    (jump target).result m = (.ok (), m.withIp target) := rfl

theorem result_constant {index : Nat} (found : m.constant? index = some v) :
    (constant index).result m = (.ok v, m) := by
  unfold constant
  rw [result_bind_ok (result_askFor found)]
  rfl

theorem result_nameConstant {index : Nat} {name : String}
    (found : m.constant? index = some (.str name)) :
    (nameConstant index).result m = (.ok name, m) := by
  unfold nameConstant
  rw [result_bind_ok (result_constant found)]
  rfl

theorem result_readLocal {slot : Nat} (found : m.local? slot = some v) :
    (readLocal slot).result m = (push v).result m := by
  unfold readLocal
  rw [result_bind_ok (result_askFor found)]

theorem result_readCaught {m : Machine} {id : ExceptionId} (current : m.current = some id) :
    readCaught.result m = (.ok (), m.withStack (m.heap.seen id :: m.stack)) := by
  have found : caught.result m = (.ok (m.heap.seen id), m) := by
    unfold caught
    rw [result_ask, current]
    rfl
  unfold readCaught
  rw [result_bind_ok found, result_push]

/-- Popping the first of several operands leaves the others. -/
theorem result_bind_pop {α : Type} {f : Value → Action α} (stack : m.stack = v :: s) :
    (pop >>= f).result m = (f v).result (m.withStack s) :=
  result_bind_ok (result_pop stack)

/-- An action goes on with the operand it popped. -/
theorem result_bind_popNext {α : Type} {f : Value → Action α} (some : m.frames ≠ []) :
    (pop >>= f).result (m.withStack (v :: s)) = (f v).result (m.withStack s) := by
  rw [result_bind_pop (Machine.stack_withStack some _), Machine.withStack_withStack]

/-- An action goes on with the operands it popped, the first one first. -/
theorem result_bind_popMany {α : Type} {f : List Value → Action α} {operands : List Value}
    {count : Nat} (stack : m.stack = operands ++ s) (length : operands.length = count) :
    (popMany count >>= f).result m = (f operands.reverse).result (m.withStack s) := by
  have enough : count ≤ m.stack.length := by
    rw [stack, List.length_append]
    omega
  rw [result_bind_ok (result_popMany enough), stack, ← length, List.take_left, List.drop_left]

theorem result_bind_popManyNext {α : Type} {f : List Value → Action α} {operands : List Value}
    {count : Nat} (some : m.frames ≠ []) (length : operands.length = count) :
    (popMany count >>= f).result (m.withStack (operands ++ s))
      = (f operands.reverse).result (m.withStack s) := by
  rw [result_bind_popMany (Machine.stack_withStack some _) length, Machine.withStack_withStack]

theorem result_bind_nameConstant {α : Type} {f : String → Action α} {index : Nat} {name : String}
    (found : m.constant? index = some (.str name)) :
    (nameConstant index >>= f).result m = (f name).result m :=
  result_bind_ok (result_nameConstant found)

/-- The names of an import can be read from the tuple that the code builds. -/
theorem names?_texts (items : List String) : names? (.tuple (items.map .str)) = some items := by
  induction items with
  | nil => rfl
  | cons item rest ih =>
      simp only [names?] at ih ⊢
      rw [List.map_cons, List.mapM_cons, ih]
      rfl

/-! ## Instructions -/

section

variable {i : Instruction} {left right : Value} {name : String} {operands : List Value}

theorem execute_nop (is : i.op = .nop) : (execute i).result m = (.ok (), m) := by
  unfold execute
  simp only [is]
  rfl

/-- Of the operands of an operator the right one is on top. -/
theorem execute_binOp {op : BinaryOp} (is : i.op = .binOp)
    (tag : BinaryOp.ofTag? i.arg = some op) (stack : m.stack = right :: left :: s) :
    (execute i).result m = (binary op left right).result (m.withStack s) := by
  unfold execute
  simp only [is, tag]
  rw [result_bind_pop stack, result_bind_popNext (Machine.frames_ne_nil stack)]

theorem execute_unaryOp {op : UnaryOp} (is : i.op = .unaryOp)
    (tag : UnaryOp.ofTag? i.arg = some op) (stack : m.stack = v :: s) :
    (execute i).result m = (unary op v).result (m.withStack s) := by
  unfold execute
  simp only [is, tag]
  rw [result_bind_pop stack]

theorem execute_pop (is : i.op = .pop) (stack : m.stack = v :: s) :
    (execute i).result m = (.ok (), m.withStack s) := by
  unfold execute
  simp only [is]
  change (pop >>= fun _ => pure ()).result m = _
  rw [result_bind_pop stack, result_pure]

theorem execute_dup (is : i.op = .dup) (stack : m.stack = v :: s) :
    (execute i).result m = (.ok (), m.withStack (v :: v :: s)) := by
  unfold execute
  simp only [is]
  rw [result_bind_ok (result_peek stack), result_push, stack]

/-- The topmost operand is there three times afterwards. -/
theorem execute_dup3 (is : i.op = .dup3) (stack : m.stack = v :: s) :
    (execute i).result m = (.ok (), m.withStack (v :: v :: v :: s)) := by
  have some := Machine.frames_ne_nil stack
  unfold execute
  simp only [is]
  rw [result_bind_ok (result_peek stack), result_bind_ok (result_push v m), result_push,
    Machine.stack_withStack some, Machine.withStack_withStack, stack]

theorem execute_loadConst (is : i.op = .loadConst) (found : m.constant? i.arg = some v) :
    (execute i).result m = (push v).result m := by
  unfold execute
  simp only [is]
  rw [result_bind_ok (result_constant found)]

theorem execute_loadNull (is : i.op = .loadNull) :
    (execute i).result m = (push .null).result m := by
  unfold execute
  simp only [is]

theorem execute_loadSelf (is : i.op = .loadSelf) :
    (execute i).result m = readSelf.result m := by
  unfold execute
  simp only [is]

theorem execute_loadTrue (is : i.op = .loadTrue) :
    (execute i).result m = (push (.bool true)).result m := by
  unfold execute
  simp only [is]

theorem execute_loadFalse (is : i.op = .loadFalse) :
    (execute i).result m = (push (.bool false)).result m := by
  unfold execute
  simp only [is]

/-- A local variable is pushed if its slot is there. -/
theorem execute_loadLocal (is : i.op = .loadLocal) (found : m.local? i.arg = some v) :
    (execute i).result m = (push v).result m := by
  unfold execute
  simp only [is]
  exact result_readLocal found

/-- A local variable is set in the environment of the topmost frame, at any slot. -/
theorem execute_storeLocal (is : i.op = .storeLocal) (stack : m.stack = v :: s) :
    (execute i).result m = (writeLocal i.arg v).result (m.withStack s) := by
  unfold execute
  simp only [is]
  rw [result_bind_pop stack]

/-- Global variables are known by names, which are constants of the module. -/
theorem execute_loadGlobal (is : i.op = .loadGlobal)
    (named : m.constant? i.arg = some (.str name)) :
    (execute i).result m = (readGlobal name).result m := by
  unfold execute
  simp only [is]
  rw [result_bind_nameConstant named]

theorem execute_storeGlobal (is : i.op = .storeGlobal)
    (named : m.constant? i.arg = some (.str name)) (stack : m.stack = v :: s) :
    (execute i).result m = (writeGlobal name v).result (m.withStack s) := by
  unfold execute
  simp only [is]
  rw [result_bind_pop stack,
    result_bind_nameConstant ((Machine.constant?_withStack m s i.arg).trans named)]

theorem execute_loadAttribute (is : i.op = .loadAttribute)
    (named : m.constant? i.arg = some (.str name)) (stack : m.stack = v :: s) :
    (execute i).result m = (readAttribute v name .push).result (m.withStack s) := by
  unfold execute
  simp only [is]
  rw [result_bind_pop stack,
    result_bind_nameConstant ((Machine.constant?_withStack m s i.arg).trans named)]

/-- The value of an attribute lies below the object that gets it. -/
theorem execute_storeAttribute {target : Value} (is : i.op = .storeAttribute)
    (named : m.constant? i.arg = some (.str name)) (stack : m.stack = target :: v :: s) :
    (execute i).result m = (writeAttribute target name v).result (m.withStack s) := by
  unfold execute
  simp only [is]
  rw [result_bind_pop stack, result_bind_popNext (Machine.frames_ne_nil stack),
    result_bind_nameConstant ((Machine.constant?_withStack m s i.arg).trans named)]

theorem execute_loadIndex {container index : Value} (is : i.op = .loadIndex)
    (stack : m.stack = index :: container :: s) :
    (execute i).result m = (readItem container index).result (m.withStack s) := by
  unfold execute
  simp only [is]
  rw [result_bind_pop stack, result_bind_popNext (Machine.frames_ne_nil stack)]

/-- The value of an item lies below the container and the index. -/
theorem execute_storeIndex {container index : Value} (is : i.op = .storeIndex)
    (stack : m.stack = index :: container :: v :: s) :
    (execute i).result m = (writeItem container index v).result (m.withStack s) := by
  have some := Machine.frames_ne_nil stack
  unfold execute
  simp only [is]
  rw [result_bind_pop stack, result_bind_popNext some, result_bind_popNext some]

/-- The callee is above its arguments. They are handed over first to last. -/
theorem execute_invoke {callee : Value} (is : i.op = .invoke)
    (stack : m.stack = callee :: (operands ++ s)) (length : operands.length = i.arg) :
    (execute i).result m = (invoke callee operands.reverse).result (m.withStack s) := by
  unfold execute
  simp only [is]
  rw [result_bind_pop stack, result_bind_popManyNext (Machine.frames_ne_nil stack) length]

/-- The base is above the arguments of its constructor. -/
theorem execute_invokeSuper {base : Value} (is : i.op = .invokeSuper)
    (stack : m.stack = base :: (operands ++ s)) (length : operands.length = i.arg) :
    (execute i).result m = (invokeSuper base operands.reverse).result (m.withStack s) := by
  unfold execute
  simp only [is]
  rw [result_bind_pop stack, result_bind_popManyNext (Machine.frames_ne_nil stack) length]

/-- A frame returns by going to its end. Its value stays on top. -/
theorem execute_ret (is : i.op = .ret) : (execute i).result m = (.ok (), { m with
    calls := m.calls.modifyTop (fun f => { f with ip := f.method.code.body.size }) }) := by
  unfold execute
  simp only [is]
  rfl

/-- The tested operand is dropped whether the jump is taken or not. -/
theorem execute_jumpIfTrue (is : i.op = .jumpIfTrue) (stack : m.stack = v :: s) :
    (execute i).result m =
      (.ok (), if m.heap.truthy v then (m.withStack s).withIp i.arg else m.withStack s) := by
  unfold execute
  simp only [is]
  rw [result_bind_pop stack, result_bind_ok (result_askHeap _ _)]
  rw [Machine.heap_withStack]
  cases m.heap.truthy v <;> rfl

theorem execute_jumpIfFalse (is : i.op = .jumpIfFalse) (stack : m.stack = v :: s) :
    (execute i).result m =
      (.ok (), if m.heap.truthy v then m.withStack s else (m.withStack s).withIp i.arg) := by
  unfold execute
  simp only [is]
  rw [result_bind_pop stack, result_bind_ok (result_askHeap _ _)]
  rw [Machine.heap_withStack]
  cases m.heap.truthy v <;> rfl

theorem execute_jump (is : i.op = .jump) : (execute i).result m = (.ok (), m.withIp i.arg) := by
  unfold execute
  simp only [is]
  exact result_jump i.arg m

theorem execute_buildList (is : i.op = .buildList) (stack : m.stack = operands ++ s)
    (length : operands.length = i.arg) :
    (execute i).result m = (buildList operands.reverse).result (m.withStack s) := by
  unfold execute
  simp only [is]
  rw [result_bind_popMany stack length]

theorem execute_buildTuple (is : i.op = .buildTuple) (stack : m.stack = operands ++ s)
    (length : operands.length = i.arg) :
    (execute i).result m = (push (.tuple operands.reverse)).result (m.withStack s) := by
  unfold execute
  simp only [is]
  rw [result_bind_popMany stack length]

/-- Each entry is made of two operands, the key below the value. -/
theorem execute_buildHash (is : i.op = .buildHash) (stack : m.stack = operands ++ s)
    (length : operands.length = i.arg * 2) :
    (execute i).result m = (buildMap operands.reverse).result (m.withStack s) := by
  unfold execute
  simp only [is]
  rw [result_bind_popMany stack length]

/-- A closure is made of the method that was pushed before. -/
theorem execute_buildClosure (is : i.op = .buildClosure) (stack : m.stack = v :: s) :
    (execute i).result m = (captureLocals v).result (m.withStack s) := by
  unfold execute
  simp only [is]
  rw [result_bind_pop stack]

/-- The value is popped, and its iterator will be pushed instead. -/
theorem execute_getIter (is : i.op = .getIter) (stack : m.stack = v :: s) :
    (execute i).result m = (iterate v maxDelegation .push).result (m.withStack s) := by
  unfold execute
  simp only [is]
  rw [result_bind_pop stack]

theorem execute_iterGetNext (is : i.op = .iterGetNext) (stack : m.stack = v :: s) :
    (execute i).result m = (iterItem v .push).result (m.withStack s) := by
  unfold execute
  simp only [is]
  rw [result_bind_pop stack]

theorem execute_iterMoveNext (is : i.op = .iterMoveNext) (stack : m.stack = v :: s) :
    (execute i).result m = (moveIter v .push).result (m.withStack s) := by
  unfold execute
  simp only [is]
  rw [result_bind_pop stack]

/-- What resetting gives is dropped. -/
theorem execute_iterReset (is : i.op = .iterReset) (stack : m.stack = v :: s) :
    (execute i).result m = (resetIter v .discard).result (m.withStack s) := by
  unfold execute
  simp only [is]
  rw [result_bind_pop stack]

/-- The operand that is raised is popped first. -/
theorem execute_raise (is : i.op = .raise) (stack : m.stack = v :: s) :
    (execute i).result m = (raiseValue v).result (m.withStack s) := by
  unfold execute
  simp only [is]
  rw [result_bind_pop stack]

/-- A region is opened with the place where an exception goes on. -/
theorem execute_pushExceptionHandler (is : i.op = .pushExceptionHandler) :
    (execute i).result m = (openRegion i.arg).result m := by
  unfold execute
  simp only [is]

theorem execute_popExceptionHandler (is : i.op = .popExceptionHandler) :
    (execute i).result m = closeRegion.result m := by
  unfold execute
  simp only [is]

theorem execute_loadException (is : i.op = .loadException) :
    (execute i).result m = readCaught.result m := by
  unfold execute
  simp only [is]

theorem execute_instanceOf {type : Value} (is : i.op = .instanceOf)
    (stack : m.stack = type :: v :: s) :
    (execute i).result m = (testType v type).result (m.withStack s) := by
  unfold execute
  simp only [is]
  rw [result_bind_pop stack, result_bind_popNext (Machine.frames_ne_nil stack)]

theorem execute_dynamicCast {type : Value} (is : i.op = .dynamicCast)
    (stack : m.stack = type :: v :: s) :
    (execute i).result m = (castType v type).result (m.withStack s) := by
  unfold execute
  simp only [is]
  rw [result_bind_pop stack, result_bind_popNext (Machine.frames_ne_nil stack)]

/-- An operand that is not null is kept, and the other one is jumped over. -/
theorem execute_nullCoalesce (is : i.op = .nullCoalesce) (stack : m.stack = v :: s) :
    (execute i).result m = (.ok (), if v.isNull then m.withStack s else m.withIp i.arg) := by
  unfold execute
  simp only [is]
  rw [result_bind_ok (result_peek stack)]
  split
  · change (pop >>= fun _ => pure ()).result m = _
    rw [result_bind_pop stack, result_pure]
  · exact result_jump i.arg m

/-- A module is bound under the last part of its name once it is loaded. -/
theorem execute_importModule (is : i.op = .importModule)
    (named : m.constant? i.arg = some (.str name)) : (execute i).result m =
      (loadModule name (Pending.discard.before (.bindModule (bindingName name)))).result m := by
  unfold execute
  simp only [is]
  rw [result_bind_nameConstant named]

/-- Names are bound once the module is loaded that has them. -/
theorem execute_importFrom {items : List String} (is : i.op = .importFrom)
    (named : m.constant? i.arg = some (.str name))
    (stack : m.stack = .tuple (items.map .str) :: s) : (execute i).result m =
      (loadModule name (Pending.discard.before (.importNames name items))).result
        (m.withStack s) := by
  unfold execute
  simp only [is]
  rw [result_bind_pop stack,
    result_bind_nameConstant ((Machine.constant?_withStack m s i.arg).trans named)]
  simp only [names?_texts]

theorem execute_importAll (is : i.op = .importAll)
    (named : m.constant? i.arg = some (.str name)) : (execute i).result m =
      (loadModule name (Pending.discard.before .importAll)).result m := by
  unfold execute
  simp only [is]
  rw [result_bind_nameConstant named]

end

/-! ## Fetching -/

/-- The machine whose topmost frame `f` has fetched an instruction. -/
def fetched (m : Machine) (f : Frame) (i : Instruction) : Machine :=
  (m.note fun _ => .instruction f.ip i.op f.stack.length m.calls.depth).withIp (f.ip + 1)

/-- To fetch an instruction moves the topmost frame on by one. -/
theorem frames_fetched {m : Machine} {f : Frame} {rest : List Frame} (top : m.frames = f :: rest)
    (i : Instruction) : (fetched m f i).frames = { f with ip := f.ip + 1 } :: rest := by
  rw [fetched, Machine.frames_withIp, (m.keeps_note _).frames, top]
  rfl

/-- Fetching leaves the operands alone. -/
theorem stack_fetched {m : Machine} {f : Frame} {rest : List Frame} (top : m.frames = f :: rest)
    (i : Instruction) : (fetched m f i).stack = f.stack := by
  rw [Machine.stack, frames_fetched top]

@[simp] theorem heap_fetched (m : Machine) (f : Frame) (i : Instruction) :
    (fetched m f i).heap = m.heap :=
  m.heap_note _

theorem result_askNext {m : Machine} {f : Frame} {rest : List Frame} (top : m.frames = f :: rest) :
    (askFrame (·.next?) none).result m = (.ok f.next?, m) := by
  unfold askFrame
  rw [result_ask, top]

theorem result_dispatch {m : Machine} {f : Frame} {rest : List Frame} (top : m.frames = f :: rest)
    (i : Instruction) : (dispatch i).result m = (execute i).result (fetched m f i) := by
  let noted := m.note fun _ => .instruction f.ip i.op f.stack.length m.calls.depth
  have frames : noted.frames = f :: rest := by
    rw [Machine.frames, (m.keeps_note _).calls]
    exact top
  have same : (noted.calls.modifyTop fun g => { g with ip := g.ip + 1 })
      = noted.calls.modifyTop ({ · with ip := f.ip + 1 }) := by
    refine CallStack.modifyTop_congr fun g others there => ?_
    cases frames.symm.trans there
    rfl
  have moved : (changeFrame fun g => { g with ip := g.ip + 1 }).result noted
      = (.ok (), fetched m f i) := by
    unfold changeFrame
    rw [result_change, same]
    rfl
  unfold dispatch
  rw [result_bind_ok (result_change _ m), top]
  dsimp only
  rw [result_bind_ok moved]

/-- To go on is to execute the instruction that is next, in a frame that has moved past it. -/
theorem result_advance {m : Machine} {f : Frame} {rest : List Frame} {i : Instruction}
    (top : m.frames = f :: rest) (next : f.next? = some i) :
    advance.result m = (execute i).result (fetched m f i) := by
  unfold advance
  rw [result_bind_ok (result_askNext top), next]
  exact result_dispatch top i

/-- The machine without its topmost frame and the regions that frame left open. -/
def popped (m : Machine) : Machine :=
  { m with
    calls := m.calls.pop
    handlers := m.handlers.dropWhile (m.calls.pop.depth < ·.frameDepth) }

/-- The machine whose topmost frame has ended and has not handed anything over yet. -/
def ended (m : Machine) : Machine :=
  (popped m).note fun _ => .ret m.calls.pop.depth

/-- Telling the observer that a frame has ended changes nothing else. -/
theorem keeps_ended (m : Machine) : (popped m).Keeps (ended m) :=
  (popped m).keeps_note _

/-- A frame that ends is dropped, and its topmost operand is handed over. -/
theorem result_finish {m : Machine} {f : Frame} {rest : List Frame} (top : m.frames = f :: rest) :
    finish.result m = (handOver f.returns (f.stack.headD .null)).result (ended m) := by
  unfold finish
  rw [result_bind_ok (result_ask _ m), top]
  dsimp only
  rw [result_bind_ok (result_change _ m)]
  rfl

/-- Without frames there is nothing to do. -/
theorem result_advance_nil {m : Machine} (top : m.frames = []) :
    advance.result m = (.ok (), m) := by
  unfold advance askFrame
  rw [result_bind_ok (result_ask _ m), top]
  change finish.result m = _
  unfold finish
  rw [result_bind_ok (result_ask _ m), top]
  rfl

/-- At the end of its code a frame finishes. -/
theorem result_advance_end {m : Machine} {f : Frame} {rest : List Frame}
    (top : m.frames = f :: rest) (atEnd : f.next? = none) :
    advance.result m = finish.result m := by
  unfold advance
  rw [result_bind_ok (result_askNext top), atEnd]

/-- A frame carries out its next instruction. -/
theorem perform_advance {m : Machine} {f : Frame} {rest : List Frame} {i : Instruction}
    (top : m.frames = f :: rest) (next : f.next? = some i) :
    m.perform advance = (fetched m f i).perform (execute i) := by
  rw [Machine.perform_eq, Machine.perform_eq, result_advance top next]

/-- A frame that is at its end hands over what is on top of its stack. -/
theorem perform_advance_end {m : Machine} {f : Frame} {rest : List Frame}
    (top : m.frames = f :: rest) (atEnd : f.next? = none) :
    m.perform advance = (ended m).perform (handOver f.returns (f.stack.headD .null)) := by
  rw [Machine.perform_eq, Machine.perform_eq, result_advance_end top atEnd, result_finish top]

end Action

/-- Fetching changes nothing but the frame. -/
theorem Machine.World.fetched {m m' : Machine} (world : m.World m') (f : Frame) (i : Instruction) :
    (Action.fetched m f i).World m' := by
  obtain ⟨h₁, h₂, h₃, h₄, h₅, h₆, h₇, h₈⟩ := world.noted
    fun _ => .instruction f.ip i.op f.stack.length m.calls.depth
  exact ⟨h₁, h₂, h₃, h₄, h₅, h₆, h₇, h₈⟩

end ScriptMachine
