import ScriptMachine.Proofs.Heap.Positions
import ScriptMachine.Proofs.Machine.Moves

/-!
Machines without positions. Calls push and drop frames without positions as they do with them, and
raising an exception records the same trace but for the positions in it.
-/

namespace ScriptMachine

open ScriptMachine.Action

/-! ## Without positions -/

def Frame.unplaced (f : Frame) : Frame :=
  { f with method := f.method.unplaced }

def CallStack.unplaced (calls : CallStack) : CallStack where
  frames := calls.frames.map Frame.unplaced
  depth := calls.depth
  depth_eq := by rw [List.length_map, calls.depth_eq]
  nesting := calls.nesting

/-- The machine with all positions taken out. -/
def Machine.unplaced (m : Machine) : Machine :=
  { m with heap := m.heap.unplaced, calls := m.calls.unplaced }

namespace Frame

variable (f : Frame)

/-- The frame goes on with the same instruction, without its position. -/
theorem next?_unplaced : f.unplaced.next? = f.next?.map Instruction.unplaced :=
  Array.getElem?_map

/-- The line of the frame in a trace names the same method at no position. -/
theorem traceFrame_unplaced : f.unplaced.traceFrame = f.traceFrame.unplaced := by
  have nowhere : f.unplaced.location = {} := by
    change ((f.method.code.body.map Instruction.unplaced)[f.ip - 1]?.map (·.loc)).getD {} = {}
    rw [Array.getElem?_map, Option.map_map]
    cases f.method.code.body[f.ip - 1]? <;> rfl
  rw [traceFrame, nowhere]
  rfl

end Frame

namespace CallStack

/-- As many frames are nested. -/
theorem unplaced_recount (calls : CallStack) :
    calls.unplaced.recount = calls.recount.unplaced :=
  ext rfl List.countP_map

/-- The topmost frame is dropped the same way. -/
theorem unplaced_pop (calls : CallStack) : calls.unplaced.pop = calls.pop.unplaced := by
  have dropped : calls.unplaced.dropTop = calls.dropTop.unplaced := ext List.map_tail.symm rfl
  rw [pop, dropped, unplaced_recount, pop]

/-- Frames above the owner of a region are dropped the same way. -/
theorem unplaced_cutTo (calls : CallStack) (count : Nat) :
    calls.unplaced.cutTo count = (calls.cutTo count).unplaced := by
  have cut : calls.unplaced.truncate count = (calls.truncate count).unplaced :=
    ext List.map_drop.symm rfl
  rw [cutTo, cut, unplaced_recount, cutTo]

/-- The topmost frame may be changed by what looks at no positions. -/
theorem unplaced_modifyTop {change : Frame → Frame}
    (same : ∀ f : Frame, change f.unplaced = (change f).unplaced) (calls : CallStack) :
    calls.unplaced.modifyTop change = (calls.modifyTop change).unplaced := by
  have count : (calls.unplaced.modifyTop change).nesting = (calls.modifyTop change).unplaced.nesting :=
    (nesting_modifyTop _ _).trans (nesting_modifyTop calls change).symm
  refine ext ?_ count
  rw [frames_modifyTop]
  change (calls.frames.map Frame.unplaced).modifyHead change
    = (calls.modifyTop change).frames.map Frame.unplaced
  rw [frames_modifyTop]
  cases calls.frames with
  | nil => rfl
  | cons f rest => exact congrArg (· :: rest.map Frame.unplaced) (same f)

end CallStack

namespace Machine

variable (m : Machine)

@[grind =] theorem heap_unplaced : m.unplaced.heap = m.heap.unplaced := rfl
@[grind =] theorem calls_unplaced : m.unplaced.calls = m.calls.unplaced := rfl
/-- A machine without positions has the same frames, without positions. -/
@[grind =] theorem frames_unplaced : m.unplaced.frames = m.frames.map Frame.unplaced := rfl
@[grind =] theorem depth_unplaced : m.calls.unplaced.depth = m.calls.depth := rfl
@[grind =] theorem control_unplaced : m.unplaced.control = m.control := rfl
@[grind =] theorem current_unplaced : m.unplaced.current = m.current := rfl
@[grind =] theorem limits_unplaced : m.unplaced.limits = m.limits := rfl

/-- As many frames are nested in operations. -/
@[grind =] theorem nesting_unplaced : m.unplaced.nesting = m.nesting := rfl

@[grind =] theorem global?_unplaced (module : ModuleId) (name : String) :
    m.unplaced.global? module name = m.global? module name := rfl

/-- The trace that is taken has the same lines without positions. -/
theorem trace_unplaced : m.unplaced.trace = m.trace.map TraceFrame.unplaced := by
  rw [trace, trace, frames_unplaced, List.map_map, List.map_map]
  exact List.map_congr_left fun f _ => f.traceFrame_unplaced

/-- The observer is told the same, if no position is told. -/
theorem note_unplaced {event event' : Unit → Event} (same : event' () = event ()) :
    m.unplaced.note event' = (m.note event).unplaced := by
  unfold note
  rw [show m.unplaced.observer = m.observer from rfl]
  split
  · rfl
  · rw [same]
    rfl

/-- A change of the topmost frame that looks at no positions. -/
theorem modifyTop_unplaced {change : Frame → Frame}
    (same : ∀ f : Frame, change f.unplaced = (change f).unplaced) (m : Machine) :
    { m.unplaced with calls := m.unplaced.calls.modifyTop change }
      = { m with calls := m.calls.modifyTop change }.unplaced :=
  congrArg (fun calls => { m.unplaced with calls }) (m.calls.unplaced_modifyTop same)

/-- A global variable is assigned where it is, or in the module. -/
theorem setGlobal_unplaced (module : ModuleId) (name : String) (v : Value) :
    m.unplaced.setGlobal module name v = (m.setGlobal module name v).unplaced := by
  unfold setGlobal
  rw [heap_unplaced, Heap.unplaced_module]
  split <;> rfl

end Machine

/-! ## Questions of actions -/

namespace Action

variable (h : Heap)

/-- An attribute of an exception is its message or the name of its type. -/
@[grind =] theorem ownAttribute?_unplaced (v : Value) (name : String) :
    ownAttribute? h.unplaced v name = ownAttribute? h v name := by
  unfold ownAttribute?
  simp only [Heap.unplaced_inst, Heap.findMember?_unplaced, Heap.unplaced_module, Heap.unplaced_enum,
    Heap.unplaced_exception, ExceptionObject.message_unplaced, Heap.exceptionTypeName_unplaced]

/-- A value stands for the same call, whose method may have positions. -/
@[grind =] theorem callOf?_unplaced (callee : Value) (args : List Value) :
    callOf? h.unplaced callee args = callOf? h callee args := rfl

@[grind =] theorem size?_unplaced (v : Value) : size? h.unplaced v = size? h v := rfl

/-- An exception is an instance of its type. -/
@[grind =] theorem typeOf_unplaced (v : Value) : typeOf h.unplaced v = typeOf h v := by
  cases v with
  | exception id => simp only [typeOf, Heap.unplaced_exception, ExceptionObject.type_unplaced]
  | _ => rfl

@[grind =] theorem iterOver?_unplaced (v : Value) : iterOver? h.unplaced v = iterOver? h v := rfl

/-- An instance is wrapped in an exception with its own message. -/
theorem wrapped_unplaced (id : InstanceId) :
    exceptionOf.wrapped h.unplaced id = exceptionOf.wrapped h id := by
  rw [exceptionOf.wrapped, exceptionOf.wrapped, Operation.exceptionTypeOf_unplaced,
    funext h.display_unplaced]
  rfl

@[grind =] theorem makeRoom_unplaced (h : Heap) (code : Method) (env : Option EnvId) :
    h.unplaced.makeRoom code env = (h.makeRoom code env).unplaced := by
  cases env <;> rfl

end Action

/-! ## Raising -/

namespace Machine

/-- The owner of a region goes on at the same target with the same operands. -/
theorem unwind_unplaced (calls : CallStack) (h : Handler) :
    unwind calls.unplaced h = (unwind calls h).unplaced := by
  have recovers (f : Frame) : f.unplaced.recover h = (f.recover h).unplaced := rfl
  rw [unwind, CallStack.unplaced_cutTo]
  exact CallStack.unplaced_modifyTop recovers _

/-- The trace that an exception gets, if it gets one, has no positions either. -/
theorem announced_unplaced (m : Machine) (id : ExceptionId) :
    m.unplaced.announced id = (m.announced id).unplaced := by
  have traced : m.unplaced.heap.setTrace id m.unplaced.trace
      = (m.heap.setTrace id m.trace).unplaced := by
    rw [trace_unplaced]
    exact m.heap.setTrace_unplaced id m.trace
  unfold announced tell
  dsimp only
  rw [traced]
  refine note_unplaced { m with heap := m.heap.setTrace id m.trace } ?_
  rw [Heap.unplaced_exception]
  rfl

/-- Raising finds the same open region, or none. -/
theorem raise_unplaced (m : Machine) (id : ExceptionId) :
    m.unplaced.raise id = (m.raise id).unplaced := by
  cases opened : m.handlers with
  | nil =>
      have opened' : m.unplaced.handlers = [] := opened
      rw [raise_of_nil opened, raise_of_nil opened', announced_unplaced]
      rfl
  | cons h hs =>
      have opened' : m.unplaced.handlers = h :: hs := opened
      rw [raise_of_cons opened, raise_of_cons opened', announced_unplaced, calls_unplaced,
        unwind_unplaced]
      rfl

/-- A fault is raised as a new exception, whose trace is not taken yet. -/
theorem resolve_unplaced (m : Machine) (e : Raised) :
    e.resolve m.unplaced = ((e.resolve m).1, (e.resolve m).2.unplaced) := by
  have fresh (type : ExceptionType) (message : String) :
      m.unplaced.heap.newException { type, message }
        = ((m.heap.newException { type, message }).1,
          (m.heap.newException { type, message }).2.unplaced) :=
    m.heap.newException_fresh type message
  cases e with
  | fault cause | defect cause =>
      rw [Raised.resolve, fresh]
      rfl
  | exception id => rfl

end Machine

/-! ## With positions or without -/

section

variable (blind : Bool)

def Method.viewed (code : Method) : Method :=
  { code with body := bif blind then code.body.map Instruction.unplaced else code.body }

def LoadedMethod.viewed (method : LoadedMethod) : LoadedMethod :=
  { method with code := method.code.viewed blind }

def Frame.viewed (f : Frame) : Frame :=
  { f with method := f.method.viewed blind }

def CallStack.viewed (calls : CallStack) : CallStack :=
  bif blind then calls.unplaced else calls

/-- The machine as one sees it who looks at positions, or does not. -/
def Machine.viewed (m : Machine) : Machine :=
  bif blind then m.unplaced else m

end

namespace Machine

variable {blind : Bool} {α : Type} (m : Machine)

/-- A method is found as the discipline sees it. -/
theorem method_viewed (id : MethodId) :
    (m.viewed blind).heap.method id = (m.heap.method id).viewed blind := by
  cases blind with
  | false => rfl
  | true => exact m.heap.unplaced_method id

theorem heap_viewed : (m.viewed blind).heap = m.heap.viewed blind := by
  cases blind <;> rfl

theorem ask_viewed {question : Machine → α} (same : ∀ m : Machine, question m.unplaced = question m) :
    question (m.viewed blind) = question m := by
  cases blind with
  | false => rfl
  | true => exact same m

/-- A change that looks at no positions can be made in either view. -/
theorem change_viewed {change : Machine → Machine}
    (same : ∀ m : Machine, change m.unplaced = (change m).unplaced) :
    change (m.viewed blind) = (change m).viewed blind := by
  cases blind with
  | false => rfl
  | true => exact same m

/-- What a primitive does to the heap of a machine. -/
theorem withHeap_viewed (h : Heap) :
    { m.viewed blind with heap := h.viewed blind } = { m with heap := h }.viewed blind := by
  cases blind <;> rfl

end Machine

end ScriptMachine
