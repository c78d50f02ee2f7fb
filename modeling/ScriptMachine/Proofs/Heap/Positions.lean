import ScriptMachine.Heap.Iteration
import ScriptMachine.Operation.Arithmetic
import ScriptMachine.Operation.Conversion
import ScriptMachine.Operation.Range
import ScriptMachine.Operation.MapMethods
import ScriptMachine.Operation.TextMethods

/-!
Positions in a run. The instructions of a method and the lines of a trace say where they come from
in a source text. No operation looks at that: on a heap without positions it gives the same result, and
leaves the same heap without positions.
-/

namespace ScriptMachine

/-! ## Without positions -/

def Instruction.unplaced (i : Instruction) : Instruction :=
  { i with loc := {} }

def Method.unplaced (code : Method) : Method :=
  { code with body := code.body.map Instruction.unplaced }

def LoadedMethod.unplaced (method : LoadedMethod) : LoadedMethod :=
  { method with code := method.code.unplaced }

def TraceFrame.unplaced (line : TraceFrame) : TraceFrame :=
  { line with loc := {} }

def ExceptionObject.unplaced (e : ExceptionObject) : ExceptionObject :=
  { e with trace := e.trace.map TraceFrame.unplaced }

/-- Where there is no method there is no position either. -/
@[simp] theorem LoadedMethod.unplaced_default : (default : LoadedMethod).unplaced = default := by
  have empty : (#[] : Array Instruction).map Instruction.unplaced = #[] := Array.map_empty
  let withBody (body : Array Instruction) : LoadedMethod :=
    { (default : LoadedMethod) with code := { (default : Method) with body } }
  exact congrArg withBody empty

@[simp, grind =] theorem LoadedMethod.name_unplaced (method : LoadedMethod) :
    method.unplaced.code.name = method.code.name := rfl

@[simp, grind =] theorem LoadedMethod.arity_unplaced (method : LoadedMethod) :
    method.unplaced.code.arity = method.code.arity := rfl

@[simp, grind =] theorem LoadedMethod.module_unplaced (method : LoadedMethod) :
    method.unplaced.module = method.module := rfl

@[simp, grind =] theorem ExceptionObject.type_unplaced (e : ExceptionObject) :
    e.unplaced.type = e.type := rfl

@[simp, grind =] theorem ExceptionObject.message_unplaced (e : ExceptionObject) :
    e.unplaced.message = e.message := rfl

@[simp, grind =] theorem ExceptionObject.payload_unplaced (e : ExceptionObject) :
    e.unplaced.payload = e.payload := rfl

/-- The heap with all positions taken out. -/
def Heap.unplaced (h : Heap) : Heap :=
  { h with
    methods := h.methods.map LoadedMethod.unplaced
    exceptions := h.exceptions.map ExceptionObject.unplaced }

namespace Heap

variable (h : Heap)

/-! ## What is found on the heap -/

/-- A method is found as it was, without the positions of its instructions. -/
@[grind =] theorem unplaced_method (id : MethodId) :
    h.unplaced.method id = (h.method id).unplaced := by
  simp only [method, unplaced, Array.getD_eq_getD_getElem?, Array.getElem?_map]
  cases h.methods[id]? with
  | none => exact LoadedMethod.unplaced_default.symm
  | some m => rfl

/-- An exception is found as it was, without the positions in its trace. -/
@[grind =] theorem unplaced_exception (id : ExceptionId) :
    h.unplaced.exception id = (h.exception id).unplaced := by
  simp only [exception, unplaced, Array.getD_eq_getD_getElem?, Array.getElem?_map]
  cases h.exceptions[id]? <;> rfl

/-- All other objects have no positions and are found as they were. -/
@[grind =] theorem unplaced_list (id : ListId) : h.unplaced.list id = h.list id := rfl
@[grind =] theorem unplaced_map (id : MapId) : h.unplaced.map id = h.map id := rfl
@[grind =] theorem unplaced_closure (id : ClosureId) : h.unplaced.closure id = h.closure id := rfl
@[grind =] theorem unplaced_cls (id : ClassId) : h.unplaced.cls id = h.cls id := rfl
@[grind =] theorem unplaced_inst (id : InstanceId) : h.unplaced.inst id = h.inst id := rfl
@[grind =] theorem unplaced_module (id : ModuleId) : h.unplaced.module id = h.module id := rfl
@[grind =] theorem unplaced_interface (id : InterfaceId) :
    h.unplaced.interface id = h.interface id := rfl
@[grind =] theorem unplaced_enum (id : EnumId) : h.unplaced.enum id = h.enum id := rfl
@[grind =] theorem unplaced_iterator (id : IteratorId) :
    h.unplaced.iterator id = h.iterator id := rfl

@[grind =] theorem unplaced_envs : h.unplaced.envs = h.envs := rfl

/-! ## Questions -/

@[grind =] theorem typeName_unplaced (v : Value) : h.unplaced.typeName v = h.typeName v := rfl

@[grind =] theorem truthy_unplaced (v : Value) : h.unplaced.truthy v = h.truthy v := rfl

/-- The name of the type of an exception comes from its class or is the name of a built-in type. -/
@[grind =] theorem exceptionTypeName_unplaced (id : ExceptionId) :
    h.unplaced.exceptionTypeName id = h.exceptionTypeName id := by
  simp only [exceptionTypeName, unplaced_exception, ExceptionObject.payload_unplaced,
    ExceptionObject.type_unplaced, unplaced_cls, unplaced_inst]

/-- The text of a value that holds no others may have the name of a method or a message, but no
position. -/
@[grind =] theorem atomText_unplaced (v : Value) : h.unplaced.atomText v = h.atomText v := by
  unfold atomText
  cases v <;> simp only [unplaced_method, unplaced_closure, unplaced_cls, unplaced_inst,
    unplaced_exception, unplaced_module, unplaced_interface, unplaced_enum, typeName_unplaced,
    exceptionTypeName_unplaced, LoadedMethod.name_unplaced, ExceptionObject.message_unplaced]

/-- No text of a value has a position in it. The induction is on the levels that are left. -/
@[grind =] theorem reprWithin_unplaced (levels : Nat) (v : Value) :
    h.unplaced.reprWithin levels v = h.reprWithin levels v := by
  induction levels generalizing v with
  | zero => rfl
  | succ levels ih =>
      cases v <;> simp [reprWithin, ih, unplaced_list, unplaced_map, atomText_unplaced]

/-- The text that `repr` gives has no position in it. -/
@[grind =] theorem repr_unplaced (v : Value) : h.unplaced.repr v = h.repr v :=
  h.reprWithin_unplaced _ v

/-- The text that is printed has no position in it. -/
@[grind =] theorem display_unplaced (v : Value) : h.unplaced.display v = h.display v := by
  cases v <;> first | rfl | exact h.repr_unplaced _

/-- Exceptions are compared by identity, and so are methods. The induction is on the budget. -/
@[grind =] theorem equalsWithin_unplaced (budget : Nat) (a b : Value) :
    h.unplaced.equalsWithin budget a b = h.equalsWithin budget a b := by
  induction budget generalizing a b with
  | zero =>
      unfold equalsWithin
      split <;> rfl
  | succ budget ih =>
      unfold equalsWithin
      simp only [ih, unplaced_list, unplaced_map]

/-- Whether values are equal does not depend on positions. -/
@[grind =] theorem equals?_unplaced (a b : Value) : h.unplaced.equals? a b = h.equals? a b :=
  h.equalsWithin_unplaced _ a b

@[grind =] theorem equals_unplaced (a b : Value) : h.unplaced.equals a b = h.equals a b := by
  rw [equals, equals?_unplaced, equals]

/-- Classes are searched for members in the same order. The induction is on the fuel. -/
@[grind =] theorem searchUp_unplaced {α : Type} (ask : ClassId → Option α) (fuel : Nat)
    (c : ClassId) : h.unplaced.searchUp ask fuel c = h.searchUp ask fuel c := by
  induction fuel generalizing c with
  | zero => rfl
  | succ fuel ih => simp only [searchUp, ih, unplaced_cls]

@[grind =] theorem search_unplaced {α : Type} (ask : ClassId → Option α) (c : ClassId) :
    h.unplaced.search ask c = h.search ask c :=
  h.searchUp_unplaced ask _ c

/-- A class has the same members. -/
@[grind =] theorem findMember?_unplaced (c : ClassId) (name : String) :
    h.unplaced.findMember? c name = h.findMember? c name :=
  h.search_unplaced _ c

@[grind =] theorem findAttribute?_unplaced (c : ClassId) (name : String) :
    h.unplaced.findAttribute? c name = h.findAttribute? c name := by
  rw [findAttribute?, findMember?_unplaced, findAttribute?]

/-- A class has the same methods. -/
@[grind =] theorem findInstanceMethod?_unplaced (c : ClassId) (name : String) :
    h.unplaced.findInstanceMethod? c name = h.findInstanceMethod? c name := by
  rw [findInstanceMethod?, findMember?_unplaced, findInstanceMethod?]

@[grind =] theorem instanceMethod?_unplaced (v : Value) (name : String) :
    h.unplaced.instanceMethod? v name = h.instanceMethod? v name := by
  cases v <;> first | rfl | exact h.findInstanceMethod?_unplaced _ name

@[grind =] theorem isSubclass_unplaced (c other : ClassId) :
    h.unplaced.isSubclass c other = h.isSubclass c other := by
  rw [isSubclass, search_unplaced, isSubclass]

@[grind =] theorem exceptionBase?_unplaced (c : ClassId) :
    h.unplaced.exceptionBase? c = h.exceptionBase? c :=
  h.search_unplaced _ c

/-- What an interface requires of a method is its name and how many parameters it has. -/
@[grind =] theorem implements_unplaced (c : ClassId) (i : InterfaceId) :
    h.unplaced.implements c i = h.implements c i := by
  simp only [implements, findInstanceMethod?_unplaced, unplaced_method, unplaced_interface,
    LoadedMethod.arity_unplaced]

/-! ## Changes -/

/-- An exception that has a trace keeps it, whether there are positions in it or not. So it does not
matter when the positions are taken out. -/
@[grind =] theorem setTrace_unplaced (id : ExceptionId) (trace : List TraceFrame) :
    h.unplaced.setTrace id (trace.map TraceFrame.unplaced) = (h.setTrace id trace).unplaced := by
  have same : (h.exceptions.map ExceptionObject.unplaced).modify id (fun e =>
        if e.trace.isEmpty then { e with trace := trace.map TraceFrame.unplaced } else e)
      = (h.exceptions.modify id fun e => if e.trace.isEmpty then { e with trace } else e).map
          ExceptionObject.unplaced := by
    refine Array.ext (by simp) fun k _ _ => ?_
    simp only [Array.getElem_modify, Array.getElem_map]
    split
    · simp only [ExceptionObject.unplaced, List.isEmpty_map]
      split <;> rfl
    · rfl
  exact congrArg (fun exceptions => { h.unplaced with exceptions }) same

/-- An exception that has no trace yet has no positions. -/
theorem newException_unplaced {e : ExceptionObject} (new : e.unplaced = e) :
    h.unplaced.newException e = ((h.newException e).1, (h.newException e).2.unplaced) := by
  simp only [newException, unplaced, Array.map_push, Array.size_map, new]

/-- A fault is raised as an exception that has no trace yet. -/
@[grind =] theorem newException_fresh (type : ExceptionType) (message : String) :
    h.unplaced.newException { type, message } = ((h.newException { type, message }).1,
      (h.newException { type, message }).2.unplaced) :=
  h.newException_unplaced rfl

/-- New objects are made with the same identities. -/
@[grind =] theorem newList_unplaced (items : Array Value) :
    h.unplaced.newList items = ((h.newList items).1, (h.newList items).2.unplaced) := rfl
@[grind =] theorem newMap_unplaced (table : Table) :
    h.unplaced.newMap table = ((h.newMap table).1, (h.newMap table).2.unplaced) := rfl
@[grind =] theorem newEnv_unplaced (slots : Array Value) :
    h.unplaced.newEnv slots = ((h.newEnv slots).1, (h.newEnv slots).2.unplaced) := rfl
@[grind =] theorem newClosure_unplaced (c : Closure) :
    h.unplaced.newClosure c = ((h.newClosure c).1, (h.newClosure c).2.unplaced) := rfl
@[grind =] theorem newInstance_unplaced (c : ClassId) :
    h.unplaced.newInstance c = ((h.newInstance c).1, (h.newInstance c).2.unplaced) := rfl
/-- Objects without positions are changed the same way. -/
@[grind =] theorem modifyList_unplaced (id : ListId) (change : Array Value → Array Value) :
    h.unplaced.modifyList id change = (h.modifyList id change).unplaced := rfl
@[grind =] theorem modifyMap_unplaced (id : MapId) (change : Table → Table) :
    h.unplaced.modifyMap id change = (h.modifyMap id change).unplaced := rfl
@[grind =] theorem modifyEnv_unplaced (id : EnvId) (change : Array Value → Array Value) :
    h.unplaced.modifyEnv id change = (h.modifyEnv id change).unplaced := rfl
@[grind =] theorem modifyClass_unplaced (c : ClassId) (change : ClassObject → ClassObject) :
    h.unplaced.modifyClass c change = (h.modifyClass c change).unplaced := rfl
@[grind =] theorem setInstanceAttribute_unplaced (id : InstanceId) (name : String) (v : Value) :
    h.unplaced.setInstanceAttribute id name v = (h.setInstanceAttribute id name v).unplaced := rfl
@[grind =] theorem setClassAttribute_unplaced (c : ClassId) (name : String) (v : Value) :
    h.unplaced.setClassAttribute c name v = (h.setClassAttribute c name v).unplaced := rfl
@[grind =] theorem setModuleAttribute_unplaced (id : ModuleId) (name : String) (v : Value) :
    h.unplaced.setModuleAttribute id name v = (h.setModuleAttribute id name v).unplaced := rfl
@[grind =] theorem setIterator_unplaced (id : IteratorId) (it : Iter) :
    h.unplaced.setIterator id it = (h.setIterator id it).unplaced := rfl
@[grind =] theorem setExceptionBase_unplaced (c : ClassId) (type : ExceptionType) :
    h.unplaced.setExceptionBase c type = (h.setExceptionBase c type).unplaced := rfl

/-- A class is linked to a base that it does not have already, or not at all. -/
@[grind =] theorem linkBase_unplaced (c base : ClassId) :
    h.unplaced.linkBase c base = (h.linkBase c base).unplaced := by
  unfold linkBase
  rw [isSubclass_unplaced]
  split <;> rfl

end Heap

/-! ## With positions or without -/

/-- The heap as one sees it who looks at positions, or does not. -/
def Heap.viewed (blind : Bool) (h : Heap) : Heap :=
  bif blind then h.unplaced else h

section

variable {α : Type} {blind : Bool}

/-- A question that does not depend on positions has one answer in either view. -/
theorem Heap.ask_viewed {question : Heap → α} (same : ∀ h : Heap, question h.unplaced = question h)
    (h : Heap) : question (h.viewed blind) = question h := by
  cases blind with
  | false => rfl
  | true => exact same h

/-- A change that does not depend on positions can be made in either view. -/
theorem Heap.change_viewed {change : Heap → Heap}
    (same : ∀ h : Heap, change h.unplaced = (change h).unplaced) (h : Heap) :
    change (h.viewed blind) = (change h).viewed blind := by
  cases blind with
  | false => rfl
  | true => exact same h

/-- An object that is made without regard to positions can be made in either view. -/
theorem Heap.make_viewed {make : Heap → α × Heap}
    (same : ∀ h : Heap, make h.unplaced = ((make h).1, (make h).2.unplaced)) (h : Heap) :
    make (h.viewed blind) = ((make h).1, (make h).2.viewed blind) := by
  cases blind with
  | false => rfl
  | true => exact same h

end

/-! ## Questions of operations -/

namespace Operation

variable (h : Heap)

/-- A fault names the types of the operands. -/
@[grind =] theorem unsupported_unplaced (op : BinaryOp) (left right : Value) :
    unsupported h.unplaced op left right = unsupported h op left right := rfl

@[grind =] theorem comparison_unplaced (op : BinaryOp) (left right : Value) :
    comparison h.unplaced op left right = comparison h op left right := rfl

/-- Comparing for equality may fail, but not because of positions. -/
@[grind =] theorem equality_unplaced (left right : Value) :
    equality h.unplaced left right = equality h left right := by
  rw [equality, Heap.equals?_unplaced, equality]

@[grind =] theorem unary_unplaced (op : UnaryOp) (v : Value) :
    unary h.unplaced op v = unary h op v := rfl

@[grind =] theorem position_unplaced (index : Value) (size : Nat) :
    position h.unplaced index size = position h index size := rfl

@[grind =] theorem lookup?_unplaced (id : MapId) (key : Value) :
    lookup? h.unplaced id key = lookup? h id key := rfl

@[grind =] theorem lookup_unplaced (id : MapId) (key : Value) :
    lookup h.unplaced id key = lookup h id key := by
  simp only [lookup, lookup?_unplaced, Heap.repr_unplaced]

/-- What is read from a container is an item of it or a fault. -/
@[grind =] theorem item?_unplaced (container index : Value) :
    item? h.unplaced container index = item? h container index := by
  cases container <;> first | rfl | exact congrArg some (lookup_unplaced h _ index)

@[grind =] theorem toWord_unplaced (v : Value) : toWord h.unplaced v = toWord h v := by
  simp only [toWord, Heap.repr_unplaced, Heap.typeName_unplaced]

@[grind =] theorem toFloat_unplaced (v : Value) : toFloat h.unplaced v = toFloat h v := by
  simp only [toFloat, Heap.repr_unplaced, Heap.typeName_unplaced]

@[grind =] theorem exceptionTypeOf_unplaced (c : ClassId) :
    exceptionTypeOf h.unplaced c = exceptionTypeOf h c := by
  rw [exceptionTypeOf, Heap.exceptionBase?_unplaced, exceptionTypeOf]

/-- An exception is an instance of its type, and an instance is one of its class. -/
@[grind =] theorem isInstanceOf_unplaced (v type : Value) :
    isInstanceOf h.unplaced v type = isInstanceOf h v type := by
  simp only [isInstanceOf, Heap.isSubclass_unplaced, Heap.implements_unplaced,
    Heap.unplaced_exception, ExceptionObject.type_unplaced, exceptionTypeOf_unplaced,
    Heap.unplaced_inst, Heap.typeName_unplaced]

/-- The bounds of a range are words, or a fault names what they are. -/
@[grind =] theorem rangeWords_unplaced (args : List Value) :
    rangeWords h.unplaced args = rangeWords h args := by
  induction args with
  | nil => rfl
  | cons v rest ih => cases v <;> simp only [rangeWords, ih, Heap.typeName_unplaced]

@[grind =] theorem receiverName_unplaced (receiver : Option Value) :
    receiverName h.unplaced receiver = receiverName h receiver := rfl

@[grind =] theorem firstIndex?_unplaced (id : ListId) (v : Value) :
    firstIndex? h.unplaced id v = firstIndex? h id v := by
  simp only [firstIndex?, Heap.unplaced_list, Heap.equals_unplaced]

@[grind =] theorem lastIndex?_unplaced (id : ListId) (v : Value) :
    lastIndex? h.unplaced id v = lastIndex? h id v := by
  simp only [lastIndex?, Heap.unplaced_list, Heap.equals_unplaced]

/-- A value that is not found is named in the fault. -/
@[grind =] theorem foundIndex_unplaced (v : Value) (found : Option Nat) :
    foundIndex h.unplaced v found = foundIndex h v found := by
  cases found <;> simp only [foundIndex, Heap.repr_unplaced]

end Operation

end ScriptMachine
