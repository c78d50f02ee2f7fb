import ScriptMachine.Value.Table
import ScriptMachine.Code.Unit

/-!
The heap: every object that has an identity, in one table per kind. Objects are
never removed, so a number once handed out stays valid. Reading a number that was
never handed out gives an empty object.
-/

namespace ScriptMachine

/-- A method with the module whose constants and globals it uses. -/
structure LoadedMethod where
  code : Method
  module : ModuleId
deriving Inhabited

/-- A method with the environment and the receiver of the frame that made it. -/
structure Closure where
  method : MethodId
  env : EnvId
  receiver : Option Value
deriving Inhabited

/-- A class. -/
structure ClassObject where
  name : String
  constructor : MethodId
  /-- Sets the fields, run once before the class is first used. -/
  fieldSetter : Option MethodId
  instanceMethods : Bindings MethodId
  attributes : Bindings Value
  /-- Dotted names of the bases in the declaration. -/
  declaredBases : List String
  /-- Bases linked so far, in order. -/
  bases : List ClassId := []
  /-- The built-in exception type the class derives from directly. -/
  exceptionBase : Option ExceptionType := none
  /-- The first use has begun. -/
  prepared : Bool := false
deriving Inhabited

/-- An instance of a class. -/
structure InstanceObject where
  cls : ClassId
  attributes : Bindings Value := []
deriving Inhabited

/-- One line of a trace: a method and the position it was executing. -/
structure TraceFrame where
  name : String
  loc : Location
deriving Repr, DecidableEq, Inhabited

/-- An exception. The trace is set when it is first raised, innermost frame first. -/
structure ExceptionObject where
  type : ExceptionType
  message : String
  /-- The instance that was raised, if it was not a built-in exception. -/
  payload : Option InstanceId := none
  trace : List TraceFrame := []
deriving Repr, DecidableEq, Inhabited

/-- A module. The constants are fixed, the attributes are its global variables. -/
structure ModuleObject where
  name : String
  file : String
  constants : Array Value := #[]
  attributes : Bindings Value := []
  topLevel : MethodId
deriving Inhabited

/-- An iterator over built-in data. -/
inductive Iter where
  /-- Walks a list by position, so that items added meanwhile are visited. -/
  | list (id : ListId) (index : Nat) (current : Value)
  /-- Walks a fixed sequence; `rest` is what is left of it. -/
  | items (all rest : List Value) (current : Value)
  /-- Walks an arithmetic progression. -/
  | range (first stop step next : Int64) (current : Value)
deriving Inhabited

/-- All objects. -/
structure Heap where
  lists : Array (Array Value) := #[]
  maps : Array Table := #[]
  /-- Environments: local variables, shared by a frame and its closures. -/
  envs : Array (Array Value) := #[]
  closures : Array Closure := #[]
  methods : Array LoadedMethod := #[]
  classes : Array ClassObject := #[]
  instances : Array InstanceObject := #[]
  exceptions : Array ExceptionObject := #[]
  modules : Array ModuleObject := #[]
  interfaces : Array InterfaceDecl := #[]
  enums : Array EnumCode := #[]
  iterators : Array Iter := #[]
  /-- Number of the next function object. -/
  nextNative : Nat := 0
deriving Inhabited

namespace Heap

/-! ## Reading -/

/-- The items of a list. -/
def list (h : Heap) (id : ListId) : Array Value := h.lists.getD id #[]

/-- The contents of a map. -/
def map (h : Heap) (id : MapId) : Table := h.maps.getD id .empty

/-- The slots of an environment. -/
def env (h : Heap) (id : EnvId) : Array Value := h.envs.getD id #[]

/-- A closure. -/
def closure (h : Heap) (id : ClosureId) : Closure := h.closures.getD id default

/-- A method. -/
def method (h : Heap) (id : MethodId) : LoadedMethod := h.methods.getD id default

/-- A class. -/
def cls (h : Heap) (id : ClassId) : ClassObject := h.classes.getD id default

/-- An instance. -/
def inst (h : Heap) (id : InstanceId) : InstanceObject := h.instances.getD id default

/-- An exception. -/
def exception (h : Heap) (id : ExceptionId) : ExceptionObject := h.exceptions.getD id default

/-- A module. -/
def module (h : Heap) (id : ModuleId) : ModuleObject := h.modules.getD id default

/-- An interface. -/
def interface (h : Heap) (id : InterfaceId) : InterfaceDecl := h.interfaces.getD id default

/-- An enum. -/
def enum (h : Heap) (id : EnumId) : EnumCode := h.enums.getD id default

/-- An iterator. -/
def iterator (h : Heap) (id : IteratorId) : Iter := h.iterators.getD id default

/-! ## Making objects -/

/-- A new list. -/
def newList (h : Heap) (items : Array Value) : Value × Heap :=
  (.list h.lists.size, { h with lists := h.lists.push items })

/-- A new map. -/
def newMap (h : Heap) (table : Table) : Value × Heap :=
  (.map h.maps.size, { h with maps := h.maps.push table })

/-- A new environment. -/
def newEnv (h : Heap) (slots : Array Value) : EnvId × Heap :=
  (h.envs.size, { h with envs := h.envs.push slots })

/-- A new closure. -/
def newClosure (h : Heap) (c : Closure) : Value × Heap :=
  (.closure h.closures.size, { h with closures := h.closures.push c })

/-- A new instance of a class, without attributes. -/
def newInstance (h : Heap) (cls : ClassId) : InstanceId × Heap :=
  (h.instances.size, { h with instances := h.instances.push { cls } })

/-- A new exception. -/
def newException (h : Heap) (e : ExceptionObject) : ExceptionId × Heap :=
  (h.exceptions.size, { h with exceptions := h.exceptions.push e })

/-- A new iterator. -/
def newIterator (h : Heap) (it : Iter) : Value × Heap :=
  (.iterator h.iterators.size, { h with iterators := h.iterators.push it })

/-- A new object for a function. -/
def newNative (h : Heap) (fn : Native) : NativeObject × Heap :=
  (⟨fn, h.nextNative⟩, { h with nextNative := h.nextNative + 1 })

/-! ## Changing objects -/

/-- Changes the items of a list. -/
def modifyList (h : Heap) (id : ListId) (change : Array Value → Array Value) : Heap :=
  { h with lists := h.lists.modify id change }

/-- Changes the contents of a map. -/
def modifyMap (h : Heap) (id : MapId) (change : Table → Table) : Heap :=
  { h with maps := h.maps.modify id change }

/-- Changes the slots of an environment. -/
def modifyEnv (h : Heap) (id : EnvId) (change : Array Value → Array Value) : Heap :=
  { h with envs := h.envs.modify id change }

/-- Changes a class. -/
def modifyClass (h : Heap) (id : ClassId) (change : ClassObject → ClassObject) : Heap :=
  { h with classes := h.classes.modify id change }

/-- Sets an attribute of an instance. -/
def setInstanceAttribute (h : Heap) (id : InstanceId) (name : String) (value : Value) : Heap :=
  { h with instances := h.instances.modify id fun i =>
      { i with attributes := i.attributes.set name value } }

/-- Sets an attribute of a class. -/
def setClassAttribute (h : Heap) (id : ClassId) (name : String) (value : Value) : Heap :=
  h.modifyClass id fun c => { c with attributes := c.attributes.set name value }

/-- Sets an attribute of a module. -/
def setModuleAttribute (h : Heap) (id : ModuleId) (name : String) (value : Value) : Heap :=
  { h with modules := h.modules.modify id fun m =>
      { m with attributes := m.attributes.set name value } }

/-- Sets the trace of an exception that has none. -/
def setTrace (h : Heap) (id : ExceptionId) (trace : List TraceFrame) : Heap :=
  { h with exceptions := h.exceptions.modify id fun e =>
      if e.trace.isEmpty then { e with trace } else e }

/-- Replaces an iterator. -/
def setIterator (h : Heap) (id : IteratorId) (it : Iter) : Heap :=
  { h with iterators := h.iterators.modify id fun _ => it }

/-! ## Questions about values -/

/-- The name of a value's type; instances are named by their class. -/
def typeName (h : Heap) : Value → String
  | .instance id => (h.cls (h.inst id).cls).name
  | v => v.typeTag.name

/-- Null, false, zero and whatever is empty count as false. -/
def truthy (h : Heap) : Value → Bool
  | .null => false
  | .bool b => b
  | .int i => i != 0
  | .float f => f.magnitude != 0
  | .str s => s != ""
  | .tuple items => !items.isEmpty
  | .list id => !(h.list id).isEmpty
  | .map id => (h.map id).size != 0
  | _ => true

end Heap
end ScriptMachine
