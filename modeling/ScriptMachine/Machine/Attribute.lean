import ScriptMachine.Machine.Activation
import ScriptMachine.Heap.Text
import ScriptMachine.Text.Search

/-!
Names: global variables, attributes of objects, and the first use of a class, which
links its declared bases and sets its fields.
-/

namespace ScriptMachine

namespace Machine

/-- A global variable as code of a module sees it: those that belong to no module
come first. -/
def global? (m : Machine) (module : ModuleId) (name : String) : Option Value :=
  (m.globals.get? name).or ((m.heap.module module).attributes.get? name)

/-- Assigns a global variable: an attribute of the module if there is one, else one
that belongs to no module. -/
def setGlobal (m : Machine) (module : ModuleId) (name : String) (v : Value) : Machine :=
  if ((m.heap.module module).attributes.get? name).isSome then
    { m with heap := m.heap.setModuleAttribute module name v }
  else { m with globals := m.globals.set name v }

end Machine

namespace Action

/-- A global variable as code of a module sees it. -/
def global (module : ModuleId) (name : String) : Action Value := do
  match ← ask (·.global? module name) with
  | some v => return v
  | none => fault (.undefinedName name)

/-! ## First use of a class -/

/-- Makes a class ready for use, the first time it is used. -/
def prepare (c : ClassId) (pending : Pending) : Action Unit := do
  if ← askHeap fun h => (h.cls c).prepared then deliver .null pending
  else
    changeHeap (·.modifyClass c ({ · with prepared := true }))
    let paths ← askHeap fun h => (h.cls c).declaredBases
    deliver .null (pending.before (.linkBases c paths))

/-- Sets the fields of a class whose bases are linked. -/
def setFields (c : ClassId) (pending : Pending) : Action Unit := do
  match ← askHeap fun h => (h.cls c).fieldSetter with
  | some method => enter { method, receiver := some (.cls c) } pending
  | none => deliver .null pending

/-- Looks the next declared base of a class up, from the module of the class. -/
def linkBases (c : ClassId) (paths : List String) (pending : Pending) : Action Unit := do
  match paths with
  | [] => setFields c pending
  | path :: paths =>
      let segments := Text.pieces '.' path
      let module ← askHeap fun h => (h.method (h.cls c).constructor).module
      let first ← global module (segments.headD "")
      deliver first ((pending.before (.baseFound c paths)).before (.follow (segments.drop 1)))

/-- Takes a value as a base of a class. What is neither a class nor an exception type
is passed over here; calling its constructor reports it. -/
def baseFound (c : ClassId) (paths : List String) (v : Value) (pending : Pending) :
    Action Unit := do
  let pending := pending.before (.linkBases c paths)
  match v with
  | .cls base =>
      changeHeap (·.linkBase c base)
      prepare base pending
  | .exceptionType type =>
      changeHeap (·.setExceptionBase c type)
      deliver .null pending
  | _ => deliver .null pending

/-! ## Attributes -/

/-- The method of a built-in value that a name stands for. -/
def builtinMethod? (v : Value) (name : String) : Option (Receiver × Native) :=
  match v with
  | .list id => (ListMethod.ofName? name).map fun fn => (.list id, .list fn)
  | .map id => (MapMethod.ofName? name).map fun fn => (.map id, .map fn)
  | .str s => (TextMethod.ofName? name).map fun fn => (.str s, .text fn)
  | _ => none

/-- An attribute that is there without any work: methods are bound to the instance
they are read from. -/
def ownAttribute? (h : Heap) (v : Value) (name : String) : Option Value :=
  match v with
  | .instance id =>
      match (h.inst id).attributes.get? name with
      | some value => some value
      | none =>
          (h.findMember? (h.inst id).cls name).map fun
            | .method method => .bound (.instance id) (.method method)
            | .attribute value => value
  | .module id => (h.module id).attributes.get? name
  | .enum id => ((h.enum id).members.lookup name).map .int
  | .exception id =>
      if name = "message" then some (.str (h.exception id).message)
      else if name = "type" then some (.str (h.exceptionTypeName id))
      else none
  | _ => none

/-- Reads an attribute. -/
def readAttribute (v : Value) (name : String) (pending : Pending) : Action Unit := do
  match v with
  | .cls c => prepare c (pending.before (.classAttribute c name))
  | v =>
      match ← askHeap (ownAttribute? · v name) with
      | some value => deliver value pending
      | none =>
          match builtinMethod? v name with
          | some (receiver, fn) =>
              let object ← make (·.newNative fn)
              deliver (.bound receiver (.native object)) pending
          | none => faultWith fun h => .noAttribute (h.typeName v) name

/-- Reads an attribute of a class that is ready for use. -/
def readClassAttribute (c : ClassId) (name : String) (pending : Pending) : Action Unit := do
  match ← askHeap (·.findAttribute? c name) with
  | some value => deliver value pending
  | none => faultWith fun h => .noAttribute (h.typeName (.cls c)) name

/-- Sets an attribute. -/
def writeAttribute (target : Value) (name : String) (v : Value) : Action Unit := do
  match target with
  | .instance id => changeHeap (·.setInstanceAttribute id name v)
  | .cls c => changeHeap (·.setClassAttribute c name v)
  | .module id => changeHeap (·.setModuleAttribute id name v)
  | other => faultWith fun h => .fixedAttributes (h.typeName other) name

end Action
end ScriptMachine
