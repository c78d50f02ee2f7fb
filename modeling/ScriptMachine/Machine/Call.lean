import ScriptMachine.Machine.Attribute
import ScriptMachine.Machine.Iteration
import ScriptMachine.Operation.Conversion
import ScriptMachine.Operation.MapMethods
import ScriptMachine.Operation.Range
import ScriptMachine.Operation.TextMethods

/-!
Calling values. Methods and closures are activated; classes are made ready and then
constructed; built-in functions do their work at once or leave it pending while they
ask objects for what they need.
-/

namespace ScriptMachine

namespace Action

/-! ## Built-in functions -/

/-- Prints texts with blanks between them and a line end behind. -/
def print (texts : List String) : Action Unit := do
  let refused ← modifyGet fun m =>
    let (refused, sink) := m.sink.writeAll (texts.intersperse " " ++ ["\n"])
    (refused, { m with sink })
  if let some f := refused then fault f

/-- The size of a built-in container or text. -/
def size? (h : Heap) : Value → Option Nat
  | .str s => some s.length
  | .tuple items => some items.length
  | .list id => some (h.list id).size
  | .map id => some (h.map id).size
  | _ => none

/-- What a value is an instance of: its class, exception type or built-in type. -/
def typeOf (h : Heap) : Value → Value
  | .instance id => .cls (h.inst id).cls
  | .exception id => .exceptionType (h.exception id).type
  | v => .type v.typeTag

/-- A function installed as a global. -/
def callBuiltin (fn : Builtin) (args : List Value) (pending : Pending) : Action Unit := do
  let arg := args.headD .null
  match fn with
  | .print => showRest [] args (pending.before .print)
  | .len =>
      match ← askHeap (size? · arg) with
      | some n => deliver (.int (Int64.ofNat n)) pending
      | none => hook arg "__len__" [] pending (faultWith fun h => .noLength (h.typeName arg))
  | .repr => deliver (.str (← askHeap (·.repr arg))) pending
  | .str => text arg pending
  | .typeof => deliver (← askHeap (typeOf · arg)) pending
  | .hash =>
      consult fun _ => Operation.checkKey arg
      deliver (.int arg.hash) pending
  | .range =>
      let it ← consult fun h => do Operation.rangeOf (← Operation.rangeWords h args)
      deliver (← make (·.newIterator it)) pending

/-- A function installed by a host. -/
def callHostFunction (fn : HostFunction) (receiver : Option Value) (args : List Value)
    (pending : Pending) : Action Unit := do
  match fn with
  | .apply => deliver (args.headD .null) (pending.before (.apply (args.drop 1)))
  | .add =>
      match args with
      | [.int a, .int b] => deliver (.int (a + b)) pending
      | _ => fault .addTypes
  | .fail => text (args.headD .null) (pending.before .fail)
  | .receiver => deliver (receiver.getD .null) pending

/-- Carries out what a function of the host does, up to the next call it makes. -/
def carryOut (pending : Pending) : Routine → Action Unit
  | .give v => deliver v pending
  | .fail type message => do throw (.exception (← make (·.newException { type, message })))
  | .raise id => throw (.exception id)
  | .edit change next => do
      changeHeap change.apply
      let h ← askHeap id
      carryOut pending (next h)
  | .global name next => do
      let v ← ask (·.globals.get? name)
      carryOut pending (next v)
  | .setGlobal name v next => do
      change fun m => { m with globals := m.globals.set name v }
      carryOut pending next
  | .call callee args next => deliver callee ((pending.before (.proceed next)).before (.apply args))

/-- A function that is not compiled from a script. -/
def callNative (fn : Native) (receiver : Option Value) (args : List Value) (pending : Pending) :
    Action Unit := do
  match fn.arity? with
  | some arity => if arity ≠ args.length then fault (.argumentCount fn.name arity args.length)
  | none => pure ()
  match fn with
  | .builtin fn => callBuiltin fn args pending
  | .host fn => callHostFunction fn receiver args pending
  | .foreign fn => carryOut pending (← ask (·.foreign fn receiver args))
  | .list .appendrange => collect (args.headD .null) (pending.before (.appendItems receiver))
  | .text .join =>
      collect (args.headD .null) ((pending.before (.joinTexts receiver)).before .showItems)
  | .list fn => deliver (← primitive (Operation.listMethod fn receiver args)) pending
  | .map fn => deliver (← primitive (Operation.mapMethod fn receiver args)) pending
  | .text fn => deliver (← primitive (Operation.textMethod fn receiver args)) pending

/-! ## Constructing -/

/-- Calls a built-in type. -/
def constructType (tag : TypeTag) (args : List Value) (pending : Pending) : Action Unit := do
  match tag, args with
  | tag, _ :: _ :: _ => fault (.argumentCount tag.name 1 args.length)
  | .int, [] => deliver (.int 0) pending
  | .int, [v] => deliver (.int (← consult (Operation.toWord · v))) pending
  | .float, [] => deliver (.float (Binary64.zero false)) pending
  | .float, [v] => deliver (.float (← consult (Operation.toFloat · v))) pending
  | .str, [] => deliver (.str "") pending
  | .str, [v] => text v pending
  | .bool, [] => deliver (.bool false) pending
  | .bool, [v] => deliver (.bool (← askHeap (·.truthy v))) pending
  | .list, [] => deliver (← make (·.newList #[])) pending
  | .list, [v] => collect v (pending.before .makeList)
  | .tuple, [] => deliver (.tuple []) pending
  | .tuple, [v] => collect v pending
  | .hashMap, [] => deliver (← make (·.newMap .empty)) pending
  | .hashMap, [.map id] => deliver (← make fun h => h.newMap (h.map id)) pending
  | tag, _ => fault (.notConstructible tag)

/-- Calls a built-in exception type. -/
def constructException (type : ExceptionType) (args : List Value) (pending : Pending) :
    Action Unit := do
  match args with
  | [] => deliver (.exception (← make (·.newException { type, message := "" }))) pending
  | [v] => text v (pending.before (.makeException type))
  | args => fault (.argumentCount type.name 1 args.length)

/-- The call that constructs a new instance of a class. -/
def construction (c : ClassId) (args : List Value) : Action (InstanceId × Call) := do
  let id ← make (·.newInstance c)
  let method ← askHeap fun h => (h.cls c).constructor
  return (id, { method, receiver := some (.instance id), args, owner := some c })

/-! ## Calling any value -/

/-- The call of a method that a value stands for. -/
def callOf? (h : Heap) (callee : Value) (args : List Value) : Option Call :=
  match callee with
  | .method method => some { method, args }
  | .closure id =>
      let closure := h.closure id
      some { method := closure.method, receiver := closure.receiver, args, env := some closure.env }
  | .bound receiver (.method method) => some { method, receiver := some receiver.toValue, args }
  | _ => none

/-- Calls a value in the middle of an operation. -/
def call (callee : Value) (args : List Value) (pending : Pending) : Action Unit := do
  match ← askHeap (callOf? · callee args) with
  | some call => enter call pending
  | none =>
      match callee with
      | .bound receiver (.native object) =>
          callNative object.fn (some receiver.toValue) args pending
      | .native object => callNative object.fn none args pending
      | .cls c => prepare c (pending.before (.construct c args))
      | .type tag => constructType tag args pending
      | .exceptionType type => constructException type args pending
      | v => hook v "__invoke__" args pending (faultWith fun h => .notCallable (h.typeName v))

/-- Calls a value from a running frame, whose operand stack gets the result. -/
def invoke (callee : Value) (args : List Value) : Action Unit := do
  match ← askHeap (callOf? · callee args) with
  | some call => activate call .value
  | none =>
      match callee with
      | .cls c => prepare c { finish := .construct c args }
      | callee => call callee args .push

/-- The class under construction in the topmost frame: its owner, or else the class
of its receiver. -/
def underConstruction : Action (Option ClassId) :=
  ask fun m =>
    match m.frames with
    | [] => none
    | frame :: _ =>
        frame.owner.or
          (match frame.receiver with
            | some (.instance id) => some (m.heap.inst id).cls
            | _ => none)

/-- Runs the constructor of a base on the receiver of the topmost frame. A built-in
exception type has none; its argument becomes the message of the receiver. -/
def invokeSuper (base : Value) (args : List Value) : Action Unit := do
  let owner ← underConstruction
  match base with
  | .cls base =>
      match owner with
      | some c => changeHeap (·.linkBase c base)
      | none => pure ()
      prepare base { finish := .constructBase base args }
  | .exceptionType type =>
      match owner with
      | some c => changeHeap (·.setExceptionBase c type)
      | none => pure ()
      match ← askFrame (·.receiver) none with
      | some (.instance id) =>
          let pending := Pending.discard.before (.setMessage id)
          match args with
          | v :: _ => text v pending
          | [] => deliver (.str "") pending
      | _ => pure ()
  | other => faultWith fun h => .notABase (h.typeName other)

end Action
end ScriptMachine
