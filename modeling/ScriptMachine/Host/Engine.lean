import ScriptMachine.Host.Uncaught
import ScriptMachine.Host.Value
import ScriptMachine.Heap.Loading
import ScriptMachine.Machine.Dispatcher

/-!
Running scripts from a host. An engine owns one machine; modules that run on it share
its global variables and its modules, so a host can run a module and then call the
functions it defines.
-/

namespace ScriptMachine

namespace Machine

/-- The most steps a run may take; no run that a computer can finish takes as many. -/
def fuel : Nat := Nat.pow 2 62

/-- Gives every built-in function and type its global name. -/
def installBuiltins (m : Machine) : Machine :=
  let (natives, heap) := m.heap.newNatives (Builtin.all.map .builtin)
  let types := TypeTag.globals.map fun t => (t.name, Value.type t)
  let exceptions := ExceptionType.all.map fun t => (t.name, Value.exceptionType t)
  { m with heap, globals := natives ++ types ++ exceptions }

/-- Gives functions of the host their global names. -/
def installNatives (m : Machine) (fns : List Native) : Machine :=
  let (natives, heap) := m.heap.newNatives fns
  { m with
    heap
    globals := natives.foldl (fun globals (name, v) => globals.set name v) m.globals }

/-- Starts a run with an action and lets its dispatch loops run to their end. -/
def runAction (m : Machine) (action : Action Unit) : Machine :=
  ((Dispatcher.start { m with control := .running } action).run fuel).machine

/-- Runs the top level of a module, which is remembered under its own name. -/
def runModule (m : Machine) (id : ModuleId) : Machine :=
  let module := m.heap.module id
  { m with modules := m.modules.set module.name id }.runAction
    (Action.enter { method := module.topLevel } { finish := .halt })

/-- Calls a value. -/
def callValue (m : Machine) (callee : Value) (args : List Value) : Machine :=
  m.runAction (Action.call callee args { finish := .halt })

end Machine

/-- Names of all built-in globals, in the order they are installed. -/
def builtinNames : List String :=
  Builtin.all.map (·.name) ++ TypeTag.globals.map (·.name) ++ ExceptionType.all.map (·.name)

/-- How a run ended. -/
inductive Outcome where
  | value (v : HostValue)
  | uncaught (e : UncaughtException)
  /-- The run did not end. -/
  | unfinished
deriving Inhabited

/-- A machine with the module that was run last. -/
structure Engine where
  machine : Machine
  main : Option ModuleId := none
deriving Inhabited

namespace Engine

/-- How the last run ended. -/
def outcome (e : Engine) : Outcome :=
  match e.machine.control with
  | .returned v => .value (.ofValue e.machine.heap v)
  | .uncaught id => .uncaught (.ofHeap e.machine.heap id)
  | _ => .unfinished

/-- Runs the top level of a module. -/
def runModule (e : Engine) (id : ModuleId) : Outcome × Engine :=
  let e := { e with machine := e.machine.runModule id, main := some id }
  (e.outcome, e)

/-- Calls a value. -/
def callValue (e : Engine) (callee : Value) (args : List Value) : Outcome × Engine :=
  let e := { e with machine := e.machine.callValue callee args }
  (e.outcome, e)

/-- Puts values of the host on the heap. -/
def importValues (e : Engine) (values : List HostValue) : Except InvalidInput (List Value) × Engine :=
  let (result, heap) := (HostValue.toValues values).run.run e.machine.heap
  (result, { e with machine := { e.machine with heap } })

/-- The outcome when a value of the host is refused. -/
def refused (cause : InvalidInput) : Outcome :=
  .uncaught (.ofHost .typeError cause.message)

/-- The main function takes the arguments of the program: it is a method with
parameters, or no method at all. -/
def wantsArguments (h : Heap) : Value → Bool
  | .method id => 0 < (h.method id).code.arity || (h.method id).code.variadic
  | _ => true

/-- Runs the top level of a module, then its main function if it has one. The
arguments are passed in one list. -/
def runMain (e : Engine) (id : ModuleId) (args : List HostValue) : Outcome × Engine :=
  match e.runModule id with
  | (.value result, e) =>
      match (e.machine.heap.module id).attributes.get? "main" with
      | none => (.value result, e)
      | some main =>
          if wantsArguments e.machine.heap main then
            match e.importValues args with
            | (.error cause, e) => (refused cause, e)
            | (.ok values, e) =>
                let (list, heap) := e.machine.heap.newList values.toArray
                { e with machine := { e.machine with heap } }.callValue main [list]
          else e.callValue main []
  | other => other

/-- A global variable: an attribute of the module that was run last, or else one that
belongs to no module. -/
def lookup? (e : Engine) (name : String) : Option Value :=
  (e.main.bind fun id => (e.machine.heap.module id).attributes.get? name).or
    (e.machine.globals.get? name)

/-- Calls a function by its global name. -/
def call (e : Engine) (name : String) (args : List HostValue) : Outcome × Engine :=
  match e.lookup? name with
  | none => (.uncaught (.ofHost .nameError (Fault.undefinedName name).message), e)
  | some callee =>
      match e.importValues args with
      | (.error cause, e) => (refused cause, e)
      | (.ok values, e) => e.callValue callee values

/-- The value of a global variable. -/
def global? (e : Engine) (name : String) : Option HostValue :=
  (e.lookup? name).map (HostValue.ofValue e.machine.heap)

/-- Sets a global variable that belongs to no module. -/
def setGlobal (e : Engine) (name : String) (v : HostValue) : Except InvalidInput Unit × Engine :=
  match e.importValues [v] with
  | (.ok values, e) =>
      (.ok (), { e with machine := { e.machine with
        globals := e.machine.globals.set name (values.headD .null) } })
  | (.error cause, e) => (.error cause, e)

/-- Takes what was printed since the last time. -/
def takeOutput (e : Engine) : String × Engine :=
  (e.machine.sink.text,
    { e with machine := { e.machine with sink := { e.machine.sink with text := "" } } })

end Engine
end ScriptMachine
