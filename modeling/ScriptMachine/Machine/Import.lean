import ScriptMachine.Machine.Activation
import ScriptMachine.Text.Path

/-!
Importing modules. A module is remembered under its name before its top level runs,
so that modules which import each other find what is there so far.
-/

namespace ScriptMachine.Action

/-- Gives the module of a name, running its top level if it is new. -/
def loadModule (name : String) (pending : Pending) : Action Unit := do
  match ← ask (·.modules.get? name) with
  | some id => deliver (.module id) pending
  | none =>
      match ← ask (·.loader name) with
      | none => fault (.moduleNotFound name)
      | some id =>
          change fun m =>
            { m with modules := m.modules.set name id }.note fun _ => .load name
          let method ← askHeap fun h => (h.module id).topLevel
          enter { method } (pending.before (.answer (.module id)))

/-- Binds a value in the module of the topmost frame. -/
def bindHere (name : String) (v : Value) : Action Unit :=
  change fun m =>
    match m.frames with
    | [] => m
    | frame :: _ => { m with heap := m.heap.setModuleAttribute frame.method.module name v }

/-- The name a module is bound to: the last part of its path. -/
def bindingName (name : String) : String :=
  (Path.stem? name).getD name

/-- Binds attributes of a module that was imported as `source`, in order. -/
def bindNames (source : String) (module : ModuleId) : List String → Action Unit
  | [] => pure ()
  | name :: rest => do
      match ← askHeap fun h => (h.module module).attributes.get? name with
      | some v => bindHere name v
      | none => fault (.nameNotFound name source)
      bindNames source module rest

/-- Binds all these names to these values, in order. -/
def bindAll : List (String × Value) → Action Unit
  | [] => pure ()
  | (name, v) :: rest => do
      bindHere name v
      bindAll rest

/-- The names in a tuple, if all its items are names. -/
def names? : Value → Option (List String)
  | .tuple items => items.mapM fun
      | .str name => some name
      | _ => none
  | _ => none

end ScriptMachine.Action
