import ScriptMachine.Machine.Call
import ScriptMachine.Machine.Import
import ScriptMachine.Machine.Raise

/-!
Going on with an operation once the value it waited for is there.
-/

namespace ScriptMachine.Action

/-- Carries a task out with a value; what remains after it gets the value it makes. -/
def performTask (task : Task) (v : Value) (pending : Pending) : Action Unit := do
  match task with
  | .apply args => call v args pending
  | .answer value => deliver value pending
  | .text => deliver (.str (← askHeap (·.display v))) pending
  | .truth => deliver (.bool (← askHeap (·.truthy v))) pending
  | .linkBases c paths => linkBases c paths pending
  | .follow [] => deliver v pending
  | .follow (name :: path) => readAttribute v name (pending.before (.follow path))
  | .baseFound c paths => baseFound c paths v pending
  | .classAttribute c name => readClassAttribute c name pending
  | .construct c args =>
      let (id, call) ← construction c args
      enter call (pending.before (.answer (.instance id)))
  | .iterate subject left => iterated subject left v pending
  | .collect => resetIter v (pending.before (.collectMove v []))
  | .collectMove it items => moveIter it (pending.before (.collectTest it items))
  | .collectTest it items =>
      if ← askHeap (·.truthy v) then iterItem it (pending.before (.collectItem it items))
      else deliver (.tuple items.reverse) pending
  | .collectItem it items => moveIter it (pending.before (.collectTest it (v :: items)))
  | .showItems => showRest [] v.items pending
  | .showRest texts rest => showRest ((← askHeap (·.display v)) :: texts) rest pending
  | .makeList => deliver (← make (·.newList v.items.toArray)) pending
  | .makeException type =>
      let message ← askHeap (·.display v)
      deliver (.exception (← make (·.newException { type, message }))) pending
  | .setMessage target =>
      changeHeap (·.setInstanceAttribute target "message" v)
      deliver .null pending
  | .fail => faultWith fun h => .requested (h.display v)
  | .appendItems receiver =>
      deliver (← primitive (Operation.listMethod .appendrange receiver [v])) pending
  | .joinTexts receiver =>
      deliver (← primitive (Operation.textMethod .join receiver [v])) pending
  | .print =>
      print v.texts
      deliver .null pending
  | .bindModule name =>
      bindHere name v
      deliver .null pending
  | .importNames source names =>
      match v with
      | .module id => bindNames source id names
      | _ => pure ()
      deliver .null pending
  | .importAll =>
      match v with
      | .module id => bindAll (← askHeap fun h => (h.module id).attributes)
      | _ => pure ()
      deliver .null pending
  | .proceed next => carryOut pending (next v)

/-- Makes the final use of a value. -/
def conclude (finish : Finish) (v : Value) : Action Unit := do
  match finish with
  | .halt => change ({ · with control := .returned v })
  | .push =>
      proceed
      push v
  | .discard => proceed
  | .construct c args =>
      let (id, call) ← construction c args
      activate call (.instance id)
  | .constructBase c args =>
      let method ← askHeap fun h => (h.cls c).constructor
      let receiver ← askFrame (·.receiver) none
      activate { method, receiver := some (receiver.getD .null), args, owner := some c } .nothing

/-- Hands a value to what remains of an operation. -/
def resume (v : Value) (pending : Pending) : Action Unit :=
  match pending.tasks with
  | [] => conclude pending.finish v
  | task :: tasks => performTask task v { pending with tasks }

end ScriptMachine.Action
