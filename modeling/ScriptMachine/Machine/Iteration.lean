import ScriptMachine.Machine.Activation
import ScriptMachine.Heap.Iteration
import ScriptMachine.Heap.Text

/-!
Walking iterables, and the texts of values. Built-in iterables are walked by an
iterator. An instance takes part through hooks: `__iter__` names another iterable,
or the instance moves by itself with `__iterMoveNext__`, `__iterGetNext__` and, if it
can start anew, `__iterReset__`. The text of an instance comes from `toString`.
-/

namespace ScriptMachine.Action

/-- How many `__iter__` hooks are followed. -/
def maxDelegation : Nat := 32

/-- What a built-in iterable visits. -/
def iterOver? (h : Heap) : Value → Option Iter
  | .list id => some (.overList id)
  | .tuple items => some (.overItems items)
  | .str s => some (.overItems (s.toList.map fun c => .str (String.singleton c)))
  | .map id => some (.overItems ((h.map id).keys))
  | _ => none

/-- Makes an iterator; `left` more hooks may be followed after this one. -/
def iterate (v : Value) (left : Nat) (pending : Pending) : Action Unit := do
  match ← askHeap (iterOver? · v) with
  | some it => deliver (← make (·.newIterator it)) pending
  | none =>
      match v with
      | .iterator _ => deliver v pending
      | .instance id =>
          hook v "__iter__" [] (pending.before (.iterate id left)) do
            if (← askHeap (·.instanceMethod? v "__iterMoveNext__")).isSome then deliver v pending
            else faultWith fun h => .notIterable (h.typeName v)
      | v => faultWith fun h => .notIterable (h.typeName v)

/-- Goes on with what the `__iter__` hook of an instance led to. An instance that leads
to itself is its own iterator. -/
def iterated (subject : InstanceId) (left : Nat) (v : Value) (pending : Pending) :
    Action Unit := do
  match v, left with
  | .instance id, left =>
      if id = subject then deliver v pending
      else
        match left with
        | left + 1 => iterate v left pending
        | 0 => fault (.endlessIteration maxDelegation)
  | v, left + 1 => iterate v left pending
  | _, 0 => fault (.endlessIteration maxDelegation)

/-- Lets an iterator start anew. -/
def resetIter (it : Value) (pending : Pending) : Action Unit := do
  match it with
  | .iterator id =>
      changeHeap fun h => h.setIterator id (h.iterator id).reset
      deliver .null pending
  | it => hook it "__iterReset__" [] pending (deliver .null pending)

/-- Moves an iterator on. -/
def moveIter (it : Value) (pending : Pending) : Action Unit := do
  match it with
  | .iterator id =>
      let moved ← make fun h =>
        let (moved, next) := (h.iterator id).moveNext h
        (moved, h.setIterator id next)
      deliver (.bool moved) pending
  | it =>
      hook it "__iterMoveNext__" [] (pending.before .truth)
        (faultWith fun h => .notIterable (h.typeName it))

/-- Reads the item an iterator stands on. -/
def iterItem (it : Value) (pending : Pending) : Action Unit := do
  match it with
  | .iterator id => deliver (← askHeap fun h => (h.iterator id).current) pending
  | it => hook it "__iterGetNext__" [] pending (faultWith fun h => .notIterable (h.typeName it))

/-- Collects the items of an iterable in a tuple. -/
def collect (v : Value) (pending : Pending) : Action Unit := do
  match v with
  | .list id => deliver (.tuple (← askHeap fun h => (h.list id).toList)) pending
  | .tuple _ => deliver v pending
  | v => iterate v maxDelegation (pending.before .collect)

/-- Makes the text of a value. -/
def text (v : Value) (pending : Pending) : Action Unit :=
  hook v "toString" [] (pending.before .text) do
    deliver (.str (← askHeap (·.display v))) pending

/-- Makes the texts of the remaining values, after those made already, latest first. -/
def showRest (texts : List String) (rest : List Value) (pending : Pending) : Action Unit :=
  match rest with
  | [] => deliver (.tuple (texts.reverse.map .str)) pending
  | v :: rest => text v (pending.before (.showRest texts rest))

end ScriptMachine.Action
