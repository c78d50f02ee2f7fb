import ScriptMachine.Operation.Container
import ScriptMachine.Heap.Equality

/-!
The methods of lists. The argument of `appendrange` is a tuple: the items of
whatever was given, collected beforehand.
-/

namespace ScriptMachine.Operation

/-- The name a receiver goes by in messages. -/
def receiverName (h : Heap) : Option Value → String
  | some v => h.typeName v
  | none => "null"

/-- The list a method was called on. -/
def listReceiver (receiver : Option Value) : Primitive ListId := do
  match receiver with
  | some (.list id) => return id
  | other => throw (.receiverType .list (← Primitive.ask (receiverName · other)))

/-- A position as a value; -1 stands for none. -/
def indexValue : Option Nat → Value
  | some i => .int (Int64.ofNat i)
  | none => .int (-1)

/-- Position of the first item equal to a value. -/
def firstIndex? (h : Heap) (id : ListId) (v : Value) : Option Nat :=
  (h.list id).findIdx? (h.equals · v)

/-- Position of the last item equal to a value. -/
def lastIndex? (h : Heap) (id : ListId) (v : Value) : Option Nat :=
  ((h.list id).toList.reverse.findIdx? (h.equals · v)).map ((h.list id).size - 1 - ·)

/-- A position that must exist. -/
def foundIndex (h : Heap) (v : Value) : Option Nat → Except Fault Nat
  | some i => .ok i
  | none => .error (.itemNotFound (h.repr v))

/-- Adds items at the end. -/
def extend (id : ListId) (items : List Value) : Primitive Unit :=
  Primitive.change (·.modifyList id (·.appendList items))

/-- Removes the item at a position. -/
def removeAt (id : ListId) (i : Nat) : Primitive Unit :=
  Primitive.change (·.modifyList id (·.eraseIdxIfInBounds i))

/-- A method of a list. -/
def listMethod (fn : ListMethod) (receiver : Option Value) (args : List Value) :
    Primitive Value := do
  let id ← listReceiver receiver
  let arg := args.headD .null
  match fn with
  | .append => extend id args; return .null
  | .prepend => Primitive.change (·.modifyList id (#[arg] ++ ·)); return .null
  | .appendrange => extend id arg.items; return .null
  | .discard =>
      match ← Primitive.ask (firstIndex? · id arg) with
      | some i => removeAt id i
      | none => pure ()
      return .null
  | .remove =>
      let i ← Primitive.consult fun h => foundIndex h arg (firstIndex? h id arg)
      removeAt id i
      return .null
  | .removeat =>
      let i ← Primitive.consult fun h => position h arg (h.list id).size
      let removed ← Primitive.ask fun h => (h.list id).getD i .null
      removeAt id i
      return removed
  | .contains => return .bool (← Primitive.ask (firstIndex? · id arg)).isSome
  | .clear => Primitive.change (·.modifyList id fun _ => #[]); return .null
  | .index =>
      return indexValue (some (← Primitive.consult fun h => foundIndex h arg (firstIndex? h id arg)))
  | .rindex =>
      return indexValue (some (← Primitive.consult fun h => foundIndex h arg (lastIndex? h id arg)))
  | .find => return indexValue (← Primitive.ask (firstIndex? · id arg))
  | .rfind => return indexValue (← Primitive.ask (lastIndex? · id arg))

end ScriptMachine.Operation
