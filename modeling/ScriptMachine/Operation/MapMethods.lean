import ScriptMachine.Operation.ListMethods

/-!
The methods of maps.
-/

namespace ScriptMachine.Operation

/-- The map a method was called on. -/
def mapReceiver (receiver : Option Value) : Primitive MapId := do
  match receiver with
  | some (.map id) => return id
  | other => throw (.receiverType .hashMap (← Primitive.ask (receiverName · other)))

/-- A method of a map. A lookup with a second argument falls back on it. -/
def mapMethod (fn : MapMethod) (receiver : Option Value) (args : List Value) :
    Primitive Value := do
  let id ← mapReceiver receiver
  let key := args.headD .null
  match fn with
  | .contains => return .bool (← Primitive.consult (lookup? · id key)).isSome
  | .getSize => return .int (Int64.ofNat (← Primitive.ask fun h => (h.map id).size))
  | .clear => Primitive.change (·.modifyMap id fun _ => .empty); return .null
  | .set => store id key ((args.drop 1).headD .null); return .null
  | .get =>
      match args with
      | [key] => Primitive.consult (lookup · id key)
      | [key, fallback] => return (← Primitive.consult (lookup? · id key)).getD fallback
      | args => throw (.argumentCount MapMethod.get.name 1 args.length)
  | .remove =>
      let removed ← Primitive.consult (lookup · id key)
      Primitive.change (·.modifyMap id (·.erase key))
      return removed
  | .keys => Primitive.make fun h => h.newList (h.map id).keys.toArray
  | .values => Primitive.make fun h => h.newList (h.map id).values.toArray

end ScriptMachine.Operation
