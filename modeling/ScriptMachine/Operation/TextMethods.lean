import ScriptMachine.Operation.ListMethods
import ScriptMachine.Text.Letter

/-!
The methods of texts. Positions count characters. The argument of `join` is a tuple
of texts: the items of whatever was given, collected and shown beforehand.
-/

namespace ScriptMachine.Operation

/-- The text a method was called on. -/
def textReceiver (receiver : Option Value) : Primitive String := do
  match receiver with
  | some (.str s) => return s
  | other => throw (.receiverType .str (← Primitive.ask (receiverName · other)))

/-- An argument that must be a text. -/
def textArgument (args : List Value) (i : Nat) : Primitive String := do
  match args[i]? with
  | some (.str s) => return s
  | some other => throw (.argumentType .str (← Primitive.ask (·.typeName other)))
  | none => throw (.missingArgument .str)

/-- An argument that must be a word. -/
def wordArgument (args : List Value) (i : Nat) : Primitive Int64 := do
  match args[i]? with
  | some (.int w) => return w
  | some other => throw (.argumentType .int (← Primitive.ask (·.typeName other)))
  | none => throw (.missingArgument .int)

/-- The characters from position `first` up to but not including `stop`. -/
def substring (s : String) (first stop : Int64) : Except Fault Value :=
  if first < 0 ∨ (s.length : Int) < stop.toInt ∨ stop < first then
    .error (.textRange first stop)
  else
    .ok (.str (Text.slice s first.toInt.toNat (stop.toInt - first.toInt).toNat))

/-- A method of a text. -/
def textMethod (fn : TextMethod) (receiver : Option Value) (args : List Value) :
    Primitive Value := do
  let s ← textReceiver receiver
  match fn with
  | .substr =>
      if args.isEmpty ∨ 2 < args.length then
        throw (.argumentCount TextMethod.substr.name 1 args.length)
      let first ← wordArgument args 0
      let stop ← if args.length = 2 then wordArgument args 1 else pure (Int64.ofNat s.length)
      substring s first stop
  | .toLower => return .str (Text.toLower s)
  | .toUpper => return .str (Text.toUpper s)
  | .indexOf => return indexValue (Text.find? (← textArgument args 0).toList s.toList)
  | .contains => return .bool (Text.contains (← textArgument args 0).toList s.toList)
  | .replace =>
      let found ← textArgument args 0
      let put ← textArgument args 1
      return .str (String.ofList (Text.replace found.toList put.toList s.toList))
  | .startsWith => return .bool (s.startsWith (← textArgument args 0))
  | .endsWith => return .bool (s.endsWith (← textArgument args 0))
  | .split =>
      let separator ← textArgument args 0
      if separator = "" then throw .emptySeparator
      let pieces := (Text.split separator.toList s.toList).map fun cs => Value.str (String.ofList cs)
      Primitive.make (·.newList pieces.toArray)
  | .join => return .str (s.intercalate (args.headD .null).texts)
  | .trim => return .str (String.ofList (Text.trim s.toList))

end ScriptMachine.Operation
