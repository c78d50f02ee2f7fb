import ScriptMachine.Operation.Primitive
import ScriptMachine.Heap.Classes
import ScriptMachine.Heap.Text
import ScriptMachine.Number.Reading
import ScriptMachine.Text.Search

/-!
Conversions between numbers and texts, and the type test behind `is` and `as`.
-/

namespace ScriptMachine.Operation

/-- The characters of a text without blanks at either end. -/
def trimmed (s : String) : List Char :=
  Text.trim s.toList

/-- A value as a word. The fraction of a float is dropped. -/
def toWord (h : Heap) (v : Value) : Except Fault Int64 :=
  match v with
  | .int i => .ok i
  | .bool b => .ok (if b then 1 else 0)
  | .float f =>
      match Binary64.truncate? f with
      | some i => .ok i
      | none => .error (.notFinite (FloatText.text f))
  | .str s =>
      match Reading.word? (trimmed s) with
      | some i => .ok i
      | none => .error (.badLiteral .int (h.repr v))
  | v => .error (.noConversion (h.typeName v) .int)

/-- A value as a float. -/
def toFloat (h : Heap) (v : Value) : Except Fault Binary64 :=
  match v with
  | .float f => .ok f
  | .int i => .ok (Binary64.ofWord i)
  | .bool b => .ok (Binary64.ofNat (if b then 1 else 0))
  | .str s =>
      match Reading.float? (trimmed s) with
      | some f => .ok f
      | none => .error (.badLiteral .float (h.repr v))
  | v => .error (.noConversion (h.typeName v) .float)

/-- The type of exception an instance of a class counts as. -/
def exceptionTypeOf (h : Heap) (c : ClassId) : ExceptionType :=
  (h.exceptionBase? c).getD .exception

/-- The value passes a test against a type, a class, an interface or an exception
type. -/
def isInstanceOf (h : Heap) (v type : Value) : Except Fault Bool :=
  match type, v with
  | .type t, v => .ok (t.covers v.typeTag)
  | .cls c, .instance id => .ok (h.isSubclass (h.inst id).cls c)
  | .interface i, .instance id => .ok (h.implements (h.inst id).cls i)
  | .exceptionType t, .exception id => .ok ((h.exception id).type.isSubclassOf t)
  | .exceptionType t, .instance id => .ok ((exceptionTypeOf h (h.inst id).cls).isSubclassOf t)
  | .cls _, _ | .interface _, _ | .exceptionType _, _ => .ok false
  | other, _ => .error (.notAType (h.typeName other))

end ScriptMachine.Operation
