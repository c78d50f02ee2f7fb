import ScriptMachine.Heap.Basic
import ScriptMachine.Number.FloatText
import ScriptMachine.Text.Quoted

/-!
Texts of values. `repr` shows a value the way it would be written, with strings
quoted; `display` is the same except for strings, which stand for themselves.
Nesting beyond the limit is shown as `...`.
-/

namespace ScriptMachine

/-- A type name with a message; an empty message is left out. -/
def headline (typeName message : String) : String :=
  if message = "" then typeName else typeName ++ ": " ++ message

namespace Heap

/-- The type name users see: the class of the raised instance, if there is one. -/
def exceptionTypeName (h : Heap) (id : ExceptionId) : String :=
  match (h.exception id).payload with
  | some instance_ => (h.cls (h.inst instance_).cls).name
  | none => (h.exception id).type.name

/-- Text of a value that is no container. -/
def atomText (h : Heap) : Value → String
  | .null => "null"
  | .bool b => if b then "true" else "false"
  | .int i => Word.text i
  | .float f => FloatText.text f
  | .str s => Text.quoted s
  | .method id => s!"<method {(h.method id).code.name}>"
  | .closure id => s!"<closure {(h.method (h.closure id).method).code.name}>"
  | .bound receiver _ => s!"<bound method of {h.typeName receiver.toValue}>"
  | .native object => s!"<native function {object.fn.name}>"
  | .cls id => s!"<class {(h.cls id).name}>"
  | .instance id => s!"<{(h.cls (h.inst id).cls).name} object>"
  | .exception id => headline (h.exceptionTypeName id) (h.exception id).message
  | .module id => s!"<module {(h.module id).name}>"
  | .interface id => s!"<interface {(h.interface id).name}>"
  | .enum id => s!"<enum {(h.enum id).name}>"
  | .iterator _ => "<iterator>"
  | .type t => t.name
  | .exceptionType t => t.name
  | .tuple _ | .list _ | .map _ => ""

/-- Text of a value whose containers are followed `levels` deep. -/
def reprWithin (h : Heap) : (levels : Nat) → Value → String
  | 0, _ => "..."
  | levels + 1, .tuple items =>
      "(" ++ ", ".intercalate (items.map fun item => reprWithin h levels item)
        ++ (if items.length = 1 then ",)" else ")")
  | levels + 1, .list id =>
      "[" ++ ", ".intercalate ((h.list id).toList.map fun item => reprWithin h levels item) ++ "]"
  | levels + 1, .map id =>
      "\x7b" ++ ", ".intercalate ((h.map id).toList.map fun (key, value) =>
        reprWithin h levels key ++ ": " ++ reprWithin h levels value) ++ "\x7d"
  | _ + 1, v => h.atomText v

/-- Text of a value as it would be written. -/
def repr (h : Heap) (v : Value) : String :=
  h.reprWithin (Value.maxNesting + 1) v

/-- Text of a value for printing: strings stand for themselves. -/
def display (h : Heap) : Value → String
  | .str s => s
  | v => h.repr v

end Heap
end ScriptMachine
