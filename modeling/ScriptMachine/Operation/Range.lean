import ScriptMachine.Operation.Primitive
import ScriptMachine.Heap.Iteration

/-!
Arithmetic progressions from the arguments of `range`.
-/

namespace ScriptMachine.Operation

/-- Arguments that must all be words. -/
def rangeWords (h : Heap) : List Value → Except Fault (List Int64)
  | [] => .ok []
  | .int i :: rest => do return i :: (← rangeWords h rest)
  | other :: _ => .error (.rangeType (h.typeName other))

/-- A progression, which must not stand still. -/
def progression (first stop step : Int64) : Except Fault Iter :=
  if step = 0 then .error .zeroStep else .ok (.overRange first stop step)

/-- The progression given by one to three words: the end, the start and the end, or
the start, the end and the step. -/
def rangeOf : List Int64 → Except Fault Iter
  | [stop] => progression 0 stop 1
  | [first, stop] => progression first stop 1
  | [first, stop, step] => progression first stop step
  | words => .error (.argumentCount Builtin.range.name 3 words.length)

end ScriptMachine.Operation
