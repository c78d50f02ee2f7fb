import ScriptMachine.Operation.Fault
import ScriptMachine.Heap.Basic

/-!
Primitive operations: what can be done with values without running any code. A
primitive reads and changes the heap, and gives a result or a fault.
-/

namespace ScriptMachine

/-- A computation on the heap that may fail. -/
abbrev Primitive := ExceptT Fault (StateM Heap)

namespace Primitive

variable {α : Type}

/-- Asks a question about the heap. -/
@[inline] def ask (question : Heap → α) : Primitive α :=
  modifyGet fun h => (question h, h)

/-- Asks a question about the heap that may have no answer. -/
@[inline] def consult (question : Heap → Except Fault α) : Primitive α := do
  match ← ask question with
  | .ok a => pure a
  | .error fault => throw fault

/-- Makes an object. -/
@[inline] def make (action : Heap → α × Heap) : Primitive α :=
  modifyGet action

/-- Changes the heap. -/
@[inline] def change (action : Heap → Heap) : Primitive Unit :=
  modifyGet fun h => ((), action h)

end Primitive
end ScriptMachine
