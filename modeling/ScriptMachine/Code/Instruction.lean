import ScriptMachine.Code.Opcode
import ScriptMachine.Source.Location
import ScriptMachine.Text.Padding

/-!
Instructions and the methods made of them.
-/

namespace ScriptMachine

/-- An opcode, its operand, and the source position it stems from. -/
structure Instruction where
  op : Opcode
  arg : Nat := 0
  loc : Location := {}
deriving Repr, DecidableEq, Inhabited

/-- Opcode, operand and position on one line. -/
def Instruction.text (i : Instruction) : String :=
  s!"{i.op.name} {i.arg} {i.loc.text}"

/-- A compiled callable body. Parameters are listed with their slots in
declaration order: positional ones, then the variadic tuple, then the keyword map. -/
structure Method where
  name : String
  isInstanceMethod : Bool := false
  parameters : List (String × Nat) := []
  /-- Number of positional parameters. -/
  arity : Nat := 0
  localCount : Nat := 0
  variadic : Bool := false
  acceptsKeywords : Bool := false
  body : Array Instruction
deriving Repr, DecidableEq, Inhabited

namespace Method

/-- The method that runs the top level of a module. -/
def moduleBody (body : Array Instruction) : Method :=
  { name := "<module>", body }

/-- A listing with one numbered instruction a line. -/
def disassemble (m : Method) : String :=
  String.join (m.body.toList.mapIdx fun ip i =>
    s!"{Text.padLeft 4 (toString ip)} {Text.padRight 22 i.op.name} {i.arg}\n")

end Method
end ScriptMachine
