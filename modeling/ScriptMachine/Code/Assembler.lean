import ScriptMachine.Code.Instruction

/-!
Assembling a method body by hand: instructions are appended one by one, each
stamped with the current source position, and forward jumps are filled in once
their target is known. The depth of the operand stack is tracked along the way.
-/

namespace ScriptMachine

/-- A forward jump, by the index of its instruction. -/
structure JumpLabel where
  index : Nat
deriving Repr, DecidableEq, Inhabited

/-- A body under construction. -/
structure Assembler where
  code : Array Instruction := #[]
  /-- Stamped on the instructions that follow. -/
  location : Location := {}
  /-- Depth of the operand stack after the code so far, read in a straight line. -/
  stackDepth : Int := 0
deriving Repr, DecidableEq, Inhabited

namespace Assembler

/-- The operand of a jump whose target is not known yet. -/
def unpatched : Nat := Nat.pow 2 32 - 1

/-- Stamps what follows with another position. -/
def setLocation (a : Assembler) (loc : Location) : Assembler :=
  { a with location := loc }

/-- Appends an instruction. -/
def emit (a : Assembler) (op : Opcode) (arg : Nat := 0) : Assembler :=
  { a with
    code := a.code.push { op, arg, loc := a.location }
    stackDepth := a.stackDepth + op.effect arg }

/-- Index of the next instruction. -/
def currentOffset (a : Assembler) : Nat :=
  Nat.min a.code.size unpatched

/-- Appends a jump whose target is filled in later. -/
def emitJump (a : Assembler) (op : Opcode) : JumpLabel × Assembler :=
  (⟨a.code.size⟩, a.emit op unpatched)

/-- Appends a jump to a known target. -/
def emitJumpTo (a : Assembler) (op : Opcode) (target : Nat) : Assembler :=
  a.emit op target

/-- Fills in the target of a forward jump. -/
def patchJumpTo (a : Assembler) (label : JumpLabel) (target : Nat) : Assembler :=
  { a with code := a.code.modify label.index fun i => { i with arg := target } }

/-- Lets a forward jump lead to the next instruction. -/
def patchJump (a : Assembler) (label : JumpLabel) : Assembler :=
  a.patchJumpTo label a.currentOffset

/-- Corrects the tracked depth where the straight line misses a path. -/
def adjustStack (a : Assembler) (delta : Int) : Assembler :=
  { a with stackDepth := a.stackDepth + delta }

end Assembler
end ScriptMachine
