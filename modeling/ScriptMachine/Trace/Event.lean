import ScriptMachine.Code.Opcode
import ScriptMachine.Value.Tag
import ScriptMachine.Text.Padding

/-!
What an observer of a run is told, in the order it happens.
-/

namespace ScriptMachine

/-- Something that happened during a run. -/
inductive Event where
  /-- An instruction is about to be executed, with this many values on the operand
  stack of its frame and this many frames in all. -/
  | instruction (ip : Nat) (op : Opcode) (stackDepth frameDepth : Nat)
  /-- A frame was pushed; `depth` counts it. -/
  | call (name : String) (depth : Nat)
  /-- A frame ended normally; `depth` does not count it. -/
  | ret (depth : Nat)
  /-- A protected region was entered; `depth` counts it. -/
  | enterRegion (depth : Nat)
  /-- A protected region was left; `depth` does not count it. -/
  | leaveRegion (depth : Nat)
  /-- An exception was raised, and some protected region was open or none was. -/
  | raise (type : ExceptionType) (handled : Bool)
  /-- A closure over this many local variables was made. -/
  | closure (localCount : Nat)
  /-- A module was loaded. -/
  | load (module : String)
deriving Repr, DecidableEq, Inhabited

namespace Event

/-- One line of a recording. -/
def text : Event → String
  | instruction ip op stackDepth _ => s!"{ip} {op.name} {stackDepth}"
  | call name depth => s!"call {name} {depth}"
  | ret depth => s!"return {depth}"
  | enterRegion depth => s!"push {depth}"
  | leaveRegion depth => s!"pop {depth}"
  | raise type handled => s!"raise {type.name} {handled}"
  | closure localCount => s!"closure {localCount}"
  | load module => s!"import {module}"

/-- One line of a log. Protected regions are not logged. -/
def logLine? : Event → Option String
  | instruction ip op stackDepth frameDepth =>
      let index := Text.padLeft 5 (toString ip)
      let name := Text.padRight 17 op.name
      some s!"[{index}] {name} stack={stackDepth}  frames={frameDepth}"
  | call name depth =>
      let column := Text.padRight 20 name
      some s!"  >>> CALL {column} depth={depth}"
  | ret depth => some s!"  <<< RETURN              depth={depth}"
  | enterRegion _ | leaveRegion _ => none
  | raise type handled =>
      let outcome := if handled then "handled" else "uncaught"
      some s!"  !!! RAISE {type.name} ({outcome})"
  | closure localCount => some s!"  +++ CLOSURE locals={localCount}"
  | load module => some s!"  ::: IMPORT {module}"

/-- The event is the execution of an instruction. -/
def isInstruction : Event → Bool
  | instruction .. => true
  | _ => false

end Event
end ScriptMachine
