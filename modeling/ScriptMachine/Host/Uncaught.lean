import ScriptMachine.Heap.Text
import ScriptMachine.Source.Diagnostic

/-!
Exceptions that nothing caught, as a host gets them.
-/

namespace ScriptMachine

/-- An exception that ended a run. -/
structure UncaughtException where
  type : ExceptionType
  /-- The class of the raised instance, or else the name of the type. -/
  typeName : String
  message : String
  /-- Innermost frame first. -/
  trace : List TraceFrame := []
deriving Repr, DecidableEq, Inhabited

namespace UncaughtException

/-- Reads an exception from the heap. -/
def ofHeap (h : Heap) (id : ExceptionId) : UncaughtException :=
  let e := h.exception id
  { type := e.type, typeName := h.exceptionTypeName id, message := e.message, trace := e.trace }

/-- A mistake of the host, found before any code ran. -/
def ofHost (type : ExceptionType) (message : String) : UncaughtException :=
  { type, typeName := type.name, message }

/-- One line: the type and the message. -/
def display (e : UncaughtException) : String :=
  headline e.typeName e.message

/-- The trace followed by the type and the message. -/
def report (e : UncaughtException) : String :=
  let lines := e.trace.map fun f => s!"  at {f.name} ({f.loc.text})\n"
  let trace := if lines.isEmpty then "" else "Traceback (innermost first):\n" ++ String.join lines
  trace ++ e.display

/-- The exit code of a program that ends this way. -/
def exitCode (_ : UncaughtException) : Nat := 1

/-- As a data interchange value. -/
def json (e : UncaughtException) : Json :=
  .obj [("exc_type", .str e.type.name), ("type_name", .str e.typeName),
    ("message", .str e.message),
    ("trace", .arr (e.trace.map fun f => .obj [("name", .str f.name), ("loc", f.loc.json)]))]

end UncaughtException
end ScriptMachine
