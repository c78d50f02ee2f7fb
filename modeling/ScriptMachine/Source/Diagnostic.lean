import ScriptMachine.Source.Location
import ScriptMachine.Text.Quoted
import ScriptMachine.Json.Basic

/-!
What the compiler can complain about. Resolution and code generation never stop
at the first problem: each one is appended to a log with its position, and the
log is inspected between the two passes.
-/

namespace ScriptMachine

/-- A position as data. -/
def Location.json (loc : Location) : Json :=
  .obj [("line", .int (Int64.ofNat loc.line)), ("column", .int (Int64.ofNat loc.column))]

/-- A reason to reject a unit. -/
inductive CompileErrorKind where
  /-- A control-flow statement at module level, by its keyword. -/
  | statementNotAllowedOutsideFunction (keyword : String)
  /-- A class, enum, interface or `use` inside a function body, by its keyword. -/
  | declarationNotAllowedInFunction (keyword : String)
  | duplicateDefinition (name : String)
  /-- An enum member whose value is not an integer literal. -/
  | malformedEnumValue (member : String)
  /-- A class-body assignment whose target is not a simple name. -/
  | invalidFieldValue
  /-- A class-body statement that is neither a member nor a field value. -/
  | invalidClassMember
  | invalidAssignmentTarget
  | breakOutsideLoop
  | continueOutsideLoop
  | superCallOutsideConstructor
deriving Repr, DecidableEq, Inhabited

namespace CompileErrorKind

/-- The name of a kind and the word it is about, if it has one. -/
def parts : CompileErrorKind → String × Option String
  | statementNotAllowedOutsideFunction keyword =>
      ("StatementNotAllowedOutsideFunction", some keyword)
  | declarationNotAllowedInFunction keyword => ("DeclarationNotAllowedInFunction", some keyword)
  | duplicateDefinition name => ("DuplicateDefinition", some name)
  | malformedEnumValue member => ("MalformedEnumValue", some member)
  | invalidFieldValue => ("InvalidFieldInitializer", none)
  | invalidClassMember => ("InvalidClassMember", none)
  | invalidAssignmentTarget => ("InvalidAssignmentTarget", none)
  | breakOutsideLoop => ("BreakOutsideLoop", none)
  | continueOutsideLoop => ("ContinueOutsideLoop", none)
  | superCallOutsideConstructor => ("SuperCallOutsideConstructor", none)

/-- The kind as a term: its name, with the quoted word in parentheses. -/
def term (kind : CompileErrorKind) : String :=
  match kind.parts with
  | (name, none) => name
  | (name, some word) => name ++ "(" ++ Text.debugQuoted word ++ ")"

/-- The kind as data: its name alone, or an object with the word under the name. -/
def json (kind : CompileErrorKind) : Json :=
  match kind.parts with
  | (name, none) => .str name
  | (name, some word) => .obj [(name, .str word)]

/-- The sentence shown to users. -/
def message : CompileErrorKind → String
  | statementNotAllowedOutsideFunction keyword =>
      s!"statement '{keyword}' not allowed outside function"
  | declarationNotAllowedInFunction keyword =>
      s!"'{keyword}' declaration not allowed inside function"
  | duplicateDefinition name => s!"duplicate definition of '{name}'"
  | malformedEnumValue member => s!"enum member '{member}' must have an integer literal value"
  | invalidFieldValue => "field initializer must assign to a simple name"
  | invalidClassMember => "statement not allowed in class body"
  | invalidAssignmentTarget => "invalid assignment target"
  | breakOutsideLoop => "'break' outside loop"
  | continueOutsideLoop => "'continue' outside loop"
  | superCallOutsideConstructor => "super call outside a derived class constructor"

end CompileErrorKind

/-- A complaint and where it arose. -/
structure CompileError where
  loc : Location
  kind : CompileErrorKind
deriving Repr, DecidableEq, Inhabited

/-- Complaints in the order they were found. -/
abbrev ErrorLog := List CompileError

namespace ErrorLog

/-- One line per complaint: `line:column: sentence`. -/
def text (log : ErrorLog) : String :=
  String.join (log.map fun e => e.loc.text ++ ": " ++ e.kind.message ++ "\n")

/-- The log as data. -/
def json (log : ErrorLog) : Json :=
  .obj [("errors", .arr (log.map fun e =>
    .obj [("loc", e.loc.json), ("kind", e.kind.json)]))]

end ErrorLog
end ScriptMachine
