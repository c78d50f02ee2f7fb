import ScriptMachine.Code.Emission
import ScriptMachine.Code.Unit
import ScriptMachine.Source.Resolution
import ScriptMachine.Text.Search

/-!
The state of the second pass over a unit and its basic actions. The pass walks the scope
tree that the first one left, collects constants, methods and declarations, and makes the
linked trees that code is written from.
-/

namespace ScriptMachine

/-- Where in a method a node stands. -/
structure Place where
  /-- The method is not the top level of the module. -/
  inFunction : Bool := false
  /-- There is a loop around the node. -/
  inLoop : Bool := false
  /-- Base class names, in a constructor. -/
  bases : Option (List String) := none
deriving Repr, DecidableEq, Inhabited

/-- What the second pass has produced so far. -/
structure Generator where
  scopes : ScopeTable
  errors : ErrorLog := []
  /-- The scopes walked into so far and what each was taken to belong to. -/
  entered : Array (ScopeOwner × Nat) := #[]
  constants : Array Constant := #[]
  functions : Array Linked.Function := #[]
  classes : Array ClassCode := #[]
  enums : Array EnumCode := #[]
  interfaces : Array InterfaceDecl := #[]
  attributes : List (String × Binding) := []
  imports : List String := []
  /-- Directory of the source file, for relative imports. -/
  directory : String := ""
deriving Inhabited

namespace Generator

open Linked (Ref NameConst BasePath)

/-- A computation of the second pass. -/
abbrev Gen := StateM Generator

/-- Records a complaint. -/
def report (loc : Location) (kind : CompileErrorKind) : Gen Unit :=
  modify fun g => { g with errors := g.errors ++ [⟨loc, kind⟩] }

/-- Walks into the next scope of the tree. -/
def enterScope (owner : ScopeOwner) : Gen Unit :=
  modify fun g =>
    let scopes := g.scopes.enterScope
    { g with scopes, entered := g.entered.push (owner, scopes.current) }

/-- Walks back to the scope around the current one. -/
def exitScope : Gen Unit :=
  modify fun g => { g with scopes := g.scopes.exitScope }

/-- Adds a constant and gives its index. -/
def addConstant (c : Constant) : Gen Nat :=
  modifyGet fun g => (g.constants.size, { g with constants := g.constants.push c })

/-- The constant is the text `name`. -/
def isName (name : String) : Constant → Bool
  | .str s => s == name
  | _ => false

/-- A text with its constant; equal texts share one. -/
def nameConstant (name : String) : Gen NameConst := do
  match (← get).constants.toList.findIdx? (isName name) with
  | some const => return { name, const }
  | none => return { name, const := ← addConstant (.str name) }

/-- Texts with their constants, in order. -/
def nameConstants : List String → Gen (List NameConst)
  | [] => return []
  | name :: rest => do
      let first ← nameConstant name
      return first :: (← nameConstants rest)

/-- Adds a method to the unit and gives its index. -/
def addFunction (f : Linked.Function) : Gen Nat :=
  modifyGet fun g => (g.functions.size, { g with functions := g.functions.push f })

/-- Where the value of a name is kept: a name without a slot is a global. -/
def refOf (name : String) : Gen Ref := do
  match (← get).scopes.lookup name with
  | some { kind := .slot, index, .. } => return .slot index
  | _ => return .global (← nameConstant name).const

/-- Where the value of a name is kept, if a name is given. -/
def bindingRef : Option String → Gen (Option (String × Ref))
  | some name => return some (name, ← refOf name)
  | none => return none

/-- The base class with a dotted name. -/
def basePath (path : String) : Gen BasePath :=
  nameConstants (Text.pieces '.' path)

/-- The base classes with these dotted names. -/
def basePaths : List String → Gen (List BasePath)
  | [] => return []
  | base :: rest => do
      let first ← basePath base
      return first :: (← basePaths rest)

/-- The parameters that are visible in the current scope, with their slots. -/
def parameterSlots (names : List String) : Gen (List (String × Nat)) := do
  let scopes := (← get).scopes
  return names.filterMap fun name => (scopes.lookup name).map fun symbol => (name, symbol.index)

/-- Complains about a `break` or `continue` that has no loop around it. -/
def checkLoop (place : Place) (loc : Location) (kind : CompileErrorKind) : Gen Unit := do
  unless place.inLoop do report loc kind

/-- A constructor that begins with a super call chains to its base itself. -/
def startsWithSuperCall : List Stmt → Bool
  | .expr _ (.superCall ..) :: _ => true
  | _ => false

/-- An integer literal, perhaps negated. -/
def enumLiteral? : Expr → Option Int64
  | .int _ value => some value
  | .unary _ .negate (.int _ value) => Word.ofInt? (-value.toInt)
  | _ => none

end Generator
end ScriptMachine
