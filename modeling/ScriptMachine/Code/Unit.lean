import ScriptMachine.Code.Instruction
import ScriptMachine.Source.Tree
import ScriptMachine.Number.FloatText
import ScriptMachine.Text.Quoted
import ScriptMachine.Text.Search

/-!
Compiled units: what the compiler hands to the machine. Methods, classes, enums
and interfaces stand in tables of the unit and are referred to by position, so
that a unit is plain data; loading a unit gives them their identities.
-/

namespace ScriptMachine

/-- An entry of the constant pool. -/
inductive Constant where
  | int (value : Int64)
  | float (value : Binary64)
  | str (value : String)
  /-- Names to import from a module. -/
  | names (items : List String)
  /-- A nested function or lambda, by its position among the unit's methods. -/
  | method (index : Nat)
deriving DecidableEq, Inhabited

/-- A constant as scripts show it. A one-element tuple has a comma. -/
def Constant.text : Constant → String
  | .int value => Word.text value
  | .float value => FloatText.text value
  | .str value => Text.quoted value
  | .names items =>
      "(" ++ ", ".intercalate (items.map Text.quoted) ++ (if items.length = 1 then ",)" else ")")
  | .method _ => "<method>"

/-- What a declaration binds its name to. -/
inductive Binding where
  | method (index : Nat)
  | cls (index : Nat)
  | enum (index : Nat)
  | interface (index : Nat)
deriving Repr, DecidableEq, Inhabited

/-- A compiled class. -/
structure ClassCode where
  name : String
  constructor : Nat
  /-- Sets the fields, run once before the class is used. -/
  fieldSetter : Option Nat
  instanceMethods : List (String × Nat)
  attributes : List (String × Binding)
  /-- Dotted names of the bases in the declaration. -/
  declaredBases : List String
deriving Repr, DecidableEq, Inhabited

/-- A compiled enum. -/
structure EnumCode where
  name : String
  members : List (String × Int64)
deriving DecidableEq, Inhabited

/-- A compiled unit. -/
structure CompiledUnit where
  name : String
  file : String
  imports : List String := []
  constants : Array Constant := #[]
  methods : Array Method := #[]
  classes : Array ClassCode := #[]
  enums : Array EnumCode := #[]
  interfaces : Array InterfaceDecl := #[]
  /-- Top-level declarations in order. -/
  attributes : List (String × Binding) := []
  topLevel : Method
deriving Inhabited

namespace CompiledUnit

/-- The compiled method bound to a top-level name. -/
def method? (u : CompiledUnit) (name : String) : Option Method :=
  match u.attributes.lookup name with
  | some (.method index) => u.methods[index]?
  | _ => none

/-- What a class declares under a name, instance methods first. -/
def classMember? (u : CompiledUnit) (index : Nat) (name : String) : Option Binding := do
  let code ← u.classes[index]?
  match code.instanceMethods.lookup name with
  | some method => some (.method method)
  | none => code.attributes.lookup name

/-- What a dotted path leads to: a declaration, or the value of an enum member. -/
inductive Probed where
  | binding (value : Binding)
  | member (value : Int64)
deriving DecidableEq, Inhabited

/-- One step along a path. -/
def probeStep (u : CompiledUnit) (found : Probed) (segment : String) : Option Probed :=
  match found with
  | .binding (.cls index) => (u.classMember? index segment).map .binding
  | .binding (.enum index) => do
      let code ← u.enums[index]?
      return .member (← code.members.lookup segment)
  | _ => none

/-- What a dotted path leads to, starting from a top-level name. -/
def probe? (u : CompiledUnit) (path : String) : Option Probed :=
  match Text.pieces '.' path with
  | [] => none
  | first :: rest => do
      let start ← u.attributes.lookup first
      rest.foldlM u.probeStep (.binding start)

end CompiledUnit
end ScriptMachine
