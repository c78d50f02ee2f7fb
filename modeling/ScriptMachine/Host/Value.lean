import ScriptMachine.Heap.Text

/-!
Values as hosts see them: complete data without references to a heap. Reading a
run-time value copies it; what has no data form is replaced by its text. Writing a
host value puts fresh objects on the heap.
-/

namespace ScriptMachine

/-- A value that can be passed to the machine or is given back by it. -/
inductive HostValue where
  | null
  | bool (value : Bool)
  | int (value : Int64)
  | float (value : Binary64)
  | str (text : String)
  | tuple (items : List HostValue)
  | list (items : List HostValue)
  /-- Entries in insertion order. -/
  | map (entries : List (HostValue × HostValue))
  | exception (type : ExceptionType) (message : String)
  /-- Stands for a value without a data form. Never an input. -/
  | repr (text : String)
deriving Inhabited

/-- Why a host value cannot be passed to the machine. -/
inductive InvalidInput where
  | repr
  | unhashableKey
deriving Repr, DecidableEq, Inhabited

/-- The sentence shown to users. -/
def InvalidInput.message : InvalidInput → String
  | repr => "'Repr' is not a valid input value"
  | unhashableKey => "'unhashable map key' is not a valid input value"

namespace HostValue

/-- Stands for containers nested too deep. -/
def elided : HostValue :=
  .repr "..."

/-- Copies a run-time value whose containers are nested at most `budget` deep;
deeper ones are elided. -/
def ofValueWithin (h : Heap) (budget : Nat) (v : Value) : HostValue :=
  match v with
  | .null => .null
  | .bool b => .bool b
  | .int i => .int i
  | .float f => .float f
  | .str s => .str s
  | .tuple items =>
      match budget with
      | 0 => elided
      | budget + 1 => .tuple (items.map fun item => ofValueWithin h budget item)
  | .list id =>
      match budget with
      | 0 => elided
      | budget + 1 => .list ((h.list id).toList.map fun item => ofValueWithin h budget item)
  | .map id =>
      match budget with
      | 0 => elided
      | budget + 1 =>
          .map ((h.map id).toList.map fun (key, value) =>
            (ofValueWithin h budget key, ofValueWithin h budget value))
  | .exception id => .exception (h.exception id).type (h.exception id).message
  | other => .repr (h.repr other)

/-- Copies a run-time value. -/
def ofValue (h : Heap) (v : Value) : HostValue :=
  ofValueWithin h Value.maxNesting v

/-- A computation that puts objects on the heap and may refuse its input. -/
abbrev Import := ExceptT InvalidInput (StateM Heap)

/-- Runs an action that makes an object. -/
def make {α : Type} (action : Heap → α × Heap) : Import α :=
  modifyGet action

mutual

/-- The run-time value with the same data. -/
def toValue : HostValue → Import Value
  | .null => return .null
  | .bool b => return .bool b
  | .int i => return .int i
  | .float f => return .float f
  | .str s => return .str s
  | .tuple items => return .tuple (← toValues items)
  | .list items => do
      let values ← toValues items
      make (·.newList values.toArray)
  | .map entries => do
      let table ← toTable .empty entries
      make (·.newMap table)
  | .exception type message => do
      let id ← make (·.newException { type, message })
      return .exception id
  | .repr _ => throw .repr

/-- The run-time values in order. -/
def toValues : List HostValue → Import (List Value)
  | [] => return []
  | item :: rest => do
      let first ← toValue item
      return first :: (← toValues rest)

/-- Adds entries in order; an equal key replaces the value of an earlier one. -/
def toTable (table : Table) : List (HostValue × HostValue) → Import Table
  | [] => return table
  | (key, value) :: rest => do
      let k ← toValue key
      unless k.isHashable do throw .unhashableKey
      let v ← toValue value
      toTable (table.insert k v) rest

end

/-- The value is null. -/
def isNull : HostValue → Bool
  | .null => true
  | _ => false

mutual

/-- The text of a host value, which is that of the run-time value. -/
def text : HostValue → String
  | .null => "null"
  | .bool b => if b then "true" else "false"
  | .int i => Word.text i
  | .float f => FloatText.text f
  | .str s => Text.quoted s
  | .tuple items =>
      "(" ++ ", ".intercalate (texts items) ++ (if items.length = 1 then ",)" else ")")
  | .list items => "[" ++ ", ".intercalate (texts items) ++ "]"
  | .map entries => "\x7b" ++ ", ".intercalate (entryTexts entries) ++ "\x7d"
  | .exception type message => headline type.name message
  | .repr text => text

/-- The texts of items in order. -/
def texts : List HostValue → List String
  | [] => []
  | item :: rest => item.text :: texts rest

/-- The texts of entries in order. -/
def entryTexts : List (HostValue × HostValue) → List String
  | [] => []
  | (key, value) :: rest => (key.text ++ ": " ++ value.text) :: entryTexts rest

end

mutual

/-- The two host values have the same constructors and data throughout. An integer
differs from a float, and a float that is not a number from itself. -/
def same : HostValue → HostValue → Bool
  | .null, .null => true
  | .bool a, .bool b => a == b
  | .int a, .int b => a == b
  | .float a, .float b => a.equals b
  | .str a, .str b => a == b
  | .tuple a, .tuple b => sameItems a b
  | .list a, .list b => sameItems a b
  | .map a, .map b => sameEntries a b
  | .exception t m, .exception u n => t == u && m == n
  | .repr a, .repr b => a == b
  | _, _ => false

/-- Items agree one by one. -/
def sameItems : List HostValue → List HostValue → Bool
  | [], [] => true
  | a :: as, b :: bs => same a b && sameItems as bs
  | _, _ => false

/-- Entries agree one by one. -/
def sameEntries : List (HostValue × HostValue) → List (HostValue × HostValue) → Bool
  | [], [] => true
  | (k, v) :: as, (l, w) :: bs => same k l && same v w && sameEntries as bs
  | _, _ => false

end

end HostValue
end ScriptMachine
