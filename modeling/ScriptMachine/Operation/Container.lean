import ScriptMachine.Operation.Primitive
import ScriptMachine.Heap.Text
import ScriptMachine.Text.Search

/-!
Items of built-in containers. Sequences are indexed by position, a negative index
counting from the end; maps are indexed by key.
-/

namespace ScriptMachine.Operation

/-- The position an index refers to in a sequence of `size` items. -/
def position (h : Heap) (index : Value) (size : Nat) : Except Fault Nat :=
  match index with
  | .int i =>
      let resolved := if i < 0 then i.toInt + size else i.toInt
      if 0 ≤ resolved ∧ resolved < size then .ok resolved.toNat else .error (.indexRange i)
  | other => .error (.indexType (h.typeName other))

/-- The value can be a key. -/
def checkKey (v : Value) : Except Fault Unit :=
  match v.unhashable? with
  | none => .ok ()
  | some tag => .error (.unhashable tag)

/-- The value stored under a key in a map. -/
def lookup? (h : Heap) (id : MapId) (key : Value) : Except Fault (Option Value) := do
  checkKey key
  return (h.map id).find? key

/-- The value stored under a key that must be present. -/
def lookup (h : Heap) (id : MapId) (key : Value) : Except Fault Value := do
  match ← lookup? h id key with
  | some v => return v
  | none => throw (.keyNotFound (h.repr key))

/-- Stores a value under a key in a map. -/
def store (id : MapId) (key value : Value) : Primitive Unit := do
  checkKey key
  Primitive.change (·.modifyMap id (·.insert key value))

/-- An item of a built-in container; other values are for their class to index. -/
def item? (h : Heap) (container index : Value) : Option (Except Fault Value) :=
  match container with
  | .list id => some do
      return (h.list id).getD (← position h index (h.list id).size) .null
  | .tuple items => some do
      return items.getD (← position h index items.length) .null
  | .str s => some do
      return .str (Text.slice s (← position h index s.length) 1)
  | .map id => some (lookup h id index)
  | _ => none

/-- Replaces an item of a list or sets an entry of a map; other values are for
their class to assign to. -/
def setItem? (container index value : Value) : Option (Primitive Unit) :=
  match container with
  | .list id => some do
      let i ← Primitive.consult fun h => position h index (h.list id).size
      Primitive.change (·.modifyList id (·.setIfInBounds i value))
  | .map id => some (store id index value)
  | _ => none

/-- Adds keys and values that come in turn. -/
def addAll (table : Table) : List Value → Except Fault Table
  | key :: value :: rest => do
      checkKey key
      addAll (table.insert key value) rest
  | _ => .ok table

/-- A new map made of keys and values in turn. -/
def newMap (items : List Value) : Primitive Value := do
  let table ← addAll .empty items
  Primitive.make (·.newMap table)

end ScriptMachine.Operation
