import ScriptMachine.Host.Value
import ScriptMachine.Json.Reader

/-!
Host values as data interchange values, in two forms. The natural form uses the
closest construct of the format and cannot always be read back; the tagged form
names the kind of each value and can.
-/

namespace ScriptMachine.HostValue

/-- The member name of a map key: strings as they are, all else by its text. -/
def keyText : HostValue → String
  | .str s => s
  | other => other.text

/-- A float, or null when it is not finite. -/
def floatJson (f : Binary64) : Json :=
  match Binary64.decode f with
  | .finite .. => .float f
  | _ => .null

mutual

/-- The natural form. -/
def json : HostValue → Json
  | .null => .null
  | .bool b => .bool b
  | .int i => .int i
  | .float f => floatJson f
  | .str s => .str s
  | .tuple items => .obj [("$tuple", .arr (itemsJson items))]
  | .list items => .arr (itemsJson items)
  | .map entries => Json.objectOf (membersJson entries)
  | .exception type message =>
      .obj [("$exception", .obj [("type", .str type.name), ("message", .str message)])]
  | .repr text => .obj [("$repr", .str text)]

/-- The natural forms of items in order. -/
def itemsJson : List HostValue → List Json
  | [] => []
  | item :: rest => item.json :: itemsJson rest

/-- The natural forms of map entries in order. -/
def membersJson : List (HostValue × HostValue) → List (String × Json)
  | [] => []
  | (key, value) :: rest => (key.keyText, value.json) :: membersJson rest

end

mutual

/-- The tagged form. -/
def tagged : HostValue → Json
  | .null => .str "Null"
  | .bool b => .obj [("Bool", .bool b)]
  | .int i => .obj [("Int", .int i)]
  | .float f => .obj [("Float", .float f)]
  | .str s => .obj [("Str", .str s)]
  | .tuple items => .obj [("Tuple", .arr (itemsTagged items))]
  | .list items => .obj [("List", .arr (itemsTagged items))]
  | .map entries => .obj [("Map", .arr (entriesTagged entries))]
  | .exception type message =>
      .obj [("Exception", .obj [("exc_type", .str type.name), ("message", .str message)])]
  | .repr text => .obj [("Repr", .str text)]

/-- The tagged forms of items in order. -/
def itemsTagged : List HostValue → List Json
  | [] => []
  | item :: rest => item.tagged :: itemsTagged rest

/-- The tagged forms of map entries in order, each a pair. -/
def entriesTagged : List (HostValue × HostValue) → List Json
  | [] => []
  | (key, value) :: rest => .arr [key.tagged, value.tagged] :: entriesTagged rest

end

/-! ## Reading the tagged form -/

/-- Arrays and objects may be nested less than this deep. -/
def maxReadDepth : Nat := 128

open Json (Form)

/-- A name, alone or as the only key of an object with the value null. -/
def readName (depth : Nat) : Form → Option String
  | .str text => text
  | .obj [(name, .null)] => if depth = 0 then none else name
  | _ => none

/-- An exception type. -/
def readExceptionType (depth : Nat) (f : Form) : Option ExceptionType := do
  ExceptionType.ofName? (← readName depth f)

/-- The only member with a key; a missing or repeated one is refused. -/
def onlyMember (key : String) (members : List (Option String × Form)) : Option Form :=
  match members.filter (·.1 == some key) with
  | [(_, value)] => some value
  | _ => none

/-- The parts of an exception: an object with both members, or a pair. The keys of
further members are read, their values are not. -/
def exceptionParts : Form → Option (Form × Form)
  | .obj members =>
      if members.all (·.1.isSome) then do
        return (← onlyMember "exc_type" members, ← onlyMember "message" members)
      else none
  | .arr [type, message] => some (type, message)
  | _ => none

mutual

/-- Reads the tagged form; `depth` more levels of arrays and objects are allowed. -/
def ofTagged (depth : Nat) : Form → Option HostValue
  | .str (some "Null") => some .null
  | .obj [(some "Null", .null)] => if depth = 0 then none else some .null
  | .obj [(some tag, body)] =>
      match depth with
      | 0 => none
      | depth + 1 =>
          match tag, body with
          | "Bool", .bool b => some (.bool b)
          | "Int", number => number.word?.map .int
          | "Float", number => number.float?.map .float
          | "Str", text => text.text?.map .str
          | "Tuple", .arr items =>
              match depth with
              | 0 => none
              | depth + 1 => (itemsOfTagged depth items).map .tuple
          | "List", .arr items =>
              match depth with
              | 0 => none
              | depth + 1 => (itemsOfTagged depth items).map .list
          | "Map", .arr entries =>
              match depth with
              | 0 => none
              | depth + 1 => (entriesOfTagged depth entries).map .map
          | "Exception", parts => do
              let (type, message) ← exceptionParts parts
              match depth with
              | 0 => none
              | depth + 1 =>
                  return .exception (← readExceptionType depth type) (← message.text?)
          | "Repr", text => text.text?.map .repr
          | _, _ => none
  | _ => none

/-- Reads items in order. -/
def itemsOfTagged (depth : Nat) : List Form → Option (List HostValue)
  | [] => some []
  | item :: rest => do
      let first ← ofTagged depth item
      return first :: (← itemsOfTagged depth rest)

/-- Reads map entries in order, each a pair. -/
def entriesOfTagged (depth : Nat) : List Form → Option (List (HostValue × HostValue))
  | [] => some []
  | .arr [key, value] :: rest => do
      match depth with
      | 0 => none
      | inner + 1 =>
          let k ← ofTagged inner key
          let v ← ofTagged inner value
          return (k, v) :: (← entriesOfTagged depth rest)
  | _ => none

end

/-- The host value a text spells in tagged form. -/
def read? (text : String) : Option HostValue := do
  ofTagged (maxReadDepth - 1) (← Form.ofText? text)

end ScriptMachine.HostValue
