import ScriptMachine.Number.FloatText

/-!
Data interchange values and their compact text. Object members keep their order,
and a text may repeat a key; `objectOf` builds an object without repetition.
-/

namespace ScriptMachine

/-- A data interchange value. -/
inductive Json where
  | null
  | bool (value : Bool)
  | int (value : Int64)
  | float (value : Binary64)
  | str (value : String)
  | arr (items : List Json)
  | obj (members : List (String × Json))
deriving Inhabited

namespace Json

/-- A character below the space, spelled by number with four hexadecimal digits. -/
def controlEscape (c : Char) : List Char :=
  let digits := Nat.toDigits 16 c.toNat
  ['\\', 'u'] ++ List.replicate (4 - digits.length) '0' ++ digits

/-- A character inside a string. -/
def escape : Char → List Char
  | '"' => ['\\', '"']
  | '\\' => ['\\', '\\']
  | '\x08' => ['\\', 'b']
  | '\x0c' => ['\\', 'f']
  | '\n' => ['\\', 'n']
  | '\r' => ['\\', 'r']
  | '\t' => ['\\', 't']
  | c => if c.toNat < 0x20 then controlEscape c else [c]

/-- A string between double quotes. -/
def quoted (s : String) : String :=
  String.ofList ('"' :: s.toList.flatMap escape ++ ['"'])

mutual

/-- Compact text, without blanks. NaN and the infinities become `null`. -/
def render : Json → String
  | .null => "null"
  | .bool value => if value then "true" else "false"
  | .int value => Word.text value
  | .float value => (FloatText.interchange? value).getD "null"
  | .str value => quoted value
  | .arr items => "[" ++ ",".intercalate (renderItems items) ++ "]"
  | .obj members => "\x7b" ++ ",".intercalate (renderMembers members) ++ "\x7d"

/-- Texts of array items. -/
def renderItems : List Json → List String
  | [] => []
  | item :: rest => item.render :: renderItems rest

/-- Texts of object members. -/
def renderMembers : List (String × Json) → List String
  | [] => []
  | (key, value) :: rest => (quoted key ++ ":" ++ value.render) :: renderMembers rest

end

/-- Sets a member: an existing key keeps its place, a new one goes last. -/
def setMember (members : List (String × Json)) (key : String) (value : Json) :
    List (String × Json) :=
  match members with
  | [] => [(key, value)]
  | (k, v) :: rest => if k = key then (k, value) :: rest else (k, v) :: setMember rest key value

/-- Members in order without repetition; a repeated key keeps its first place and its
last value. -/
def collected (members : List (String × Json)) : List (String × Json) :=
  members.foldl (fun acc (key, value) => setMember acc key value) []

/-- An object from members in order. -/
def objectOf (members : List (String × Json)) : Json :=
  .obj (collected members)

end Json
end ScriptMachine
