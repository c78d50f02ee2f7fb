import ScriptMachine.Text.Search

/-!
Slash-separated paths. A path is a sequence of components; empty segments and
segments `.` are no components, except for a `.` at the very start.
-/

namespace ScriptMachine.Path

/-- The path starts at the root. -/
def isAbsolute (path : String) : Bool :=
  path.toList.head? == some '/'

/-- The segments between slashes, without the slash of the root. -/
def segments (path : String) : List String :=
  Text.pieces '/' (if isAbsolute path then String.ofList (path.toList.drop 1) else path)

/-- Drops the segments at the end that are no components. The segments are given
last first; `.` as the only segment of a relative path is a component. -/
def dropEmptyTail (absolute : Bool) : List String → List String
  | [] => []
  | s :: before =>
      if s = "" ∨ (s = "." ∧ (absolute ∨ before ≠ [])) then dropEmptyTail absolute before
      else s :: before

/-- The segments up to the last component, last first. -/
def components (path : String) : List String :=
  dropEmptyTail (isAbsolute path) (segments path).reverse

/-- The path without its last component; a path without components has no parent. -/
def parent? (path : String) : Option String :=
  match components path with
  | [] => none
  | _ :: before =>
      let rest := (dropEmptyTail (isAbsolute path) before).reverse
      some ((if isAbsolute path then "/" else "") ++ "/".intercalate rest)

/-- A relative path below a directory. -/
def join (directory path : String) : String :=
  if directory = "" ∨ directory.toList.getLast? = some '/' then directory ++ path
  else directory ++ "/" ++ path

/-- A file name without what follows its last dot; a dot at the start belongs to
the name. -/
def stemOf (name : String) : String :=
  match (Text.pieces '.' name).reverse with
  | _ :: second :: earlier =>
      let before := ".".intercalate (second :: earlier).reverse
      if before = "" then name else before
  | _ => name

/-- The last component without its extension, if the path ends in a name. -/
def stem? (path : String) : Option String :=
  match components path with
  | [] => none
  | name :: _ => if name = ".." ∨ name = "." then none else some (stemOf name)

end ScriptMachine.Path
