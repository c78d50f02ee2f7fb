/-!
Functions that are not compiled from scripts: their names and how many arguments
they take. `none` stands for any number.
-/

namespace ScriptMachine

/-- Methods of lists. -/
inductive ListMethod where
  | append | prepend | appendrange | discard | remove | removeat | contains | clear | index |
  rindex | find | rfind
deriving Repr, DecidableEq, Inhabited

namespace ListMethod

/-- Every one of them, in order. -/
def all : List ListMethod :=
  [.append, .prepend, .appendrange, .discard, .remove, .removeat, .contains, .clear, .index,
  .rindex, .find, .rfind]

/-- Name in scripts. -/
def name : ListMethod → String
  | append => "append"
  | prepend => "prepend"
  | appendrange => "appendrange"
  | discard => "discard"
  | remove => "remove"
  | removeat => "removeat"
  | contains => "contains"
  | clear => "clear"
  | index => "index"
  | rindex => "rindex"
  | find => "find"
  | rfind => "rfind"

/-- Number of arguments. -/
def arity? : ListMethod → Option Nat
  | append => none
  | prepend | appendrange | discard | remove | removeat | contains | index | rindex | find |
  rfind => some 1
  | clear => some 0

/-- The method of a given name. -/
def ofName? (name : String) : Option ListMethod :=
  all.find? (·.name == name)

end ListMethod

/-- Methods of maps. -/
inductive MapMethod where
  | contains | getSize | clear | set | get | remove | keys | values
deriving Repr, DecidableEq, Inhabited

namespace MapMethod

/-- Every one of them, in order. -/
def all : List MapMethod :=
  [.contains, .getSize, .clear, .set, .get, .remove, .keys, .values]

/-- Name in scripts. -/
def name : MapMethod → String
  | contains => "contains"
  | getSize => "getSize"
  | clear => "clear"
  | set => "set"
  | get => "get"
  | remove => "remove"
  | keys => "keys"
  | values => "values"

/-- Number of arguments. -/
def arity? : MapMethod → Option Nat
  | contains | remove => some 1
  | getSize | clear | keys | values => some 0
  | set => some 2
  | get => none

/-- The method of a given name. -/
def ofName? (name : String) : Option MapMethod :=
  all.find? (·.name == name)

end MapMethod

/-- Methods of strings. -/
inductive TextMethod where
  | substr | toLower | toUpper | indexOf | contains | replace | startsWith | endsWith | split |
  join | trim
deriving Repr, DecidableEq, Inhabited

namespace TextMethod

/-- Every one of them, in order. -/
def all : List TextMethod :=
  [.substr, .toLower, .toUpper, .indexOf, .contains, .replace, .startsWith, .endsWith, .split,
  .join, .trim]

/-- Name in scripts. -/
def name : TextMethod → String
  | substr => "substr"
  | toLower => "toLower"
  | toUpper => "toUpper"
  | indexOf => "indexOf"
  | contains => "contains"
  | replace => "replace"
  | startsWith => "startsWith"
  | endsWith => "endsWith"
  | split => "split"
  | join => "join"
  | trim => "trim"

/-- Number of arguments. -/
def arity? : TextMethod → Option Nat
  | substr => none
  | toLower | toUpper | trim => some 0
  | indexOf | contains | startsWith | endsWith | split | join => some 1
  | replace => some 2

/-- The method of a given name. -/
def ofName? (name : String) : Option TextMethod :=
  all.find? (·.name == name)

end TextMethod

/-- Functions installed as globals, in order. -/
inductive Builtin where
  | print | len | repr | str | typeof | hash | range
deriving Repr, DecidableEq, Inhabited

namespace Builtin

/-- Every one of them, in order. -/
def all : List Builtin :=
  [.print, .len, .repr, .str, .typeof, .hash, .range]

/-- Name in scripts. -/
def name : Builtin → String
  | print => "print"
  | len => "len"
  | repr => "repr"
  | str => "str"
  | typeof => "typeof"
  | hash => "hash"
  | range => "range"

/-- Number of arguments. -/
def arity? : Builtin → Option Nat
  | print | range => none
  | len | repr | str | typeof | hash => some 1

end Builtin

/-- Functions a host may install: `apply` calls its first argument with the others,
`add` adds words modulo their size, `fail` raises, `receiver` tells what it was
called on. -/
inductive HostFunction where
  | apply | add | fail | receiver
deriving Repr, DecidableEq, Inhabited

namespace HostFunction

/-- Every one of them, in order. -/
def all : List HostFunction :=
  [.apply, .add, .fail, .receiver]

/-- Name in scripts. -/
def name : HostFunction → String
  | apply => "apply"
  | add => "add"
  | fail => "fail"
  | receiver => "receiver"

/-- Number of arguments. -/
def arity? : HostFunction → Option Nat
  | apply => none
  | add => some 2
  | fail => some 1
  | receiver => some 0

end HostFunction

/-- A function of a host's own making. What it does, the host tells the machine. -/
structure ForeignFunction where
  /-- Tells it from other functions of the same name. -/
  key : Nat
  name : String
  arity? : Option Nat
deriving Repr, DecidableEq, Inhabited

/-- A function that is not compiled from a script. -/
inductive Native where
  | builtin (fn : Builtin)
  | list (fn : ListMethod)
  | map (fn : MapMethod)
  | text (fn : TextMethod)
  | host (fn : HostFunction)
  | foreign (fn : ForeignFunction)
deriving Repr, DecidableEq, Inhabited

namespace Native

/-- Name in scripts. -/
def name : Native → String
  | builtin fn => fn.name
  | list fn => fn.name
  | map fn => fn.name
  | text fn => fn.name
  | host fn => fn.name
  | foreign fn => fn.name

/-- Number of arguments. -/
def arity? : Native → Option Nat
  | builtin fn => fn.arity?
  | list fn => fn.arity?
  | map fn => fn.arity?
  | text fn => fn.arity?
  | host fn => fn.arity?
  | foreign fn => fn.arity?

end Native
end ScriptMachine
