/-!
The binary and unary operators. An operator is named by its position in the
declaration (its tag, which instructions carry as an operand), by its source
spelling, and by the method through which an instance may take it over.
-/

namespace ScriptMachine

/-- Binary operators, in tag order. -/
inductive BinaryOp where
  | add | sub | mul | div | mod
  | leftShift | rightShift | and | or | xor
  | equals | notEquals | lessThan | greaterThan | lessThanOrEqu | greaterThanOrEqu
  | boolAnd | boolOr
deriving Repr, DecidableEq, Inhabited

namespace BinaryOp

/-- Every operator once; the index in this list is the operator's tag. -/
def all : List BinaryOp :=
  [.add, .sub, .mul, .div, .mod, .leftShift, .rightShift, .and, .or, .xor,
    .equals, .notEquals, .lessThan, .greaterThan, .lessThanOrEqu, .greaterThanOrEqu,
    .boolAnd, .boolOr]

/-- Position in declaration order. -/
def tag (op : BinaryOp) : Nat :=
  op.ctorIdx

/-- The operator with a given tag. -/
def ofTag? (tag : Nat) : Option BinaryOp :=
  all[tag]?

theorem ofTag?_tag (op : BinaryOp) : ofTag? op.tag = some op := by
  cases op <;> rfl

/-- Name of the operator in listings. -/
def name : BinaryOp → String
  | add => "Add"
  | sub => "Sub"
  | mul => "Mul"
  | div => "Div"
  | mod => "Mod"
  | leftShift => "LeftShift"
  | rightShift => "RightShift"
  | and => "And"
  | or => "Or"
  | xor => "Xor"
  | equals => "Equals"
  | notEquals => "NotEquals"
  | lessThan => "LessThan"
  | greaterThan => "GreaterThan"
  | lessThanOrEqu => "LessThanOrEqu"
  | greaterThanOrEqu => "GreaterThanOrEqu"
  | boolAnd => "BoolAnd"
  | boolOr => "BoolOr"

/-- The operator of a given name. -/
def ofName? (name : String) : Option BinaryOp :=
  all.find? (·.name == name)

/-- Source spelling, used in error messages. -/
def symbol : BinaryOp → String
  | add => "+"
  | sub => "-"
  | mul => "*"
  | div => "/"
  | mod => "%"
  | leftShift => "<<"
  | rightShift => ">>"
  | and => "&"
  | or => "|"
  | xor => "^"
  | equals => "=="
  | notEquals => "!="
  | lessThan => "<"
  | greaterThan => ">"
  | lessThanOrEqu => "<="
  | greaterThanOrEqu => ">="
  | boolAnd => "&&"
  | boolOr => "||"

/-- The method an instance defines to take the operator over. The two
short-circuit operators cannot be taken over. -/
def overload? : BinaryOp → Option String
  | add => some "__add__"
  | sub => some "__sub__"
  | mul => some "__mul__"
  | div => some "__div__"
  | mod => some "__mod__"
  | leftShift => some "__lshift__"
  | rightShift => some "__rshift__"
  | and => some "__and__"
  | or => some "__or__"
  | xor => some "__xor__"
  | equals => some "__equals__"
  | notEquals => some "__notEquals__"
  | lessThan => some "__lt__"
  | greaterThan => some "__gt__"
  | lessThanOrEqu => some "__lte__"
  | greaterThanOrEqu => some "__gte__"
  | boolAnd => none
  | boolOr => none

end BinaryOp

/-- Unary operators, in tag order. `invert` is the bitwise complement. -/
inductive UnaryOp where
  | negate | invert | boolNot
deriving Repr, DecidableEq, Inhabited

namespace UnaryOp

/-- Every operator once; the index in this list is the operator's tag. -/
def all : List UnaryOp :=
  [.negate, .invert, .boolNot]

/-- Position in declaration order. -/
def tag (op : UnaryOp) : Nat :=
  op.ctorIdx

/-- The operator with a given tag. -/
def ofTag? (tag : Nat) : Option UnaryOp :=
  all[tag]?

theorem ofTag?_tag (op : UnaryOp) : ofTag? op.tag = some op := by
  cases op <;> rfl

/-- Name of the operator in listings. -/
def name : UnaryOp → String
  | negate => "Negate"
  | invert => "Not"
  | boolNot => "BoolNot"

/-- The operator of a given name. -/
def ofName? (name : String) : Option UnaryOp :=
  all.find? (·.name == name)

/-- Source spelling, used in error messages. -/
def symbol : UnaryOp → String
  | negate => "-"
  | invert => "~"
  | boolNot => "!"

/-- The method an instance defines to take the operator over. -/
def overload : UnaryOp → String
  | negate => "__negate__"
  | invert => "__invert__"
  | boolNot => "__not__"

end UnaryOp
end ScriptMachine
