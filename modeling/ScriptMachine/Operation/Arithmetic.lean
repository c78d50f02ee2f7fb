import ScriptMachine.Operation.Primitive
import ScriptMachine.Heap.Equality

/-!
The operators on built-in values. Arithmetic on words is exact: a result that does
not fit is a fault. Floats follow their own standard, in which every operation has
a result. A word and a float are combined as floats.
-/

namespace ScriptMachine.Operation

/-! ## Words -/

/-- An integer as a value, if it fits in a word. -/
def exact (i : Int) : Except Fault Value :=
  match Word.ofInt? i with
  | some w => .ok (.int w)
  | none => .error .overflow

/-- One more than the greatest shift count. -/
def shiftBound : Int := 4294967296

/-- Shifts to the left by fewer than 64 places, losing what leaves the word. -/
def shiftLeft (a b : Int64) : Except Fault Value :=
  if b < 0 ∨ shiftBound ≤ b.toInt then .error .shiftCount
  else if 64 ≤ b then .error .overflow
  else .ok (.int (a <<< b))

/-- Shifts to the right. Shifting by 64 or more places leaves only the sign. -/
def shiftRight (a b : Int64) : Except Fault Value :=
  if b < 0 ∨ shiftBound ≤ b.toInt then .error .shiftCount
  else if 64 ≤ b then .ok (.int (if a < 0 then -1 else 0))
  else .ok (.int (a >>> b))

/-- The quotient, rounded toward zero. -/
def quotient (a b : Int64) : Except Fault Value :=
  if b = 0 then .error .zeroDivision else exact (a.toInt.tdiv b.toInt)

/-- The remainder that goes with the quotient; it has the sign of the dividend. A
quotient that does not fit has no remainder either. -/
def modulo (a b : Int64) : Except Fault Value :=
  if b = 0 then .error .zeroModulo
  else
    match Word.ofInt? (a.toInt.tdiv b.toInt) with
    | some _ => exact (a.toInt.tmod b.toInt)
    | none => .error .overflow

/-- A binary operator on words. -/
def onWords (op : BinaryOp) (a b : Int64) : Except Fault Value :=
  match op with
  | .add => exact (a.toInt + b.toInt)
  | .sub => exact (a.toInt - b.toInt)
  | .mul => exact (a.toInt * b.toInt)
  | .div => quotient a b
  | .mod => modulo a b
  | .leftShift => shiftLeft a b
  | .rightShift => shiftRight a b
  | .and => .ok (.int (a &&& b))
  | .or => .ok (.int (a ||| b))
  | .xor => .ok (.int (a ^^^ b))
  | _ => .error (.operands op TypeTag.int.name TypeTag.int.name)

/-! ## Floats -/

/-- A number as a float. -/
def asFloat? : Value → Option Binary64
  | .int i => some (Binary64.ofWord i)
  | .float f => some f
  | _ => none

/-- A binary operator on floats. -/
def onFloats? (op : BinaryOp) (a b : Binary64) : Option Binary64 :=
  match op with
  | .add => some (a + b)
  | .sub => some (a - b)
  | .mul => some (a * b)
  | .div => some (a / b)
  | .mod => some (a % b)
  | _ => none

/-! ## Other data -/

/-- A binary operator on truth values. -/
def onBools? (op : BinaryOp) (a b : Bool) : Option Bool :=
  match op with
  | .and => some (a && b)
  | .or => some (a || b)
  | .xor => some (a != b)
  | _ => none

/-- The longest text in bytes that repetition may build. -/
def maxRepeated : Nat := Nat.pow 2 28

/-- `n` copies of a text, one after the other; none for a negative `n`. -/
def repeated (s : String) (n : Int64) : Except Fault Value :=
  let count := n.toInt.toNat
  if maxRepeated < s.utf8ByteSize * count then .error .textTooLong
  else if s = "" then .ok (.str "")
  else .ok (.str (count.fold (fun _ _ acc => acc ++ s) ""))

/-- The fault of an operator that does not apply to these operands. -/
def unsupported (h : Heap) (op : BinaryOp) (left right : Value) : Fault :=
  .operands op (h.typeName left) (h.typeName right)

/-- The arithmetic operators. -/
def arithmetic (op : BinaryOp) (left right : Value) : Primitive Value := do
  match op, left, right with
  | op, .int a, .int b => onWords op a b
  | op, .bool a, .bool b =>
      match onBools? op a b with
      | some c => return .bool c
      | none => throw (← Primitive.ask (unsupported · op left right))
  | .add, .str a, .str b => return .str (a ++ b)
  | .mul, .str s, .int n => repeated s n
  | .add, .list a, .list b => Primitive.make fun h => h.newList (h.list a ++ h.list b)
  | .add, .tuple a, .tuple b => return .tuple (a ++ b)
  | op, left, right =>
      match asFloat? left, asFloat? right with
      | some a, some b =>
          match onFloats? op a b with
          | some c => return .float c
          | none => throw (← Primitive.ask (unsupported · op left right))
      | _, _ => throw (← Primitive.ask (unsupported · op left right))

/-! ## Comparison -/

/-- The order of two texts, by the code points of their characters. -/
def textOrder (a b : String) : Ordering :=
  if a < b then .lt else if a = b then .eq else .gt

/-- The comparison operators in terms of an order. -/
def accepts (op : BinaryOp) (order : Ordering) : Bool :=
  match op with
  | .lessThan => order == .lt
  | .greaterThan => order == .gt
  | .lessThanOrEqu => order != .gt
  | .greaterThanOrEqu => order != .lt
  | _ => false

/-- A comparison of numbers or of texts. It fails where there is no order. -/
def comparison (h : Heap) (op : BinaryOp) (left right : Value) : Except Fault Bool :=
  match left, right with
  | .int a, .int b => .ok (accepts op (compare a.toInt b.toInt))
  | .str a, .str b => .ok (accepts op (textOrder a b))
  | left, right =>
      match asFloat? left, asFloat? right with
      | some a, some b => .ok ((Binary64.compare? a b).any (accepts op))
      | _, _ => .error (unsupported h op left right)

/-- Equality, which has no answer for containers nested too deep. -/
def equality (h : Heap) (left right : Value) : Except Fault Bool :=
  match h.equals? left right with
  | some answer => .ok answer
  | none => .error .comparisonTooDeep

/-! ## All operators -/

/-- A binary operator on values whose class does not take it over. -/
def binary (op : BinaryOp) (left right : Value) : Primitive Value := do
  match op with
  | .equals => return .bool (← Primitive.consult (equality · left right))
  | .notEquals => return .bool (!(← Primitive.consult (equality · left right)))
  | .boolAnd => return if ← Primitive.ask (·.truthy left) then right else left
  | .boolOr => return if ← Primitive.ask (·.truthy left) then left else right
  | .lessThan | .greaterThan | .lessThanOrEqu | .greaterThanOrEqu =>
      return .bool (← Primitive.consult (comparison · op left right))
  | op => arithmetic op left right

/-- A unary operator on a value whose class does not take it over. -/
def unary (h : Heap) (op : UnaryOp) (v : Value) : Except Fault Value :=
  match op, v with
  | .boolNot, v => .ok (.bool (!h.truthy v))
  | .negate, .int i => exact (-i.toInt)
  | .negate, .float f => .ok (.float (-f))
  | .invert, .int i => .ok (.int (~~~i))
  | op, v => .error (.operand op (h.typeName v))

end ScriptMachine.Operation
