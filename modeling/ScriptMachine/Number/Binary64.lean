import ScriptMachine.Number.Rounding
import ScriptMachine.Number.Word

/-!
Double precision floats. A float is its 64 bits: a sign, eleven bits of exponent and
52 bits of fraction. A finite float is the number `± mantissa * 2 ^ exponent`, and
every operation is carried out exactly on such numbers before its result is rounded
once, to the nearest float and on a tie to the one whose last bit is zero.

A NaN has no number behind it, but it keeps its bits: an operation passes on the bits
of a NaN it is given, so that two of them may be told apart although they are never
equal.
-/

namespace ScriptMachine

/-- A float, as its bits. -/
structure Binary64 where
  bits : UInt64
deriving Repr, DecidableEq, Inhabited

namespace Binary64

/-! ## Bits -/

/-- All bits but the sign, as a number. Among floats of one sign it grows with the
distance from zero. -/
def magnitude (f : Binary64) : Nat :=
  f.bits.toNat % Nat.pow 2 63

/-- The sign bit is set. -/
def isNegative (f : Binary64) : Bool :=
  decide (Nat.pow 2 63 ≤ f.bits.toNat)

/-- The magnitude of the infinities. Greater ones belong to NaNs. -/
def infiniteMagnitude : Nat := 2047 * Nat.pow 2 52

/-- The float with a sign and a magnitude. -/
def ofMagnitude (negative : Bool) (magnitude : Nat) : Binary64 :=
  ⟨UInt64.ofNat ((if negative then Nat.pow 2 63 else 0) + magnitude)⟩

/-- The float is not a number. -/
def isNaN (f : Binary64) : Bool :=
  decide (infiniteMagnitude < f.magnitude)

/-- Positive or negative zero. -/
def zero (negative : Bool) : Binary64 :=
  ofMagnitude negative 0

/-- Positive or negative infinity. -/
def infinity (negative : Bool) : Binary64 :=
  ofMagnitude negative infiniteMagnitude

/-- The NaN that a text spells. -/
def nan : Binary64 := ⟨0x7ff8000000000000⟩

/-- The NaN of an operation that has no answer for its numbers, such as a quotient of
zeros. -/
def indefinite : Binary64 := ⟨0xfff8000000000000⟩

/-- A NaN with its quiet bit set, which is how operations pass a NaN on. -/
def quieted (f : Binary64) : Binary64 :=
  ⟨f.bits ||| 0x0008000000000000⟩

/-- The float with the other sign; a NaN keeps its other bits. -/
def neg (f : Binary64) : Binary64 :=
  ⟨f.bits ^^^ 0x8000000000000000⟩

instance : Neg Binary64 := ⟨neg⟩

/-! ## The number behind the bits -/

/-- A float taken apart. -/
inductive Decoded where
  | nan
  | infinite (negative : Bool)
  /-- `± mantissa * 2 ^ exponent`, with the exponent of the last place. -/
  | finite (negative : Bool) (mantissa : Nat) (exponent : Int)
deriving Repr, DecidableEq, Inhabited

/-- The exponent of the last place of the smallest floats. -/
def leastExponent : Int := -1074

/-- Takes a float apart. A normal float has a mantissa of 53 bits; the smaller
floats share the least exponent. -/
def decode (f : Binary64) : Decoded :=
  let biased : Nat := f.magnitude / Nat.pow 2 52
  let fraction := f.magnitude % Nat.pow 2 52
  if biased = 2047 then
    if fraction = 0 then .infinite f.isNegative else .nan
  else if biased = 0 then .finite f.isNegative fraction leastExponent
  else .finite f.isNegative (Nat.pow 2 52 + fraction) ((biased : Int) - 1075)

/-- The other sign. -/
def Decoded.negate : Decoded → Decoded
  | .nan => .nan
  | .infinite negative => .infinite !negative
  | .finite negative mantissa exponent => .finite (!negative) mantissa exponent

/-- A natural number with a sign. -/
def signed (negative : Bool) (n : Nat) : Int :=
  if negative then -(n : Int) else n

/-- The exponent of the leading binary digit of `num / den`, both positive. -/
def leadingBit (num den : Nat) : Int :=
  let estimate : Int := (num.log2 : Int) - den.log2
  if den * Nat.pow 2 estimate.toNat ≤ num * Nat.pow 2 (-estimate).toNat then estimate
  else estimate - 1

/-- The float nearest to `± num / den`, for a positive `den`. What rounds beyond the
greatest float is infinite. -/
def nearest (negative : Bool) (num den : Nat) : Binary64 :=
  if num = 0 then zero negative
  else
    let place := leadingBit num den - 52
    let last := if place < leastExponent then leastExponent else place
    let mantissa := roundDiv (num * Nat.pow 2 (-last).toNat) (den * Nat.pow 2 last.toNat)
    let magnitude := (last - leastExponent).toNat * Nat.pow 2 52 + mantissa
    if magnitude < infiniteMagnitude then ofMagnitude negative magnitude
    else infinity negative

/-- The float nearest to `± mantissa * 2 ^ exponent`. -/
def scaled (negative : Bool) (mantissa : Nat) (exponent : Int) : Binary64 :=
  nearest negative (mantissa * Nat.pow 2 exponent.toNat) (Nat.pow 2 (-exponent).toNat)

/-- The float nearest to a natural number. -/
def ofNat (n : Nat) : Binary64 :=
  nearest false n 1

/-- The float nearest to a word. -/
def ofWord (w : Int64) : Binary64 :=
  nearest (decide (w < 0)) w.toInt.natAbs 1

/-- The part of `mantissa * 2 ^ exponent` before the binary point. -/
def wholePart (mantissa : Nat) (exponent : Int) : Nat :=
  if 0 ≤ exponent then mantissa * Nat.pow 2 exponent.toNat
  else mantissa / Nat.pow 2 (-exponent).toNat

/-- `mantissa * 2 ^ exponent` has nothing after the binary point. -/
def isWhole (mantissa : Nat) (exponent : Int) : Bool :=
  decide (0 ≤ exponent) || mantissa % Nat.pow 2 (-exponent).toNat == 0

/-- The word a float equals exactly, if it is whole and in range. -/
def toWord? (f : Binary64) : Option Int64 :=
  match decode f with
  | .finite negative mantissa exponent =>
      if isWhole mantissa exponent then
        Word.ofInt? (signed negative (wholePart mantissa exponent))
      else none
  | _ => none

/-- Drops the fraction of a finite float; what is out of range becomes the
nearest word. There is no such word for NaN and the infinities. -/
def truncate? (f : Binary64) : Option Int64 :=
  match decode f with
  | .finite negative mantissa exponent =>
      some (Word.clamp (signed negative (wholePart mantissa exponent)))
  | _ => none

/-! ## Comparison -/

/-- The place of a float on the number line. Both zeros have the same place. -/
def rank (f : Binary64) : Int :=
  signed f.isNegative f.magnitude

/-- Equality of numbers: the zeros are equal, and a NaN equals nothing. -/
def equals (a b : Binary64) : Bool :=
  !a.isNaN && !b.isNaN && a.rank == b.rank

/-- The order of two numbers; a NaN has none. -/
def compare? (a b : Binary64) : Option Ordering :=
  if a.isNaN || b.isNaN then none else some (compare a.rank b.rank)

/-! ## Arithmetic -/

/-- Applies an operation to two numbers. A NaN among them is passed on instead, the
left one first. -/
def combine (op : Decoded → Decoded → Binary64) (a b : Binary64) : Binary64 :=
  if a.isNaN then a.quieted
  else if b.isNaN then b.quieted
  else op a.decode b.decode

/-- The sum of two numbers. A sum of zero is positive unless both are negative, and
opposite infinities have no sum. -/
def sum : Decoded → Decoded → Binary64
  | .finite s m e, .finite t n d =>
      let last := if e < d then e else d
      let total :=
        signed s (m * Nat.pow 2 (e - last).toNat) + signed t (n * Nat.pow 2 (d - last).toNat)
      if total = 0 then zero (s && t) else scaled (decide (total < 0)) total.natAbs last
  | .infinite s, .infinite t => if s = t then infinity s else indefinite
  | .infinite s, _ => infinity s
  | _, .infinite t => infinity t
  | _, _ => indefinite

/-- The product of two numbers. An infinity and a zero have none. -/
def product : Decoded → Decoded → Binary64
  | .finite s m e, .finite t n d => scaled (s != t) (m * n) (e + d)
  | .infinite s, .infinite t => infinity (s != t)
  | .infinite s, .finite t n _ => if n = 0 then indefinite else infinity (s != t)
  | .finite s m _, .infinite t => if m = 0 then indefinite else infinity (s != t)
  | _, _ => indefinite

/-- The quotient of two numbers. Dividing by zero gives an infinity; two zeros or two
infinities have no quotient. -/
def quotient : Decoded → Decoded → Binary64
  | .finite s m e, .finite t n d =>
      if n = 0 then if m = 0 then indefinite else infinity (s != t)
      else
        nearest (s != t) (m * Nat.pow 2 (e - d).toNat) (n * Nat.pow 2 (d - e).toNat)
  | .infinite s, .finite t _ _ => infinity (s != t)
  | .finite s _ _, .infinite t => zero (s != t)
  | _, _ => indefinite

/-- The remainder of division toward zero. It is exact and has the sign of the
dividend. Infinities have none, and neither has division by zero. -/
def remainder : Decoded → Decoded → Binary64
  | .finite s m e, .finite _ n d =>
      if n = 0 then indefinite
      else
        let last := if e < d then e else d
        scaled s ((m * Nat.pow 2 (e - last).toNat) % (n * Nat.pow 2 (d - last).toNat)) last
  | .finite s m e, .infinite _ => scaled s m e
  | _, _ => indefinite

instance : Add Binary64 := ⟨combine sum⟩

instance : Sub Binary64 := ⟨combine fun a b => sum a b.negate⟩

instance : Mul Binary64 := ⟨combine product⟩

instance : Div Binary64 := ⟨combine quotient⟩

instance : Mod Binary64 := ⟨combine remainder⟩

end Binary64
end ScriptMachine
