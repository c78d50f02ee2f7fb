import ScriptMachine.Number.Binary64

/-!
Numbers read from text. Integers are an optional sign and digits. Floats are an
optional sign followed by digits with an optional point and exponent, or by one
of the words `inf`, `infinity` and `nan` in any case.
-/

namespace ScriptMachine.Reading

/-- The value of a decimal digit. -/
def digit? (c : Char) : Option Nat :=
  if '0' ≤ c ∧ c ≤ '9' then some (c.toNat - '0'.toNat) else none

/-- The character is a decimal digit. -/
def isDigit (c : Char) : Bool :=
  (digit? c).isSome

/-- The number that decimal digits spell. -/
def digitsValue (cs : List Char) : Nat :=
  cs.foldl (fun n c => n * 10 + (digit? c).getD 0) 0

/-- The number that decimal digits spell up to the one with which it reaches a limit;
what follows is not counted. -/
def valueUpTo (limit : Nat) (cs : List Char) : Nat :=
  cs.foldl (fun n c => if n < limit then n * 10 + (digit? c).getD 0 else n) 0

/-- Takes an optional sign off a text; true stands for minus. -/
def sign : List Char → Bool × List Char
  | '+' :: rest => (false, rest)
  | '-' :: rest => (true, rest)
  | rest => (false, rest)

/-- The word a text spells. -/
def word? (cs : List Char) : Option Int64 :=
  let (negative, digits) := sign cs
  if digits.isEmpty || !digits.all isDigit then none
  else Word.ofInt? (Binary64.signed negative (valueUpTo (Nat.pow 2 64) digits))

/-- The number `digits * 10 ^ exponent`, rounded to the nearest float. Beyond the
powers of ten that floats reach, the result is infinite or zero at once. -/
def scaled (digits : Nat) (exponent : Int) : Binary64 :=
  let size : Int := (Nat.toDigits 10 digits).length
  if digits = 0 ∨ size + exponent < -400 then Binary64.zero false
  else if 400 < size + exponent then Binary64.infinity false
  else
    Binary64.nearest false (digits * Nat.pow 10 exponent.toNat) (Nat.pow 10 (-exponent).toNat)

/-- Digits of an exponent are not counted once it has reached this limit. -/
def exponentLimit : Nat := Nat.pow 2 16

/-- The exponent part of a float: nothing, or a mark, an optional sign and digits. -/
def exponent? : List Char → Option Int
  | [] => some 0
  | c :: rest =>
      if c = 'e' ∨ c = 'E' then
        let (negative, digits) := sign rest
        if digits.isEmpty || !digits.all isDigit then none
        else some (Binary64.signed negative (valueUpTo exponentLimit digits))
      else none

/-- The digits of a number that are counted. No number half way between two floats has
as many digits, so of those that follow it only matters whether all are zero. -/
def countedDigits : Nat := 800

/-- The float nearest to `digits * 10 ^ exponent`. -/
def ofDigits (digits : List Char) (exponent : Int) : Binary64 :=
  let digits := digits.dropWhile (· == '0')
  let dropped := digits.drop countedDigits
  if dropped.isEmpty then scaled (digitsValue digits) exponent
  else
    let rest := if dropped.all (· == '0') then 0 else 1
    scaled (digitsValue (digits.take countedDigits) * 10 + rest)
      (exponent + (dropped.length - 1 : Nat))

/-- A float without its sign, in digits. -/
def decimal? (cs : List Char) : Option Binary64 :=
  let whole := cs.takeWhile isDigit
  let afterWhole := cs.dropWhile isDigit
  let (fraction, rest) :=
    match afterWhole with
    | '.' :: tail => (tail.takeWhile isDigit, tail.dropWhile isDigit)
    | tail => ([], tail)
  if whole.isEmpty && fraction.isEmpty then none
  else do
    let power ← exponent? rest
    return ofDigits (whole ++ fraction) (power - fraction.length)

/-- A float without its sign. -/
def unsigned? (cs : List Char) : Option Binary64 :=
  let lowered := String.ofList (cs.map Char.toLower)
  if lowered = "inf" ∨ lowered = "infinity" then some (Binary64.infinity false)
  else if lowered = "nan" then some Binary64.nan
  else decimal? cs

/-- The float a text spells. -/
def float? (cs : List Char) : Option Binary64 :=
  let (negative, rest) := sign cs
  (unsigned? rest).map fun f => if negative then -f else f

/-- The value of a hexadecimal digit. -/
def hexDigit? (c : Char) : Option Nat :=
  if '0' ≤ c ∧ c ≤ '9' then some (c.toNat - '0'.toNat)
  else if 'a' ≤ c ∧ c ≤ 'f' then some (c.toNat - 'a'.toNat + 10)
  else if 'A' ≤ c ∧ c ≤ 'F' then some (c.toNat - 'A'.toNat + 10)
  else none

/-- The number that hexadecimal digits spell. -/
def hex? (cs : List Char) : Option Nat :=
  cs.foldl (fun n c => do return (← n) * 16 + (← hexDigit? c)) (some 0)

/-- A float given by decimal text, or by `0x` and the hexadecimal digits of its bits. -/
def floatLiteral? (s : String) : Option Binary64 :=
  match s.toList with
  | '0' :: 'x' :: digits => (hex? digits).map fun n => ⟨UInt64.ofNat n⟩
  | cs => float? cs

end ScriptMachine.Reading
