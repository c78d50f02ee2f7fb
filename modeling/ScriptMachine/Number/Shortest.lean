import ScriptMachine.Number.Binary64

/-!
Decimal digits of a finite float.

`shortest` gives the fewest digits that read back as the same float: among the
decimals with that many digits inside the interval of reals that round to the
float, the one nearest to it, the even one on a tie. `fixed` rounds to a given
number of places. Both work on exact integers.
-/

namespace ScriptMachine.Decimal

/-- The number `digits * 10 ^ exponent`. -/
structure Scaled where
  digits : Nat
  exponent : Int
deriving Repr, DecidableEq, Inhabited

/-- The positive rational `num / den`. -/
structure Ratio where
  num : Nat
  den : Nat
deriving Repr, DecidableEq, Inhabited

/-- `mantissa * 2 ^ exponent / 10 ^ place`. -/
def ratioAt (mantissa : Nat) (exponent place : Int) : Ratio :=
  { num := mantissa * Nat.pow 2 exponent.toNat * Nat.pow 10 (-place).toNat
    den := Nat.pow 2 (-exponent).toNat * Nat.pow 10 place.toNat }

/-- The exponent of the leading decimal digit of `mantissa * 2 ^ exponent`, for a
positive mantissa. The estimate from the binary logarithm is at most one off. -/
def leadingPlace (mantissa : Nat) (exponent : Int) : Int :=
  let estimate : Int := (((mantissa.log2 : Int) + exponent) * 30103).fdiv 100000
  let reaches (place : Int) : Bool :=
    let r := ratioAt mantissa exponent place
    decide (r.den ≤ r.num)
  if reaches (estimate + 1) then estimate + 1
  else if reaches estimate then estimate
  else estimate - 1

/-- The interval of reals that round to one float, in quarters of its last
place: `low` and `high` around `mid`, ends included when `closed`. -/
structure Interval where
  low : Nat
  mid : Nat
  high : Nat
  closed : Bool
deriving Repr, DecidableEq, Inhabited

/-- The rounding interval of `mantissa * 2 ^ exponent`. Below a power of two the
floats lie twice as close, unless the exponent is already the least one. -/
def Interval.of (mantissa : Nat) (exponent : Int) : Interval :=
  let below := if mantissa = Nat.pow 2 52 ∧ exponent ≠ -1074 then 1 else 2
  { low := 4 * mantissa - below, mid := 4 * mantissa, high := 4 * mantissa + 2
    closed := mantissa % 2 == 0 }

/-- A multiple of `10 ^ place` inside the interval, nearest to its middle. Only
the two neighbours of the middle have to be tried. -/
def Interval.gridPoint? (i : Interval) (exponent place : Int) : Option Nat :=
  let mid := ratioAt i.mid (exponent - 2) place
  let low := (ratioAt i.low (exponent - 2) place).num
  let high := (ratioAt i.high (exponent - 2) place).num
  let inside (d : Nat) : Bool :=
    let point := d * mid.den
    if i.closed then decide (low ≤ point) && decide (point ≤ high)
    else decide (low < point) && decide (point < high)
  let down := mid.num / mid.den
  match inside down, inside (down + 1) with
  | true, false => some down
  | false, true => some (down + 1)
  | false, false => none
  | true, true =>
      let half := (2 * down + 1) * mid.den
      if 2 * mid.num < half then some down
      else if half < 2 * mid.num then some (down + 1)
      else some (if down % 2 = 0 then down else down + 1)

/-- The coarsest grid point, trying `fuel` grids from `place` down. -/
def Interval.coarsest (i : Interval) (exponent : Int) : (fuel : Nat) → (place : Int) → Scaled
  | 0, place => { digits := (ratioAt i.mid (exponent - 2) place).num, exponent := place }
  | fuel + 1, place =>
      match i.gridPoint? exponent place with
      | some digits => { digits, exponent := place }
      | none => i.coarsest exponent fuel (place - 1)

/-- Moves factors of ten from the digits to the exponent, at most `fuel` of them. -/
def Scaled.trim : (fuel : Nat) → Scaled → Scaled
  | 0, s => s
  | fuel + 1, s =>
      if s.digits ≠ 0 ∧ s.digits % 10 = 0 then
        trim fuel { digits := s.digits / 10, exponent := s.exponent + 1 }
      else s

/-- The fewest digits that read back as `mantissa * 2 ^ exponent`, for a positive
mantissa. Seventeen digits always suffice. -/
def shortest (mantissa : Nat) (exponent : Int) : Scaled :=
  ((Interval.of mantissa exponent).coarsest exponent 18 (leadingPlace mantissa exponent)).trim 20

/-- How many units of `10 ^ -places` there are in `mantissa * 2 ^ exponent`. -/
def fixed (mantissa : Nat) (exponent : Int) (places : Nat) : Nat :=
  let r := ratioAt mantissa exponent (-(places : Int))
  roundDiv r.num r.den

end ScriptMachine.Decimal
