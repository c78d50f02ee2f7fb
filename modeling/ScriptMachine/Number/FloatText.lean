import ScriptMachine.Number.Shortest

/-!
Texts of floats. The digits come from `Decimal.shortest`; a `FloatStyle` says how
they are laid out around the decimal point.
-/

namespace ScriptMachine

/-- How the digits of a finite float are laid out. -/
structure FloatStyle where
  /-- Most digits before the point in positional notation. -/
  maxWhole : Int
  /-- Most zeros between the point and the first digit in positional notation. -/
  maxLeadingZeros : Int
  /-- What a nonnegative exponent starts with. -/
  positiveExponent : String
deriving Repr, DecidableEq, Inhabited

namespace FloatStyle

/-- Up to sixteen digits before the point and up to four zeros after it are
written out; an exponent has no plus sign. -/
def script : FloatStyle := ⟨16, 4, ""⟩

/-- The same with a plus sign in exponents, as in data interchange texts. -/
def interchange : FloatStyle := { script with positiveExponent := "+" }

/-- `count` zeros. -/
def zeros (count : Int) : String :=
  String.ofList (List.replicate count.toNat '0')

/-- Lays out a positive number with the given digits. -/
def layOut (style : FloatStyle) (s : Decimal.Scaled) : String :=
  let digits := Nat.toDigits 10 s.digits
  let count : Int := digits.length
  /- The point stands after this many digits. -/
  let point := count + s.exponent
  if 0 ≤ s.exponent ∧ point ≤ style.maxWhole then
    String.ofList digits ++ zeros s.exponent ++ ".0"
  else if 0 < point ∧ point ≤ style.maxWhole then
    String.ofList (digits.take point.toNat) ++ "." ++ String.ofList (digits.drop point.toNat)
  else if -style.maxLeadingZeros ≤ point ∧ point ≤ 0 then
    "0." ++ zeros (-point) ++ String.ofList digits
  else
    let power := point - 1
    let mark := if 0 ≤ power then "e" ++ style.positiveExponent else "e"
    let fraction := if digits.length ≤ 1 then [] else '.' :: digits.drop 1
    String.ofList (digits.take 1 ++ fraction) ++ mark ++ toString power

/-- Text of a finite number `± mantissa * 2 ^ exponent`. -/
def finite (style : FloatStyle) (negative : Bool) (mantissa : Nat) (exponent : Int) : String :=
  (if negative then "-" else "") ++
    if mantissa = 0 then "0.0" else style.layOut (Decimal.shortest mantissa exponent)

end FloatStyle

namespace FloatText

/-- Text of any float as scripts print it. -/
def text (f : Binary64) : String :=
  match Binary64.decode f with
  | .nan => "nan"
  | .infinite negative => if negative then "-inf" else "inf"
  | .finite negative mantissa exponent => FloatStyle.script.finite negative mantissa exponent

/-- Text of a finite float in data interchange; there is none for NaN and the infinities. -/
def interchange? (f : Binary64) : Option String :=
  match Binary64.decode f with
  | .finite negative mantissa exponent =>
      some (FloatStyle.interchange.finite negative mantissa exponent)
  | _ => none

/-- A nonnegative finite float with one digit after the point. -/
def onePlace (f : Binary64) : String :=
  match Binary64.decode f with
  | .finite _ mantissa exponent =>
      let tenths := Decimal.fixed mantissa exponent 1
      toString (tenths / 10) ++ "." ++ toString (tenths % 10)
  | _ => "NaN"

end FloatText
end ScriptMachine
