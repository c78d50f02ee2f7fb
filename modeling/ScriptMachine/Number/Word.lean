/-!
Signed 64-bit words. Arithmetic on them is exact: an operation is carried out on
the integers and its result is a word only if it fits.
-/

namespace ScriptMachine.Word

/-- The least word. -/
def least : Int := -9223372036854775808

/-- One more than the greatest word. -/
def bound : Int := 9223372036854775808

/-- The integer fits in a word. -/
def Fits (i : Int) : Prop :=
  least ≤ i ∧ i < bound

instance (i : Int) : Decidable (Fits i) :=
  inferInstanceAs (Decidable (_ ∧ _))

/-- The word that holds an integer, if one does. -/
def ofInt? (i : Int) : Option Int64 :=
  if Fits i then some (Int64.ofInt i) else none

/-- The word nearest to an integer. -/
def clamp (i : Int) : Int64 :=
  if i < least then Int64.ofInt least
  else if i < bound then Int64.ofInt i
  else Int64.ofInt (bound - 1)

/-- Decimal digits with a sign, and nothing else. -/
def text (w : Int64) : String :=
  match w.toInt with
  | .ofNat n => String.ofList (Nat.toDigits 10 n)
  | .negSucc n => String.ofList ('-' :: Nat.toDigits 10 (n + 1))

end ScriptMachine.Word
