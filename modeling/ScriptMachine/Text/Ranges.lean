/-!
Classes of characters, given as lists of inclusive ranges of code points.
-/

namespace ScriptMachine.Text

/-- The character lies in one of the ranges. -/
def inRanges (ranges : List (Nat × Nat)) (c : Char) : Bool :=
  ranges.any fun (first, last) => decide (first ≤ c.toNat) && decide (c.toNat ≤ last)

end ScriptMachine.Text
