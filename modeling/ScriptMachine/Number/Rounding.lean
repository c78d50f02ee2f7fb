/-!
Rounding of quotients to the nearest natural number.
-/

namespace ScriptMachine

/-- `num / den` rounded to the nearest natural number, a tie to the even one. -/
def roundDiv (num den : Nat) : Nat :=
  let down := num / den
  let rest := 2 * (num % den)
  if rest < den then down
  else if den < rest then down + 1
  else if down % 2 = 0 then down else down + 1

end ScriptMachine
