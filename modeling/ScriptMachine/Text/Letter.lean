import ScriptMachine.Text.CaseTable
import ScriptMachine.Text.Ranges

/-!
Lower and upper case of texts. A character may have several characters as its
other form, and a capital sigma is lowered to its final shape at the end of a word.
-/

namespace ScriptMachine.Text

/-- The form of a character given by the runs, or the character itself. -/
def shifted (runs : List CaseRun) (c : Char) : Char :=
  match runs.find? fun r => decide (r.first ≤ c.toNat) && decide (c.toNat ≤ r.last)
      && (c.toNat - r.first) % r.stride == 0 with
  | some r => Char.ofNat (c.toNat + r.delta).toNat
  | none => c

/-- The form of a character given by the long forms or else by the runs. -/
def formOf (long : List (Nat × List Nat)) (runs : List CaseRun) (c : Char) : List Char :=
  match long.lookup c.toNat with
  | some codes => codes.map Char.ofNat
  | none => [shifted runs c]

/-- The first character that counts has case. -/
def meetsCased (cs : List Char) : Bool :=
  match cs.dropWhile (inRanges caseIgnorableRanges) with
  | [] => false
  | c :: _ => inRanges casedRanges c

/-- A sigma between these neighbours ends a word: a cased character precedes it
and none follows. The characters before it are given nearest first. -/
def isFinalSigma (before after : List Char) : Bool :=
  meetsCased before && !meetsCased after

/-- Lowers the rest of a text whose earlier characters, nearest first, are `before`. -/
def lowerFrom (before : List Char) : List Char → List Char
  | [] => []
  | c :: rest =>
      let form :=
        if c = 'Σ' then [if isFinalSigma before rest then 'ς' else 'σ']
        else formOf longLower lowerRuns c
      form ++ lowerFrom (c :: before) rest

/-- The text in lower case. -/
def toLower (s : String) : String :=
  String.ofList (lowerFrom [] s.toList)

/-- The text in upper case. -/
def toUpper (s : String) : String :=
  String.ofList (s.toList.flatMap (formOf longUpper upperRuns))

end ScriptMachine.Text
