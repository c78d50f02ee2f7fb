/-!
Columns: texts padded with blanks to a least width.
-/

namespace ScriptMachine.Text

/-- Blanks that bring a text of this length up to `width`. -/
def blanks (width : Nat) (s : String) : String :=
  String.ofList (List.replicate (width - s.length) ' ')

/-- The text at the left of its column. -/
def padRight (width : Nat) (s : String) : String :=
  s ++ blanks width s

/-- The text at the right of its column. -/
def padLeft (width : Nat) (s : String) : String :=
  blanks width s ++ s

end ScriptMachine.Text
