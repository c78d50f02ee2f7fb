import ScriptMachine.Text.Invisible

/-!
Quoted texts. `quoted` is how scripts show a string inside other data: between
double quotes, with quote, backslash, newline, tab and return escaped and all
else as it is. `debugQuoted` is the spelling used in diagnostics, which also
spells characters without a visible form by number.
-/

namespace ScriptMachine.Text

/-- A character inside a quoted text. -/
def escape : Char → List Char
  | '"' => ['\\', '"']
  | '\\' => ['\\', '\\']
  | '\n' => ['\\', 'n']
  | '\t' => ['\\', 't']
  | '\r' => ['\\', 'r']
  | c => [c]

/-- A text between double quotes. -/
def quoted (s : String) : String :=
  String.ofList ('"' :: s.toList.flatMap escape ++ ['"'])

/-- A number in base sixteen. -/
def hexDigits (n : Nat) : List Char :=
  Nat.toDigits 16 n

/-- A character inside a quoted text of a diagnostic. -/
def debugEscape (c : Char) : List Char :=
  if c = '\x00' then ['\\', '0']
  else if isInvisible c ∧ c ∉ ['\n', '\t', '\r'] then
    ['\\', 'u', '\x7b'] ++ hexDigits c.toNat ++ ['\x7d']
  else escape c

/-- A text between double quotes, as diagnostics spell it. -/
def debugQuoted (s : String) : String :=
  String.ofList ('"' :: s.toList.flatMap debugEscape ++ ['"'])

end ScriptMachine.Text
