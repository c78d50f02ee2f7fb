import ScriptMachine.Json.Basic
import ScriptMachine.Number.Reading

/-!
Reading data interchange texts, in two steps. The first finds the form of a text: a
reader takes the characters that are left and gives a form with the rest, or nothing
when the text is ill formed. The second gives a meaning to numbers and strings, and
only to those that are asked for: a number beyond all floats or a string with half a
character is no obstacle where nobody looks at it.

Numbers that are not words are read as floats: the first digits that fit in 64 bits,
rounded, then scaled by a power of ten, so a long decimal may come out one place off.
-/

namespace ScriptMachine.Json

/-- Skips blanks. -/
def skipBlanks : List Char → List Char :=
  List.dropWhile fun c => c == ' ' || c == '\n' || c == '\t' || c == '\r'

/-- Takes an expected character after blanks. -/
def expect (c : Char) (cs : List Char) : Option (List Char) :=
  match skipBlanks cs with
  | d :: rest => if c = d then some rest else none
  | [] => none

/-! ## Strings -/

/-- The number of four hexadecimal digits. -/
def fourHex : List Char → Option (Nat × List Char)
  | a :: b :: c :: d :: rest => do return (← Reading.hex? [a, b, c, d], rest)
  | _ => none

/-- The low half of a character, as an escape by number. -/
def lowHalf : List Char → Option (Nat × List Char)
  | '\\' :: 'u' :: rest => do
      let (m, rest) ← fourHex rest
      if 0xdc00 ≤ m ∧ m ≤ 0xdfff then return (m, rest) else none
  | _ => none

/-- The character of an escape by number. Characters beyond four digits come as a
high and a low half; a half that stands alone is no character. -/
def unicodeEscape (cs : List Char) : Option (Option Char × List Char) := do
  let (n, rest) ← fourHex cs
  if 0xdc00 ≤ n ∧ n ≤ 0xdfff then return (none, rest)
  else if 0xd800 ≤ n ∧ n ≤ 0xdbff then
    match lowHalf rest with
    | some (m, rest) =>
        return (some (Char.ofNat (0x10000 + (n - 0xd800) * 0x400 + (m - 0xdc00))), rest)
    | none => return (none, rest)
  else return (some (Char.ofNat n), rest)

/-- The character of an escape. -/
def escapeSequence : List Char → Option (Option Char × List Char)
  | '"' :: rest => some (some '"', rest)
  | '\\' :: rest => some (some '\\', rest)
  | '/' :: rest => some (some '/', rest)
  | 'b' :: rest => some (some '\x08', rest)
  | 'f' :: rest => some (some '\x0c', rest)
  | 'n' :: rest => some (some '\n', rest)
  | 'r' :: rest => some (some '\r', rest)
  | 't' :: rest => some (some '\t', rest)
  | 'u' :: rest => unicodeEscape rest
  | _ => none

/-- The rest of a string after its opening quote; `acc` holds the characters read,
latest first, unless half of one stood alone. The string has at most `fuel`
characters. -/
def stringRest :
    (fuel : Nat) → (acc : Option (List Char)) → List Char → Option (Option String × List Char)
  | 0, _, _ => none
  | fuel + 1, acc, cs =>
      match cs with
      | [] => none
      | '"' :: rest => some (acc.map fun cs => String.ofList cs.reverse, rest)
      | '\\' :: rest => do
          let (c, rest) ← escapeSequence rest
          stringRest fuel (do return (← c) :: (← acc)) rest
      | c :: rest => if c.toNat < 0x20 then none else stringRest fuel (acc.map (c :: ·)) rest

/-- A string after its opening quote. -/
def stringBody (cs : List Char) : Option (Option String × List Char) :=
  stringRest (cs.length + 1) (some []) cs

/-! ## Numbers -/

/-- Greatest number of the leading digits. -/
def maxSignificand : Nat := Nat.pow 2 64 - 1

/-- Reads digits as long as the number they spell stays in range; gives the number,
how many digits it used, and the digits that no longer fit. -/
def leadingDigits (n used : Nat) : List Char → Nat × Nat × List Char
  | [] => (n, used, [])
  | c :: rest =>
      let next := n * 10 + (Reading.digit? c).getD 0
      if next ≤ maxSignificand then leadingDigits next (used + 1) rest else (n, used, c :: rest)

/-- The float nearest to a power of ten. -/
def powerOfTen (n : Nat) : Binary64 :=
  Binary64.ofNat (Nat.pow 10 n)

/-- Scales a float down by steps of `10 ^ 308`, at most `fuel` of them, until the
exponent can be applied at once. -/
def scaleDown : (fuel : Nat) → Binary64 → Nat → Binary64
  | 0, f, _ => f
  | fuel + 1, f, power =>
      if power ≤ 308 then f / powerOfTen power
      else if f.magnitude = 0 then f
      else scaleDown fuel (f / powerOfTen 308) (power - 308)

/-- The float `n * 10 ^ exponent`, rounded twice; numbers out of range are refused. -/
def scaledFloat (n : Nat) (exponent : Int) : Option Binary64 :=
  let f := Binary64.ofNat n
  if exponent < 0 then some (scaleDown 8 f exponent.natAbs)
  else if n = 0 then some f
  else if 308 < exponent then none
  else
    let g := f * powerOfTen exponent.toNat
    if g.magnitude = Binary64.infiniteMagnitude then none else some g

/-- The parts of a number: sign, whole digits, fraction digits, exponent digits. -/
structure NumberParts where
  negative : Bool
  whole : List Char
  fraction : Option (List Char)
  exponent : Option (Bool × List Char)
deriving Inhabited

/-- Splits a number off a text. A whole part of several digits has no leading zero,
and a point or an exponent mark is followed by digits. -/
def numberParts (cs : List Char) : Option (NumberParts × List Char) := do
  let (negative, cs) :=
    match cs with
    | '-' :: rest => (true, rest)
    | rest => (false, rest)
  let whole := cs.takeWhile Reading.isDigit
  let rest := cs.dropWhile Reading.isDigit
  if whole.isEmpty || (whole.head? == some '0' && whole.length ≠ 1) then none
  let (fraction, rest) ←
    match rest with
    | '.' :: tail =>
        let digits := tail.takeWhile Reading.isDigit
        if digits.isEmpty then none else some (some digits, tail.dropWhile Reading.isDigit)
    | tail => some (none, tail)
  let (exponent, rest) ←
    match rest with
    | c :: tail =>
        if c = 'e' ∨ c = 'E' then
          let (minus, tail) := Reading.sign tail
          let digits := tail.takeWhile Reading.isDigit
          if digits.isEmpty then none
          else some (some (minus, digits), tail.dropWhile Reading.isDigit)
        else some (none, c :: tail)
    | [] => some (none, [])
  return ({ negative, whole, fraction, exponent }, rest)

/-- A number that is written as a float. -/
def floatOf (p : NumberParts) : Option Binary64 := do
  let (n, _, dropped) := leadingDigits 0 0 p.whole
  let (n, used, _) := leadingDigits n 0 (p.fraction.getD [])
  let base : Int := (dropped.length : Int) - used
  let power ←
    match p.exponent with
    | none => some base
    | some (minus, digits) =>
        let e := Reading.valueUpTo (Nat.pow 2 31) digits
        if Nat.pow 2 31 - 1 < e ∧ !minus ∧ n ≠ 0 then none
        else some (base + Binary64.signed minus e)
  let f ← scaledFloat n power
  return if p.negative then -f else f

/-- The value of a number: a word where it is a whole number in range. A negative
zero is a float. -/
def numberValue (p : NumberParts) : Option Json :=
  if p.fraction.isNone && p.exponent.isNone then
    let n := Reading.valueUpTo (Nat.pow 2 64) p.whole
    if p.negative && n == 0 then some (.float (Binary64.zero true))
    else
      match Word.ofInt? (Binary64.signed p.negative n) with
      | some w => some (.int w)
      | none => (floatOf p).map .float
  else (floatOf p).map .float

/-! ## Forms -/

/-- A well formed text whose numbers and strings have not been given a meaning. -/
inductive Form where
  | null
  | bool (value : Bool)
  | number (parts : NumberParts)
  /-- A string, which has no text when half of a character stands alone in it. -/
  | str (text : Option String)
  | arr (items : List Form)
  | obj (members : List (Option String × Form))
deriving Inhabited

mutual

/-- Reads a form; `fuel` bounds the characters of the text. -/
def form : (fuel : Nat) → List Char → Option (Form × List Char)
  | 0, _ => none
  | fuel + 1, cs =>
      match skipBlanks cs with
      | 'n' :: 'u' :: 'l' :: 'l' :: rest => some (.null, rest)
      | 't' :: 'r' :: 'u' :: 'e' :: rest => some (.bool true, rest)
      | 'f' :: 'a' :: 'l' :: 's' :: 'e' :: rest => some (.bool false, rest)
      | '"' :: rest => do
          let (text, rest) ← stringBody rest
          return (.str text, rest)
      | '[' :: rest =>
          match skipBlanks rest with
          | ']' :: rest => some (.arr [], rest)
          | _ => do
              let (items, rest) ← formItems fuel rest
              return (.arr items, rest)
      | '\x7b' :: rest =>
          match skipBlanks rest with
          | '\x7d' :: rest => some (.obj [], rest)
          | _ => do
              let (members, rest) ← formMembers fuel rest
              return (.obj members, rest)
      | cs => do
          let (parts, rest) ← numberParts cs
          return (.number parts, rest)

/-- Reads array items up to the closing bracket. -/
def formItems : (fuel : Nat) → List Char → Option (List Form × List Char)
  | 0, _ => none
  | fuel + 1, cs => do
      let (first, rest) ← form fuel cs
      match skipBlanks rest with
      | ',' :: rest => do
          let (others, rest) ← formItems fuel rest
          return (first :: others, rest)
      | ']' :: rest => return ([first], rest)
      | _ => none

/-- Reads object members up to the closing brace. -/
def formMembers : (fuel : Nat) → List Char → Option (List (Option String × Form) × List Char)
  | 0, _ => none
  | fuel + 1, cs => do
      let rest ← expect '"' cs
      let (key, rest) ← stringBody rest
      let rest ← expect ':' rest
      let (first, rest) ← form fuel rest
      match skipBlanks rest with
      | ',' :: rest => do
          let (others, rest) ← formMembers fuel rest
          return ((key, first) :: others, rest)
      | '\x7d' :: rest => return ([(key, first)], rest)
      | _ => none

end

namespace Form

/-- The form of a whole text. -/
def ofText? (s : String) : Option Form := do
  let cs := s.toList
  let (f, rest) ← form (cs.length + 1) cs
  if (skipBlanks rest).isEmpty then some f else none

/-- The text of a string. -/
def text? : Form → Option String
  | .str text => text
  | _ => none

/-- The word a number spells. -/
def word? : Form → Option Int64
  | .number parts =>
      match numberValue parts with
      | some (.int w) => some w
      | _ => none
  | _ => none

/-- The float a number spells. Integers are converted. -/
def float? : Form → Option Binary64
  | .number parts =>
      match numberValue parts with
      | some (.int w) => some (Binary64.ofWord w)
      | some (.float f) => some f
      | _ => none
  | _ => none

end Form
end ScriptMachine.Json
