import ScriptMachine.Text.Occurrence

/-!
Searching, cutting and joining texts by character. Texts are lists of characters
here; a search finds the leftmost occurrence and continues behind it, so
occurrences never overlap.
-/

namespace ScriptMachine.Text

/-- Position of the first occurrence of `t`. -/
def find? (t s : List Char) : Option Nat :=
  (cut? t s).map (·.1.length)

/-- Some part of the text is `t`. -/
def contains (t s : List Char) : Bool :=
  (cut? t s).isSome

/-- Cuts a text at no more than `limit` occurrences of `t`. -/
def splitWithin (t : List Char) : (limit : Nat) → List Char → List (List Char)
  | 0, s => [s]
  | limit + 1, s =>
      match cut? t s with
      | some (before, after) => before :: splitWithin t limit after
      | none => [s]

/-- The pieces between the occurrences of a nonempty `t`, of which there are at most as
many as characters. -/
def split (t s : List Char) : List (List Char) :=
  splitWithin t s.length s

/-- Puts `r` in place of each occurrence of `t`. The empty text occurs before
every character and at the end. -/
def replace (t r s : List Char) : List Char :=
  if t.isEmpty then r ++ s.flatMap (fun c => c :: r) else r.intercalate (split t s)

/-- The `count` characters from position `first` on, or as many as there are. -/
def slice (s : String) (first count : Nat) : String :=
  ((s.drop first).take count).copy

@[simp] theorem toList_slice (s : String) (first count : Nat) :
    (slice s first count).toList = (s.toList.drop first).take count := by
  simp [slice]

/-- The pieces of a text between the occurrences of one character. -/
def pieces (separator : Char) (s : String) : List String :=
  (split [separator] s.toList).map String.ofList

/-- Blank characters, those of other scripts and line separators included. -/
def isBlank (c : Char) : Bool :=
  let n := c.toNat
  (9 ≤ n && n ≤ 13) || n == 0x20 || n == 0x85 || n == 0xa0 || n == 0x1680
    || (0x2000 ≤ n && n ≤ 0x200a) || n == 0x2028 || n == 0x2029 || n == 0x202f
    || n == 0x205f || n == 0x3000

/-- The text without blanks at either end. -/
def trim (s : List Char) : List Char :=
  ((s.dropWhile isBlank).reverse.dropWhile isBlank).reverse

end ScriptMachine.Text
