import ScriptMachine.Text.Extender
import ScriptMachine.Text.Ranges
import ScriptMachine.Text.Unassigned

/-!
Characters without a visible form of their own: controls, blanks other than the
plain space, formatting characters and fillers, the characters that extend the one
before them, and code points without an assigned character.
-/

namespace ScriptMachine.Text

/-- Controls, blanks other than the plain space, formatting characters and fillers,
as inclusive ranges. -/
def blankRanges : List (Nat × Nat) := [
  (0x0, 0x1f), (0x7f, 0xa0), (0xad, 0xad), (0x600, 0x605), (0x61c, 0x61c), (0x6dd, 0x6dd),
  (0x70f, 0x70f), (0x890, 0x891), (0x8e2, 0x8e2), (0x115f, 0x1160), (0x1680, 0x1680),
  (0x180e, 0x180e), (0x2000, 0x200f), (0x2028, 0x202f), (0x205f, 0x2064), (0x2066, 0x206f),
  (0x3000, 0x3000), (0x3164, 0x3164), (0xfeff, 0xfeff), (0xffa0, 0xffa0), (0xfff9, 0xfffb),
  (0x110bd, 0x110bd), (0x110cd, 0x110cd), (0x13430, 0x1343f), (0x1bca0, 0x1bca3),
  (0x1d173, 0x1d17a), (0xe0001, 0xe0001), (0xe0020, 0xe007f)]

/-- The character has no visible form of its own. -/
def isInvisible (c : Char) : Bool :=
  inRanges blankRanges c || inRanges extenderRanges c || inRanges unassignedRanges c

end ScriptMachine.Text
