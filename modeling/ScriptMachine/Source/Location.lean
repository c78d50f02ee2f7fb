/-!
Positions in source text. Every tree node and every emitted instruction carries
one; positions are only stored and printed, never computed with.
-/

namespace ScriptMachine

/-- A line and a column. The zero position stands for "unknown". -/
structure Location where
  line : Nat := 0
  column : Nat := 0
deriving Repr, DecidableEq, Inhabited

namespace Location

/-- `line:column`, the spelling used by diagnostics and traces. -/
def text (loc : Location) : String :=
  s!"{loc.line}:{loc.column}"

end Location
end ScriptMachine
