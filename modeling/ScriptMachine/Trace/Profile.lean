import ScriptMachine.Trace.Event
import ScriptMachine.Number.FloatText

/-!
Statistics of a run: how often each instruction was executed, and how many calls
and exceptions there were.
-/

namespace ScriptMachine

/-- Counters of a run. -/
structure Profile where
  /-- Executions of each opcode, by its tag. -/
  counts : Array Nat := Array.replicate Opcode.all.length 0
  instructions : Nat := 0
  calls : Nat := 0
  /-- The most frames there were at once. -/
  maxDepth : Nat := 0
  raises : Nat := 0
deriving Repr, DecidableEq, Inhabited

namespace Profile

/-- Counts an event. -/
def note (p : Profile) : Event → Profile
  | .instruction _ op _ _ =>
      { p with counts := p.counts.modify op.tag (· + 1), instructions := p.instructions + 1 }
  | .call _ depth => { p with calls := p.calls + 1, maxDepth := Nat.max p.maxDepth depth }
  | .raise _ _ => { p with raises := p.raises + 1 }
  | _ => p

/-- How often an opcode was executed. -/
def count (p : Profile) (op : Opcode) : Nat :=
  p.counts.getD op.tag 0

/-- The opcodes that were executed, most frequent first and equally frequent ones
in tag order, with their counts. -/
def frequencies (p : Profile) : List (Opcode × Nat) :=
  ((Opcode.all.map fun op => (op, p.count op)).filter (·.2 != 0)).mergeSort
    fun a b => decide (b.2 ≤ a.2)

/-- One line of the table: name, count and share of all instructions. -/
def row (p : Profile) (op : Opcode) (n : Nat) : String :=
  let share := Binary64.ofNat n / Binary64.ofNat p.instructions * Binary64.ofNat 100
  let name := Text.padRight 20 op.name
  let number := Text.padLeft 10 (toString n)
  let percent := Text.padLeft 5 (FloatText.onePlace share)
  s!"  {name} {number}  ({percent}%)"

/-- The report as text. -/
def report (p : Profile) : String :=
  let lines :=
    ["=== VM Profiling Report ===",
      s!"Total instructions: {p.instructions}",
      s!"Total calls:        {p.calls}",
      s!"Max call depth:     {p.maxDepth}",
      s!"Raises:             {p.raises}",
      "",
      "--- Opcode Frequency ---"] ++
    p.frequencies.map fun (op, n) => p.row op n
  String.join (lines.map (· ++ "\n"))

end Profile
end ScriptMachine
