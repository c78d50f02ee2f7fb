import ScriptMachine.Code.Instruction

/-!
Control flow of a method, followed without running it. A layout is what is known of the
operand stack and of the protected regions at an instruction: how many values there are, and
for every open region where its handler starts and how deep the stack was when it was opened.

`Flow body ip l` says that some path from the beginning of `body` reaches index `ip` with
layout `l`. A path falls through, jumps, or, inside a region, goes from any instruction to the
handler of the innermost region. `Method.WellFormed` says that all paths to an index agree and
that no instruction on a path lacks what it needs.
-/

namespace ScriptMachine

/-- An open protected region. -/
structure Region where
  /-- Index of the first instruction of the handler. -/
  target : Nat
  /-- Depth of the operand stack when the region was opened. -/
  height : Nat
deriving Repr, DecidableEq

/-- The operand stack and the open regions, innermost first, at an instruction. -/
structure Layout where
  depth : Nat := 0
  regions : List Region := []
deriving Repr, DecidableEq

namespace Instruction

/-- How many operands an instruction looks at or takes off the stack. -/
def pops (i : Instruction) : Nat :=
  match i.op with
  | .nop | .loadConst | .loadNull | .loadSelf | .loadTrue | .loadFalse | .loadLocal | .loadGlobal
  | .jump | .pushExceptionHandler | .popExceptionHandler | .loadException | .importModule
  | .importAll => 0
  | .unaryOp | .pop | .dup | .dup3 | .storeLocal | .storeGlobal | .loadAttribute | .ret
  | .jumpIfTrue | .jumpIfFalse | .buildClosure | .getIter | .iterGetNext | .iterMoveNext
  | .iterReset | .raise | .nullCoalesce | .importFrom => 1
  | .binOp | .storeAttribute | .loadIndex | .instanceOf | .dynamicCast => 2
  | .storeIndex => 3
  | .invoke | .invokeSuper => i.arg + 1
  | .buildList | .buildTuple => i.arg
  | .buildHash => i.arg * 2

/-- How many values stand in their place when control falls through. -/
def pushes (i : Instruction) : Nat :=
  match i.op with
  | .nop | .pop | .storeLocal | .storeGlobal | .storeAttribute | .storeIndex | .invokeSuper
  | .jumpIfTrue | .jumpIfFalse | .jump | .iterReset | .raise | .pushExceptionHandler
  | .popExceptionHandler | .nullCoalesce | .importModule | .importFrom | .importAll => 0
  | .binOp | .unaryOp | .loadConst | .loadNull | .loadSelf | .loadTrue | .loadFalse | .loadLocal
  | .loadGlobal | .loadAttribute | .loadIndex | .invoke | .ret | .buildList | .buildTuple
  | .buildHash | .buildClosure | .getIter | .iterGetNext | .iterMoveNext | .loadException
  | .instanceOf | .dynamicCast => 1
  | .dup => 2
  | .dup3 => 3

/-- The depth when control falls through. -/
def fallDepth (i : Instruction) (depth : Nat) : Nat :=
  depth - i.pops + i.pushes

/-- Where control may go from an instruction at `ip` that does not raise, and with which
layout. -/
def successors (i : Instruction) (ip : Nat) (l : Layout) : List (Nat × Layout) :=
  let below := { l with depth := i.fallDepth l.depth }
  match i.op with
  | .ret | .raise => []
  | .jump => [(i.arg, l)]
  | .jumpIfTrue | .jumpIfFalse => [(ip + 1, below), (i.arg, below)]
  | .nullCoalesce => [(ip + 1, below), (i.arg, l)]
  | .pushExceptionHandler => [(ip + 1, { l with regions := ⟨i.arg, l.depth⟩ :: l.regions })]
  | .popExceptionHandler => [(ip + 1, { l with regions := l.regions.tail })]
  | _ => [(ip + 1, below)]

end Instruction

/-- Some path from the beginning of `body` reaches `ip` with layout `l`. -/
inductive Flow (body : Array Instruction) : Nat → Layout → Prop where
  | start : Flow body 0 {}
  | step {ip : Nat} {l : Layout} {i : Instruction} {ip' : Nat} {l' : Layout} :
      Flow body ip l → body[ip]? = some i → (ip', l') ∈ i.successors ip l → Flow body ip' l'
  /-- An instruction inside a region may raise: the innermost region is closed and the stack
  cut back to the depth recorded when it was opened. -/
  | raise {ip : Nat} {l : Layout} {i : Instruction} {r : Region} {rest : List Region} :
      Flow body ip l → body[ip]? = some i → l.regions = r :: rest →
      Flow body r.target ⟨r.height, rest⟩

/-- All paths through a method agree, and every instruction finds what it needs. -/
structure Method.WellFormed (m : Method) : Prop where
  /-- One layout belongs to every index that is reached. -/
  assignment : ∃ layout : Nat → Layout, ∀ ip l, Flow m.body ip l → l = layout ip
  /-- Every instruction finds its operands, all of them above the stack of the regions around
  it. -/
  operands : ∀ ip l i, Flow m.body ip l → m.body[ip]? = some i →
    i.pops ≤ l.depth ∧ ∀ r ∈ l.regions, r.height + i.pops ≤ l.depth
  /-- A region that is closed was opened in the same method. -/
  closing : ∀ ip l i, Flow m.body ip l → m.body[ip]? = some i →
    i.op = .popExceptionHandler → l.regions ≠ []
  /-- A method returns with a value and outside all regions. -/
  returning : ∀ ip l i, Flow m.body ip l → m.body[ip]? = some i →
    i.op = .ret → l.regions = [] ∧ 1 ≤ l.depth
  /-- Control leaves the body only at its end, with one value and outside all regions. -/
  ending : ∀ ip l, Flow m.body ip l → m.body[ip]? = none → ip = m.body.size ∧ l = ⟨1, []⟩

end ScriptMachine
