import ScriptMachine.Code.Emission
import ScriptMachine.Proofs.Machine.Counting
import ScriptMachine.Proofs.Meaning.Settling

/-!
Running code against evaluating a tree. A machine runs an activation of a method; the evaluator
has a machine of its own whose topmost frame stands for that activation. `At` says that the two
go together: the frame is about to fetch a certain instruction with certain operands and certain
open regions, and all else that can be seen is the same. `Realizes` says that the machine does
what an evaluation came to: it gets where the evaluation says, or an exception leaves the part of
the code that runs, or, if the evaluation ran out of fuel, the activation goes on for at least as
many steps.
-/

namespace ScriptMachine

open ScriptMachine.Action

/-! ## Computations of the evaluator -/

namespace Eval

variable {α β : Type}

@[simp] theorem result_pure (x : α) (e : Machine) :
    (pure x : Eval α).result e = some (.ok x, e) := rfl

@[simp] theorem result_ask (question : Machine → α) (e : Machine) :
    (ask question).result e = some (.ok (question e), e) := rfl

/-- Goes on after a computation, unless it raised. -/
def next (f : α → Eval β) :
    Except ExceptionId α × Machine → Option (Except ExceptionId β × Machine)
  | (.ok x, e) => (f x).result e
  | (.error id, e) => some (.error id, e)

/-- The second part of an evaluation is given what the first came to. -/
theorem result_bind (x : Eval α) (f : α → Eval β) (e : Machine) :
    (x >>= f).result e = (x.result e).bind (next f) := by
  change Option.bind _ _ = _
  congr 1
  funext r
  rcases r with ⟨_ | _, _⟩ <;> rfl

theorem result_bind_ok {x : Eval α} {f : α → Eval β} {e e' : Machine} {a : α}
    (ok : x.result e = some (.ok a, e')) : (x >>= f).result e = (f a).result e' := by
  rw [result_bind, ok]
  rfl

end Eval

/-! ## Activations -/

/-- An open region of an activation: where it leads, and the operands when it was opened. -/
structure Protection where
  target : Nat
  floor : List Value

/-- The activation of a method, between the frames below it and whatever it calls. -/
structure Activation where
  /-- The frame, whatever it is about to do. -/
  frame : Frame
  base : List Frame
  /-- The regions that the frames below have open. -/
  below : List Handler
  /-- The constants of its module. -/
  constants : Array Value
  low : ∀ h ∈ below, h.frameDepth ≤ base.length

namespace Activation

variable (a : Activation)

/-- The code that runs. -/
def body : Array Instruction :=
  a.frame.method.code.body

/-- The frame at an instruction. -/
def top (ip : Nat) (stack : List Value) : Frame :=
  { a.frame with ip, stack }

/-- All regions that are open when the activation has opened these. -/
def handlers (regions : List Protection) : List Handler :=
  regions.map (fun p => ⟨a.base.length + 1, p.target, p.floor.length⟩) ++ a.below

/-- The topmost frame of the evaluator's machine stands for the activation. -/
def Stands (e : Machine) : Prop :=
  e.Counted ∧ ∃ g, e.frames = g :: a.base ∧ ∀ loc, g.standing loc = a.frame.standing loc

/-- The machine can go on with the activation, and the evaluator with its own machine. -/
structure Bears (m e : Machine) : Prop where
  live : m.Live
  counted : m.Counted
  constants : (m.heap.module a.frame.method.module).constants = a.constants
  stands : a.Stands e

/-- The activation is at an instruction, with these operands and open regions. -/
structure At (regions : List Protection) (ip : Nat) (stack : List Value) (m e : Machine) : Prop
    extends a.Bears m e where
  world : m.World e
  frames : m.frames = a.top ip stack :: a.base
  handlers : m.handlers = a.handlers regions
  control : m.control = .running
  low : ∀ p ∈ regions, p.floor <:+ stack

/-- An exception was raised in the activation, or in what it called, inside these regions. -/
structure Throws (regions : List Protection) (id : ExceptionId) (m e : Machine) : Prop
    extends a.Bears m e where
  raised : ∃ (n : Machine) (above : List Frame) (ip : Nat) (stack : List Value),
    m = n.raise id ∧ n.frames = above ++ a.top ip stack :: a.base ∧
      n.handlers = a.handlers regions ∧ ∀ p ∈ regions, p.floor <:+ stack
  world : Machine.World { m with current := some id } e

/-- The activation is there for this many steps. -/
def Stays (fuel : Nat) (m : Machine) : Prop :=
  ∀ k ≤ fuel, a.base.length < (m.run k).calls.depth

/-- The machine comes to this, and the activation is there until then. -/
def Leads (m : Machine) (P : Machine → Prop) : Prop :=
  ∃ count, (∀ k < count, a.base.length < (m.run k).calls.depth) ∧ P (m.run count)

/-- The machine does what an evaluation came to, which started with these regions open. -/
def Realizes {α : Type} (regions : List Protection) (fuel : Nat) (m : Machine)
    (r : Option (Except ExceptionId α × Machine)) (Q : α → Machine → Machine → Prop) : Prop :=
  match r with
  | none => a.Stays fuel m
  | some (.ok x, e) => a.Leads m fun n => Q x n e
  | some (.error id, e) => a.Leads m fun n => a.Throws regions id n e

end Activation

/-! ## Code in its place -/

/-- Where the open jumps of a piece of code lead. -/
structure Exits where
  roundStart : Nat := 0
  loopEnd : Nat := 0

/-- The code stands in the body from `start` to `finish`, and there is more behind it. -/
structure Activation.Placed (a : Activation) (exits : Exits) (start : Nat) (code : Fragment)
    (finish : Nat) : Prop where
  slots : ∀ k slot, code[k]? = some slot →
    a.body[start + k]? = some (slot.close exits.roundStart exits.loopEnd).instruction
  length : start + code.length = finish
  more : finish < a.body.size

variable {a : Activation} {regions : List Protection} {ip fuel : Nat} {stack : List Value}
  {m e : Machine}

namespace Activation.Placed

variable {exits : Exits} {start finish : Nat} {first second code : Fragment}

/-- A piece of code is placed if the whole is. -/
theorem left (placed : a.Placed exits start (first ++ second) finish) :
    a.Placed exits start first (start + first.length) := by
  refine ⟨fun k slot found => placed.slots k slot ?_, rfl, ?_⟩
  · rw [List.getElem?_append_left (List.getElem?_eq_some_iff.1 found).1]
    exact found
  · have length := placed.length
    have more := placed.more
    rw [List.length_append] at length
    omega

theorem right (placed : a.Placed exits start (first ++ second) finish) :
    a.Placed exits (start + first.length) second finish := by
  refine ⟨fun k slot found => ?_, ?_, placed.more⟩
  · rw [Nat.add_assoc]
    refine placed.slots _ slot ?_
    rw [List.getElem?_append_right (Nat.le_add_right _ _), Nat.add_sub_cancel_left]
    exact found
  · rw [Nat.add_assoc, ← List.length_append]
    exact placed.length

/-- Instruction by instruction, code is placed where it stands. -/
theorem head {slot : Slot} (placed : a.Placed exits start (slot :: code) finish) :
    a.Placed exits start [slot] (start + 1) :=
  left (show a.Placed exits start ([slot] ++ code) finish from placed)

theorem tail {slot : Slot} (placed : a.Placed exits start (slot :: code) finish) :
    a.Placed exits (start + 1) code finish :=
  right (show a.Placed exits start ([slot] ++ code) finish from placed)

/-- An instruction that is placed is found in the body. -/
theorem instruction {loc : Location} {op : Opcode} {arg : Nat}
    (placed : a.Placed exits start (.of loc op arg :: code) finish) :
    a.body[start]? = some { op, arg, loc } :=
  placed.slots 0 _ rfl

/-- The same place by another name. -/
theorem cast {start' : Nat} (placed : a.Placed exits start code finish) (same : start = start') :
    a.Placed exits start' code finish :=
  same ▸ placed

/-- The end of a piece of code may be given in another way. -/
theorem upTo {finish' : Nat} (placed : a.Placed exits start code finish)
    (same : finish = finish') : a.Placed exits start code finish' :=
  same ▸ placed

theorem middle {between : Fragment}
    (placed : a.Placed exits start (first ++ between ++ second) finish) :
    a.Placed exits (start + first.length) between (start + first.length + between.length) := by
  have inside := placed.left.right
  rw [List.length_append, ← Nat.add_assoc] at inside
  exact inside

theorem last {between : Fragment}
    (placed : a.Placed exits start (first ++ between ++ second) finish) :
    a.Placed exits (start + first.length + between.length) second finish := by
  refine placed.right.cast ?_
  rw [List.length_append, Nat.add_assoc]

theorem assoc {between : Fragment}
    (placed : a.Placed exits start (first ++ between ++ second) finish) :
    a.Placed exits start (first ++ (between ++ second)) finish :=
  List.append_assoc first between second ▸ placed

/-- One instruction, the code of an operand, what is done with it, and the rest. -/
theorem row {slot : Slot} {value between : Fragment}
    (placed : a.Placed exits start (slot :: value ++ between ++ code) finish) :
    a.Placed exits start [slot] (start + 1) ∧
      a.Placed exits (start + 1) value (start + 1 + value.length) ∧
      a.Placed exits (start + 1 + value.length) between
        (start + 1 + value.length + between.length) ∧
      a.Placed exits (start + 1 + value.length + between.length) code finish := by
  have parts : a.Placed exits (start + 1) (value ++ between ++ code) finish := placed.tail
  exact ⟨placed.head, parts.left.left, parts.middle, parts.last⟩

/-- Jumps that are closed lead to where the loop says. -/
theorem closed {roundStart loopEnd : Nat}
    (placed : a.Placed exits start (Fragment.close code roundStart loopEnd) finish) :
    a.Placed ⟨roundStart, loopEnd⟩ start code finish := by
  refine ⟨fun k slot found => ?_, ?_, placed.more⟩
  · have there := placed.slots k (slot.close roundStart loopEnd) (by
      rw [Fragment.close, List.getElem?_map, found]
      rfl)
    rw [there]
    cases slot <;> rfl
  · have length := placed.length
    rw [Fragment.close, List.length_map] at length
    exact length

end Activation.Placed

/-! ## Runs -/

namespace Activation

theorem Leads.now {P : Machine → Prop} (holds : P m) : a.Leads m P :=
  ⟨0, fun k none => absurd none (Nat.not_lt_zero k), holds⟩

/-- A run goes on from where the first part has led. -/
theorem Leads.trans {P Q : Machine → Prop} (first : a.Leads m P)
    (next : ∀ n, P n → a.Leads n Q) : a.Leads m Q := by
  obtain ⟨count, inside, holds⟩ := first
  obtain ⟨more, after, result⟩ := next _ holds
  refine ⟨count + more, fun k few => ?_, ?_⟩
  · by_cases early : k < count
    · exact inside k early
    · obtain ⟨j, rfl⟩ := Nat.exists_eq_add_of_le (Nat.not_lt.1 early)
      rw [Machine.run_add]
      exact after j (Nat.lt_of_add_lt_add_left few)
  · rw [Machine.run_add]
    exact result

theorem Leads.imp {P Q : Machine → Prop} (first : a.Leads m P) (weaker : ∀ n, P n → Q n) :
    a.Leads m Q :=
  first.trans fun n holds => .now (weaker n holds)

/-- What is led to a run that does not end does not end. -/
theorem Leads.stays {P : Machine → Prop} (first : a.Leads m P) (next : ∀ n, P n → a.Stays fuel n) :
    a.Stays fuel m := by
  obtain ⟨count, inside, holds⟩ := first
  intro k few
  by_cases early : k < count
  · exact inside k early
  · obtain ⟨j, rfl⟩ := Nat.exists_eq_add_of_le (Nat.not_lt.1 early)
    rw [Machine.run_add]
    exact next _ holds j (Nat.le_trans (Nat.le_add_left j count) few)

/-- A step leads on as long as the activation is live. -/
theorem Leads.step {P : Machine → Prop} (next : a.Leads m.step P)
    (inside : a.base.length < m.calls.depth) : a.Leads m P := by
  obtain ⟨count, after, holds⟩ := next
  refine ⟨1 + count, fun k few => ?_, ?_⟩
  · cases k with
    | zero => exact inside
    | succ k =>
        rw [Nat.add_comm k 1, Machine.run_add, Machine.run_one]
        exact after k (by omega)
  · rw [Machine.run_add, Machine.run_one]
    exact holds

/-- A step uses up fuel. -/
theorem Stays.step (inside : a.base.length < m.calls.depth) (next : a.Stays fuel m.step) :
    a.Stays (fuel + 1) m := by
  intro k few
  cases k with
  | zero => exact inside
  | succ k =>
      rw [Nat.add_comm k 1, Machine.run_add, Machine.run_one]
      exact next k (Nat.le_of_succ_le_succ few)

/-- Where the evaluator has run out of fuel, the machine is still running. -/
theorem realizes_none {α : Type} {Q : α → Machine → Machine → Prop} :
    a.Realizes regions fuel m none Q ↔ a.Stays fuel m := Iff.rfl

/-- A value is come to by a run that leads there. -/
theorem realizes_ok {α : Type} {Q : α → Machine → Machine → Prop} {x : α} :
    a.Realizes regions fuel m (some (.ok x, e)) Q ↔ a.Leads m fun n => Q x n e := Iff.rfl

/-- An exception is thrown out of the code and finds the region around it. -/
theorem realizes_error {α : Type} {Q : α → Machine → Machine → Prop} {id : ExceptionId} :
    a.Realizes regions fuel m (some (.error id, e)) Q ↔
      a.Leads m fun n => a.Throws regions id n e := Iff.rfl

namespace Realizes

variable {α β : Type} {Q R : α → Machine → Machine → Prop}
  {r : Option (Except ExceptionId α × Machine)}

/-- The machine then takes steps of which the evaluator knows nothing. -/
theorem onward (realizes : a.Realizes regions fuel m r Q)
    (next : ∀ x n e, Q x n e → a.Leads n fun n => R x n e) : a.Realizes regions fuel m r R := by
  rcases r with _ | ⟨id | x, e⟩
  · exact realizes
  · exact realizes
  · exact realizes_ok.2 ((realizes_ok.1 realizes).trans (next x · e))

/-- Fewer steps are asked for. -/
theorem mono {less : Nat} (few : less ≤ fuel) (realizes : a.Realizes regions fuel m r Q) :
    a.Realizes regions less m r Q := by
  rcases r with _ | ⟨id | x, e⟩
  · exact fun k small => realizes k (Nat.le_trans small few)
  · exact realizes
  · exact realizes

/-- The machine first takes steps of which the evaluator knows nothing. -/
theorem later {count : Nat} (inside : ∀ k < count, a.base.length < (m.run k).calls.depth)
    (realizes : a.Realizes regions fuel (m.run count) r Q) : a.Realizes regions fuel m r Q := by
  have leads : a.Leads m (· = m.run count) := ⟨count, inside, rfl⟩
  rcases r with _ | ⟨id | x, e⟩
  · refine leads.stays fun n reached => ?_
    rw [reached]
    exact realizes
  · refine realizes_error.2 (leads.trans fun n reached => ?_)
    rw [reached]
    exact realizes
  · refine realizes_ok.2 (leads.trans fun n reached => ?_)
    rw [reached]
    exact realizes

/-- The machine may have more to do than the evaluator. -/
theorem leads {x : α} (next : a.Leads m fun n => Q x n e) :
    a.Realizes regions fuel m ((Pure.pure x : Eval α).result e) Q :=
  realizes_ok.2 next

theorem pure {x : α} (holds : Q x m e) :
    a.Realizes regions fuel m ((Pure.pure x : Eval α).result e) Q :=
  .leads (.now holds)

/-- Code in a row does what its parts do in a row. -/
theorem bind {x : Eval α} {f : α → Eval β} {R : β → Machine → Machine → Prop}
    (first : a.Realizes regions fuel m (x.result e) Q)
    (next : ∀ v n e, Q v n e → a.Realizes regions fuel n ((f v).result e) R) :
    a.Realizes regions fuel m ((x >>= f).result e) R := by
  rw [Eval.result_bind]
  rcases found : x.result e with _ | ⟨id | v, e'⟩ <;> rw [found] at first
  · exact first
  · exact first
  · have rest (n : Machine) (holds : Q v n e') := next v n e' holds
    change a.Realizes regions fuel m ((f v).result e') R
    rcases found : (f v).result e' with _ | ⟨id | w, e''⟩ <;> rw [found] at rest
    · exact (realizes_ok.1 first).stays rest
    · exact realizes_error.2 ((realizes_ok.1 first).trans rest)
    · exact realizes_ok.2 ((realizes_ok.1 first).trans rest)

/-- The evaluator looks at its machine only. -/
theorem ask {question : Machine → α} {f : α → Eval β} {R : β → Machine → Machine → Prop}
    (next : a.Realizes regions fuel m ((f (question e)).result e) R) :
    a.Realizes regions fuel m ((Eval.ask question >>= f).result e) R := by
  rw [Eval.result_bind_ok (Eval.result_ask question e)]
  exact next

end Realizes
end Activation

namespace Activation.At

/-- An activation that is running has a frame above its base. -/
theorem depth_lt (here : a.At regions ip stack m e) : a.base.length < m.calls.depth := by
  rw [m.calls.depth_eq, show m.calls.frames = _ from here.frames, List.length_cons]
  exact Nat.lt_succ_self _

theorem leads {P : Machine → Prop} (here : a.At regions ip stack m e) (next : P m.step) :
    a.Leads m P :=
  (Leads.now next).step here.depth_lt

/-- The machine takes a step of which the evaluator knows nothing. -/
theorem realizes_step {α : Type} {Q : α → Machine → Machine → Prop}
    {r : Option (Except ExceptionId α × Machine)} (here : a.At regions ip stack m e)
    (next : a.Realizes regions fuel m.step r Q) : a.Realizes regions (fuel + 1) m r Q := by
  rcases r with _ | ⟨id | x, e'⟩
  · exact Stays.step here.depth_lt next
  · exact realizes_error.2 ((realizes_error.1 next).step here.depth_lt)
  · exact realizes_ok.2 ((realizes_ok.1 next).step here.depth_lt)

/-- A step may do nothing that the evaluator knows of. -/
theorem silently {α : Type} {Q : α → Machine → Machine → Prop}
    {r : Option (Except ExceptionId α × Machine)} (here : a.At regions ip stack m e)
    (next : a.Realizes regions fuel m.step r Q) : a.Realizes regions fuel m r Q :=
  .mono (Nat.le_succ fuel) (here.realizes_step next)

end Activation.At
end ScriptMachine
