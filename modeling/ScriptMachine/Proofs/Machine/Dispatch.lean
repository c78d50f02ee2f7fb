import Mathlib.Data.List.Basic
import ScriptMachine.Proofs.Machine.Instructions
import ScriptMachine.Proofs.Machine.Live

/-!
Dispatch. A ready frame that fetches an instruction finds its operands, its constant or slot
and, where the instruction relies on it, the kind of its topmost operand. So each instruction is
dispatched in one of few ways, none of which finds a defect, and all of which leave the machine
live.
-/

namespace ScriptMachine

open ScriptMachine.Action

/-- What an instruction expects of the topmost value. -/
def Instruction.Expects (i : Instruction) (stack : List Value) : Prop :=
  match i.op with
  | .buildClosure => ∃ id s, stack = .method id :: s
  | .importFrom => ∃ (items : List String) (s : List Value), stack = .tuple (items.map .str) :: s
  | _ => True

/-- A frame that is ready has the operands that its next instruction expects. -/
theorem Frame.Ready.expects {h : Heap} {f : Frame} {l : Layout} {i : Instruction}
    (ready : f.Ready h l) (found : f.next? = some i) : i.Expects f.stack := by
  obtain ⟨⟨pool, sketch, runs, shown⟩, flow, _⟩ := ready
  obtain ⟨top, here⟩ := runs.admits.charted.follows flow
  have demands := (runs.admits.charted.fits_at here found).demands
  have shown := shown top here
  obtain ⟨op, arg, loc⟩ := i
  cases op <;> try trivial
  · obtain ⟨index, rfl⟩ := demands
    exact shown
  · obtain rfl : top = .names := demands
    exact shown

namespace Machine

/-- The topmost frame carries out an instruction and has taken some of its operands. -/
structure Executing (m : Machine) (i : Instruction) (l : Layout) (taken : Nat) : Prop where
  heap : m.heap.Sound
  busy : Busy m.heap i l taken m.frames m.handlers
  running : m.control = .running

namespace Executing

variable {m : Machine} {i : Instruction} {l : Layout} {operands s : List Value}

/-- While an instruction executes, the regions are guarded by frames that are ready. -/
theorem guards {taken : Nat} (executing : m.Executing i l taken) : m.Guards :=
  ⟨executing.heap, executing.busy.catches⟩

theorem frames_ne_nil {taken : Nat} (executing : m.Executing i l taken) : m.frames ≠ [] := by
  obtain ⟨f, rest, below, top, _⟩ := executing.busy
  rw [top]
  exact List.cons_ne_nil f rest

/-- All operands are there. -/
theorem operands_found (executing : m.Executing i l 0) :
    ∃ operands s, m.stack = operands ++ s ∧ operands.length = i.pops := by
  obtain ⟨f, rest, below, top, executes, _, _⟩ := executing.busy
  have enough : i.pops ≤ m.stack.length := by
    rw [stack, top]
    exact executes.enough
  refine ⟨m.stack.take i.pops, m.stack.drop i.pops, (List.take_append_drop _ _).symm, ?_⟩
  rw [List.length_take]
  omega

/-- Operands are taken off the stack. -/
theorem taken (executing : m.Executing i l 0) (found : m.stack = operands ++ s)
    (length : operands.length ≤ i.pops) : (m.withStack s).Executing i l operands.length := by
  obtain ⟨heap, ⟨f, rest, below, top, executes, stacked, handlers⟩, running⟩ := executing
  have found : f.stack = operands ++ s := by
    rw [stack, top] at found
    exact found
  refine ⟨heap, ⟨{ f with stack := s }, rest, below, ?_, ?_, stacked, handlers⟩, running⟩
  · rw [frames_withStack, top]
    rfl
  · obtain ⟨⟨pool, sketch, runs⟩, flow, depth, _⟩ := executes
    refine ⟨⟨pool, sketch, runs.admits, runs.slots⟩, flow, ?_, length⟩
    rw [← depth, found, List.length_append]
    exact Nat.add_comm _ _

/-- Without its operands an instruction that falls through waits for what it pushes. -/
theorem waits (executing : m.Executing i l i.pops) (falls : i.Falls) :
    m.Waits (.frame i.pushes) := by
  obtain ⟨heap, ⟨f, rest, below, top, executes, stacked, handlers⟩, running⟩ := executing
  refine ⟨heap, ?_⟩
  rw [top, handlers]
  exact .frame ⟨i, executes, rfl, falls⟩ stacked

/-- The operand of the instruction is what it is taken for. -/
theorem grounded {taken : Nat} (executing : m.Executing i l taken) :
    ∃ pool slots, i.Grounded pool slots ∧
      (∀ k c, pool[k]? = some c → ∃ o : Offsets, m.constant? k = some (o.constant c)) ∧
      ∀ slot, slot < slots → ∃ v, m.local? slot = some v := by
  obtain ⟨f, rest, below, top, executes, _, _⟩ := executing.busy
  obtain ⟨pool, sketch, runs⟩ := executes.runs
  obtain ⟨ip, _, found, _⟩ := executes.flow
  refine ⟨pool, f.method.code.localCount, runs.admits.grounded ip i found, fun k c held => ?_,
    fun slot small => ?_⟩
  · rw [constant?, top]
    exact runs.admits.constants k c held
  · rw [local?, top]
    have inside : slot < (m.heap.env f.env).size := Nat.lt_of_lt_of_le small runs.slots
    exact ⟨_, Array.getElem?_eq_getElem inside⟩

/-- The values an instruction pushes make the frame ready. -/
theorem filled (executing : m.Executing i l i.pops) (falls : i.Falls) (values : List Value)
    (length : values.length = i.pushes) : (m.withStack (values ++ m.stack)).Live := by
  have standing := (executing.waits falls).stacked.filled values length
  have same : (m.withStack (values ++ m.stack)).frames
      = m.frames.modifyHead fun f => { f with stack := values ++ f.stack } := by
    rw [frames_withStack, stack]
    cases m.frames <;> rfl
  refine .of_standing executing.heap executing.running ?_
  rw [same]
  exact standing

/-- Control goes on behind the instruction. -/
theorem stays {taken : Nat} (executing : m.Executing i l taken) (notConst : i.op ≠ .loadConst)
    (next : ∀ ip l, (ip + 1, { l with depth := l.depth - taken }) ∈ i.successors ip l) :
    m.Live := by
  obtain ⟨heap, ⟨f, rest, below, top, executes, stacked, handlers⟩, running⟩ := executing
  have ready : f.Ready m.heap { l with depth := l.depth - taken } := by
    refine executes.lands rfl rfl (fun ip at_ => ?_) (fun _ _ _ _ loads => absurd loads notConst) ?_
    · rw [at_]
      exact next ip l
    · have left := executes.depth
      change f.stack.length = l.depth - taken
      omega
  exact .of_standing heap running ⟨f, rest, _, below, top, .inr ready, stacked, handlers⟩

/-- Control goes on elsewhere. -/
theorem jumps {taken target : Nat} (executing : m.Executing i l taken)
    (notConst : i.op ≠ .loadConst)
    (next : ∀ ip l, (target, { l with depth := l.depth - taken }) ∈ i.successors ip l) :
    (m.withIp target).Live := by
  obtain ⟨heap, ⟨f, rest, below, top, executes, stacked, handlers⟩, running⟩ := executing
  have ready : Frame.Ready m.heap { f with ip := target } { l with depth := l.depth - taken } := by
    refine executes.lands rfl rfl (fun ip _ => next ip l)
      (fun _ _ _ _ loads => absurd loads notConst) ?_
    have left := executes.depth
    change f.stack.length = l.depth - taken
    omega
  refine .of_standing heap running ⟨_, rest, _, below, ?_, .inr ready, stacked, handlers⟩
  rw [frames_withIp, top]
  rfl

/-- A constant on the stack is what it is known to be. -/
theorem loads (executing : m.Executing i l 0) (is : i.op = .loadConst) {v : Value}
    (found : m.constant? i.arg = some v) : (m.withStack (v :: m.stack)).Live := by
  obtain ⟨heap, ⟨f, rest, below, top, executes, stacked, handlers⟩, running⟩ := executing
  have own : m.stack = f.stack := by rw [stack, top]
  have ready : Frame.Ready m.heap { f with stack := v :: f.stack }
      { l with depth := i.fallDepth l.depth } := by
    refine executes.lands rfl rfl (fun ip at_ => ?_) (fun pool sketch t runs _ holds => ?_) ?_
    · simp only [Instruction.successors, is, List.mem_singleton]
      rw [← at_]
    · have constants := runs.admits.constants
      rw [constant?, top] at found
      cases t with
      | any => trivial
      | method index =>
          obtain ⟨o, held⟩ := constants _ _ holds
          cases held.symm.trans found
          exact ⟨_, _, rfl⟩
      | names =>
          obtain ⟨items, holds⟩ := holds
          obtain ⟨o, held⟩ := constants _ _ holds
          cases held.symm.trans found
          exact ⟨items, _, rfl⟩
    · have left := executes.depth
      simp only [List.length_cons, Instruction.fallDepth, Instruction.pops, Instruction.pushes, is]
      omega
  refine .of_standing heap running ⟨_, rest, _, below, ?_, .inr ready, stacked, handlers⟩
  rw [frames_withStack, top, own]
  rfl

/-- A region is opened. -/
theorem opens (executing : m.Executing i l 0) (is : i.op = .pushExceptionHandler) :
    Safe ((openRegion i.arg).result m) := by
  obtain ⟨heap, ⟨f, rest, below, top, executes, stacked, handlers⟩, running⟩ := executing
  have left := executes.depth
  have ready : f.Ready m.heap { l with regions := ⟨i.arg, l.depth⟩ :: l.regions } := by
    refine executes.lands rfl rfl (fun ip at_ => ?_) (fun _ _ _ _ loads => ?_) left
    · simp only [Instruction.successors, is, List.mem_singleton]
      rw [at_]
    · rw [is] at loads
      cases loads
  have depth : m.calls.depth = rest.length + 1 := by
    rw [m.calls.depth_eq]
    exact congrArg List.length top
  have live : Machine.Live { m with handlers :=
      { frameDepth := m.calls.depth, target := i.arg,
        stackHeight := (m.frames.head?.map (·.stack.length)).getD 0 } :: m.handlers } := by
    refine .of_standing heap running ⟨f, rest, _, below, top, .inr ready, stacked, ?_⟩
    change _ :: m.handlers = _
    rw [handlers, depth, top]
    simp only [List.head?_cons, Option.map_some, Option.getD_some, Layout.handlers, List.map_cons,
      Region.handler, List.cons_append, ← left]
    rfl
  exact live.noted _

/-- A region is closed only where one is open. -/
theorem regions_ne_nil {taken : Nat} (executing : m.Executing i l taken)
    (is : i.op = .popExceptionHandler) : l.regions ≠ [] := by
  obtain ⟨f, rest, below, top, executes, _, _⟩ := executing.busy
  obtain ⟨pool, sketch, runs⟩ := executes.runs
  obtain ⟨_, _, _, fits⟩ := executes.fits runs
  have demands := fits.demands
  rw [is] at demands
  exact demands

/-- A region that is closed is one of the topmost frame. -/
theorem closing {taken : Nat} (executing : m.Executing i l taken)
    (is : i.op = .popExceptionHandler) :
    ∃ h hs, m.handlers = h :: hs ∧ h.frameDepth = m.frames.length := by
  obtain ⟨r, regions, opened⟩ := List.exists_cons_of_ne_nil (executing.regions_ne_nil is)
  obtain ⟨f, rest, below, top, _, _, handlers⟩ := executing.busy
  refine ⟨r.handler (rest.length + 1), regions.map (Region.handler (rest.length + 1)) ++ below,
    ?_, ?_⟩
  · rw [handlers, Layout.handlers, opened]
    rfl
  · rw [top]
    rfl

/-- The innermost region is closed. -/
theorem closes (executing : m.Executing i l 0) (is : i.op = .popExceptionHandler) :
    Safe (closeRegion.result m) := by
  have opened := executing.regions_ne_nil is
  obtain ⟨heap, ⟨f, rest, below, top, executes, stacked, handlers⟩, running⟩ := executing
  have ready : f.Ready m.heap { l with regions := l.regions.tail } := by
    refine executes.lands rfl rfl (fun ip at_ => ?_) (fun _ _ _ _ loads => ?_) executes.depth
    · simp only [Instruction.successors, is, List.mem_singleton]
      rw [at_]
    · rw [is] at loads
      cases loads
  have live : Machine.Live { m with handlers := m.handlers.tail } := by
    refine .of_standing heap running ⟨f, rest, _, below, top, .inr ready, stacked, ?_⟩
    change m.handlers.tail = _
    rw [handlers, Layout.handlers, Layout.handlers, List.map_tail]
    exact List.tail_append_of_ne_nil (mt List.map_eq_nil_iff.1 opened)
  exact live.noted _

/-- A method returns outside all regions. -/
theorem returns (executing : m.Executing i l 0) (is : i.op = .ret) :
    Safe ((execute i).result m) := by
  obtain ⟨heap, ⟨f, rest, below, top, executes, stacked, handlers⟩, running⟩ := executing
  rw [execute_ret is]
  refine Live.of_standing heap running
    ⟨{ f with ip := f.method.code.body.size }, rest, l, below, ?_, .inl ?_, stacked, handlers⟩
  · change (m.calls.modifyTop _).frames = _
    rw [CallStack.frames_modifyTop]
    change m.frames.modifyHead _ = _
    rw [top]
    rfl
  · exact Array.getElem?_eq_none (Nat.le_refl _)

end Executing
end Machine

namespace Action

open Machine (Safe Executing)

/-- Whatever is raised, a handler is ready for it or there is none. -/
theorem raiseValue_safe {m : Machine} (guards : m.Guards) (v : Value) :
    Safe ((raiseValue v).result m) := by
  have quiet := exceptionOf_quiet v
  unfold raiseValue
  rw [result_bind]
  rcases done : (exceptionOf v).result m with ⟨e | id, m'⟩
  · exact quiet.safe_error guards done
  · have kept := quiet.keeps m
    rw [done] at kept
    exact guards.kept kept

end Action

/-- The ways in which an instruction is dispatched, and what comes of them. -/
inductive Dispatched (m : Machine) (i : Instruction) : Except Raised Unit × Machine → Prop where
  /-- It takes its operands, and what it does with them alone answers the frame. -/
  | answers {operands s : List Value} {a : Action Unit} : m.stack = operands ++ s →
      operands.length = i.pops → i.Falls → Answers true (.frame i.pushes) a →
      Dispatched m i (a.result (m.withStack s))
  /-- It takes its operands and puts values in their place. -/
  | fills {operands s : List Value} (values : List Value) : m.stack = operands ++ s →
      operands.length = i.pops → i.Falls → values.length = i.pushes →
      Dispatched m i (.ok (), m.withStack (values ++ s))
  | loads {v : Value} : i.op = .loadConst → m.constant? i.arg = some v →
      Dispatched m i (.ok (), m.withStack (v :: m.stack))
  /-- It takes operands, and control goes on behind it. -/
  | stays {operands s : List Value} : m.stack = operands ++ s → operands.length ≤ i.pops →
      i.op ≠ .loadConst →
      (∀ ip l, (ip + 1, { l with depth := l.depth - operands.length }) ∈ i.successors ip l) →
      Dispatched m i (.ok (), m.withStack s)
  /-- It takes operands, and control goes on elsewhere. -/
  | jumps {operands s : List Value} {target : Nat} : m.stack = operands ++ s →
      operands.length ≤ i.pops → i.op ≠ .loadConst →
      (∀ ip l, (target, { l with depth := l.depth - operands.length }) ∈ i.successors ip l) →
      Dispatched m i (.ok (), (m.withStack s).withIp target)
  | raises {v : Value} {s : List Value} : i.op = .raise → m.stack = v :: s →
      Dispatched m i ((raiseValue v).result (m.withStack s))
  | opens : i.op = .pushExceptionHandler → Dispatched m i ((openRegion i.arg).result m)
  | closes : i.op = .popExceptionHandler → Dispatched m i (closeRegion.result m)
  | returns : i.op = .ret → Dispatched m i ((execute i).result m)

namespace Dispatched

open Machine (Safe Executing)

variable {m : Machine} {i : Instruction} {l : Layout}

/-- An instruction without operands that falls through may answer at once. -/
theorem answers_here (falls : i.Falls) (none : i.pops = 0) {a : Action Unit}
    (answers : Answers true (.frame i.pushes) a) : Dispatched m i (a.result m) := by
  have dispatched := Dispatched.answers (m := m) (List.nil_append m.stack).symm none.symm falls answers
  rw [Machine.withStack_self] at dispatched
  exact dispatched

/-- A jump leads to a successor of the instruction. -/
theorem jumps_here {target : Nat} (notConst : i.op ≠ .loadConst)
    (next : ∀ ip l, (target, l) ∈ i.successors ip l) :
    Dispatched m i (.ok (), m.withIp target) := by
  have dispatched := Dispatched.jumps (m := m) (List.nil_append m.stack).symm (Nat.zero_le i.pops) notConst
    next
  rw [Machine.withStack_self] at dispatched
  exact dispatched

/-- However an instruction is dispatched, the machine stays live. -/
theorem safe {r : Except Raised Unit × Machine} (dispatched : Dispatched m i r)
    (executing : m.Executing i l 0) : Safe r := by
  cases dispatched with
  | answers found length falls answers =>
      have taken := executing.taken found (Nat.le_of_eq length)
      rw [length] at taken
      exact answers.safe (taken.waits falls) fun _ => taken.running
  | fills values found length falls pushed =>
      have taken := executing.taken found (Nat.le_of_eq length)
      rw [length] at taken
      have live := taken.filled falls values pushed
      rw [Machine.stack_withStack executing.frames_ne_nil, Machine.withStack_withStack] at live
      exact live
  | loads is held => exact executing.loads is held
  | stays found length notConst next => exact (executing.taken found length).stays notConst next
  | jumps found length notConst next => exact (executing.taken found length).jumps notConst next
  | @raises v s is found =>
      have one : [v].length ≤ i.pops := by simp [Instruction.pops, is]
      have taken : (m.withStack s).Executing i l [v].length := executing.taken found one
      exact raiseValue_safe taken.guards v
  | opens is => exact executing.opens is
  | closes is => exact executing.closes is
  | returns is => exact executing.returns is

end Dispatched

namespace Machine

/-- The instruction is dispatched. -/
abbrev Dispatches (m : Machine) (i : Instruction) : Prop :=
  Dispatched m i ((execute i).result m)

namespace Executing

variable {m : Machine} {i : Instruction} {arg : Nat} {loc : Location} {l : Layout}

/-- As many operands are there as the instruction pops. -/
theorem operand (executing : m.Executing i l 0) (pops : i.pops = 1) :
    ∃ v s, m.stack = [v] ++ s := by
  obtain ⟨operands, s, found, length⟩ := executing.operands_found
  obtain ⟨v, rfl⟩ := List.length_eq_one_iff.1 (length.trans pops)
  exact ⟨v, s, found⟩

theorem two_operands (executing : m.Executing i l 0) (pops : i.pops = 2) :
    ∃ v w s, m.stack = [v, w] ++ s := by
  obtain ⟨operands, s, found, length⟩ := executing.operands_found
  obtain ⟨v, w, rfl⟩ := List.length_eq_two.1 (length.trans pops)
  exact ⟨v, w, s, found⟩

theorem three_operands (executing : m.Executing i l 0) (pops : i.pops = 3) :
    ∃ u v w s, m.stack = [u, v, w] ++ s := by
  obtain ⟨operands, s, found, length⟩ := executing.operands_found
  obtain ⟨u, v, w, rfl⟩ := List.length_eq_three.1 (length.trans pops)
  exact ⟨u, v, w, s, found⟩

/-! ### Constants and variables -/

theorem dispatched_nop : m.Dispatches ⟨.nop, arg, loc⟩ := by
  rw [Dispatches, execute_nop rfl]
  exact .answers_here (.of_opcode rfl) rfl .nothing

theorem dispatched_pop (executing : m.Executing ⟨.pop, arg, loc⟩ l 0) :
    m.Dispatches ⟨.pop, arg, loc⟩ := by
  obtain ⟨v, s, found⟩ := executing.operand rfl
  rw [Dispatches, execute_pop rfl found]
  exact .answers found rfl (.of_opcode rfl) .nothing

theorem dispatched_dup (executing : m.Executing ⟨.dup, arg, loc⟩ l 0) :
    m.Dispatches ⟨.dup, arg, loc⟩ := by
  obtain ⟨v, s, found⟩ := executing.operand rfl
  rw [Dispatches, execute_dup rfl found]
  exact .fills [v, v] found rfl (.of_opcode rfl) rfl

theorem dispatched_dup3 (executing : m.Executing ⟨.dup3, arg, loc⟩ l 0) :
    m.Dispatches ⟨.dup3, arg, loc⟩ := by
  obtain ⟨v, s, found⟩ := executing.operand rfl
  rw [Dispatches, execute_dup3 rfl found]
  exact .fills [v, v, v] found rfl (.of_opcode rfl) rfl

/-- The constant is in the pool, since the code was checked against it. -/
theorem dispatched_loadConst (executing : m.Executing ⟨.loadConst, arg, loc⟩ l 0) :
    m.Dispatches ⟨.loadConst, arg, loc⟩ := by
  obtain ⟨_, _, ⟨c, held⟩, constants, _⟩ := executing.grounded
  obtain ⟨o, held⟩ := constants _ _ held
  rw [Dispatches, execute_loadConst rfl held, result_push]
  exact .loads rfl held

theorem dispatched_loadNull : m.Dispatches ⟨.loadNull, arg, loc⟩ := by
  rw [Dispatches, execute_loadNull rfl]
  exact .answers_here (.of_opcode rfl) rfl (.push _)

theorem dispatched_loadSelf : m.Dispatches ⟨.loadSelf, arg, loc⟩ := by
  rw [Dispatches, execute_loadSelf rfl]
  exact .answers_here (.of_opcode rfl) rfl readSelf_answers

theorem dispatched_loadTrue : m.Dispatches ⟨.loadTrue, arg, loc⟩ := by
  rw [Dispatches, execute_loadTrue rfl]
  exact .answers_here (.of_opcode rfl) rfl (.push _)

theorem dispatched_loadFalse : m.Dispatches ⟨.loadFalse, arg, loc⟩ := by
  rw [Dispatches, execute_loadFalse rfl]
  exact .answers_here (.of_opcode rfl) rfl (.push _)

theorem dispatched_loadLocal (executing : m.Executing ⟨.loadLocal, arg, loc⟩ l 0) :
    m.Dispatches ⟨.loadLocal, arg, loc⟩ := by
  obtain ⟨_, _, small, _, locals⟩ := executing.grounded
  obtain ⟨v, held⟩ := locals arg small
  rw [Dispatches, execute_loadLocal rfl held]
  exact .answers_here (.of_opcode rfl) rfl (.push v)

/-- Slots are added to an environment as they are needed, so any slot can be set. -/
theorem dispatched_storeLocal (executing : m.Executing ⟨.storeLocal, arg, loc⟩ l 0) :
    m.Dispatches ⟨.storeLocal, arg, loc⟩ := by
  obtain ⟨v, s, found⟩ := executing.operand rfl
  rw [Dispatches, execute_storeLocal rfl found]
  exact .answers found rfl (.of_opcode rfl) (.done (writeLocal_quiet arg v))

theorem dispatched_loadGlobal (executing : m.Executing ⟨.loadGlobal, arg, loc⟩ l 0) :
    m.Dispatches ⟨.loadGlobal, arg, loc⟩ := by
  obtain ⟨_, _, ⟨name, held⟩, constants, _⟩ := executing.grounded
  obtain ⟨o, held⟩ := constants _ _ held
  rw [Dispatches, execute_loadGlobal rfl held]
  exact .answers_here (.of_opcode rfl) rfl (readGlobal_answers name)

theorem dispatched_storeGlobal (executing : m.Executing ⟨.storeGlobal, arg, loc⟩ l 0) :
    m.Dispatches ⟨.storeGlobal, arg, loc⟩ := by
  obtain ⟨_, _, ⟨name, held⟩, constants, _⟩ := executing.grounded
  obtain ⟨o, held⟩ := constants _ _ held
  obtain ⟨v, s, found⟩ := executing.operand rfl
  rw [Dispatches, execute_storeGlobal rfl held found]
  exact .answers found rfl (.of_opcode rfl) (writeGlobal_answers name v)

/-! ### Operators -/

/-- The tag of an operator is one that the generator wrote. -/
theorem dispatched_binOp (executing : m.Executing ⟨.binOp, arg, loc⟩ l 0) :
    m.Dispatches ⟨.binOp, arg, loc⟩ := by
  obtain ⟨_, _, ⟨op, tag⟩, _⟩ := executing.grounded
  obtain ⟨right, left, s, found⟩ := executing.two_operands rfl
  rw [Dispatches, execute_binOp rfl tag found]
  exact .answers found rfl (.of_opcode rfl) (binary_answers op left right)

theorem dispatched_unaryOp (executing : m.Executing ⟨.unaryOp, arg, loc⟩ l 0) :
    m.Dispatches ⟨.unaryOp, arg, loc⟩ := by
  obtain ⟨_, _, ⟨op, tag⟩, _⟩ := executing.grounded
  obtain ⟨v, s, found⟩ := executing.operand rfl
  rw [Dispatches, execute_unaryOp rfl tag found]
  exact .answers found rfl (.of_opcode rfl) (unary_answers op v)

theorem dispatched_instanceOf (executing : m.Executing ⟨.instanceOf, arg, loc⟩ l 0) :
    m.Dispatches ⟨.instanceOf, arg, loc⟩ := by
  obtain ⟨type, v, s, found⟩ := executing.two_operands rfl
  rw [Dispatches, execute_instanceOf rfl found]
  exact .answers found rfl (.of_opcode rfl) (testType_answers v type)

theorem dispatched_dynamicCast (executing : m.Executing ⟨.dynamicCast, arg, loc⟩ l 0) :
    m.Dispatches ⟨.dynamicCast, arg, loc⟩ := by
  obtain ⟨type, v, s, found⟩ := executing.two_operands rfl
  rw [Dispatches, execute_dynamicCast rfl found]
  exact .answers found rfl (.of_opcode rfl) (castType_answers v type)

/-! ### Attributes and items -/

theorem dispatched_loadAttribute (executing : m.Executing ⟨.loadAttribute, arg, loc⟩ l 0) :
    m.Dispatches ⟨.loadAttribute, arg, loc⟩ := by
  obtain ⟨_, _, ⟨name, held⟩, constants, _⟩ := executing.grounded
  obtain ⟨o, held⟩ := constants _ _ held
  obtain ⟨v, s, found⟩ := executing.operand rfl
  rw [Dispatches, execute_loadAttribute rfl held found]
  exact .answers found rfl (.of_opcode rfl) (readAttribute_answers v name rfl)

theorem dispatched_storeAttribute (executing : m.Executing ⟨.storeAttribute, arg, loc⟩ l 0) :
    m.Dispatches ⟨.storeAttribute, arg, loc⟩ := by
  obtain ⟨_, _, ⟨name, held⟩, constants, _⟩ := executing.grounded
  obtain ⟨o, held⟩ := constants _ _ held
  obtain ⟨target, v, s, found⟩ := executing.two_operands rfl
  rw [Dispatches, execute_storeAttribute rfl held found]
  exact .answers found rfl (.of_opcode rfl) (.done (writeAttribute_quiet target name v))

theorem dispatched_loadIndex (executing : m.Executing ⟨.loadIndex, arg, loc⟩ l 0) :
    m.Dispatches ⟨.loadIndex, arg, loc⟩ := by
  obtain ⟨index, container, s, found⟩ := executing.two_operands rfl
  rw [Dispatches, execute_loadIndex rfl found]
  exact .answers found rfl (.of_opcode rfl) (readItem_answers container index)

theorem dispatched_storeIndex (executing : m.Executing ⟨.storeIndex, arg, loc⟩ l 0) :
    m.Dispatches ⟨.storeIndex, arg, loc⟩ := by
  obtain ⟨index, container, v, s, found⟩ := executing.three_operands rfl
  rw [Dispatches, execute_storeIndex rfl found]
  exact .answers found rfl (.of_opcode rfl) (writeItem_answers container index v)

/-! ### Calls -/

/-- A call leaves one value, whether it runs a frame or not. -/
theorem dispatched_invoke (executing : m.Executing ⟨.invoke, arg, loc⟩ l 0) :
    m.Dispatches ⟨.invoke, arg, loc⟩ := by
  obtain ⟨operands, s, found, length⟩ := executing.operands_found
  obtain ⟨callee, args, rfl⟩ := List.exists_cons_of_length_eq_add_one length
  rw [Dispatches, execute_invoke rfl found (Nat.succ.inj length)]
  exact .answers found length (.of_opcode rfl) (invoke_answers callee _)

theorem dispatched_invokeSuper (executing : m.Executing ⟨.invokeSuper, arg, loc⟩ l 0) :
    m.Dispatches ⟨.invokeSuper, arg, loc⟩ := by
  obtain ⟨operands, s, found, length⟩ := executing.operands_found
  obtain ⟨base, args, rfl⟩ := List.exists_cons_of_length_eq_add_one length
  rw [Dispatches, execute_invokeSuper rfl found (Nat.succ.inj length)]
  exact .answers found length (.of_opcode rfl) (invokeSuper_answers base _)

/-- A frame returns to nothing but its own end. -/
theorem dispatched_ret : m.Dispatches ⟨.ret, arg, loc⟩ := by
  exact .returns rfl

/-! ### Branches -/

theorem dispatched_jump : m.Dispatches ⟨.jump, arg, loc⟩ := by
  rw [Dispatches, execute_jump rfl]
  exact .jumps_here Opcode.noConfusion fun _ _ => List.mem_singleton_self _

/-- Both ways out of a test are successors. -/
theorem dispatched_jumpIfTrue (executing : m.Executing ⟨.jumpIfTrue, arg, loc⟩ l 0) :
    m.Dispatches ⟨.jumpIfTrue, arg, loc⟩ := by
  obtain ⟨v, s, found⟩ := executing.operand rfl
  rw [Dispatches, execute_jumpIfTrue rfl found]
  cases m.heap.truthy v with
  | true =>
      exact .jumps found (Nat.le_refl 1) Opcode.noConfusion
        fun _ _ => List.mem_cons_of_mem _ (List.mem_singleton_self _)
  | false =>
      exact .stays found (Nat.le_refl 1) Opcode.noConfusion fun _ _ => List.mem_cons_self

theorem dispatched_jumpIfFalse (executing : m.Executing ⟨.jumpIfFalse, arg, loc⟩ l 0) :
    m.Dispatches ⟨.jumpIfFalse, arg, loc⟩ := by
  obtain ⟨v, s, found⟩ := executing.operand rfl
  rw [Dispatches, execute_jumpIfFalse rfl found]
  cases m.heap.truthy v with
  | true =>
      exact .stays found (Nat.le_refl 1) Opcode.noConfusion fun _ _ => List.mem_cons_self
  | false =>
      exact .jumps found (Nat.le_refl 1) Opcode.noConfusion
        fun _ _ => List.mem_cons_of_mem _ (List.mem_singleton_self _)

/-- The operand stays if the right one is jumped over. -/
theorem dispatched_nullCoalesce (executing : m.Executing ⟨.nullCoalesce, arg, loc⟩ l 0) :
    m.Dispatches ⟨.nullCoalesce, arg, loc⟩ := by
  obtain ⟨v, s, found⟩ := executing.operand rfl
  rw [Dispatches, execute_nullCoalesce rfl found]
  cases v.isNull with
  | true =>
      exact .stays found (Nat.le_refl 1) Opcode.noConfusion fun _ _ => List.mem_cons_self
  | false =>
      exact .jumps_here Opcode.noConfusion
        fun _ _ => List.mem_cons_of_mem _ (List.mem_singleton_self _)

/-! ### What is built -/

theorem dispatched_buildList (executing : m.Executing ⟨.buildList, arg, loc⟩ l 0) :
    m.Dispatches ⟨.buildList, arg, loc⟩ := by
  obtain ⟨operands, s, found, length⟩ := executing.operands_found
  rw [Dispatches, execute_buildList rfl found length]
  exact .answers found length (.of_opcode rfl) (buildList_answers _)

theorem dispatched_buildTuple (executing : m.Executing ⟨.buildTuple, arg, loc⟩ l 0) :
    m.Dispatches ⟨.buildTuple, arg, loc⟩ := by
  obtain ⟨operands, s, found, length⟩ := executing.operands_found
  rw [Dispatches, execute_buildTuple rfl found length]
  exact .answers found length (.of_opcode rfl) (.push _)

theorem dispatched_buildHash (executing : m.Executing ⟨.buildHash, arg, loc⟩ l 0) :
    m.Dispatches ⟨.buildHash, arg, loc⟩ := by
  obtain ⟨operands, s, found, length⟩ := executing.operands_found
  rw [Dispatches, execute_buildHash rfl found length]
  exact .answers found length (.of_opcode rfl) (buildMap_answers _)

/-- The operand is a method, as the code before it says. -/
theorem dispatched_buildClosure (executing : m.Executing ⟨.buildClosure, arg, loc⟩ l 0)
    (expects : Instruction.Expects ⟨.buildClosure, arg, loc⟩ m.stack) :
    m.Dispatches ⟨.buildClosure, arg, loc⟩ := by
  obtain ⟨v, s, found⟩ := executing.operand rfl
  obtain ⟨id, rest, top⟩ := expects
  obtain rfl : v = .method id := (List.cons.inj (found.symm.trans top)).1
  rw [Dispatches, execute_buildClosure rfl found]
  exact .answers found rfl (.of_opcode rfl) (captureLocals_answers id)

/-! ### Iteration -/

theorem dispatched_getIter (executing : m.Executing ⟨.getIter, arg, loc⟩ l 0) :
    m.Dispatches ⟨.getIter, arg, loc⟩ := by
  obtain ⟨v, s, found⟩ := executing.operand rfl
  rw [Dispatches, execute_getIter rfl found]
  exact .answers found rfl (.of_opcode rfl) (iterate_answers v _ rfl)

theorem dispatched_iterGetNext (executing : m.Executing ⟨.iterGetNext, arg, loc⟩ l 0) :
    m.Dispatches ⟨.iterGetNext, arg, loc⟩ := by
  obtain ⟨v, s, found⟩ := executing.operand rfl
  rw [Dispatches, execute_iterGetNext rfl found]
  exact .answers found rfl (.of_opcode rfl) (iterItem_answers v rfl)

theorem dispatched_iterMoveNext (executing : m.Executing ⟨.iterMoveNext, arg, loc⟩ l 0) :
    m.Dispatches ⟨.iterMoveNext, arg, loc⟩ := by
  obtain ⟨v, s, found⟩ := executing.operand rfl
  rw [Dispatches, execute_iterMoveNext rfl found]
  exact .answers found rfl (.of_opcode rfl) (moveIter_answers v rfl)

theorem dispatched_iterReset (executing : m.Executing ⟨.iterReset, arg, loc⟩ l 0) :
    m.Dispatches ⟨.iterReset, arg, loc⟩ := by
  obtain ⟨v, s, found⟩ := executing.operand rfl
  rw [Dispatches, execute_iterReset rfl found]
  exact .answers found rfl (.of_opcode rfl) (resetIter_answers v rfl)

/-! ### Exceptions -/

/-- Behind a raise nothing is reached from it. -/
theorem dispatched_raise (executing : m.Executing ⟨.raise, arg, loc⟩ l 0) :
    m.Dispatches ⟨.raise, arg, loc⟩ := by
  obtain ⟨v, s, found⟩ := executing.operand rfl
  rw [Dispatches, execute_raise rfl found]
  exact .raises rfl found

/-- A region is opened at the height that the layout of its handler has. -/
theorem dispatched_pushExceptionHandler : m.Dispatches ⟨.pushExceptionHandler, arg, loc⟩ := by
  rw [Dispatches, execute_pushExceptionHandler rfl]
  exact .opens rfl

/-- The region that is closed is the innermost one. -/
theorem dispatched_popExceptionHandler : m.Dispatches ⟨.popExceptionHandler, arg, loc⟩ := by
  rw [Dispatches, execute_popExceptionHandler rfl]
  exact .closes rfl

theorem dispatched_loadException : m.Dispatches ⟨.loadException, arg, loc⟩ := by
  rw [Dispatches, execute_loadException rfl]
  exact .answers_here (.of_opcode rfl) rfl readCaught_answers

/-! ### Modules -/

theorem dispatched_importModule (executing : m.Executing ⟨.importModule, arg, loc⟩ l 0) :
    m.Dispatches ⟨.importModule, arg, loc⟩ := by
  obtain ⟨_, _, ⟨name, held⟩, constants, _⟩ := executing.grounded
  obtain ⟨o, held⟩ := constants _ _ held
  rw [Dispatches, execute_importModule rfl held]
  exact .answers_here (.of_opcode rfl) rfl (loadModule_answers name rfl)

/-- The operand is a tuple of texts, as the code before it says. -/
theorem dispatched_importFrom (executing : m.Executing ⟨.importFrom, arg, loc⟩ l 0)
    (expects : Instruction.Expects ⟨.importFrom, arg, loc⟩ m.stack) :
    m.Dispatches ⟨.importFrom, arg, loc⟩ := by
  obtain ⟨_, _, ⟨name, held⟩, constants, _⟩ := executing.grounded
  obtain ⟨o, held⟩ := constants _ _ held
  obtain ⟨v, s, found⟩ := executing.operand rfl
  obtain ⟨items, rest, top⟩ := expects
  obtain rfl : v = .tuple (items.map .str) := (List.cons.inj (found.symm.trans top)).1
  rw [Dispatches, execute_importFrom rfl held found]
  exact .answers found rfl (.of_opcode rfl) (loadModule_answers name rfl)

theorem dispatched_importAll (executing : m.Executing ⟨.importAll, arg, loc⟩ l 0) :
    m.Dispatches ⟨.importAll, arg, loc⟩ := by
  obtain ⟨_, _, ⟨name, held⟩, constants, _⟩ := executing.grounded
  obtain ⟨o, held⟩ := constants _ _ held
  rw [Dispatches, execute_importAll rfl held]
  exact .answers_here (.of_opcode rfl) rfl (loadModule_answers name rfl)

end Executing
end Machine

namespace Action

open Machine (Safe Executing)

/-- Every instruction is dispatched in one of the ways. -/
theorem execute_dispatched {m : Machine} {i : Instruction} {l : Layout}
    (executing : m.Executing i l 0) (expects : i.Expects m.stack) :
    Dispatched m i ((execute i).result m) := by
  obtain ⟨op, arg, loc⟩ := i
  cases op with
  | nop => exact Executing.dispatched_nop
  | binOp => exact executing.dispatched_binOp
  | unaryOp => exact executing.dispatched_unaryOp
  | pop => exact executing.dispatched_pop
  | dup => exact executing.dispatched_dup
  | dup3 => exact executing.dispatched_dup3
  | loadConst => exact executing.dispatched_loadConst
  | loadNull => exact Executing.dispatched_loadNull
  | loadSelf => exact Executing.dispatched_loadSelf
  | loadTrue => exact Executing.dispatched_loadTrue
  | loadFalse => exact Executing.dispatched_loadFalse
  | loadLocal => exact executing.dispatched_loadLocal
  | storeLocal => exact executing.dispatched_storeLocal
  | loadGlobal => exact executing.dispatched_loadGlobal
  | storeGlobal => exact executing.dispatched_storeGlobal
  | loadAttribute => exact executing.dispatched_loadAttribute
  | storeAttribute => exact executing.dispatched_storeAttribute
  | loadIndex => exact executing.dispatched_loadIndex
  | storeIndex => exact executing.dispatched_storeIndex
  | invoke => exact executing.dispatched_invoke
  | invokeSuper => exact executing.dispatched_invokeSuper
  | ret => exact Executing.dispatched_ret
  | jumpIfTrue => exact executing.dispatched_jumpIfTrue
  | jumpIfFalse => exact executing.dispatched_jumpIfFalse
  | jump => exact Executing.dispatched_jump
  | buildList => exact executing.dispatched_buildList
  | buildTuple => exact executing.dispatched_buildTuple
  | buildHash => exact executing.dispatched_buildHash
  | buildClosure => exact executing.dispatched_buildClosure expects
  | getIter => exact executing.dispatched_getIter
  | iterGetNext => exact executing.dispatched_iterGetNext
  | iterMoveNext => exact executing.dispatched_iterMoveNext
  | iterReset => exact executing.dispatched_iterReset
  | raise => exact executing.dispatched_raise
  | pushExceptionHandler => exact Executing.dispatched_pushExceptionHandler
  | popExceptionHandler => exact Executing.dispatched_popExceptionHandler
  | loadException => exact Executing.dispatched_loadException
  | instanceOf => exact executing.dispatched_instanceOf
  | dynamicCast => exact executing.dispatched_dynamicCast
  | nullCoalesce => exact executing.dispatched_nullCoalesce
  | importModule => exact executing.dispatched_importModule
  | importFrom => exact executing.dispatched_importFrom expects
  | importAll => exact executing.dispatched_importAll

/-- A frame that ends gives its caller what it waits for. -/
theorem finish_safe {m : Machine} (sound : m.heap.Sound) (running : m.control = .running)
    (standing : Standing m.heap m.frames m.handlers) : Safe (finish.result m) := by
  obtain ⟨f, rest, l, below, top, _, stacked, handlers⟩ := standing
  have others : m.calls.pop.frames = rest := by
    rw [CallStack.frames_pop, show m.calls.frames = f :: rest from top]
    rfl
  have waits : (popped m).Waits f.returns.demand := by
    refine ⟨sound, ?_⟩
    change Stacked m.heap _ m.calls.pop.frames
      (m.handlers.dropWhile (m.calls.pop.depth < ·.frameDepth))
    rw [handlers, m.calls.pop.depth_eq, others, stacked.dropWhile l]
    exact stacked
  have kept := keeps_ended m
  rw [result_finish top]
  exact (handOver_answers f.returns _).safe (waits.kept kept) fun _ => kept.control.trans running

/-- A live machine whose topmost frame fetches an instruction is in the middle of it. -/
theorem fetched_executing {m : Machine} (live : m.Live) (running : m.control = .running)
    {f : Frame} {rest : List Frame} (top : m.frames = f :: rest) {i : Instruction}
    (next : f.next? = some i) :
    ∃ l, (fetched m f i).Executing i l 0 ∧ i.Expects (fetched m f i).stack := by
  obtain ⟨g, others, l, below, top', stands, stacked, handlers⟩ := live.standing running
  obtain ⟨rfl, rfl⟩ := List.cons.inj (top.symm.trans top')
  rcases stands with atEnd | ready
  · cases atEnd.symm.trans next
  have kept := m.keeps_note fun _ => .instruction f.ip i.op f.stack.length m.calls.depth
  have moved := frames_fetched top i
  refine ⟨l, ⟨kept.heap.sound live.1, ⟨_, rest, below, moved, ?_, stacked.kept kept.heap,
    kept.handlers.trans handlers⟩, kept.control.trans running⟩, ?_⟩
  · exact (kept.heap.ready ready).fetch next
  · rw [stack_fetched top]
    exact ready.expects next

/-- Fetching and executing finds no defect and leaves the machine live. -/
theorem advance_safe {m : Machine} (live : m.Live) (running : m.control = .running) :
    Safe (advance.result m) := by
  obtain ⟨f, rest, l, below, top, _⟩ := live.standing running
  cases next : f.next? with
  | none =>
      rw [result_advance_end top next]
      exact finish_safe live.1 running (live.standing running)
  | some i =>
      obtain ⟨l, executing, expects⟩ := fetched_executing live running top next
      rw [result_advance top next]
      exact (execute_dispatched executing expects).safe executing

end Action

namespace Machine

/-- The topmost frame of a live machine that closes a region has opened it. -/
theorem Live.closing {m : Machine} (live : m.Live) (running : m.control = .running)
    {f : Frame} {rest : List Frame} (top : m.frames = f :: rest) {i : Instruction}
    (next : f.next? = some i) (closes : i.op = .popExceptionHandler) :
    ∃ h hs, m.handlers = h :: hs ∧ h.frameDepth = m.frames.length := by
  obtain ⟨l, executing, _⟩ := fetched_executing live running top next
  obtain ⟨h, hs, opened, own⟩ := executing.closing closes
  have kept := m.keeps_note fun _ => .instruction f.ip i.op f.stack.length m.calls.depth
  refine ⟨h, hs, kept.handlers.symm.trans opened, ?_⟩
  rw [own, fetched, frames_withIp, List.length_modifyHead, kept.frames]

/-- A step keeps the machine live. -/
theorem Live.upcoming_safe {m : Machine} (live : m.Live) : Safe (m.upcoming.result m) := by
  unfold upcoming
  cases control : m.control with
  | running => exact advance_safe live control
  | delivering v pending =>
      obtain ⟨sound, stacked⟩ := live
      rw [control] at stacked
      exact (resume_answers v pending).safe ⟨sound, stacked⟩ Bool.noConfusion
  | returned v => exact live
  | uncaught id => exact live

/-- A live machine stays live. This is the step lemma for all runs. -/
theorem Live.step {m : Machine} (live : m.Live) : m.step.Live :=
  live.upcoming_safe.perform

/-- A run keeps the machine live. -/
theorem Live.run {m : Machine} (live : m.Live) (fuel : Nat) : (m.run fuel).Live := by
  induction fuel generalizing m with
  | zero => exact live
  | succ fuel ih =>
      unfold Machine.run
      split
      · exact live
      · exact ih live.step

end Machine
end ScriptMachine
