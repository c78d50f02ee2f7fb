import ScriptMachine.Heap.Loading
import ScriptMachine.Proofs.Code.Certificate
import ScriptMachine.Proofs.Code.Operands
import ScriptMachine.Proofs.Machine.Answers

/-!
Frames that keep to their code. A frame is ready when it stands where control flow can reach,
with as many operands as control flow says. In the middle of an instruction some operands are
gone; a frame that waits for values has given all operands away and gets the values the
instruction pushes. Below the topmost frame every frame waits for what the frame above it
returns, and the open regions of the machine are those of its frames, one after the other.
-/

namespace ScriptMachine

/-! ## Code on the heap -/

/-- The method can be run: its code fits a sketch, and the constants it refers to are those of
its module. -/
structure Heap.Admits (h : Heap) (method : LoadedMethod) (pool : Array Constant)
    (sketch : Sketch) : Prop where
  charted : Charted pool method.code.body sketch
  grounded : ∀ (ip : Nat) (i : Instruction), method.code.body[ip]? = some i →
    i.Grounded pool method.code.localCount
  constants : ∀ (k : Nat) (c : Constant), pool[k]? = some c →
    ∃ o : Offsets, (h.module method.module).constants[k]? = some (o.constant c)

/-- Every method can be run. -/
def Heap.Sound (h : Heap) : Prop :=
  ∀ method ∈ h.methods, ∃ pool sketch, h.Admits method pool sketch

theorem Heap.Keeps.admits {h h' : Heap} {method : LoadedMethod} {pool : Array Constant}
    {sketch : Sketch} (keeps : h.Keeps h') (admits : h.Admits method pool sketch) :
    h'.Admits method pool sketch where
  charted := admits.charted
  grounded := admits.grounded
  constants k c found := by
    rw [keeps.constants]
    exact admits.constants k c found

theorem Heap.Keeps.sound {h h' : Heap} (keeps : h.Keeps h') (sound : h.Sound) : h'.Sound := by
  intro method member
  rw [keeps.methods] at member
  obtain ⟨pool, sketch, admits⟩ := sound method member
  exact ⟨pool, sketch, keeps.admits admits⟩

/-- A method that is not on the heap has no instructions, so it can be run as well. -/
theorem Heap.Sound.admits {h : Heap} (sound : h.Sound) (id : MethodId) :
    ∃ pool sketch, h.Admits (h.method id) pool sketch := by
  by_cases known : id < h.methods.size
  · have member : h.method id ∈ h.methods := by
      simp only [Heap.method, Array.getD, known, dite_true]
      exact Array.getElem_mem known
    exact sound _ member
  · have empty : h.method id = default := by simp [Heap.method, known]
    have missing (ip : Nat) : (default : LoadedMethod).code.body[ip]? = none :=
      Array.getElem?_eq_none (Nat.zero_le ip)
    rw [empty]
    refine ⟨#[], fun ip => if ip = 0 then some (view 0 []) else none, ⟨rfl, ?_, ?_⟩, ?_, ?_⟩
    · intro ip i found
      cases (missing ip).symm.trans found
    · intro ip i found
      cases (missing ip).symm.trans found
    · intro ip i found
      cases (missing ip).symm.trans found
    · intro k c found
      simp at found

/-! ## One frame -/

/-- The topmost value is what it is known to be. -/
def Top.Shown (stack : List Value) : Top → Prop
  | .any => True
  | .method _ => ∃ id rest, stack = .method id :: rest
  | .names => ∃ (items : List String) (rest : List Value), stack = .tuple (items.map .str) :: rest

/-- The frame runs code that can be run, with a slot for every local variable. -/
structure Frame.Runs (h : Heap) (f : Frame) (pool : Array Constant) (sketch : Sketch) : Prop where
  admits : h.Admits f.method pool sketch
  slots : f.method.code.localCount ≤ (h.env f.env).size

/-- The frame is about to fetch an instruction. -/
structure Frame.Ready (h : Heap) (f : Frame) (l : Layout) : Prop where
  runs : ∃ pool sketch, f.Runs h pool sketch ∧
    ∀ top, sketch f.ip = some ⟨l, top⟩ → top.Shown f.stack
  flow : Flow f.method.code.body f.ip l
  depth : f.stack.length = l.depth

/-- The frame is about to fetch an instruction, or at the end of its code. -/
def Frame.Stands (h : Heap) (f : Frame) (l : Layout) : Prop :=
  f.next? = none ∨ f.Ready h l

/-- The frame carries out an instruction it fetched with layout `l`, and has taken some of its
operands. -/
structure Frame.Executes (h : Heap) (f : Frame) (i : Instruction) (l : Layout) (taken : Nat) :
    Prop where
  runs : ∃ pool sketch, f.Runs h pool sketch
  flow : ∃ ip, f.ip = ip + 1 ∧ f.method.code.body[ip]? = some i ∧ Flow f.method.code.body ip l
  depth : f.stack.length + taken = l.depth
  operands : taken ≤ i.pops

/-- Control always goes on behind the instruction, and nothing is known of what it pushes. -/
def Instruction.Falls (i : Instruction) : Prop :=
  i.op ≠ .loadConst ∧
    ∀ ip l, i.successors ip l = [(ip + 1, { l with depth := i.fallDepth l.depth })]

/-- The opcodes whose instructions fall through whatever the operand is. -/
def Opcode.fallsThrough : Opcode → Bool
  | .loadConst | .ret | .raise | .jump | .jumpIfTrue | .jumpIfFalse | .nullCoalesce
  | .pushExceptionHandler | .popExceptionHandler => false
  | _ => true

theorem Instruction.Falls.of_opcode {op : Opcode} {arg : Nat} {loc : Location}
    (falls : op.fallsThrough = true) : Instruction.Falls ⟨op, arg, loc⟩ := by
  refine ⟨fun is => ?_, fun ip l => ?_⟩
  · obtain rfl : op = .loadConst := is
    cases falls
  · cases op <;> first | rfl | cases falls

/-- The frame has taken all operands of an instruction and waits for what it pushes. -/
def Frame.Awaits (h : Heap) (f : Frame) (count : Nat) (l : Layout) : Prop :=
  ∃ i, f.Executes h i l i.pops ∧ i.pushes = count ∧ i.Falls

theorem Heap.Keeps.runs {h h' : Heap} {f : Frame} {pool : Array Constant} {sketch : Sketch}
    (keeps : h.Keeps h') (runs : f.Runs h pool sketch) : f.Runs h' pool sketch where
  admits := keeps.admits runs.admits
  slots := Nat.le_trans runs.slots (keeps.slots f.env)

theorem Heap.Keeps.ready {h h' : Heap} {f : Frame} {l : Layout} (keeps : h.Keeps h')
    (ready : f.Ready h l) : f.Ready h' l := by
  obtain ⟨⟨pool, sketch, runs, shown⟩, flow, depth⟩ := ready
  exact ⟨⟨pool, sketch, keeps.runs runs, shown⟩, flow, depth⟩

theorem Heap.Keeps.stands {h h' : Heap} {f : Frame} {l : Layout} (keeps : h.Keeps h')
    (stands : f.Stands h l) : f.Stands h' l := by
  rcases stands with atEnd | ready
  · exact .inl atEnd
  · exact .inr (keeps.ready ready)

theorem Heap.Keeps.executes {h h' : Heap} {f : Frame} {i : Instruction} {l : Layout}
    {taken : Nat} (keeps : h.Keeps h') (executes : f.Executes h i l taken) :
    f.Executes h' i l taken := by
  obtain ⟨⟨pool, sketch, runs⟩, flow, depth, operands⟩ := executes
  exact ⟨⟨pool, sketch, keeps.runs runs⟩, flow, depth, operands⟩

/-- A ready frame fetches its next instruction. -/
theorem Frame.Ready.fetch {h : Heap} {f : Frame} {l : Layout} {i : Instruction}
    (ready : f.Ready h l) (found : f.next? = some i) :
    Frame.Executes h { f with ip := f.ip + 1 } i l 0 := by
  obtain ⟨⟨pool, sketch, runs, _⟩, flow, depth⟩ := ready
  exact ⟨⟨pool, sketch, runs.admits, runs.slots⟩, ⟨f.ip, rfl, found, flow⟩, depth,
    Nat.zero_le _⟩

/-- What is known of the code at the instruction a frame carries out. -/
theorem Frame.Executes.fits {h : Heap} {f : Frame} {i : Instruction} {l : Layout} {taken : Nat}
    (executes : f.Executes h i l taken) {pool : Array Constant} {sketch : Sketch}
    (runs : f.Runs h pool sketch) :
    ∃ ip top, f.ip = ip + 1 ∧ i.Fits pool sketch ip ⟨l, top⟩ := by
  obtain ⟨_, ⟨ip, next, found, flow⟩, _, _⟩ := executes
  obtain ⟨top, here⟩ := runs.admits.charted.follows flow
  exact ⟨ip, top, next, runs.admits.charted.fits_at here found⟩

/-- Enough operands are left for those not taken yet. -/
theorem Frame.Executes.enough {h : Heap} {f : Frame} {i : Instruction} {l : Layout} {taken : Nat}
    (executes : f.Executes h i l taken) : i.pops ≤ f.stack.length + taken := by
  obtain ⟨pool, sketch, runs⟩ := executes.runs
  obtain ⟨_, _, _, fits⟩ := executes.fits runs
  rw [executes.depth]
  exact fits.operands

/-- Where an instruction leads the frame is ready. What is known there of the topmost value, a
constant was loaded for. -/
theorem Frame.Executes.lands {h : Heap} {f g : Frame} {i : Instruction} {l l' : Layout}
    {taken : Nat} (executes : f.Executes h i l taken) (method : g.method = f.method)
    (env : g.env = f.env)
    (next : ∀ ip, f.ip = ip + 1 → (g.ip, l') ∈ i.successors ip l)
    (shown : ∀ pool sketch top, f.Runs h pool sketch → i.op = .loadConst →
      Top.Holds pool i.arg top → top.Shown g.stack)
    (depth : g.stack.length = l'.depth) : g.Ready h l' := by
  obtain ⟨pool, sketch, runs⟩ := executes.runs
  obtain ⟨ip, at_, found, flow⟩ := executes.flow
  obtain ⟨top₀, here⟩ := runs.admits.charted.follows flow
  obtain ⟨top', there', only⟩ := (runs.admits.charted.fits_at here found).next _ (next ip at_)
  refine ⟨⟨pool, sketch, ⟨?_, ?_⟩, fun top there => ?_⟩, ?_, depth⟩
  · rw [method]
    exact runs.admits
  · rw [method, env]
    exact runs.slots
  · have same : top' = top := congrArg View.top (Option.some.inj (there'.symm.trans there))
    by_cases any : top = .any
    · rw [any]
      trivial
    · obtain ⟨loads, holds⟩ := only (same ▸ any)
      exact shown pool sketch top runs loads (same ▸ holds)
  · rw [method]
    exact .step flow found (next ip at_)

/-- The values a frame waited for make it ready. -/
theorem Frame.Awaits.filled {h : Heap} {f : Frame} {count : Nat} {l : Layout}
    (awaits : f.Awaits h count l) (values : List Value) (length : values.length = count) :
    ∃ l', l'.regions = l.regions ∧ Frame.Ready h { f with stack := values ++ f.stack } l' := by
  obtain ⟨i, executes, pushes, notConst, falls⟩ := awaits
  have left := executes.depth
  refine ⟨{ l with depth := i.fallDepth l.depth }, rfl, ?_⟩
  refine executes.lands rfl rfl (fun ip at_ => ?_) (fun _ _ _ _ loads => absurd loads notConst) ?_
  · rw [falls, at_]
    exact List.mem_singleton_self _
  · change (values ++ f.stack).length = l.depth - i.pops + i.pushes
    rw [List.length_append]
    omega

/-- An exception in the middle of an instruction leads to the handler of the innermost region,
which finds the operands that were there when the region was opened. -/
theorem Frame.Executes.recover {h : Heap} {f : Frame} {i : Instruction} {l : Layout} {taken : Nat}
    (executes : f.Executes h i l taken) {r : Region} {rest : List Region}
    (opened : l.regions = r :: rest) (frameDepth : Nat) :
    (f.recover ⟨frameDepth, r.target, r.height⟩).Ready h ⟨r.height, rest⟩ := by
  obtain ⟨pool, sketch, runs⟩ := executes.runs
  obtain ⟨ip, top, _, fits⟩ := executes.fits runs
  obtain ⟨ip', _, found, flow⟩ := executes.flow
  have above := fits.above r (by rw [opened]; exact List.mem_cons_self)
  have guarded := fits.guarded r rest ⟨[], opened.symm⟩
  have depth := executes.depth
  have operands := executes.operands
  refine ⟨⟨pool, sketch, ⟨runs.admits, runs.slots⟩, ?_⟩, ?_, ?_⟩
  · intro top there
    have same : Top.any = top := congrArg View.top (Option.some.inj (guarded.symm.trans there))
    rw [← same]
    trivial
  · exact .raise flow found opened
  · change (f.stack.drop (f.stack.length - r.height)).length = r.height
    rw [List.length_drop]
    change r.height + i.pops ≤ l.depth at above
    omega

/-! ## All frames -/

/-- The region as the machine records it. -/
def Region.handler (frameDepth : Nat) (r : Region) : Handler :=
  ⟨frameDepth, r.target, r.height⟩

/-- The open regions of a frame that has `below` frames below it. -/
def Layout.handlers (l : Layout) (below : Nat) : List Handler :=
  l.regions.map (Region.handler (below + 1))

/-- Every frame waits for what the frame above it returns, and the topmost one meets a demand
when it gets its values. The handlers are those of the frames. -/
inductive Stacked (h : Heap) : Demand → List Frame → List Handler → Prop where
  | host : Stacked h .host [] []
  | frame {f : Frame} {count : Nat} {l : Layout} {rest : List Frame} {handlers : List Handler} :
      f.Awaits h count l → Stacked h f.returns.demand rest handlers →
      Stacked h (.frame count) (f :: rest) (l.handlers rest.length ++ handlers)

theorem Stacked.kept {h h' : Heap} (keeps : h.Keeps h') {demand : Demand} {frames : List Frame}
    {handlers : List Handler} (stacked : Stacked h demand frames handlers) :
    Stacked h' demand frames handlers := by
  induction stacked with
  | host => exact .host
  | frame awaits _ ih =>
      obtain ⟨i, executes, pushes, falls⟩ := awaits
      exact .frame ⟨i, keeps.executes executes, pushes, falls⟩ ih

/-- No handler belongs to a frame that is not there. -/
theorem Stacked.owned {h : Heap} {demand : Demand} {frames : List Frame}
    {handlers : List Handler} (stacked : Stacked h demand frames handlers) :
    ∀ handler ∈ handlers, handler.frameDepth ≤ frames.length := by
  induction stacked with
  | host => exact fun _ member => absurd member List.not_mem_nil
  | @frame f count l rest handlers _ _ ih =>
      intro handler member
      rw [List.length_cons]
      rcases List.mem_append.1 member with own | other
      · obtain ⟨r, _, rfl⟩ := List.mem_map.1 own
        exact Nat.le_refl _
      · exact Nat.le_succ_of_le (ih handler other)

/-- The topmost frame stands, and the others wait for what it returns. -/
def Standing (h : Heap) (frames : List Frame) (handlers : List Handler) : Prop :=
  ∃ f rest l below, frames = f :: rest ∧ f.Stands h l ∧ Stacked h f.returns.demand rest below ∧
    handlers = l.handlers rest.length ++ below

/-- The topmost frame carries out an instruction, and the others wait for what it returns. -/
def Busy (h : Heap) (i : Instruction) (l : Layout) (taken : Nat) (frames : List Frame)
    (handlers : List Handler) : Prop :=
  ∃ f rest below, frames = f :: rest ∧ f.Executes h i l taken ∧
    Stacked h f.returns.demand rest below ∧ handlers = l.handlers rest.length ++ below

/-- An exception that the innermost handler catches leaves its frame ready. -/
def Catches (h : Heap) (frames : List Frame) (handlers : List Handler) : Prop :=
  ∀ handler others, handlers = handler :: others →
    handler.frameDepth ≤ frames.length ∧
      Standing h ((frames.drop (frames.length - handler.frameDepth)).modifyHead (·.recover handler))
        others

/-- The innermost handler is the topmost frame's, or else the one of the frames below. -/
theorem Frame.Executes.catches {h : Heap} {f : Frame} {i : Instruction} {l : Layout} {taken : Nat}
    {rest : List Frame} {below : List Handler} (executes : f.Executes h i l taken)
    (stacked : Stacked h f.returns.demand rest below) (others : Catches h rest below) :
    Catches h (f :: rest) (l.handlers rest.length ++ below) := by
  intro handler remaining split
  rw [Layout.handlers] at split
  cases opened : l.regions with
  | nil =>
      rw [opened, List.map_nil, List.nil_append] at split
      obtain ⟨low, standing⟩ := others handler remaining split
      refine ⟨Nat.le_succ_of_le low, ?_⟩
      rw [List.length_cons, Nat.succ_sub low]
      exact standing
  | cons r regions =>
      rw [opened, List.map_cons, List.cons_append] at split
      obtain ⟨rfl, rfl⟩ := List.cons.inj split
      refine ⟨Nat.le_refl _, ?_⟩
      rw [Region.handler, List.length_cons, Nat.sub_self, List.drop_zero, List.modifyHead_cons]
      exact ⟨_, rest, ⟨r.height, regions⟩, below, rfl, .inr (executes.recover opened _), stacked, rfl⟩

theorem Stacked.catches {h : Heap} {demand : Demand} {frames : List Frame}
    {handlers : List Handler} (stacked : Stacked h demand frames handlers) :
    Catches h frames handlers := by
  induction stacked with
  | host => exact fun _ _ split => nomatch split
  | frame awaits below ih =>
      obtain ⟨i, executes, _, _⟩ := awaits
      exact executes.catches below ih

theorem Busy.catches {h : Heap} {i : Instruction} {l : Layout} {taken : Nat} {frames : List Frame}
    {handlers : List Handler} (busy : Busy h i l taken frames handlers) :
    Catches h frames handlers := by
  obtain ⟨f, rest, below, rfl, executes, stacked, rfl⟩ := busy
  exact executes.catches stacked stacked.catches

theorem Catches.kept {h h' : Heap} (keeps : h.Keeps h') {frames : List Frame}
    {handlers : List Handler} (catches : Catches h frames handlers) :
    Catches h' frames handlers := by
  intro handler others split
  obtain ⟨low, f, rest, l, below, unwound, stands, stacked, remaining⟩ :=
    catches handler others split
  exact ⟨low, f, rest, l, below, unwound, keeps.stands stands, stacked.kept keeps, remaining⟩

/-- Values that the topmost frame waited for make it ready. -/
theorem Stacked.filled {h : Heap} {count : Nat} {frames : List Frame} {handlers : List Handler}
    (stacked : Stacked h (.frame count) frames handlers) (values : List Value)
    (length : values.length = count) :
    Standing h (frames.modifyHead fun f => { f with stack := values ++ f.stack }) handlers := by
  cases stacked with
  | @frame f _ l rest below awaits stacked =>
      obtain ⟨l', regions, ready⟩ := awaits.filled values length
      refine ⟨_, rest, l', below, rfl, .inr ready, stacked, ?_⟩
      rw [Layout.handlers, Layout.handlers, regions]

/-- Handlers of frames above a depth come first, and are dropped together. -/
theorem dropWhile_handlers {own below : List Handler} {depth : Nat}
    (high : ∀ h ∈ own, depth < h.frameDepth) (low : ∀ h ∈ below, h.frameDepth ≤ depth) :
    (own ++ below).dropWhile (depth < ·.frameDepth) = below := by
  rw [List.dropWhile_append_of_pos fun h member => decide_eq_true (high h member)]
  cases below with
  | nil => rfl
  | cons h below =>
      have near := low h List.mem_cons_self
      rw [List.dropWhile_cons_of_neg]
      simpa using near

/-- When a frame ends, the handlers it left open are dropped and no others. -/
theorem Stacked.dropWhile {h : Heap} {demand : Demand} {frames : List Frame}
    {handlers : List Handler} (stacked : Stacked h demand frames handlers) (l : Layout) :
    (l.handlers frames.length ++ handlers).dropWhile (frames.length < ·.frameDepth) = handlers := by
  refine dropWhile_handlers (fun handler member => ?_) stacked.owned
  obtain ⟨r, _, rfl⟩ := List.mem_map.1 member
  exact Nat.lt_succ_self _

end ScriptMachine
