import ScriptMachine.Proofs.Machine.Conduct

/-!
Disciplines, step by step. An instruction takes its operands from above those that are left out, as
long as there are enough of them. So what a machine does next keeps to any discipline, if the frame
that has the operands will not reach for them and does not end.
-/

namespace ScriptMachine

open ScriptMachine.Action
open Discipline (Instructs)

variable {D : Discipline} {E : Standard} {m : Machine}

/-! ## Operands -/

namespace Machine

variable {blind : Bool}

/-- Operands have no positions. -/
theorem stack_viewed (m : Machine) : (m.viewed blind).stack = m.stack := by
  refine m.ask_viewed fun m => ?_
  rw [stack, frames_unplaced, stack]
  cases m.frames <;> rfl

/-- Operands are taken in either view. -/
theorem withStack_viewed (m : Machine) (s : List Value) :
    (m.viewed blind).withStack s = (m.withStack s).viewed blind := by
  have same (f : Frame) : { f.unplaced with stack := s } = { f with stack := s }.unplaced := rfl
  cases blind with
  | false => rfl
  | true => exact m.modifyTop_unplaced same

end Machine

/-- The topmost frame has so many operands above those that are left out. -/
def Discipline.Spare (D : Discipline) (count : Nat) (m : Machine) : Prop :=
  ∀ f rest, m.frames = f :: rest → D.low rest.length ≠ [] →
    (D.low rest.length).length + count ≤ f.stack.length

/-- Operands above those that are left out pass, and may be taken. -/
theorem Frame.Held.taken {f : Frame} {low operands left : List Value} (held : f.Held E low)
    (found : f.stack = operands ++ left)
    (spare : low ≠ [] → low.length + operands.length ≤ f.stack.length) :
    Passes E operands ∧ Frame.Held E low { f with stack := left } := by
  obtain ⟨receiver, ⟨above, same, fine⟩, returns⟩ := held
  have all := congrArg List.length (same.symm.trans found)
  rw [List.length_append, List.length_append] at all
  -- the operands that are taken end before those that are left out begin
  have long : operands.length ≤ above.length := by
    by_cases none : low = []
    · rw [none, List.length_nil] at all
      omega
    · have left := spare none
      rw [same, List.length_append] at left
      omega
  have first : above = operands ++ above.drop operands.length := by
    have begins := congrArg (List.take operands.length) (same.symm.trans found)
    rw [List.take_append_of_le_length long, List.take_left] at begins
    conv => lhs; rw [← List.take_append_drop operands.length above, begins]
  have others : left = above.drop operands.length ++ low := by
    have split := same.symm.trans found
    rw [first, List.append_assoc] at split
    exact (List.append_cancel_left split).symm
  rw [first] at fine
  obtain ⟨known, above⟩ := passes_append.1 fine
  exact ⟨known, receiver, ⟨_, others, above⟩, returns⟩

/-- Operands that are to spare may be taken by an instruction. Those below may be taken by the next
one. -/
theorem Discipline.Kept.taken {left : List Value} (kept : D.Kept m) (operands : List Value)
    (count : Nat) (spare : D.Spare (operands.length + count) m)
    (found : m.stack = operands ++ left) :
    D.Allows operands ∧ D.Kept (m.withStack left) ∧ D.Spare count (m.withStack left) := by
  have frames := m.frames_withStack left
  cases top : m.frames with
  | nil =>
      rw [Machine.stack, top] at found
      obtain ⟨rfl, rfl⟩ := List.append_eq_nil_iff.1 found.symm
      have same : m.withStack [] = m := by
        have idle := m.withStack_self
        rwa [Machine.stack, top] at idle
      rw [same]
      refine ⟨passes_nil, kept, fun f rest wrong => ?_⟩
      cases top.symm.trans wrong
  | cons f rest =>
      rw [Machine.stack, top] at found
      have found : f.stack = operands ++ left := found
      have room := spare f rest top
      obtain ⟨known, held⟩ := (kept.top top).taken found fun some => by
        have enough := room some
        omega
      have within := kept.frames
      rw [top] at within frames
      refine ⟨known, { kept with frames := ?_, there := ?_ }, fun g others shown some => ?_⟩
      · rw [frames]
        exact ⟨held, within.2⟩
      · rw [frames]
        intro some
        have inside := kept.there some
        rwa [top] at inside
      · obtain ⟨rfl, rfl⟩ := List.cons.inj (frames.symm.trans shown)
        have enough := room some
        have all := congrArg List.length found
        rw [List.length_append] at all
        change _ ≤ left.length
        omega

/-- The action is careful with so many operands to spare. -/
def Affords (D : Discipline) (count : Nat) (a : Action Unit) : Prop :=
  ∀ m : Machine, D.Kept m → D.Spare count m →
    (a.result (m.viewed D.blind) = ((a.result m).1, (a.result m).2.viewed D.blind) ∧
      D.Kept (a.result m).2) ∨ D.lost (a.result m).2.heap

namespace Affords

/-- What needs no operands can do with any number. -/
@[grind ←] theorem of_careful {a : Action Unit} (careful : Careful D a) (count : Nat) :
    Affords D count a :=
  fun m kept _ => careful m kept

/-- One operand less is to spare after it was popped. If there is none to pop, that is a defect. -/
@[grind ←] theorem pop {count : Nat} {f : Value → Action Unit}
    (next : ∀ v, D.Allows v → Affords D count (f v)) : Affords D (count + 1) (Action.pop >>= f) := by
  intro m kept spare
  have shown : (m.viewed D.blind).stack = m.stack := m.stack_viewed
  cases found : m.stack with
  | nil =>
      have underflow (n : Machine) (none : n.stack = []) :
          (Action.pop >>= f).result n = (.error (.defect .stackUnderflow), n) := by
        unfold Action.pop
        rw [bind_assoc, result_bind_ok (result_askStack n), none]
        rfl
      rw [underflow m found, underflow _ (shown.trans found)]
      exact .inl ⟨rfl, kept⟩
  | cons v left =>
      obtain ⟨known, after, spare'⟩ :=
        kept.taken [v] count (Nat.add_comm count 1 ▸ spare) found
      rw [result_bind_ok (result_pop found), result_bind_ok (result_pop (shown.trans found)),
        Machine.withStack_viewed]
      exact next v (passes_cons.1 known).1 _ after spare'

/-- An operand that is looked at is still there. -/
@[grind ←] theorem peek {count : Nat} {f : Value → Action Unit}
    (next : ∀ v, D.Allows v → Affords D (count + 1) (f v)) :
    Affords D (count + 1) (Action.peek >>= f) := by
  intro m kept spare
  have shown : (m.viewed D.blind).stack = m.stack := m.stack_viewed
  cases found : m.stack with
  | nil =>
      have underflow (n : Machine) (none : n.stack = []) :
          (Action.peek >>= f).result n = (.error (.defect .stackUnderflow), n) := by
        unfold Action.peek
        rw [bind_assoc, result_bind_ok (result_askStack n), none]
        rfl
      rw [underflow m found, underflow _ (shown.trans found)]
      exact .inl ⟨rfl, kept⟩
  | cons v left =>
      obtain ⟨known, _⟩ := kept.taken [v] count (Nat.add_comm count 1 ▸ spare) found
      rw [result_bind_ok (result_peek found), result_bind_ok (result_peek (shown.trans found))]
      exact next v (passes_cons.1 known).1 m kept spare

@[grind ←] theorem discard_pop (count : Nat) : Affords D (count + 1) (discard Action.pop) :=
  pop fun _ _ => .of_careful (Obeys.pure trivial).careful count

/-- An instruction takes its arguments at once and then needs no other operand. -/
@[grind ←] theorem popMany {count : Nat} {f : List Value → Action Unit}
    (next : ∀ vs, D.Allows vs → Careful D (f vs)) :
    Affords D count (Action.popMany count >>= f) := by
  intro m kept spare
  have shown : (m.viewed D.blind).stack = m.stack := m.stack_viewed
  by_cases enough : count ≤ m.stack.length
  · have length : (m.stack.take count).length = count := List.length_take_of_le enough
    obtain ⟨known, after, _⟩ :=
      kept.taken (m.stack.take count) 0 (length.symm ▸ spare)
        (List.take_append_drop count m.stack).symm
    rw [result_bind_ok (result_popMany enough), result_bind_ok (result_popMany (shown ▸ enough)),
      shown, Machine.withStack_viewed]
    exact next _ (Value.passes_reverse known) _ after
  · have underflow (n : Machine) (few : ¬count ≤ n.stack.length) :
        (Action.popMany count >>= f).result n = (.error (.defect .stackUnderflow), n) := by
      unfold Action.popMany
      rw [bind_assoc, result_bind_ok (result_askStack n)]
      dsimp only
      rw [if_pos (Nat.lt_of_not_le few)]
      rfl
    rw [underflow m enough, underflow _ (shown ▸ enough)]
    exact .inl ⟨rfl, kept⟩

end Affords

/-! ## Instructions -/

namespace Action

variable [D.Instructs] {v : Value}

omit [D.Instructs] in
/-- A constant is held by the module of the topmost frame. -/
@[grind ←] theorem constant_obeys (index : Nat) : Obeys D (constant index) := by
  have known (m : Machine) (kept : D.Kept m) : D.Allows (m.constant? index) := by
    unfold Machine.constant?
    split
    · exact fun v found => kept.heap.constants _ v (Array.mem_of_getElem? found)
    · exact passes_none
  refine .bind (.ask (fun m => ?_) known) fun found fine => by grind
  rw [Machine.frames_unplaced]
  cases m.frames <;> rfl

omit [D.Instructs] in
@[grind ←] theorem nameConstant_obeys (index : Nat) : Obeys D (nameConstant index) := by
  unfold nameConstant
  grind

omit [D.Instructs] in
/-- A local variable lies in the environment of the topmost frame. -/
@[grind ←] theorem readLocal_obeys (slot : Nat) : Obeys D (readLocal slot) := by
  have known (m : Machine) (kept : D.Kept m) : D.Allows (m.local? slot) := by
    unfold Machine.local?
    split
    · exact fun v found => kept.heap.envs _ v (Array.mem_of_getElem? found)
    · exact passes_none
  refine .bind (.ask (fun m => ?_) known) fun found fine => by grind
  rw [Machine.frames_unplaced]
  cases m.frames <;> rfl

/-- An environment may have to be widened up to the slot, and then has null in between. -/
@[grind ←] theorem writeLocal_obeys (slot : Nat) (known : D.Allows v) :
    Obeys D (writeLocal slot v) := by
  have filled (slots : Array Value) (old : D.Allows slots) : D.Allows
      ((slots ++ Array.replicate (slot + 1 - slots.size) Value.null).setIfInBounds slot v) := by
    refine passes_setIfInBounds (passes_append_array.2 ⟨old, fun w member => ?_⟩) known slot
    rw [(Array.mem_replicate.1 member).2]
    exact Value.passes_of_isPlain rfl
  refine .bind (.askFrame (fun _ => rfl) (fun _ _ _ => passes_plain _) (passes_plain _))
    fun env _ => ?_
  exact .changeHeap (fun _ => rfl) fun h on => on.modifyEnv env filled

/-- A closure shares the receiver of the topmost frame. The observer is told how many local
variables its method has, wherever that comes from. -/
@[grind ←] theorem captureLocals_obeys (v : Value) : Obeys D (captureLocals v) := by
  have noted (method : MethodId) : Obeys D (change fun m =>
      m.note fun _ => .closure (m.heap.method method).code.localCount) := by
    refine .note _ fun m => ?_
    rw [Machine.heap_unplaced, Heap.unplaced_method]
    rfl
  unfold captureLocals
  split
  · refine .bind (noted _) fun _ _ =>
      .bind (.askFrame (fun _ => rfl) (fun _ _ _ => passes_plain _) (passes_plain _))
        fun env _ => ?_
    grind
  · exact .defect _

/-- An operator works on its operands, or calls a method of the left one. -/
@[grind ←] theorem binary_obeys (op : BinaryOp) {left right : Value} (known : D.Allows left)
    (known' : D.Allows right) : Obeys D (binary op left right) := by
  unfold binary
  grind

@[grind ←] theorem unary_obeys (op : UnaryOp) (known : D.Allows v) : Obeys D (unary op v) := by
  unfold unary
  grind

/-- An item is one that the container holds, or what a method of the container gives. -/
@[grind ←] theorem readItem_obeys {container index : Value} (known : D.Allows container)
    (known' : D.Allows index) : Obeys D (readItem container index) := by
  unfold readItem
  refine .bind (.askHeap (fun h => Operation.item?_unplaced h container index) fun h meets =>
    Operation.item?_passes meets known) fun found fine => ?_
  grind

/-- An item may be set to what passes. -/
@[grind ←] theorem writeItem_obeys {container index : Value} (known : D.Allows container)
    (key : D.Allows index) (new : D.Allows v) : Obeys D (writeItem container index v) := by
  unfold writeItem
  split
  · next set found => exact .primitive (Operation.setItem?_heeds key new found)
  · grind

omit [D.Instructs] in
@[grind ←] theorem readGlobal_obeys (name : String) : Obeys D (readGlobal name) := by
  refine .bind (.askFrame (fun _ => rfl) (fun _ _ _ => passes_plain _) (passes_plain _))
    fun module _ => ?_
  grind

/-- A global variable is set where it is found, or in the module. -/
@[grind ←] theorem writeGlobal_obeys (name : String) (known : D.Allows v) :
    Obeys D (writeGlobal name v) := by
  refine .bind (.askFrame (fun _ => rfl) (fun _ _ _ => passes_plain _) (passes_plain _))
    fun module _ => ?_
  refine .change (fun m => m.setGlobal_unplaced module name v) fun m kept => ?_
  unfold Machine.setGlobal
  split
  · exact { kept with heap := kept.heap.setModuleAttribute _ name known }
  · exact { kept with globals := Bindings.passes_set kept.globals known }

omit [D.Instructs] in
/-- A region is opened at the height of the operand stack. -/
@[grind ←] theorem openRegion_obeys (target : Nat) : Obeys D (openRegion target) := by
  have height (m : Machine) : (m.unplaced.frames.head?.map (·.stack.length)).getD 0
      = (m.frames.head?.map (·.stack.length)).getD 0 := by
    rw [Machine.frames_unplaced]
    cases m.frames <;> rfl
  refine .change (fun m => ?_) fun m kept => ?_
  · dsimp only
    rw [height]
    exact Machine.note_unplaced { m with handlers := ⟨m.calls.depth, target, _⟩ :: m.handlers } rfl
  · have opened (handlers : List Handler) : D.Kept { m with handlers } := { kept with }
    exact (opened _).note _

omit [D.Instructs] in
@[grind ←] theorem closeRegion_obeys : Obeys D closeRegion := by
  refine .change (fun m => Machine.note_unplaced { m with handlers := m.handlers.tail } rfl)
    fun m kept => ?_
  have closed : D.Kept { m with handlers := m.handlers.tail } := { kept with }
  exact closed.note _

/-- An instruction does nothing but what one of the actions above does, with as many operands as it
takes. -/
theorem execute_affords (i : Instruction) : Affords D i.pops (execute i) := by
  obtain ⟨op, arg, loc⟩ := i
  cases op <;> dsimp only [execute, Instruction.pops]
  case ret =>
      have size (f : Frame) : f.unplaced.method.code.body.size = f.method.code.body.size :=
        Array.size_map
      have ends : Obeys D (changeFrame fun f => { f with ip := f.method.code.body.size }) :=
        .changeFrame (fun f => by rw [size]; rfl) fun f low held => { held with }
      exact .of_careful ends.careful 1
  all_goals
    grind [readSelf, buildList, buildMap, testType, castType, raiseValue, readCaught]

/-! ## What is done next -/

section

variable {blind : Bool} {f : Frame} {rest : List Frame}

/-- The next instruction is fetched and executed in either view. -/
theorem result_advance_viewed {i : Instruction} (top : m.frames = f :: rest)
    (next : f.next? = some i) :
    advance.result (m.viewed blind) = (execute i).result ((fetched m f i).viewed blind) := by
  cases blind with
  | false => exact result_advance top next
  | true =>
      have top' : m.unplaced.frames = f.unplaced :: rest.map Frame.unplaced := by
        rw [Machine.frames_unplaced, top, List.map_cons]
      have next' : f.unplaced.next? = some i.unplaced := by
        rw [f.next?_unplaced, next, Option.map_some]
      have moved (g : Frame) : { g.unplaced with ip := f.ip + 1 } = { g with ip := f.ip + 1 }.unplaced :=
        rfl
      have same : fetched m.unplaced f.unplaced i.unplaced = (fetched m f i).unplaced := by
        refine Eq.trans ?_ (Machine.modifyTop_unplaced moved _)
        rw [← m.note_unplaced rfl]
        rfl
      exact (result_advance top' next').trans (congrArg (execute i).result same)

/-- A frame that is at its end is dropped in either view. -/
theorem result_advance_end_viewed (top : m.frames = f :: rest) (atEnd : f.next? = none) :
    advance.result (m.viewed blind)
      = (handOver f.returns (f.stack.headD .null)).result ((ended m).viewed blind) := by
  cases blind with
  | false => exact (result_advance_end top atEnd).trans (result_finish top)
  | true =>
      have top' : m.unplaced.frames = f.unplaced :: rest.map Frame.unplaced := by
        rw [Machine.frames_unplaced, top, List.map_cons]
      have atEnd' : f.unplaced.next? = none := by
        rw [f.next?_unplaced, atEnd, Option.map_none]
      have same : ended m.unplaced = (ended m).unplaced := by
        have below : popped m.unplaced = (popped m).unplaced := by
          unfold popped
          rw [Machine.calls_unplaced, CallStack.unplaced_pop]
          rfl
        unfold ended
        rw [below]
        refine (popped m).note_unplaced ?_
        rw [Machine.calls_unplaced, CallStack.unplaced_pop]
        rfl
      exact (result_advance_end top' atEnd').trans ((result_finish top').trans
        (congrArg (handOver f.returns (f.stack.headD .null)).result same))

end

/-- A frame has ended whose operands are not left out. What it hands over passes. -/
theorem handOver_keeps (kept : D.Kept m) {f : Frame} {rest : List Frame}
    (top : m.frames = f :: rest) (remains : D.operands ≠ [] → D.depth < rest.length) :
    D.Kept (ended m) ∧ Obeys D (handOver f.returns (f.stack.headD .null)) := by
  have held := kept.top top
  have none : D.low rest.length = [] := by
    unfold Discipline.low
    split
    · next same =>
        by_contra some
        exact absurd (remains some) (same ▸ Nat.lt_irrefl _)
    · rfl
  have below : (popped m).frames = rest := by
    change m.frames.tail = rest
    rw [top]
    rfl
  have within := kept.frames
  rw [top] at within
  have left : D.Kept (popped m) := by
    refine { kept with frames := ?_, there := fun some => ?_ }
    · rw [below]
      exact within.2
    · rw [below]
      exact remains some
  obtain ⟨above, same, fine⟩ := held.operands
  rw [none, List.append_nil] at same
  have result : D.Allows (f.stack.headD .null) := same ▸ Value.passes_headD fine
  exact ⟨left.note _, handOver_obeys held.returns result⟩

end Action

/-- The topmost frame will not reach for the operands that are left out. -/
def Discipline.Room (D : Discipline) (m : Machine) : Prop :=
  m.control = .running → ∀ f rest i, m.frames = f :: rest → f.next? = some i → D.Spare i.pops m

/-- Where nothing is left out, there is always room. -/
theorem Discipline.room_of_nil (none : D.operands = []) : D.Room m := by
  intro _ _ _ _ _ _ f rest _ some
  refine absurd ?_ some
  unfold Discipline.low
  rw [none]
  exact ite_self []

/-- What is done next keeps to a discipline. -/
theorem Discipline.Kept.upcoming [D.Instructs] (kept : D.Kept m) (room : D.Room m)
    (remains : D.operands ≠ [] → D.depth < m.step.frames.length) :
    (m.upcoming.result (m.viewed D.blind)
        = ((m.upcoming.result m).1, (m.upcoming.result m).2.viewed D.blind) ∧
      D.Kept (m.upcoming.result m).2) ∨ D.lost (m.upcoming.result m).2.heap := by
  unfold Machine.upcoming
  cases control : m.control with
  | delivering v pending =>
      have given := kept.control
      rw [control] at given
      exact resume_careful given.1 given.2 m kept
  | returned v | uncaught id => exact .inl ⟨rfl, kept⟩
  | running =>
      cases top : m.frames with
      | nil =>
          have top' : (m.viewed D.blind).frames = [] := by
            cases D.blind with
            | false => exact top
            | true => exact m.frames_unplaced.trans (by rw [top, List.map_nil])
          dsimp only
          rw [result_advance_nil top, result_advance_nil top']
          exact .inl ⟨rfl, kept⟩
      | cons f rest =>
          dsimp only
          cases next : f.next? with
          | none =>
              obtain ⟨values, frames, _⟩ := Machine.step_of_end control top next
              have under (some : D.operands ≠ []) : D.depth < rest.length := by
                have inside := remains some
                rwa [frames, List.length_modifyHead] at inside
              obtain ⟨left, obeys⟩ := handOver_keeps kept top under
              rw [result_advance_end top next, result_finish top,
                result_advance_end_viewed top next]
              exact obeys.careful _ left
          | some i =>
              rw [result_advance top next, result_advance_viewed top next]
              have moved : D.Kept (fetched m f i) :=
                (kept.note _).modifyTop fun f low held => { held with }
              refine execute_affords i _ moved fun g others shown some => ?_
              obtain ⟨rfl, rfl⟩ := List.cons.inj ((frames_fetched top i).symm.trans shown)
              exact room control f rest i top next f rest top some

end ScriptMachine
