import ScriptMachine.Proofs.Meaning.Realization

/-!
Single instructions of an activation. Most carry an operation out, which the evaluator does too:
`Carries.value`, `Carries.effect` and `At.raises` say that the two come to the same. The others
only move operands, open or close a region or choose the next instruction; the evaluator has
nothing to do for them.
-/

namespace ScriptMachine

open ScriptMachine.Action

/-- An exception that leaves both sides changes the same. -/
theorem Falls.raise {c : Seam} {m m' : Machine} (falls : Falls c m m') (even : c.Even)
    (id : ExceptionId) : Machine.World { m.raise id with current := some id }
      { m'.raise id with current := some id } := by
  obtain ⟨h₁, _, h₃, h₄, h₅, h₆, h₇, h₈⟩ := falls.announced even id
  rw [Machine.raise_eq, Machine.raise_eq]
  split <;> split <;> exact ⟨h₁, rfl, h₃, h₄, h₅, h₆, h₇, h₈⟩

/-! ## Operations -/

variable {a : Activation} {regions : List Protection} {ip fuel : Nat} {stack operands : List Value}
  {m e : Machine} {i : Instruction} {act : Action Unit}

namespace Activation

/-- The seam below an operation: the activation on one side, the frame that stands for it on the
other. -/
def seam (a : Activation) (regions : List Protection) (ip : Nat) (stack : List Value)
    (loc : Location) : Seam where
  returns := .value
  returns' := .value
  base := a.top ip stack :: a.base
  base' := a.frame.standing loc :: a.base
  below := a.handlers regions
  below' := []

/-- The activation and the frame that stands for it look alike, so the seam between them is even. -/
theorem seam_even (found : a.body[ip]? = some i) :
    (a.seam regions (ip + 1) stack i.loc).Even where
  faces := by
    have location : (a.top (ip + 1) stack).location = i.loc := by
      change ((a.body[ip]?).map (·.loc)).getD {} = _
      rw [found]
      rfl
    have face : (a.top (ip + 1) stack).face = (a.frame.standing i.loc).face := by
      rw [Frame.face, location]
      rfl
    change _ :: _ = _ :: _
    rw [face]
  low h member := by
    change h.frameDepth ≤ a.base.length + 1
    rcases List.mem_append.1 member with own | other
    · obtain ⟨p, _, rfl⟩ := List.mem_map.1 own
      exact Nat.le_refl _
    · exact Nat.le_succ_of_le (a.low h other)
  low' h member := absurd member List.not_mem_nil
  nested := rfl

theorem Stands.frames_standing (stands : a.Stands e) (loc : Location) :
    (e.standing loc).frames = a.frame.standing loc :: a.base := by
  obtain ⟨_, g, frames, same⟩ := stands
  change (e.calls.modifyTop _).frames = _
  rw [CallStack.frames_modifyTop, show e.calls.frames = _ from frames]
  exact congrArg (· :: a.base) (same loc)

/-- Only the frame of the activation is above the base. -/
theorem Stands.depth (stands : a.Stands e) : e.calls.depth = a.base.length + 1 := by
  obtain ⟨_, g, frames, _⟩ := stands
  rw [e.calls.depth_eq, show e.calls.frames = _ from frames]
  rfl

/-- The machine goes on, however many steps it takes. -/
theorem Bears.run {e' : Machine} (bears : a.Bears m e) (count : Nat) (stands : a.Stands e') :
    a.Bears (m.run count) e' :=
  ⟨bears.live.run count, bears.counted.run count, ((m.keeps_heap_run count).constants _).trans bears.constants, stands⟩

namespace At

/-- The machine takes the operands of an instruction and carries the operation out. -/
theorem step_eq (here : a.At regions ip (operands ++ stack) m e) (found : a.body[ip]? = some i)
    (executes : ∀ n : Machine, n.stack = operands ++ stack →
      (∀ k, n.constant? k = a.constants[k]?) →
      (execute i).result n = act.result (n.withStack stack)) :
    m.step = ((fetched m (a.top ip (operands ++ stack)) i).withStack stack).perform act := by
  let n := fetched m (a.top ip (operands ++ stack)) i
  have constants (k : Nat) : n.constant? k = a.constants[k]? := by
    rw [Machine.constant?, frames_fetched here.frames, heap_fetched]
    exact congrArg (·[k]?) here.constants
  have next : (a.top ip (operands ++ stack)).next? = some i := found
  unfold Machine.step Machine.upcoming
  rw [here.control]
  dsimp only
  rw [perform_advance here.frames next, Machine.perform_eq, Machine.perform_eq,
    executes n (stack_fetched here.frames i) constants]

/-- The operation begins in both machines. -/
theorem goes (here : a.At regions ip (operands ++ stack) m e) (found : a.body[ip]? = some i)
    (executes : ∀ n : Machine, n.stack = operands ++ stack →
      (∀ k, n.constant? k = a.constants[k]?) →
      (execute i).result n = act.result (n.withStack stack))
    (mirrors : Mirrors act) :
    Goes (a.seam regions (ip + 1) stack i.loc) Eq m.step ((e.standing i.loc).perform act) := by
  let n := fetched m (a.top ip (operands ++ stack)) i
  have frames : n.frames = a.top (ip + 1) (operands ++ stack) :: a.base :=
    frames_fetched here.frames i
  have kept := m.keeps_note fun _ =>
    .instruction ip i.op (operands ++ stack).length m.calls.depth
  have level : AtSeam (a.seam regions (ip + 1) stack i.loc) (n.withStack stack)
      (e.standing i.loc) := by
    have left : (n.withStack stack).frames = a.top (ip + 1) stack :: a.base := by
      rw [Machine.frames_withStack, frames]
      rfl
    have counted : n.Counted := here.counted.fetched _ i
    refine ⟨?_, left, here.stands.frames_standing i.loc, kept.handlers.trans here.handlers, rfl, ?_⟩
    · obtain ⟨h₁, h₂, h₃, h₄, h₅, h₆, h₇, h₈⟩ := here.world.fetched (a.top ip (operands ++ stack)) i
      exact ⟨h₁, h₂, h₃, h₄, h₅, h₆, h₇, h₈⟩
    · exact AtSeam.nesting_of_counted ((Machine.counted_withStack stack).2 counted)
        (here.stands.1.modifyTop fun _ => rfl) left (here.stands.frames_standing i.loc)
  rw [here.step_eq found executes]
  exact (mirrors (seam_even found) level (kept.control.trans here.control) rfl).perform

end At

/-- The end of an operation, in both machines. -/
theorem realizes_concluded {n n' : Machine} {loc : Location}
    (concludes : Concludes (a.seam regions ip stack loc) n n')
    (even : (a.seam regions ip stack loc).Even) (bears : ∀ e', a.Stands e' → a.Bears n e')
    (stands : a.Stands e) (low : ∀ p ∈ regions, p.floor <:+ stack) :
    a.Realizes regions fuel n (some (Eval.outcome e n')) fun values n e' =>
      a.At regions ip (values ++ stack) n e' := by
  cases concludes with
  | @filled k k' values level =>
      have operands : k.stack = stack := by
        rw [Machine.stack, level.frames]
        rfl
      have none : k'.stack = [] := by
        rw [Machine.stack, level.frames']
        rfl
      have frames' : (Machine.withStack { k' with control := .running } (values ++ k'.stack)).frames
          = { a.frame.standing loc with stack := values } :: a.base := by
        rw [Machine.frames_withStack, none, List.append_nil]
        change k'.frames.modifyHead _ = _
        rw [level.frames']
        rfl
      have left : (Machine.withStack { k' with control := .running } (values ++ k'.stack)).stack
          = values := by
        rw [Machine.stack, frames']
      refine realizes_ok.2 (.now ?_)
      rw [left]
      have there : k.Counted :=
        (Machine.counted_withStack (m := { k with control := .running }) _).1 (bears e stands).counted
      obtain ⟨h₁, h₂, h₃, h₄, h₅, h₆, h₇, h₈⟩ := level.world
      have begun : a.Stands (Machine.withStack { k' with control := .running } (values ++ k'.stack)) :=
        ⟨(Machine.counted_withStack _).2 (level.counted there), _, frames', fun _ => rfl⟩
      refine ⟨bears _ begun, ⟨h₁, h₂, h₃, h₄, h₅, h₆, h₇, h₈⟩, ?_,
        level.handlers, rfl, fun p member => (low p member).trans (List.suffix_append _ _)⟩
      rw [Machine.frames_withStack, operands]
      change k.frames.modifyHead _ = _
      rw [level.frames]
      rfl
  | @raised k k' id falls =>
      have closed : k'.handlers = [] := falls.handlers'
      have ends : Eval.outcome e (k'.raise id) = (.error id, { k'.raise id with
          calls := e.calls, current := some id, control := .running }) := by
        unfold Eval.outcome
        rw [Machine.raise_of_nil closed]
      rw [ends]
      refine realizes_error.2 (.now ⟨bears _ stands, ?_, ?_⟩)
      · obtain ⟨above, _, frames, _, _⟩ := falls.frames
        exact ⟨k, above, ip, stack, rfl, frames, falls.handlers, low⟩
      · obtain ⟨h₁, h₂, h₃, h₄, h₅, h₆, h₇, h₈⟩ := falls.raise even id
        exact ⟨h₁, h₂, h₃, h₄, h₅, h₆, h₇, h₈⟩

namespace At

/-- An instruction that carries an operation out, when it falls through. -/
theorem operates (here : a.At regions ip (operands ++ stack) m e) (found : a.body[ip]? = some i)
    (executes : ∀ n : Machine, n.stack = operands ++ stack →
      (∀ k, n.constant? k = a.constants[k]?) →
      (execute i).result n = act.result (n.withStack stack))
    (mirrors : Mirrors act) (low : ∀ p ∈ regions, p.floor <:+ stack) (fuel : Nat) :
    a.Realizes regions fuel m ((Eval.operate fuel i.loc act).result e) fun values n e' =>
      a.At regions (ip + 1) (values ++ stack) n e' := by
  have even : (a.seam regions (ip + 1) stack i.loc).Even := seam_even found
  have goes := here.goes found executes mirrors
  have operate : (Eval.operate fuel i.loc act).result e
      = (((e.standing i.loc).perform act).settle? (a.base.length + 1) fuel).map
        (Eval.outcome e) := by
    rw [← here.stands.depth]
    rfl
  rw [operate]
  refine Realizes.mono (Nat.le_succ fuel) (here.realizes_step ?_)
  rcases goes.settles even (List.cons_ne_nil _ _) rfl here.live.step fuel with
    ⟨out, inside⟩ | ⟨n', count, back, inside, concludes⟩
  · rw [show ((e.standing i.loc).perform act).settle? (a.base.length + 1) fuel = none from out]
    exact inside
  · rw [show ((e.standing i.loc).perform act).settle? (a.base.length + 1) fuel = some n' from back]
    have bears (e' : Machine) (stands : a.Stands e') : a.Bears (m.step.run count) e' := by
      rw [← Machine.run_one, ← Machine.run_add]
      exact here.toBears.run _ stands
    exact .later inside (realizes_concluded concludes even bears here.stands low)

/-- An instruction that falls through leaves as many operands as control flow says. -/
theorem length_falls {stack' : List Value} {m' e' : Machine} (here : a.At regions ip stack m e)
    (there : a.At regions (ip + 1) stack' m' e') (found : a.body[ip]? = some i) (falls : i.Falls)
    (more : ip + 1 < a.body.size) : stack'.length = i.fallDepth stack.length := by
  obtain ⟨f, rest, l, below, top, stands, _⟩ := here.live.standing here.control
  obtain ⟨f', rest', l', below', top', stands', _⟩ := there.live.standing there.control
  obtain ⟨rfl, rfl⟩ := List.cons.inj (here.frames.symm.trans top)
  obtain ⟨rfl, rfl⟩ := List.cons.inj (there.frames.symm.trans top')
  have ready : (a.top ip stack).Ready m.heap l := by
    rcases stands with none | ready
    · exact absurd (found.symm.trans none) (Option.some_ne_none i)
    · exact ready
  have ready' : (a.top (ip + 1) stack').Ready m'.heap l' := by
    rcases stands' with none | ready
    · exact absurd (Array.getElem?_eq_none_iff.1 none) (Nat.not_le.2 more)
    · exact ready
  obtain ⟨pool, sketch, runs, _⟩ := ready'.runs
  have flow : Flow a.body (ip + 1) { l with depth := i.fallDepth l.depth } := by
    refine ready.flow.step found ?_
    rw [falls.2]
    exact List.mem_singleton.2 rfl
  obtain ⟨_, first⟩ := runs.admits.charted.follows flow
  obtain ⟨_, second⟩ := runs.admits.charted.follows ready'.flow
  have layouts := congrArg View.layout (Option.some.inj (first.symm.trans second))
  have depth : i.fallDepth l.depth = l'.depth := congrArg Layout.depth layouts
  rw [← ready.depth, ← ready'.depth] at depth
  exact depth.symm

end At

/-- An instruction takes these operands for an operation and then falls through. -/
structure Carries (a : Activation) (i : Instruction) (operands stack : List Value)
    (act : Action Unit) : Prop where
  executes : ∀ n : Machine, n.stack = operands ++ stack →
    (∀ k, n.constant? k = a.constants[k]?) → (execute i).result n = act.result (n.withStack stack)
  mirrors : Mirrors act
  falls : i.Falls
  pops : i.pops = operands.length

namespace Carries

variable {s : Setting} {exits : Exits} {loc : Location} {op : Opcode} {arg finish : Nat}

/-- An instruction that pushes the value of an operation. -/
theorem value (carries : a.Carries { op, arg, loc } operands stack act)
    (pushes : Instruction.pushes { op, arg, loc } = 1)
    (placed : a.Placed exits ip [.of loc op arg] finish)
    (here : a.At regions ip (operands ++ stack) m e) (low : ∀ p ∈ regions, p.floor <:+ stack) :
    a.Realizes regions s.fuel m ((s.value loc act).result e) fun v n e' =>
      a.At regions finish (v :: stack) n e' := by
  have found := placed.instruction
  obtain rfl : ip + 1 = finish := placed.length
  refine .bind (here.operates found carries.executes carries.mirrors low s.fuel)
    fun values n e' there => ?_
  have length := here.length_falls there found carries.falls placed.more
  rw [List.length_append, Instruction.fallDepth, carries.pops, pushes, List.length_append,
    Nat.add_sub_cancel_left, Nat.add_comm] at length
  obtain ⟨v, rfl⟩ := List.length_eq_one_iff.1 (Nat.add_left_cancel length)
  exact .pure there

/-- An instruction that carries out an operation without a value. -/
theorem effect (carries : a.Carries { op, arg, loc } operands stack act)
    (pushes : Instruction.pushes { op, arg, loc } = 0)
    (placed : a.Placed exits ip [.of loc op arg] finish)
    (here : a.At regions ip (operands ++ stack) m e) (low : ∀ p ∈ regions, p.floor <:+ stack) :
    a.Realizes regions s.fuel m ((s.effect loc act).result e) fun _ n e' =>
      a.At regions finish stack n e' := by
  have found := placed.instruction
  obtain rfl : ip + 1 = finish := placed.length
  refine .bind (here.operates found carries.executes carries.mirrors low s.fuel)
    fun values n e' there => ?_
  have length := here.length_falls there found carries.falls placed.more
  rw [List.length_append, Instruction.fallDepth, carries.pops, pushes, List.length_append,
    Nat.add_sub_cancel_left, Nat.add_zero] at length
  obtain rfl := List.length_eq_zero_iff.1 (Nat.add_eq_right.1 length)
  exact .pure there

end Carries

/-! ### Raising -/

theorem settle?_of_isBack {k : Machine} {depth : Nat} (back : k.isBack depth = true) (fuel : Nat) :
    k.settle? depth fuel = some k := by
  cases fuel <;> rw [Machine.settle?, if_pos back]

/-- What always raises gives the evaluator an exception. -/
theorem operate_raises {x : Action ExceptionId} (quiet : Quiet x) (fuel : Nat) (loc : Location)
    (e : Machine) :
    ∃ id e', (Eval.operate fuel loc (x >>= fun id => throw (.exception id))).result e
      = some (.error id, e') := by
  obtain ⟨r, n, failed, closed⟩ : ∃ r n, (x >>= fun id =>
      (throw (.exception id) : Action Unit)).result (e.standing loc) = (.error r, n) ∧
        n.handlers = [] := by
    have kept := quiet.keeps (e.standing loc)
    rw [Action.result_bind]
    rcases done : x.result (e.standing loc) with ⟨r | id, n⟩ <;> rw [done] at kept
    · exact ⟨r, n, rfl, kept.handlers⟩
    · exact ⟨_, n, rfl, kept.handlers⟩
  obtain ⟨id, k, ended, control⟩ : ∃ id k, (e.standing loc).perform
      (x >>= fun id => throw (.exception id)) = k ∧ k.control = .uncaught id := by
    refine ⟨(r.resolve n).1, _, rfl, ?_⟩
    rw [Machine.perform_of_error failed,
      Machine.raise_of_nil ((r.keeps_resolve n).handlers.trans closed)]
  refine ⟨id, { k with calls := e.calls, current := some id, control := .running }, ?_⟩
  change Option.map _ (((e.standing loc).perform _).settle? e.calls.depth fuel) = _
  have back : k.isBack e.calls.depth = true := by rw [Machine.isBack, control]
  rw [ended, settle?_of_isBack back, Option.map_some, Eval.outcome, control]

/-- A raise in the code is a throw of the evaluator. -/
theorem At.raises {s : Setting} {loc : Location} {arg : Nat} {v : Value}
    {Q : Unit → Machine → Machine → Prop} (here : a.At regions ip (v :: stack) m e)
    (found : a.body[ip]? = some ⟨.raise, arg, loc⟩) (low : ∀ p ∈ regions, p.floor <:+ stack) :
    a.Realizes regions s.fuel m ((s.effect loc (raiseValue v)).result e) Q := by
  have mirrors : Mirrors (raiseValue v) :=
    Answers.mirrors (show Answers true .host (raiseValue v) from raiseValue_answers v)
  have operands : a.At regions ip ([v] ++ stack) m e := here
  have operates := operands.operates found
    (fun n found _ => execute_raise rfl found) mirrors low s.fuel
  obtain ⟨id, e', failed⟩ := operate_raises (exceptionOf_quiet v) s.fuel loc e
  have same : (Eval.operate s.fuel loc (raiseValue v)).result e = some (.error id, e') := failed
  have whole : (s.effect loc (raiseValue v)).result e = some (.error id, e') := by
    change (Eval.operate s.fuel loc (raiseValue v) >>= fun _ => pure ()).result e = _
    rw [Eval.result_bind, same]
    rfl
  rw [whole]
  rw [show Instruction.loc _ = loc from rfl, same] at operates
  exact operates

/-! ## Instructions without an operation -/

namespace At

variable {exits : Exits} {loc : Location} {arg target finish : Nat} {v : Value}
  {regions' : List Protection} {stack' : List Value}

/-- Where the machine is after an instruction of which the evaluator knows nothing. -/
theorem after {n : Machine} (here : a.At regions ip stack m e) (found : a.body[ip]? = some i)
    (executes : (execute i).result (fetched m (a.top ip stack) i) = (.ok (), n))
    (world : n.World e) (frames : n.frames = a.top target stack' :: a.base)
    (handlers : n.handlers = a.handlers regions') (control : n.control = .running)
    (low : ∀ p ∈ regions', p.floor <:+ stack') : a.At regions' target stack' m.step e := by
  have next : (a.top ip stack).next? = some i := found
  have step : m.step = n := by
    unfold Machine.step Machine.upcoming
    rw [here.control]
    exact Machine.perform_of_ok ((result_advance here.frames next).trans executes)
  have bears := here.toBears.run 1 here.stands
  rw [Machine.run_one, step] at bears
  rw [step]
  exact ⟨bears, world, frames, handlers, control, low⟩

theorem handlers_fetched (here : a.At regions ip stack m e) (f : Frame) (i : Instruction) :
    (fetched m f i).handlers = a.handlers regions :=
  (m.keeps_note _).handlers.trans here.handlers

theorem control_fetched (here : a.At regions ip stack m e) (f : Frame) (i : Instruction) :
    (fetched m f i).control = .running :=
  (m.keeps_note _).control.trans here.control

theorem constants_fetched (here : a.At regions ip stack m e) (i : Instruction) (k : Nat) :
    (fetched m (a.top ip stack) i).constant? k = a.constants[k]? := by
  rw [Machine.constant?, frames_fetched here.frames, heap_fetched]
  exact congrArg (·[k]?) here.constants

theorem operands_fetched (here : a.At regions ip stack m e) (i : Instruction) :
    (fetched m (a.top ip stack) i).stack = stack :=
  stack_fetched here.frames i

theorem fetched_withStack (here : a.At regions ip stack m e) (i : Instruction) :
    (fetched m (a.top ip stack) i).withStack stack = fetched m (a.top ip stack) i := by
  have same := Machine.withStack_self (fetched m (a.top ip stack) i)
  rw [here.operands_fetched] at same
  exact same

theorem truthy_fetched (here : a.At regions ip stack m e) (f : Frame) (i : Instruction)
    (v : Value) :
    (fetched m f i).heap.truthy v = e.heap.truthy v := by
  rw [heap_fetched, here.world.heap]

/-- An instruction that only changes the operands. -/
theorem shifts (here : a.At regions ip stack m e) (found : a.body[ip]? = some i)
    (executes : (execute i).result (fetched m (a.top ip stack) i)
      = (.ok (), (fetched m (a.top ip stack) i).withStack stack'))
    (low : ∀ p ∈ regions, p.floor <:+ stack') : a.At regions (ip + 1) stack' m.step e := by
  obtain ⟨h₁, h₂, h₃, h₄, h₅, h₆, h₇, h₈⟩ := here.world.fetched (a.top ip stack) i
  refine here.after found executes ⟨h₁, h₂, h₃, h₄, h₅, h₆, h₇, h₈⟩ ?_
    (here.handlers_fetched _ i) (here.control_fetched _ i) low
  rw [Machine.frames_withStack, frames_fetched here.frames]
  rfl

/-- An instruction that changes the operands and goes on elsewhere. -/
theorem turns (here : a.At regions ip stack m e) (found : a.body[ip]? = some i)
    (executes : (execute i).result (fetched m (a.top ip stack) i)
      = (.ok (), ((fetched m (a.top ip stack) i).withStack stack').withIp target))
    (low : ∀ p ∈ regions, p.floor <:+ stack') : a.At regions target stack' m.step e := by
  obtain ⟨h₁, h₂, h₃, h₄, h₅, h₆, h₇, h₈⟩ := here.world.fetched (a.top ip stack) i
  refine here.after found executes ⟨h₁, h₂, h₃, h₄, h₅, h₆, h₇, h₈⟩ ?_
    (here.handlers_fetched _ i) (here.control_fetched _ i) low
  rw [Machine.frames_withIp, Machine.frames_withStack, frames_fetched here.frames]
  rfl

/-- An instruction that pushes a value. -/
theorem loads (here : a.At regions ip stack m e) (found : a.body[ip]? = some i)
    (executes : (execute i).result (fetched m (a.top ip stack) i)
      = (push v).result (fetched m (a.top ip stack) i)) :
    a.At regions (ip + 1) (v :: stack) m.step e := by
  refine here.shifts found ?_ fun p member => (here.low p member).trans (List.suffix_cons v stack)
  rw [executes, result_push, here.operands_fetched]

theorem loadNull (here : a.At regions ip stack m e)
    (placed : a.Placed exits ip [.of loc .loadNull arg] finish) :
    a.At regions finish (.null :: stack) m.step e :=
  placed.length ▸ here.loads placed.instruction (execute_loadNull rfl)

theorem loadTrue (here : a.At regions ip stack m e)
    (placed : a.Placed exits ip [.of loc .loadTrue arg] finish) :
    a.At regions finish (.bool true :: stack) m.step e :=
  placed.length ▸ here.loads placed.instruction (execute_loadTrue rfl)

theorem loadFalse (here : a.At regions ip stack m e)
    (placed : a.Placed exits ip [.of loc .loadFalse arg] finish) :
    a.At regions finish (.bool false :: stack) m.step e :=
  placed.length ▸ here.loads placed.instruction (execute_loadFalse rfl)

/-- A constant is pushed if it is the one at that place. -/
theorem loadConst (here : a.At regions ip stack m e)
    (placed : a.Placed exits ip [.of loc .loadConst arg] finish)
    (held : a.constants[arg]? = some v) : a.At regions finish (v :: stack) m.step e :=
  placed.length ▸ here.loads placed.instruction
    (execute_loadConst rfl ((here.constants_fetched _ _).trans held))

/-- What is pushed for the exception is what the evaluator sees. -/
theorem loadException {id : ExceptionId} (here : a.At regions ip stack m e)
    (placed : a.Placed exits ip [.of loc .loadException arg] finish)
    (current : e.current = some id) :
    a.At regions finish (e.heap.seen id :: stack) m.step e := by
  refine placed.length ▸ here.loads placed.instruction ?_
  have caught : (fetched m (a.top ip stack) ⟨.loadException, arg, loc⟩).current = some id :=
    (here.world.fetched _ _).current.trans current
  rw [execute_loadException rfl, result_readCaught caught, result_push, heap_fetched,
    here.world.heap]

/-- An operand is popped only from above the floors of the regions. -/
theorem pop (here : a.At regions ip (v :: stack) m e)
    (placed : a.Placed exits ip [.of loc .pop arg] finish)
    (low : ∀ p ∈ regions, p.floor <:+ stack) : a.At regions finish stack m.step e :=
  placed.length ▸ here.shifts placed.instruction (execute_pop rfl (here.operands_fetched _)) low

theorem dup (here : a.At regions ip (v :: stack) m e)
    (placed : a.Placed exits ip [.of loc .dup arg] finish) :
    a.At regions finish (v :: v :: stack) m.step e :=
  placed.length ▸ here.shifts placed.instruction (execute_dup rfl (here.operands_fetched _))
    fun p member => (here.low p member).trans (List.suffix_cons v _)

theorem buildTuple (here : a.At regions ip (operands ++ stack) m e)
    (placed : a.Placed exits ip [.of loc .buildTuple arg] finish) (length : operands.length = arg)
    (low : ∀ p ∈ regions, p.floor <:+ stack) :
    a.At regions finish (.tuple operands.reverse :: stack) m.step e := by
  refine placed.length ▸ here.shifts placed.instruction ?_
    fun p member => (low p member).trans (List.suffix_cons _ stack)
  have some : (fetched m (a.top ip (operands ++ stack)) ⟨.buildTuple, arg, loc⟩).frames ≠ [] := by
    rw [frames_fetched here.frames]
    exact List.cons_ne_nil _ _
  rw [execute_buildTuple rfl (here.operands_fetched _) length, result_push,
    Machine.stack_withStack some, Machine.withStack_withStack]

theorem jump (here : a.At regions ip stack m e)
    (found : a.body[ip]? = some ⟨.jump, target, loc⟩) : a.At regions target stack m.step e := by
  refine here.turns found ?_ here.low
  rw [execute_jump rfl, here.fetched_withStack]

/-- A test goes on behind it or at its target. -/
theorem jumpIfFalse (here : a.At regions ip (v :: stack) m e)
    (placed : a.Placed exits ip [.of loc .jumpIfFalse target] finish)
    (low : ∀ p ∈ regions, p.floor <:+ stack) :
    a.At regions (if e.heap.truthy v then finish else target) stack m.step e := by
  have executes := execute_jumpIfFalse (i := ⟨.jumpIfFalse, target, loc⟩) rfl
    (here.operands_fetched ⟨.jumpIfFalse, target, loc⟩)
  rw [here.truthy_fetched] at executes
  cases truth : e.heap.truthy v <;> rw [truth] at executes
  · exact here.turns placed.instruction executes low
  · exact placed.length ▸ here.shifts placed.instruction executes low

theorem jumpIfTrue (here : a.At regions ip (v :: stack) m e)
    (placed : a.Placed exits ip [.of loc .jumpIfTrue target] finish)
    (low : ∀ p ∈ regions, p.floor <:+ stack) :
    a.At regions (if e.heap.truthy v then target else finish) stack m.step e := by
  have executes := execute_jumpIfTrue (i := ⟨.jumpIfTrue, target, loc⟩) rfl
    (here.operands_fetched ⟨.jumpIfTrue, target, loc⟩)
  rw [here.truthy_fetched] at executes
  cases truth : e.heap.truthy v <;> rw [truth] at executes
  · exact placed.length ▸ here.shifts placed.instruction executes low
  · exact here.turns placed.instruction executes low

/-- A null is dropped, and the other operand is evaluated. -/
theorem dropsNull (here : a.At regions ip (v :: stack) m e)
    (placed : a.Placed exits ip [.of loc .nullCoalesce target] finish) (null : v.isNull = true)
    (low : ∀ p ∈ regions, p.floor <:+ stack) : a.At regions finish stack m.step e := by
  refine placed.length ▸ here.shifts placed.instruction ?_ low
  rw [execute_nullCoalesce rfl (here.operands_fetched _), if_pos null]

theorem keepsValue (here : a.At regions ip (v :: stack) m e)
    (found : a.body[ip]? = some ⟨.nullCoalesce, target, loc⟩) (some : v.isNull = false) :
    a.At regions target (v :: stack) m.step e := by
  refine here.turns found ?_ here.low
  rw [execute_nullCoalesce rfl (here.operands_fetched _), some, here.fetched_withStack]
  rfl

/-- The end of the code is reached from anywhere. -/
theorem ret (here : a.At regions ip stack m e) (found : a.body[ip]? = some ⟨.ret, arg, loc⟩) :
    a.At regions a.body.size stack m.step e := by
  obtain ⟨h₁, h₂, h₃, h₄, h₅, h₆, h₇, h₈⟩ := here.world.fetched (a.top ip stack) ⟨.ret, arg, loc⟩
  refine here.after found (execute_ret rfl) ⟨h₁, h₂, h₃, h₄, h₅, h₆, h₇, h₈⟩ ?_
    (here.handlers_fetched _ _) (here.control_fetched _ _) here.low
  change (CallStack.modifyTop _ _).frames = _
  rw [CallStack.frames_modifyTop, show CallStack.frames _ = _ from frames_fetched here.frames _]
  rfl

/-- An instruction that only opens or closes a region. -/
theorem regulates {n : Machine} (here : a.At regions ip stack m e) (found : a.body[ip]? = some i)
    {event : Unit → Event}
    (executes : (execute i).result (fetched m (a.top ip stack) i) = (.ok (), n.note event))
    (same : n = { fetched m (a.top ip stack) i with handlers := a.handlers regions' })
    (low : ∀ p ∈ regions', p.floor <:+ stack) : a.At regions' (ip + 1) stack m.step e := by
  have kept := n.keeps_note event
  have world : n.World e := by
    obtain ⟨h₁, h₂, h₃, h₄, h₅, h₆, h₇, h₈⟩ := here.world.fetched (a.top ip stack) i
    rw [same]
    exact ⟨h₁, h₂, h₃, h₄, h₅, h₆, h₇, h₈⟩
  subst same
  exact here.after found executes (world.noted event)
    (kept.frames.trans (frames_fetched here.frames i)) kept.handlers
    (kept.control.trans (here.control_fetched _ i)) low

/-- A region that is opened has the operands as its floor. -/
theorem opens (here : a.At regions ip stack m e)
    (placed : a.Placed exits ip [.of loc .pushExceptionHandler target] finish) :
    a.At (⟨target, stack⟩ :: regions) finish stack m.step e := by
  refine placed.length ▸ here.regulates placed.instruction
    ((execute_pushExceptionHandler rfl).trans (result_change _ _)) ?_
    (List.forall_mem_cons.2 ⟨List.suffix_rfl, here.low⟩)
  have frames := frames_fetched here.frames ⟨.pushExceptionHandler, target, loc⟩
  have depth : (fetched m (a.top ip stack) ⟨.pushExceptionHandler, target, loc⟩).calls.depth
      = a.base.length + 1 := by
    rw [CallStack.depth_eq, show CallStack.frames _ = _ from frames]
    rfl
  rw [frames, depth, here.handlers_fetched]
  rfl

/-- The region that was opened last is closed. -/
theorem closes {p : Protection} (here : a.At (p :: regions) ip stack m e)
    (placed : a.Placed exits ip [.of loc .popExceptionHandler arg] finish) :
    a.At regions finish stack m.step e := by
  refine placed.length ▸ here.regulates placed.instruction
    ((execute_popExceptionHandler rfl).trans (result_change _ _)) ?_
    (List.forall_mem_cons.1 here.low).2
  rw [here.handlers_fetched]
  rfl

/-- Regions are closed one after the other. -/
theorem closings {outer : List Protection} :
    (inner : List Protection) → ∀ {ip : Nat} {m : Machine}, a.At (inner ++ outer) ip stack m e →
    a.Placed exits ip (List.replicate inner.length (.of loc .popExceptionHandler)) finish →
    a.Leads m fun n => a.At outer finish stack n e
  | [], _, _, here, placed => .now (placed.length ▸ here)
  | _ :: inner, _, _, here, placed =>
      (closings inner (here.closes placed.head) placed.tail).step here.depth_lt

end At

/-- The exception that leaves a region arrives at its handler. -/
theorem Throws.caught {target : Nat} {floor : List Value} {id : ExceptionId}
    (throws : a.Throws (⟨target, floor⟩ :: regions) id m e)
    (below : ∀ p ∈ regions, p.floor <:+ floor) :
    a.At regions target floor m e ∧ e.current = some id := by
  obtain ⟨bears, ⟨n, above, ip, stack, rfl, frames, handlers, low⟩, world⟩ := throws
  have opened : n.handlers = ⟨a.base.length + 1, target, floor.length⟩ :: a.handlers regions :=
    handlers
  have caught := Machine.raise_of_cons opened id
  have drop : (above ++ a.top ip stack :: a.base).length - (a.base.length + 1) = above.length := by
    rw [List.length_append, List.length_cons, Nat.add_sub_cancel]
  obtain ⟨more, rfl⟩ := (List.forall_mem_cons.1 low).1
  have recovered : (a.top ip (more ++ floor)).recover ⟨a.base.length + 1, target, floor.length⟩
      = a.top target floor := by
    have cut : (more ++ floor).drop ((more ++ floor).length - floor.length) = floor := by
      rw [List.length_append, Nat.add_sub_cancel, List.drop_left]
    exact congrArg (a.top target) cut
  refine ⟨⟨bears, ?_, ?_, ?_, ?_, below⟩, world.current.symm⟩
  · rw [caught] at world ⊢
    exact world
  · rw [Machine.frames_raise_of_cons opened, frames, drop, List.drop_left, List.modifyHead_cons,
      recovered]
  · rw [caught]
  · rw [caught]

end Activation
end ScriptMachine
