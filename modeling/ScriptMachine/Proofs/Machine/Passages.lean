import ScriptMachine.Proofs.Machine.Delivery

/-!
How one frame among many gets on. A step fetches an instruction of the topmost frame or goes on with
an operation that a frame waits for. So a frame further down stays where it is until what it called
is over. Then it has what the instruction pushes and stands behind it, or an exception has led it to
the handler of its innermost region.
-/

namespace ScriptMachine

open ScriptMachine.Action

/-! ## Frames at work -/

/-- The frame is about to fetch the instruction at `ip`, or it carries this instruction out and
waits for what it pushes. The layout is that at the instruction. -/
structure Frame.Works (g : Frame) (fetches : Prop) (ip : Nat) (l : Layout) : Prop where
  charted : ∃ pool sketch, Charted pool g.method.code.body sketch
  flow : Flow g.method.code.body ip l
  fetching : fetches → g.ip = ip ∧ g.stack.length = l.depth
  waiting : ¬ fetches → ∃ i, g.ip = ip + 1 ∧ g.method.code.body[ip]? = some i ∧ i.Falls ∧
    g.stack.length + i.pops = l.depth

/-- One layout belongs to an instruction. -/
theorem Charted.layout_unique {pool : Array Constant} {body : Array Instruction} {sketch : Sketch}
    (charted : Charted pool body sketch) {ip : Nat} {l l' : Layout} (flow : Flow body ip l)
    (flow' : Flow body ip l') : l = l' := by
  obtain ⟨_, here⟩ := charted.follows flow
  obtain ⟨_, there⟩ := charted.follows flow'
  exact congrArg View.layout (Option.some.inj (here.symm.trans there))

namespace Frame.Works

variable {g : Frame} {fetches : Prop} {ip : Nat} {l : Layout}

/-- A frame is at work at one instruction only. -/
theorem unique {ip' : Nat} {l' : Layout} (works : g.Works fetches ip l)
    (works' : g.Works fetches ip' l') : ip = ip' ∧ l = l' := by
  have same : ip = ip' := by
    by_cases now : fetches
    · exact (works.fetching now).1.symm.trans (works'.fetching now).1
    · obtain ⟨_, here, _⟩ := works.waiting now
      obtain ⟨_, there, _⟩ := works'.waiting now
      exact Nat.succ.inj (here.symm.trans there)
  subst same
  obtain ⟨pool, sketch, charted⟩ := works.charted
  exact ⟨rfl, charted.layout_unique works.flow works'.flow⟩

end Frame.Works

/-- The frame fetches its next instruction in the next step. -/
def Machine.Fetching (m : Machine) (above : List Frame) : Prop :=
  above = [] ∧ m.control = .running

/-- The open regions of one frame among those of all. -/
structure Owns (handlers : List Handler) (above base : List Frame) (l : Layout) : Prop where
  split : ∃ upper below, handlers = upper ++ l.handlers base.length ++ below ∧
    (∀ h ∈ upper, base.length + 1 < h.frameDepth) ∧ (∀ h ∈ below, h.frameDepth ≤ base.length) ∧
    (above = [] → upper = [])

/-- The regions of a frame on top come first. -/
theorem Owns.under {handlers : List Handler} {above base : List Frame} {l : Layout} {g : Frame}
    (owns : Owns handlers above base l) (u : Frame) (own : Layout) :
    Owns (own.handlers (above ++ g :: base).length ++ handlers) (u :: above) base l := by
  obtain ⟨upper, below, split, high, low, _⟩ := owns
  refine ⟨own.handlers (above ++ g :: base).length ++ upper, below, ?_, fun h member => ?_, low,
    nofun⟩
  · rw [split]
    simp only [List.append_assoc]
  · rcases List.mem_append.1 member with first | second
    · obtain ⟨r, _, rfl⟩ := List.mem_map.1 first
      change base.length + 1 < (above ++ g :: base).length + 1
      rw [List.length_append, List.length_cons]
      omega
    · exact high h second

/-- What a region of the frame catches, its innermost one does. -/
theorem Owns.innermost {h : Handler} {hs : List Handler} {above base : List Frame} {l : Layout}
    (owns : Owns (h :: hs) above base l) (own : h.frameDepth = base.length + 1) :
    ∃ r others, l.regions = r :: others ∧ h.target = r.target := by
  obtain ⟨upper, below, split, high, low, _⟩ := owns
  cases upper with
  | cons u upper =>
      obtain ⟨rfl, _⟩ := List.cons.inj split
      exact absurd (high h List.mem_cons_self) (by omega)
  | nil =>
      rw [Layout.handlers] at split
      cases opened : l.regions with
      | nil =>
          rw [opened] at split
          have split : h :: hs = below := split
          exact absurd (low h (split ▸ List.mem_cons_self)) (by omega)
      | cons r others =>
          rw [opened] at split
          obtain ⟨rfl, _⟩ := List.cons.inj split
          exact ⟨r, others, rfl, rfl⟩

/-- A frame among those that wait knows what it waits for. -/
theorem Stacked.awaits {h : Heap} {g : Frame} {base : List Frame} :
    (above : List Frame) → ∀ {demand : Demand} {handlers : List Handler},
    Stacked h demand (above ++ g :: base) handlers →
    ∃ count l, g.Awaits h count l ∧ Owns handlers above base l
  | [], _, _, stacked => by
      cases stacked with
      | @frame _ count l _ below awaits rest =>
          exact ⟨count, l, awaits, ⟨[], below, rfl, nofun, rest.owned, fun _ => rfl⟩⟩
  | f :: above, _, _, stacked => by
      cases stacked with
      | @frame _ _ own _ _ _ rest =>
          obtain ⟨count, l, awaits, owns⟩ := rest.awaits above
          exact ⟨count, l, awaits, owns.under f own⟩

theorem Frame.Awaits.works {h : Heap} {g : Frame} {count : Nat} {l : Layout}
    (awaits : g.Awaits h count l) {fetches : Prop} (not : ¬ fetches) :
    ∃ ip, g.Works fetches ip l := by
  obtain ⟨i, executes, _, falls⟩ := awaits
  obtain ⟨pool, sketch, runs⟩ := executes.runs
  obtain ⟨ip, at_, found, flow⟩ := executes.flow
  exact ⟨ip, ⟨pool, sketch, runs.admits.charted⟩, flow, fun now => absurd now not,
    fun _ => ⟨i, at_, found, falls, executes.depth⟩⟩

namespace Machine

variable {m : Machine} {f g : Frame} {above above' base : List Frame} {ip ip' : Nat}
  {stack stack' : List Value}

/-- Every frame of a live machine is at work, unless it is at the end of its code. -/
theorem Live.works (live : m.Live) (frames : m.frames = above ++ g :: base)
    (some : m.Fetching above → g.next? ≠ none) :
    ∃ ip l, g.Works (m.Fetching above) ip l ∧ Owns m.handlers above base l := by
  obtain ⟨_, there⟩ := live
  cases control : m.control with
  | running =>
      rw [control, frames] at there
      obtain ⟨top, rest, l, lower, split, stands, stacked, handlers⟩ := there
      cases above with
      | nil =>
          obtain ⟨rfl, rfl⟩ := List.cons.inj split
          rcases stands with none | ready
          · exact absurd none (some ⟨rfl, control⟩)
          · obtain ⟨pool, sketch, runs, _⟩ := ready.runs
            refine ⟨g.ip, l, ⟨⟨pool, sketch, runs.admits.charted⟩, ready.flow,
              fun _ => ⟨rfl, ready.depth⟩, fun not => absurd ⟨rfl, control⟩ not⟩,
              [], lower, handlers, nofun, stacked.owned, fun _ => rfl⟩
      | cons u above =>
          obtain ⟨rfl, rfl⟩ := List.cons.inj split
          obtain ⟨count, l', awaits, owns⟩ := stacked.awaits above
          have busy : ¬ m.Fetching (u :: above) := fun now => nomatch now.1
          obtain ⟨ip, works⟩ := awaits.works busy
          exact ⟨ip, l', works, handlers ▸ owns.under u l⟩
  | delivering v pending =>
      rw [control, frames] at there
      obtain ⟨count, l, awaits, owns⟩ := there.awaits above
      have busy : ¬ m.Fetching above := fun now => nomatch now.2.symm.trans control
      obtain ⟨ip, works⟩ := awaits.works busy
      exact ⟨ip, l, works, owns⟩
  | returned v | uncaught id =>
      rw [control, frames] at there
      exact absurd (List.append_eq_nil_iff.1 there.1).2 (List.cons_ne_nil g base)

end Machine

/-! ## Steps -/

/-- How a frame comes through a step of the machine. -/
inductive Frame.Passage (m : Machine) (above base above' : List Frame) (g g' : Frame) : Prop where
  | stays : ¬ m.Fetching above → g'.ip = g.ip → Frame.Passage m above base above' g g'
  /-- It fetched an instruction that always falls through. Perhaps it waits now. -/
  | falls {i : Instruction} : m.Fetching above → g.next? = some i → i.Falls → g'.ip = g.ip + 1 →
      Frame.Passage m above base above' g g'
  | goes {i : Instruction} : m.Fetching above → g.next? = some i → m.step.Fetching above' →
      (∀ l, ∃ l', (g'.ip, l') ∈ i.successors g.ip l) → Frame.Passage m above base above' g g'
  | returns : g'.ip = g.method.code.body.size → Frame.Passage m above base above' g g'
  | recovers {h : Handler} {hs : List Handler} : m.handlers = h :: hs →
      h.frameDepth = base.length + 1 → m.step.Fetching above' → g'.ip = h.target →
      Frame.Passage m above base above' g g'

theorem frame_unique {above above' base : List Frame} {g g' : Frame}
    (same : above ++ g :: base = above' ++ g' :: base) : above = above' ∧ g = g' := by
  obtain ⟨first, second⟩ := List.append_inj' same rfl
  exact ⟨first, (List.cons.inj second).1⟩

theorem top_unique {above base : List Frame} {g g' : Frame}
    (same : g :: base = above ++ g' :: base) : [] = above ∧ g = g' :=
  frame_unique (List.nil_append _ ▸ same)

theorem Spent.cons {handlers : List Handler} {u : Frame} {rest frames : List Frame}
    (spent : Spent handlers (u :: rest) frames) : ∃ u', frames = u' :: rest := by
  cases spent with
  | nothing => exact ⟨u, rfl⟩
  | operands ip _ _ => exact ⟨_, rfl⟩

namespace Machine

variable {m n : Machine} {g g' : Frame} {above above' base : List Frame} {e : Raised}

/-- What is raised is caught by the frame, or above it. -/
theorem Live.passes_raised (live : m.Live) (above₁ : List Frame)
    (failed : m.upcoming.result m = (.error e, n))
    (handlers : n.handlers = m.handlers) (frames : n.frames = above₁ ++ g :: base)
    (frames' : m.step.frames = above' ++ g' :: base) :
    above₁ ≠ [] ∧ g' = g ∨
      ∃ h hs, m.handlers = h :: hs ∧ h.frameDepth = base.length + 1 ∧ m.step.Fetching above' ∧
        g'.ip = h.target := by
  have guards : n.Guards := by
    have safe := live.upcoming_safe
    rw [failed] at safe
    cases e with
    | fault cause => exact safe
    | defect cause => exact safe.elim
    | exception id => exact safe
  cases opened : n.handlers with
  | nil =>
      have none : m.step.frames = [] := (perform_uncaught failed opened).1
      exact absurd (List.append_eq_nil_iff.1 (frames'.symm.trans none)).2 (List.cons_ne_nil g' base)
  | cons h hs =>
      obtain ⟨after, _, running, _⟩ := perform_caught failed opened
      have after : m.step.frames
          = (n.frames.drop (n.frames.length - h.frameDepth)).modifyHead (·.recover h) := after
      have deep := (guards.catches h hs opened).1
      have size : n.frames.length = above₁.length + (base.length + 1) := by
        rw [frames, List.length_append, List.length_cons]
      rcases Nat.lt_trichotomy h.frameDepth (base.length + 1) with low | same | high
      · have short := congrArg List.length (frames'.symm.trans after)
        rw [List.length_modifyHead, List.length_drop, List.length_append, List.length_cons] at short
        omega
      · right
        have dropped : n.frames.drop (n.frames.length - h.frameDepth) = g :: base := by
          rw [size, same, Nat.add_sub_cancel, frames, List.drop_left]
        rw [dropped, List.modifyHead_cons] at after
        obtain ⟨rfl, rfl⟩ :=
          top_unique (g := g.recover h) (after.symm.trans frames')
        exact ⟨h, hs, handlers.symm.trans opened, same, ⟨rfl, running⟩, rfl⟩
      · left
        have few : n.frames.length - h.frameDepth < above₁.length := by omega
        generalize n.frames.length - h.frameDepth = count at after few
        rw [frames, List.drop_append_of_le_length (Nat.le_of_lt few)] at after
        cases left : above₁.drop count with
        | nil =>
            have none := congrArg List.length left
            rw [List.length_drop, List.length_nil] at none
            omega
        | cons v vs =>
            rw [left, List.cons_append, List.modifyHead_cons, ← List.cons_append] at after
            obtain ⟨_, rfl⟩ := frame_unique (after.symm.trans frames')
            refine ⟨fun none => ?_, rfl⟩
            rw [none] at few
            exact Nat.not_lt_zero _ few

/-- A frame that is not on top. -/
theorem Live.passes_below {u : Frame} (live : m.Live) (frames : m.frames = u :: above ++ g :: base)
    (frames' : m.step.frames = above' ++ g' :: base) :
    Frame.Passage m (u :: above) base above' g g' := by
  have waits : ¬ m.Fetching (u :: above) := fun now => nomatch now.1
  have moves := live.moves
  rw [List.cons_append] at frames
  generalize done : m.upcoming.result m = result at moves
  -- whatever the step does, it does it to the frames above
  have same (us : List Frame) (values : List Value)
      (after : m.step.frames = us ++ g.given values :: base) :
      Frame.Passage m (u :: above) base above' g g' := by
    obtain ⟨_, rfl⟩ := frame_unique (after.symm.trans frames')
    exact .stays waits rfl
  have under (v : Frame) (after : m.step.frames = v :: (above ++ g :: base)) :
      Frame.Passage m (u :: above) base above' g g' :=
    same (v :: above) [] after
  cases moves with
  | raises spent handlers =>
      rw [frames] at spent
      obtain ⟨v, left⟩ := spent.cons
      rcases live.passes_raised (v :: above) done handlers left frames' with
        ⟨_, rfl⟩ | ⟨h, hs, opened, own, running, target⟩
      · exact .stays waits rfl
      · exact .recovers opened own running target
  | fills values spent after _ =>
      rw [frames] at spent
      obtain ⟨v, rfl⟩ := spent.cons
      refine under (v.given values) ?_
      rw [Machine.step, perform_of_ok done, after]
      rfl
  | @calls _ _ f spent _ _ after _ =>
      rw [frames] at spent
      obtain ⟨v, rfl⟩ := spent.cons
      refine same (f :: v :: above) [] ?_
      rw [Machine.step, perform_of_ok done, after]
      rfl
  | opens _ top _ _ after _ =>
      obtain ⟨rfl, rfl⟩ := List.cons.inj (frames.symm.trans top)
      exact under _ ((congrArg Machine.frames (perform_of_ok done)).trans after)
  | closes top after _ _ =>
      obtain ⟨rfl, rfl⟩ := List.cons.inj (frames.symm.trans top)
      exact under _ ((congrArg Machine.frames (perform_of_ok done)).trans after)
  | ends values _ top _ after _ =>
      obtain ⟨rfl, rfl⟩ := List.cons.inj (frames.symm.trans top)
      cases above with
      | nil =>
          refine same [] values ?_
          rw [Machine.step, perform_of_ok done, after]
          rfl
      | cons v above =>
          refine same (v.given values :: above) [] ?_
          rw [Machine.step, perform_of_ok done, after]
          rfl

/-- A frame on top whose operation goes on. -/
theorem Live.passes_delivering {v : Value} {pending : Pending} (live : m.Live)
    (delivers : m.control = .delivering v pending) (frames : m.frames = g :: base)
    (frames' : m.step.frames = above' ++ g' :: base) : Frame.Passage m [] base above' g g' := by
  have waits : ¬ m.Fetching [] := fun now => nomatch now.2.symm.trans delivers
  obtain ⟨n, kept, upshot⟩ := (resume_answers v pending).upshot live.1 Bool.noConfusion
  have upcoming : m.upcoming.result m = (resume v pending).result m := by
    rw [upcoming, delivers]
  have left : n.frames = g :: base := kept.frames.trans frames
  have same (us : List Frame) (values : List Value)
      (after : m.step.frames = us ++ g.given values :: base) :
      Frame.Passage m [] base above' g g' := by
    obtain ⟨_, rfl⟩ := frame_unique (after.symm.trans frames')
    exact .stays waits rfl
  generalize done : (resume v pending).result m = result at upshot upcoming
  cases upshot with
  | delivers w _ =>
      refine same [] [] ?_
      rw [Machine.step, perform_of_ok upcoming]
      exact left
  | @calls f event starts _ =>
      have noted := keeps_note { n with calls := n.calls.push f, control := .running } event
      refine same [f] [] ?_
      rw [Machine.step, perform_of_ok upcoming, noted.frames]
      exact congrArg (f :: ·) left
  | raises _ =>
      rcases live.passes_raised [] upcoming kept.handlers left frames' with
        ⟨wrong, _⟩ | ⟨h, hs, opened, own, running, target⟩
      · exact absurd rfl wrong
      · exact .recovers opened own running target
  | fills values _ =>
      refine same [] values ?_
      rw [Machine.step, perform_of_ok upcoming]
      refine (frames_given { n with control := .running } values).trans ?_
      change n.frames.modifyHead _ = _
      rw [left]
      rfl
  | halts w _ =>
      refine same [] [] ?_
      rw [Machine.step, perform_of_ok upcoming]
      exact left

/-- What a frame on top comes to that fetches an instruction. -/
theorem Live.passes_fetching {i : Instruction} (live : m.Live) (running : m.control = .running)
    (frames : m.frames = g :: base) (next : g.next? = some i)
    (frames' : m.step.frames = above' ++ g' :: base) : Frame.Passage m [] base above' g g' := by
  have now : m.Fetching [] := ⟨rfl, running⟩
  obtain ⟨l, executing, expects⟩ := fetched_executing live running frames next
  have kept := m.keeps_note fun _ => .instruction g.ip i.op g.stack.length m.calls.depth
  have upcoming : m.upcoming.result m = (execute i).result (fetched m g i) := by
    rw [upcoming, running]
    exact result_advance frames next
  have left (s : List Value) :
      ((fetched m g i).withStack s).frames = { g with ip := g.ip + 1, stack := s } :: base := by
    rw [frames_withStack, frames_fetched frames]
    rfl
  have raised {n : Machine} {e : Raised} {s : List Value}
      (failed : m.upcoming.result m = (.error e, n)) (handlers : n.handlers = m.handlers)
      (after : n.frames = { g with ip := g.ip + 1, stack := s } :: base) :
      Frame.Passage m [] base above' g g' := by
    rcases live.passes_raised [] failed handlers after frames' with
      ⟨wrong, _⟩ | ⟨h, hs, opened, own, running, target⟩
    · exact absurd rfl wrong
    · exact .recovers opened own running target
  have goes {n : Machine} {s : List Value} {ip : Nat} (done : m.upcoming.result m = (.ok (), n))
      (control : n.control = .running) (after : n.frames = { g with ip, stack := s } :: base)
      (next' : ∀ l, ∃ l', (ip, l') ∈ i.successors g.ip l) :
      Frame.Passage m [] base above' g g' := by
    have stepped : m.step = n := perform_of_ok done
    rw [stepped] at frames'
    obtain ⟨rfl, rfl⟩ := top_unique (after.symm.trans frames')
    exact .goes now next ⟨rfl, stepped ▸ control⟩ next'
  have dispatched := execute_dispatched executing expects
  generalize (execute i).result (fetched m g i) = result at dispatched upcoming
  cases dispatched with
  | @answers operands s a found length falls answers =>
      have sound : ((fetched m g i).withStack s).heap.Sound := executing.heap
      obtain ⟨n, kept', upshot⟩ := answers.upshot sound fun _ => executing.running
      have before : n.frames = { g with ip := g.ip + 1, stack := s } :: base :=
        kept'.frames.trans (left s)
      have falling (us : List Frame) (values : List Value) (after : m.step.frames
          = us ++ { g with ip := g.ip + 1, stack := values ++ s } :: base) :
          Frame.Passage m [] base above' g g' := by
        obtain ⟨_, rfl⟩ := frame_unique (after.symm.trans frames')
        exact .falls now next falls rfl
      generalize a.result ((fetched m g i).withStack s) = result at upshot upcoming
      cases upshot with
      | delivers w _ =>
          refine falling [] [] ?_
          rw [Machine.step, perform_of_ok upcoming]
          exact before
      | @calls f event starts _ =>
          have noted := keeps_note { n with calls := n.calls.push f, control := .running } event
          refine falling [f] [] ?_
          rw [Machine.step, perform_of_ok upcoming, noted.frames]
          exact congrArg (f :: ·) before
      | raises _ => exact raised upcoming (kept'.handlers.trans kept.handlers) before
      | fills values _ =>
          refine falling [] values ?_
          rw [Machine.step, perform_of_ok upcoming]
          refine (frames_given { n with control := .running } values).trans ?_
          change n.frames.modifyHead _ = _
          rw [before]
          rfl
      | halts w _ =>
          refine falling [] [] ?_
          rw [Machine.step, perform_of_ok upcoming]
          exact before
  | @fills operands s values found length falls _ =>
      have after : m.step.frames = { g with ip := g.ip + 1, stack := values ++ s } :: base := by
        rw [Machine.step, perform_of_ok upcoming]
        exact left _
      obtain ⟨_, rfl⟩ := top_unique (after.symm.trans frames')
      exact .falls now next falls rfl
  | loads is _ =>
      refine goes upcoming executing.running (left _)
        fun l => ⟨{ l with depth := i.fallDepth l.depth }, ?_⟩
      rw [Instruction.successors_plain (by rw [is]; rfl)]
      exact List.mem_singleton.2 rfl
  | stays found length notConst next' =>
      exact goes upcoming executing.running (left _) fun l => ⟨_, next' g.ip l⟩
  | @jumps operands s target found length notConst next' =>
      refine goes (s := s) upcoming executing.running ?_ fun l => ⟨_, next' g.ip l⟩
      rw [frames_withIp, left]
      rfl
  | @raises v s is found =>
      have quiet := exceptionOf_quiet v
      have kept' := quiet.keeps ((fetched m g i).withStack s)
      unfold raiseValue at upcoming
      rw [result_bind] at upcoming
      rcases done : (exceptionOf v).result ((fetched m g i).withStack s) with ⟨e | id, n⟩
      all_goals
        rw [done] at upcoming kept'
        exact raised upcoming (kept'.handlers.trans kept.handlers) (kept'.frames.trans (left s))
  | opens is =>
      refine goes (s := g.stack) upcoming ((keeps_note _ _).control.trans executing.running)
        ((keeps_note _ _).frames.trans (frames_fetched frames i))
        fun l => ⟨{ l with regions := ⟨i.arg, l.depth⟩ :: l.regions }, ?_⟩
      simp only [Instruction.successors, is]
      exact List.mem_singleton.2 rfl
  | closes is =>
      refine goes (s := g.stack) upcoming ((keeps_note _ _).control.trans executing.running)
        ((keeps_note _ _).frames.trans (frames_fetched frames i))
        fun l => ⟨{ l with regions := l.regions.tail }, ?_⟩
      simp only [Instruction.successors, is]
      exact List.mem_singleton.2 rfl
  | returns is =>
      have after : m.step.frames = { g with ip := g.method.code.body.size } :: base := by
        rw [execute_ret is] at upcoming
        rw [Machine.step, perform_of_ok upcoming]
        change ((fetched m g i).calls.modifyTop _).frames = _
        rw [CallStack.frames_modifyTop]
        change (fetched m g i).frames.modifyHead _ = _
        rw [frames_fetched frames]
        rfl
      obtain ⟨_, rfl⟩ := top_unique (after.symm.trans frames')
      exact .returns rfl

/-- Every frame that is there before a step and after it came through it in one of the ways. -/
theorem Live.passes (live : m.Live) (frames : m.frames = above ++ g :: base)
    (frames' : m.step.frames = above' ++ g' :: base) : Frame.Passage m above base above' g g' := by
  cases above with
  | cons u above => exact live.passes_below frames frames'
  | nil =>
      cases control : m.control with
      | running =>
          cases next : g.next? with
          | some i => exact live.passes_fetching control frames next frames'
          | none =>
              obtain ⟨values, after, _⟩ := step_of_end control frames next
              have short := congrArg List.length (frames'.symm.trans after)
              rw [List.length_modifyHead, List.length_append, List.length_cons] at short
              omega
      | delivering v pending => exact live.passes_delivering control frames frames'
      | returned v | uncaught id =>
          have there := live.2
          rw [control, frames] at there
          exact absurd there.1 (List.cons_ne_nil g base)

end Machine
end ScriptMachine
