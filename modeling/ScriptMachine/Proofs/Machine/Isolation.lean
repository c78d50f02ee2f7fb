import ScriptMachine.Proofs.Machine.Moves

/-!
Isolation. What runs above a frame does not look below it. Two machines whose topmost frames are
the same may differ in the frames below, in the regions those frames opened and in what the
lowest common frame returns to: they take the same steps until that frame returns or an exception
leaves it. `Twin.step` says what a step can come to, `Follows` is what every action does for it.

The one thing that is counted over all frames are nested calls, so a machine with more of them
below may be stopped by the limit where the other is not.
-/

namespace ScriptMachine

open ScriptMachine.Action

/-- Where two machines part: what the lowest frame they share returns to, the frames below it,
and the regions that those opened. -/
structure Seam where
  returns : Returns
  returns' : Returns
  base : List Frame
  base' : List Frame
  below : List Handler
  below' : List Handler

namespace Seam

/-- The number of nested calls up to a frame that returns so and has these frames below it. -/
def nestingUpTo (returns : Returns) (base : List Frame) : Nat :=
  (if returns.isNested then 1 else 0) + base.countP (·.returns.isNested)

/-- From above both sides look the same, but the second may have more nested calls. -/
structure Fits (c : Seam) : Prop where
  faces : c.base.map Frame.face = c.base'.map Frame.face
  low : ∀ h ∈ c.below, h.frameDepth ≤ c.base.length
  low' : ∀ h ∈ c.below', h.frameDepth ≤ c.base.length
  nesting : nestingUpTo c.returns c.base ≤ nestingUpTo c.returns' c.base'

theorem Fits.length {c : Seam} (fits : c.Fits) : c.base.length = c.base'.length := by
  have same := congrArg List.length fits.faces
  rwa [List.length_map, List.length_map] at same

/-- The limit of nested calls stops the second side, which has more of them. -/
def Overruns {α : Type} (c : Seam) (outcome : Except Raised α) : Prop :=
  nestingUpTo c.returns c.base < nestingUpTo c.returns' c.base' ∧
    ∃ limit, outcome = .error (.fault (.nestingLimit limit))

/-- Frames that differ below a seam only have as many more nested calls as there are below it. -/
theorem nesting_frames {c : Seam} {us : List Frame} {g : Frame} (returns : g.returns = c.returns) :
    (us ++ { g with returns := c.returns' } :: c.base').countP (·.returns.isNested)
        + nestingUpTo c.returns c.base
      = (us ++ g :: c.base).countP (·.returns.isNested) + nestingUpTo c.returns' c.base' := by
  simp only [List.countP_append, List.countP_cons, nestingUpTo, returns]
  omega

end Seam

/-- The machines are the same above the seam. -/
structure Twin (c : Seam) (m m' : Machine) : Prop where
  world : m.World m'
  control : m'.control = m.control
  frames : ∃ us g, g.returns = c.returns ∧ m.frames = us ++ g :: c.base ∧
    m'.frames = us ++ { g with returns := c.returns' } :: c.base'
  handlers : ∃ hs, m.handlers = hs ++ c.below ∧ m'.handlers = hs ++ c.below' ∧
    ∀ h ∈ hs, c.base.length < h.frameDepth
  nesting : m'.nesting + Seam.nestingUpTo c.returns c.base
    = m.nesting + Seam.nestingUpTo c.returns' c.base'

namespace Twin

variable {c : Seam} {m m' : Machine}

theorem faces (fits : c.Fits) (twin : Twin c m m') :
    m.frames.map Frame.face = m'.frames.map Frame.face := by
  obtain ⟨us, g, _, first, second⟩ := twin.frames
  rw [first, second, List.map_append, List.map_append, List.map_cons, List.map_cons, fits.faces]
  rfl

theorem alike (fits : c.Fits) (twin : Twin c m m') : m.Alike m' :=
  ⟨twin.world, twin.faces fits⟩

theorem trace (fits : c.Fits) (twin : Twin c m m') : m.trace = m'.trace := by
  have same := congrArg (List.map fun face : Face => TraceFrame.mk face.name face.location)
    (twin.faces fits)
  rw [List.map_map, List.map_map] at same
  exact same

/-- The topmost frames differ at most in what they return to. -/
theorem head (twin : Twin c m m') : ∃ f rest r rest', m.frames = f :: rest ∧
    m'.frames = { f with returns := r } :: rest' := by
  obtain ⟨us, g, _, first, second⟩ := twin.frames
  cases us with
  | nil => exact ⟨g, _, _, _, first, second⟩
  | cons u us => exact ⟨u, _, u.returns, _, first, second⟩

theorem depth_lt (twin : Twin c m m') : c.base.length < m.calls.depth := by
  obtain ⟨us, g, _, first, _⟩ := twin.frames
  rw [m.calls.depth_eq]
  change _ < m.frames.length
  rw [first, List.length_append, List.length_cons]
  omega

/-- What changes only the world, and in the same way, keeps the machines the same. -/
theorem kept {n n' : Machine} (twin : Twin c m m') (world : n.World n')
    (first : m.Keeps n) (second : m'.Keeps n') : Twin c n n' where
  world := world
  control := by rw [first.control, second.control, twin.control]
  frames := by
    rw [Machine.frames, Machine.frames, first.calls, second.calls]
    exact twin.frames
  handlers := by
    rw [first.handlers, second.handlers]
    exact twin.handlers
  nesting := by
    rw [Machine.nesting, Machine.nesting, first.calls, second.calls]
    exact twin.nesting

theorem noted (twin : Twin c m m') (event event' : Unit → Event) :
    Twin c (m.note event) (m'.note event') :=
  twin.kept (Machine.world_note twin.world event event') (m.keeps_note event)
    (m'.keeps_note event')

/-- The topmost frames change in the same way. -/
theorem modifyTop {f : Frame → Frame} (keeps : ∀ g, (f g).returns = g.returns)
    (commutes : ∀ g r, f { g with returns := r } = { f g with returns := r })
    (twin : Twin c m m') :
    Twin c { m with calls := m.calls.modifyTop f } { m' with calls := m'.calls.modifyTop f } := by
  obtain ⟨world, control, ⟨us, g, returns, first, second⟩, handlers, nesting⟩ := twin
  obtain ⟨h₁, h₂, h₃, h₄, h₅, h₆, h₇, h₈⟩ := world
  refine ⟨⟨h₁, h₂, h₃, h₄, h₅, h₆, h₇, h₈⟩, control, ?_, handlers, by
    simpa only [Machine.nesting, CallStack.nesting_modifyTop] using nesting⟩
  change ∃ us g, _ ∧ (m.calls.modifyTop f).frames = _ ∧ (m'.calls.modifyTop f).frames = _
  rw [CallStack.frames_modifyTop, CallStack.frames_modifyTop]
  change ∃ us g, _ ∧ m.frames.modifyHead f = _ ∧ m'.frames.modifyHead f = _
  rw [first, second]
  cases us with
  | nil => exact ⟨[], f g, (keeps g).trans returns, rfl, by rw [← commutes]; rfl⟩
  | cons u us => exact ⟨f u :: us, g, returns, rfl, rfl⟩

/-- A common frame is pushed. -/
theorem push (twin : Twin c m m') (f : Frame) :
    Twin c { m with calls := m.calls.push f } { m' with calls := m'.calls.push f } := by
  obtain ⟨world, control, ⟨us, g, returns, first, second⟩, handlers, nesting⟩ := twin
  obtain ⟨h₁, h₂, h₃, h₄, h₅, h₆, h₇, h₈⟩ := world
  refine ⟨⟨h₁, h₂, h₃, h₄, h₅, h₆, h₇, h₈⟩, control, ⟨f :: us, g, returns, ?_, ?_⟩, handlers, ?_⟩
  · change f :: m.frames = _
    rw [first]
    rfl
  · change f :: m'.frames = _
    rw [second]
    rfl
  · simp only [Machine.nesting, CallStack.nesting_push] at nesting ⊢
    omega

theorem withControl (twin : Twin c m m') (control : Control) :
    Twin c { m with control } { m' with control } := by
  obtain ⟨⟨h₁, h₂, h₃, h₄, h₅, h₆, h₇, h₈⟩, _, frames, handlers, nesting⟩ := twin
  exact ⟨⟨h₁, h₂, h₃, h₄, h₅, h₆, h₇, h₈⟩, rfl, frames, handlers, nesting⟩

end Twin

/-! ## Actions -/

/-- Twins stay twins under the action, and it gives the same in both, unless the limit of nested
calls stops the second. -/
structure Follows {α : Type} (c : Seam) (a : Action α) : Prop where
  twins : ∀ {m m' : Machine}, Twin c m m' → c.Overruns (a.result m').1 ∨
    ((a.result m').1 = (a.result m).1 ∧ Twin c (a.result m).2 (a.result m').2)

theorem Quiet.follows {α : Type} {c : Seam} {a : Action α} (quiet : Quiet a) (fits : c.Fits) :
    Follows c a := by
  refine ⟨fun {m m'} twin => ?_⟩
  obtain ⟨same, alike⟩ := quiet.alike (twin.alike fits)
  exact .inr ⟨same.symm, twin.kept alike.toWorld (quiet.keeps m) (quiet.keeps m')⟩

namespace Follows

variable {α β : Type} {c : Seam}

/-- A change of the machines that keeps them twins. -/
theorem change {f : Machine → Machine}
    (keeps : ∀ {m m' : Machine}, Twin c m m' → Twin c (f m) (f m')) : Follows c (change f) :=
  ⟨fun twin => .inr ⟨rfl, keeps twin⟩⟩

theorem bind {a : Action α} {f : α → Action β} (first : Follows c a)
    (next : ∀ x, Follows c (f x)) : Follows c (a >>= f) := by
  refine ⟨fun {m m'} twin => ?_⟩
  rw [result_bind, result_bind]
  rcases first.twins twin with ⟨more, limit, stopped⟩ | ⟨same, after⟩
  · left
    rcases done : a.result m' with ⟨e | x, n'⟩ <;> rw [done] at stopped
    · cases stopped
      exact ⟨more, limit, rfl⟩
    · cases stopped
  · rcases done : a.result m with ⟨e | x, n⟩ <;> rcases done' : a.result m' with ⟨e' | x', n'⟩ <;>
      rw [done, done'] at same after
    · cases same
      exact .inr ⟨rfl, after⟩
    · cases same
    · cases same
    · cases same
      exact (next x).twins after

theorem openRegion (fits : c.Fits) (target : Nat) : Follows c (openRegion target) := by
  refine .change fun {m m'} twin => Twin.noted ?_ _ _
  obtain ⟨hs, first, second, high⟩ := twin.handlers
  obtain ⟨f, rest, r, rest', top, top'⟩ := twin.head
  have deep := twin.depth_lt
  obtain ⟨h₁, h₂, h₃, h₄, h₅, h₆, h₇, h₈⟩ := twin.world
  have depth : m'.calls.depth = m.calls.depth := (twin.alike fits).depth.symm
  have height : (m'.frames.head?.map (·.stack.length)).getD 0
      = (m.frames.head?.map (·.stack.length)).getD 0 := by
    rw [top, top']
    rfl
  refine ⟨⟨h₁, h₂, h₃, h₄, h₅, h₆, h₇, h₈⟩, twin.control, twin.frames, ?_, twin.nesting⟩
  refine ⟨⟨m.calls.depth, target, (m.frames.head?.map (·.stack.length)).getD 0⟩ :: hs, ?_, ?_, ?_⟩
  · change _ :: m.handlers = _
    rw [first]
    rfl
  · change _ :: m'.handlers = _
    rw [second, depth, height]
    rfl
  · intro h member
    rcases List.mem_cons.1 member with rfl | member
    · exact deep
    · exact high h member

theorem activate (fits : c.Fits) (call : Call) (returns : Returns) :
    Follows c (activate call returns) := by
  refine .bind ((newFrame_quiet call returns).follows fits) fun f => .change fun twin => ?_
  exact ((twin.push f).withControl .running).noted _ _

/-- A nested call counts those there are. -/
theorem enter (fits : c.Fits) (call : Call) (pending : Pending) :
    Follows c (enter call pending) := by
  refine ⟨fun {m m'} twin => ?_⟩
  have limits : m'.limits.nesting = m.limits.nesting := by rw [twin.world.limits]
  have counted := twin.nesting
  have rest := (Follows.activate fits call (.resume pending)).twins twin
  unfold Action.enter
  rw [result_bind_ok (result_ask _ m), result_bind_ok (result_ask _ m),
    result_bind_ok (result_ask _ m'), result_bind_ok (result_ask _ m')]
  dsimp only
  rw [limits]
  by_cases stopped : m.limits.nesting ≤ m'.nesting
  · by_cases both : m.limits.nesting ≤ m.nesting
    · rw [if_pos stopped, if_pos both]
      exact .inr ⟨rfl, twin⟩
    · rw [if_pos stopped]
      refine .inl ⟨?_, _, rfl⟩
      omega
  · have free : ¬ m.limits.nesting ≤ m.nesting := by
      have fewer := fits.nesting
      omega
    rw [if_neg stopped, if_neg free]
    exact rest

end Follows

/-- Whatever is made of the parts of actions is the same for twins. -/
theorem Made.follows {α : Type} {a : Action α} {c : Seam} (made : Made a) (fits : c.Fits) :
    Follows c a := by
  induction made with
  | quiet quiet => exact quiet.follows fits
  | bind _ _ first next => exact .bind first next
  | throw e => exact ⟨fun twin => .inr ⟨rfl, twin⟩⟩
  | look seen sees blind =>
      refine ⟨fun {m m'} twin => .inr ⟨congrArg Except.ok ?_, twin⟩⟩
      obtain ⟨f, rest, r, rest', first, second⟩ := twin.head
      rw [sees m f rest first, sees m' _ rest' second, blind, twin.world.heap]
  | changeFrame keeps commutes => exact .change fun twin => twin.modifyTop keeps commutes
  | control control => exact .change fun twin => twin.withControl control
  | note other => exact .change fun twin => twin.noted _ _
  | openRegion target => exact .openRegion fits target
  | activate call _ => exact .activate fits call _
  | enter call pending => exact .enter fits call pending

/-! ## Steps -/

namespace Twin

variable {c : Seam} {m m' : Machine}

theorem closeRegion (twin : Twin c m m') {h : Handler} {others : List Handler}
    (opened : m.handlers = h :: others) (own : c.base.length < h.frameDepth) (fits : c.Fits) :
    Twin c (Action.closeRegion.result m).2 (Action.closeRegion.result m').2 := by
  have closed : Twin c { m with handlers := m.handlers.tail }
      { m' with handlers := m'.handlers.tail } := by
    obtain ⟨⟨h₁, h₂, h₃, h₄, h₅, h₆, h₇, h₈⟩, control, frames, ⟨hs, first, second, high⟩, nesting⟩ :=
      twin
    refine ⟨⟨h₁, h₂, h₃, h₄, h₅, h₆, h₇, h₈⟩, control, frames, ?_, nesting⟩
    cases hs with
    | nil =>
        have member : h ∈ c.below := by
          rw [← List.nil_append c.below, ← first, opened]
          exact List.mem_cons_self
        have low := fits.low h member
        omega
    | cons own hs =>
        refine ⟨hs, ?_, ?_, fun h member => high h (List.mem_cons_of_mem _ member)⟩
        · change m.handlers.tail = _
          rw [first]
          rfl
        · change m'.handlers.tail = _
          rw [second]
          rfl
  exact closed.noted (fun _ => .leaveRegion m.handlers.tail.length)
    fun _ => .leaveRegion m'.handlers.tail.length

/-- Common frames are dropped, but not all. -/
theorem cutTo (twin : Twin c m m') (fits : c.Fits) {count : Nat} (some : c.base.length < count) :
    Twin c { m with calls := m.calls.cutTo count } { m' with calls := m'.calls.cutTo count } := by
  obtain ⟨⟨h₁, h₂, h₃, h₄, h₅, h₆, h₇, h₈⟩, control, ⟨us, g, returns, first, second⟩, handlers, _⟩ :=
    twin
  have length := fits.length
  have short : m.frames.length - count ≤ us.length := by
    rw [first, List.length_append, List.length_cons]
    omega
  have same : m'.frames.length = m.frames.length := by
    rw [first, second, List.length_append, List.length_append, List.length_cons, List.length_cons,
      length]
  have left : (m.calls.cutTo count).frames
      = us.drop (m.frames.length - count) ++ g :: c.base := by
    rw [CallStack.frames_cutTo]
    change m.frames.drop (m.frames.length - count) = _
    generalize m.frames.length - count = dropped at short
    rw [first, List.drop_append_of_le_length short]
  have left' : (m'.calls.cutTo count).frames
      = us.drop (m.frames.length - count) ++ { g with returns := c.returns' } :: c.base' := by
    rw [CallStack.frames_cutTo]
    change m'.frames.drop (m'.frames.length - count) = _
    rw [same]
    generalize m.frames.length - count = dropped at short
    rw [second, List.drop_append_of_le_length short]
  refine ⟨⟨h₁, h₂, h₃, h₄, h₅, h₆, h₇, h₈⟩, control, ⟨_, g, returns, left, left'⟩, handlers, ?_⟩
  change (m'.calls.cutTo count).nesting + _ = (m.calls.cutTo count).nesting + _
  rw [CallStack.nesting_cutTo, CallStack.nesting_cutTo, left, left']
  exact Seam.nesting_frames returns

theorem announced (twin : Twin c m m') (fits : c.Fits) (id : ExceptionId) :
    Twin c (m.announced id) (m'.announced id) :=
  twin.kept (twin.world.announced (twin.trace fits) id) (m.keeps_announced id)
    (m'.keeps_announced id)

/-- The innermost region belongs to a frame above the seam, or else no region there is open. -/
theorem raise (twin : Twin c m m') (fits : c.Fits) (id : ExceptionId) :
    Twin c (m.raise id) (m'.raise id) ∨ (m.handlers = c.below ∧ m'.handlers = c.below') := by
  obtain ⟨hs, first, second, high⟩ := twin.handlers
  cases hs with
  | nil => exact .inr ⟨first, second⟩
  | cons h hs =>
      left
      have own : c.base.length < h.frameDepth := high h List.mem_cons_self
      have calls := (m.keeps_announced id).calls
      have calls' := (m'.keeps_announced id).calls
      rw [Machine.raise_of_cons first, Machine.raise_of_cons second, ← calls, ← calls']
      have cut := (twin.announced fits id).cutTo fits own
      obtain ⟨⟨h₁, _, h₃, h₄, h₅, h₆, h₇, h₈⟩, _, frames, _, nesting⟩ :=
        cut.modifyTop (f := (·.recover h)) (fun _ => rfl) fun _ _ => rfl
      refine ⟨⟨h₁, rfl, h₃, h₄, h₅, h₆, h₇, h₈⟩, rfl, frames,
        ⟨hs, rfl, rfl, fun h member => ?_⟩, nesting⟩
      exact high h (List.mem_cons_of_mem _ member)

theorem fetched (twin : Twin c m m') (f : Frame) (r : Returns) (i : Instruction) :
    Twin c (Action.fetched m f i) (Action.fetched m' { f with returns := r } i) :=
  (twin.noted _ _).modifyTop (fun _ => rfl) fun _ _ => rfl

/-- The topmost frame ends, and it is not the lowest common one. -/
theorem ended (twin : Twin c m m') (fits : c.Fits) {u : Frame} {us : List Frame}
    (first : m.frames = u :: us) (deep : c.base.length < us.length) :
    Twin c (Action.ended m) (Action.ended m') := by
  have depth : m'.calls.pop.depth = m.calls.pop.depth := by
    have same := (twin.alike fits).depth
    change m'.calls.depth - 1 = m.calls.depth - 1
    omega
  have left : m.calls.pop.depth = us.length := by
    change m.calls.depth - 1 = us.length
    rw [m.calls.depth_eq, show m.calls.frames = u :: us from first]
    rfl
  obtain ⟨⟨h₁, h₂, h₃, h₄, h₅, h₆, h₇, h₈⟩, control, ⟨vs, g, returns, all, all'⟩,
    ⟨hs, opened, opened', high⟩, _⟩ := twin
  suffices without : Twin c (popped m) (popped m') by exact without.noted _ _
  obtain ⟨v, vs, rfl⟩ : ∃ v others, vs = v :: others := by
    cases vs with
    | nil =>
        obtain ⟨_, rfl⟩ := List.cons.inj (first.symm.trans all)
        omega
    | cons v vs => exact ⟨v, vs, rfl⟩
  have below : m.calls.pop.frames = vs ++ g :: c.base := by
    change m.frames.tail = _
    rw [all]
    rfl
  have below' : m'.calls.pop.frames = vs ++ { g with returns := c.returns' } :: c.base' := by
    change m'.frames.tail = _
    rw [all']
    rfl
  refine ⟨⟨h₁, h₂, h₃, h₄, h₅, h₆, h₇, h₈⟩, control, ⟨vs, g, returns, below, below'⟩, ?_, ?_⟩
  · have stop (below : List Handler) (low : ∀ h ∈ below, h.frameDepth ≤ c.base.length) :
        (hs ++ below).dropWhile (us.length < ·.frameDepth)
          = hs.dropWhile (us.length < ·.frameDepth) ++ below := by
      rw [List.dropWhile_append]
      split
      · next none =>
        rw [List.isEmpty_iff.1 none, List.nil_append]
        cases below with
        | nil => rfl
        | cons h below =>
            have near := low h List.mem_cons_self
            rw [List.dropWhile_cons_of_neg]
            simp only [decide_eq_true_eq]
            omega
      · rfl
    refine ⟨hs.dropWhile (us.length < ·.frameDepth), ?_, ?_, fun h member => ?_⟩
    · change m.handlers.dropWhile (m.calls.pop.depth < ·.frameDepth) = _
      rw [opened, left]
      exact stop _ fits.low
    · change m'.handlers.dropWhile (m'.calls.pop.depth < ·.frameDepth) = _
      rw [opened', depth, left]
      exact stop _ fits.low'
    · exact high h ((List.dropWhile_suffix _).subset member)
  · change m'.calls.pop.nesting + _ = m.calls.pop.nesting + _
    rw [CallStack.nesting_pop, CallStack.nesting_pop, below, below']
    exact Seam.nesting_frames returns

end Twin

/-- The machines have no frame above the seam. -/
structure AtSeam (c : Seam) (m m' : Machine) : Prop where
  world : m.World m'
  frames : m.frames = c.base
  frames' : m'.frames = c.base'
  handlers : m.handlers = c.below
  handlers' : m'.handlers = c.below'
  nesting : m'.nesting + c.base.countP (·.returns.isNested)
    = m.nesting + c.base'.countP (·.returns.isNested)

/-- The machines below the seam, when the lowest common frame is gone. -/
structure Parted (c : Seam) (m m' : Machine) : Prop extends AtSeam c m m' where
  control : m.control = .running
  control' : m'.control = .running

/-- What a step of twins comes to: they stay twins, or the lowest common frame returns a value, or
an exception leaves it. -/
inductive Proceeds (c : Seam) : Machine → Machine → Prop where
  | above {m m' : Machine} : Twin c m m' → Proceeds c m m'
  | returned {m m' : Machine} (v : Value) : Parted c m m' →
      Proceeds c (m.perform (handOver c.returns v)) (m'.perform (handOver c.returns' v))
  | raised {m m' : Machine} (id : ExceptionId) : Twin c m m' → m.handlers = c.below →
      m'.handlers = c.below' → Proceeds c (m.raise id) (m'.raise id)

namespace Twin

variable {c : Seam} {m m' : Machine}

theorem raises (twin : Twin c m m') (fits : c.Fits) (id : ExceptionId) :
    Proceeds c (m.raise id) (m'.raise id) := by
  rcases twin.raise fits id with after | ⟨first, second⟩
  · exact .above after
  · exact .raised id twin first second

theorem resolve (twin : Twin c m m') (e : Raised) :
    (e.resolve m').1 = (e.resolve m).1 ∧ Twin c (e.resolve m).2 (e.resolve m').2 := by
  obtain ⟨same, world⟩ := twin.world.resolve e
  exact ⟨same, twin.kept world (e.keeps_resolve m) (e.keeps_resolve m')⟩

/-- Twins that come to the same stay twins, or an exception leaves the lowest common frame. -/
theorem performs {a a' : Action Unit} {n n' : Machine} (fits : c.Fits) (twin : Twin c (a.result n).2 (a'.result n').2)
    (same : (a'.result n').1 = (a.result n).1) : Proceeds c (n.perform a) (n'.perform a') := by
  rcases done : a.result n with ⟨e | x, k⟩ <;> rcases done' : a'.result n' with ⟨e' | x', k'⟩ <;>
    rw [done, done'] at twin same <;> cases same
  · obtain ⟨number, after⟩ := twin.resolve e
    rw [Machine.perform_of_error done, Machine.perform_of_error done', number]
    exact after.raises fits _
  · rw [Machine.perform_of_ok done, Machine.perform_of_ok done']
    exact .above twin

theorem follow {a : Action Unit} (twin : Twin c m m') (fits : c.Fits) (follows : Follows c a) :
    c.Overruns (a.result m').1 ∨ Proceeds c (m.perform a) (m'.perform a) := by
  rcases follows.twins twin with stopped | ⟨same, after⟩
  · exact .inl stopped
  · exact .inr (performs fits after same)

/-- When the lowest common frame has ended, the machines are what is below the seam. -/
theorem parted (twin : Twin c m m') (fits : c.Fits) (running : m.control = .running) {g : Frame}
    (top : m.frames = g :: c.base) : Parted c (Action.ended m) (Action.ended m') := by
  obtain ⟨world, control, ⟨us, f, _, first, second⟩, ⟨hs, opened, opened', high⟩, _⟩ := twin
  have single : us = [] := by
    have length := congrArg List.length (first.symm.trans top)
    rw [List.length_append, List.length_cons, List.length_cons] at length
    exact List.eq_nil_of_length_eq_zero (by omega)
  subst single
  have depth : m.calls.pop.depth = c.base.length := by
    change m.calls.depth - 1 = _
    rw [m.calls.depth_eq, show m.calls.frames = g :: c.base from top]
    rfl
  have depth' : m'.calls.pop.depth = c.base.length := by
    change m'.calls.depth - 1 = _
    rw [m'.calls.depth_eq, show m'.calls.frames = _ :: c.base' from second, fits.length]
    rfl
  have popped : Machine.World (popped m) (Action.popped m') := by
    obtain ⟨h₁, h₂, h₃, h₄, h₅, h₆, h₇, h₈⟩ := world
    exact ⟨h₁, h₂, h₃, h₄, h₅, h₆, h₇, h₈⟩
  have below : m.calls.pop.frames = c.base := by
    change m.frames.tail = _
    rw [top]
    rfl
  have below' : m'.calls.pop.frames = c.base' := by
    change m'.frames.tail = _
    rw [second]
    rfl
  refine ⟨⟨Machine.world_note popped _ _, ?_, ?_, ?_, ?_, ?_⟩, ?_, ?_⟩
  · exact (congrArg CallStack.frames (keeps_ended m).calls).trans below
  · exact (congrArg CallStack.frames (keeps_ended m').calls).trans below'
  · refine (keeps_ended m).handlers.trans ?_
    change m.handlers.dropWhile (m.calls.pop.depth < ·.frameDepth) = _
    rw [opened, depth]
    exact dropWhile_handlers high fits.low
  · refine (keeps_ended m').handlers.trans ?_
    change m'.handlers.dropWhile (m'.calls.pop.depth < ·.frameDepth) = _
    rw [opened', depth']
    exact dropWhile_handlers high fits.low'
  · rw [Machine.nesting, Machine.nesting, (keeps_ended m).calls, (keeps_ended m').calls]
    change m'.calls.pop.nesting + _ = m.calls.pop.nesting + _
    rw [CallStack.nesting_pop, CallStack.nesting_pop, below, below', Nat.add_comm]
  · exact (keeps_ended m).control.trans running
  · exact (keeps_ended m').control.trans (control.trans running)

theorem upcoming_eq (twin : Twin c m m') : m'.upcoming = m.upcoming := by
  rw [Machine.upcoming, Machine.upcoming, twin.control]

/-- The topmost frames end. -/
theorem stepEnd (twin : Twin c m m') (fits : c.Fits) (running : m.control = .running) {f : Frame}
    {rest : List Frame} (top : m.frames = f :: rest) (atEnd : f.next? = none) :
    c.Overruns (advance.result m').1 ∨ Proceeds c (m.perform advance) (m'.perform advance) := by
  obtain ⟨us, g, returns, first, second⟩ := twin.frames
  cases us with
  | nil =>
      right
      obtain ⟨rfl, rfl⟩ := List.cons.inj (top.symm.trans first)
      have parted := twin.parted fits running first
      have atEnd' : Frame.next? { f with returns := c.returns' } = none := atEnd
      rw [perform_advance_end first atEnd, perform_advance_end second atEnd', returns]
      exact .returned _ parted
  | cons u us =>
      obtain ⟨rfl, rfl⟩ := List.cons.inj (top.symm.trans first)
      have deep : c.base.length < (us ++ g :: c.base).length := by
        rw [List.length_append, List.length_cons]
        omega
      have ended := twin.ended fits first deep
      have handed := (handOver_answers f.returns (f.stack.headD .null)).made.follows fits
      rw [perform_advance_end first atEnd, perform_advance_end second atEnd,
        result_advance_end second atEnd, result_finish second]
      exact ended.follow fits handed

/-- The topmost frames carry out an instruction. -/
theorem stepInstruction (twin : Twin c m m') (fits : c.Fits) (live : m.Live)
    (running : m.control = .running) {f : Frame} {rest : List Frame} (top : m.frames = f :: rest)
    {i : Instruction} (next : f.next? = some i) :
    c.Overruns (advance.result m').1 ∨ Proceeds c (m.perform advance) (m'.perform advance) := by
  obtain ⟨f', rest₁, r, rest', top₁, top'⟩ := twin.head
  obtain ⟨rfl, rfl⟩ := List.cons.inj (top.symm.trans top₁)
  have next' : Frame.next? { f with returns := r } = some i := next
  have fetched := twin.fetched f r i
  rw [perform_advance top next, perform_advance top' next', result_advance top' next']
  by_cases closes : i.op = .popExceptionHandler
  · right
    obtain ⟨h, hs, opened, depth⟩ := live.closing running top next closes
    have kept : (Action.fetched m f i).handlers = m.handlers := (m.keeps_note _).handlers
    have own : c.base.length < h.frameDepth := by
      have deep := twin.depth_lt
      rw [m.calls.depth_eq] at deep
      rw [depth]
      exact deep
    have closed := fetched.closeRegion (kept.trans opened) own fits
    rw [← execute_popExceptionHandler closes, ← execute_popExceptionHandler closes] at closed
    refine performs fits closed ?_
    rw [execute_popExceptionHandler closes, execute_popExceptionHandler closes]
    rfl
  · exact fetched.follow fits ((execute_made i closes).follows fits)

/-- What a step of twins comes to. -/
theorem step (twin : Twin c m m') (fits : c.Fits) (live : m.Live) :
    c.Overruns (m'.upcoming.result m').1 ∨ Proceeds c m.step m'.step := by
  unfold Machine.step
  rw [twin.upcoming_eq, Machine.upcoming]
  cases control : m.control with
  | running =>
      obtain ⟨f, rest, r, rest', top, top'⟩ := twin.head
      cases next : f.next? with
      | none => exact twin.stepEnd fits control top next
      | some i => exact twin.stepInstruction fits live control top next
  | delivering v pending => exact twin.follow fits ((resume_answers v pending).made.follows fits)
  | returned v => exact .inr (.above twin)
  | uncaught id => exact .inr (.above twin)

end Twin

/-! ## One machine -/

theorem Proceeds.cases {c : Seam} {n n' : Machine} (proceeds : Proceeds c n n') :
    Twin c n n' ∨
      (∃ v m m', Parted c m m' ∧ n = m.perform (handOver c.returns v) ∧
        n' = m'.perform (handOver c.returns' v)) ∨
      ∃ id m m', Twin c m m' ∧ m.handlers = c.below ∧ m'.handlers = c.below' ∧ n = m.raise id ∧
        n' = m'.raise id := by
  cases proceeds with
  | above twin => exact .inl twin
  | @returned m m' v parted => exact .inr (.inl ⟨v, m, m', parted, rfl, rfl⟩)
  | @raised m m' id twin first second =>
      exact .inr (.inr ⟨id, m, m', twin, first, second, rfl, rfl⟩)

/-- The seam below a frame of a machine. -/
def Seam.single (returns : Returns) (base : List Frame) (below : List Handler) : Seam :=
  ⟨returns, returns, base, base, below, below⟩

theorem Seam.single_fits {returns : Returns} {base : List Frame} {below : List Handler}
    (low : ∀ h ∈ below, h.frameDepth ≤ base.length) : (single returns base below).Fits :=
  ⟨rfl, low, low, Nat.le_refl _⟩

theorem Machine.depth_raise_le {m : Machine} {depth : Nat}
    (low : ∀ h ∈ m.handlers, h.frameDepth ≤ depth) (id : ExceptionId) :
    (m.raise id).calls.depth ≤ depth := by
  rw [(m.raise id).calls.depth_eq]
  change (m.raise id).frames.length ≤ depth
  cases opened : m.handlers with
  | nil =>
      rw [frames_raise_of_nil opened]
      exact Nat.zero_le _
  | cons h hs =>
      have near := low h (by rw [opened]; exact List.mem_cons_self)
      rw [frames_raise_of_cons opened, List.length_modifyHead, List.length_drop]
      omega

namespace Twin

variable {returns : Returns} {base : List Frame} {below : List Handler} {m : Machine}

/-- Until a frame is gone, what is below it stays as it is. -/
theorem single_step (twin : Twin (.single returns base below) m m)
    (low : ∀ h ∈ below, h.frameDepth ≤ base.length) (live : m.Live)
    (there : base.length < m.step.calls.depth) :
    Twin (.single returns base below) m.step m.step := by
  rcases twin.step (Seam.single_fits low) live with ⟨more, _⟩ | proceeds
  · exact absurd more (Nat.lt_irrefl _)
  rcases proceeds.cases with after | ⟨v, k, _, parted, same, _⟩ | ⟨id, k, _, _, opened, _, same, _⟩
  · exact after
  · obtain ⟨values, frames, _⟩ := k.perform_handOver returns v
    have depth : m.step.calls.depth = base.length := by
      rw [m.step.calls.depth_eq, same]
      change (k.perform (handOver returns v)).frames.length = _
      rw [frames, List.length_modifyHead, parted.frames]
      rfl
    omega
  · have near : ∀ h ∈ k.handlers, h.frameDepth ≤ base.length := by
      rw [opened]
      exact low
    have depth := Machine.depth_raise_le near id
    rw [← same] at depth
    omega

theorem single_run (twin : Twin (.single returns base below) m m)
    (low : ∀ h ∈ below, h.frameDepth ≤ base.length) (live : m.Live) {count : Nat}
    (there : ∀ k ≤ count, base.length < (m.run k).calls.depth) :
    Twin (.single returns base below) (m.run count) (m.run count) := by
  induction count with
  | zero => exact twin
  | succ count ih =>
      have before := ih fun k few => there k (Nat.le_succ_of_le few)
      have deep := there (count + 1) (Nat.le_refl _)
      rw [Machine.run_succ] at deep ⊢
      exact before.single_step low (live.run count) deep

end Twin

/-- A frame that ends leaves the frames below it, and the regions that were open, as they were
when none of its own was. -/
theorem Machine.Live.restores {m : Machine} (live : m.Live) {f : Frame} {base : List Frame}
    (top : m.frames = f :: base) (low : ∀ h ∈ m.handlers, h.frameDepth ≤ base.length) {count : Nat}
    (there : ∀ k ≤ count, base.length < (m.run k).calls.depth) {g : Frame} {rest : List Frame}
    (running : (m.run count).control = .running) (last : (m.run count).frames = g :: rest)
    (atEnd : g.next? = none) (depth : rest.length = base.length) :
    rest = base ∧ g.returns = f.returns ∧
      (∃ values, (m.run (count + 1)).frames = base.modifyHead (·.given values)) ∧
      (m.run (count + 1)).handlers = m.handlers := by
  have start : Twin (.single f.returns base m.handlers) m m :=
    ⟨.refl m, rfl, ⟨[], f, rfl, top, top⟩,
      ⟨[], rfl, rfl, fun _ member => absurd member List.not_mem_nil⟩, rfl⟩
  have twin := start.single_run low live there
  obtain ⟨us, g', returns, frames, _⟩ := twin.frames
  obtain ⟨hs, handlers, _, high⟩ := twin.handlers
  have whole := last.symm.trans frames
  have single : us = [] := by
    have length := congrArg List.length whole
    rw [List.length_append, List.length_cons, List.length_cons, depth] at length
    have same : (Seam.single f.returns base m.handlers).base.length = base.length := rfl
    exact List.eq_nil_of_length_eq_zero (by omega)
  subst single
  obtain ⟨rfl, rfl⟩ := List.cons.inj whole
  obtain ⟨values, after, left⟩ := step_of_end running last atEnd
  rw [run_succ]
  refine ⟨rfl, returns, ⟨values, after⟩, ?_⟩
  rw [left, handlers]
  exact dropWhile_handlers high low

end ScriptMachine
