import ScriptMachine.Proofs.Machine.Isolation

/-!
Operations side by side. Two machines stand at a seam, each with a topmost frame of its own, and
carry out the same operation, or two that differ in how they hand their value on. `Meets` says
what such operations come to and `Goes` what the machines then are: they wait for the same value,
or run the same frame, or both frames have got what they waited for, or the same exception is
raised in both. `Goes.step` leads from each of these to the next.
-/

namespace ScriptMachine

open ScriptMachine.Action

/-! ## Two machines at a seam -/

/-- The seam below frames that return so. -/
def Seam.between (c : Seam) (returns returns' : Returns) : Seam :=
  { c with returns, returns' }

/-- Both sides look the same from above, and have as many nested calls. -/
structure Seam.Even (c : Seam) : Prop where
  faces : c.base.map Frame.face = c.base'.map Frame.face
  low : ∀ h ∈ c.below, h.frameDepth ≤ c.base.length
  low' : ∀ h ∈ c.below', h.frameDepth ≤ c.base.length
  nested : c.base.countP (·.returns.isNested) = c.base'.countP (·.returns.isNested)

theorem Seam.Even.fits {c : Seam} (even : c.Even) {r r' : Returns}
    (more : r.isNested = true → r'.isNested = true) : (c.between r r').Fits := by
  refine ⟨even.faces, even.low, even.low', ?_⟩
  have nested := even.nested
  unfold nestingUpTo between
  split
  · next one => simp [more one, nested]
  · simp [nested]

namespace AtSeam

variable {c : Seam} {m m' n n' : Machine}

/-- Two machines at an even seam look alike to what is quiet. -/
theorem alike (level : AtSeam c m m') (even : c.Even) : m.Alike m' := by
  refine ⟨level.world, ?_⟩
  rw [level.frames, level.frames', even.faces]

/-- At an even seam both have as many nested calls. -/
theorem nesting_eq (level : AtSeam c m m') (even : c.Even) : m'.nesting = m.nesting := by
  have counts := level.nesting
  rw [even.nested] at counts
  exact Nat.add_right_cancel counts

/-- What changes only the world, and in the same way, keeps the machines at the seam. -/
theorem kept (level : AtSeam c m m') (world : n.World n') (first : m.Keeps n)
    (second : m'.Keeps n') : AtSeam c n n' where
  world := world
  frames := first.frames.trans level.frames
  frames' := second.frames.trans level.frames'
  handlers := first.handlers.trans level.handlers
  handlers' := second.handlers.trans level.handlers'
  nesting := by
    rw [Machine.nesting, Machine.nesting, first.calls, second.calls]
    exact level.nesting

theorem withControl (level : AtSeam c m m') (control control' : Control) :
    AtSeam c { m with control } { m' with control := control' } := by
  obtain ⟨⟨h₁, h₂, h₃, h₄, h₅, h₆, h₇, h₈⟩, frames, frames', handlers, handlers', nesting⟩ := level
  exact ⟨⟨h₁, h₂, h₃, h₄, h₅, h₆, h₇, h₈⟩, frames, frames', handlers, handlers', nesting⟩

end AtSeam

/-- Quiet work gives the same on both sides and stays at the seam. -/
theorem Quiet.atSeam {α : Type} {a : Action α} {c : Seam} {m m' : Machine} (quiet : Quiet a)
    (even : c.Even) (level : AtSeam c m m') :
    (a.result m').1 = (a.result m).1 ∧ AtSeam c (a.result m).2 (a.result m').2 := by
  obtain ⟨same, alike⟩ := quiet.alike (level.alike even)
  exact ⟨same.symm, level.kept alike.toWorld (quiet.keeps m) (quiet.keeps m')⟩

/-! ## What operations come to -/

/-- What two operations come to, the values of which are handed on as `rel` says. -/
inductive Meets (c : Seam) (rel : Returns → Returns → Prop) :
    Except Raised Unit × Machine → Except Raised Unit × Machine → Prop where
  | raises {n n' : Machine} (e : Raised) : AtSeam c n n' → Meets c rel (.error e, n) (.error e, n')
  | delivers {n n' : Machine} {pending pending' : Pending} (v : Value) :
      rel (.resume pending) (.resume pending') → AtSeam c n n' →
      Meets c rel (.ok (), { n with control := .delivering v pending })
        (.ok (), { n' with control := .delivering v pending' })
  | calls {n n' : Machine} {r r' : Returns} : rel r r' → Twin (c.between r r') n n' →
      Meets c rel (.ok (), n) (.ok (), n')
  | fills {n n' : Machine} (values : List Value) : AtSeam c n n' →
      Meets c rel (.ok (), Machine.withStack { n with control := .running } (values ++ n.stack))
        (.ok (), Machine.withStack { n' with control := .running } (values ++ n'.stack))
  | halts {n n' : Machine} (v : Value) : AtSeam c n n' →
      Meets c rel (.ok (), { n with control := .returned v })
        (.ok (), { n' with control := .returned v })

/-- Frames for the same call differ only in what they return to. -/
theorem Action.newFrame_returns (call : Call) (r r' : Returns) :
    newFrame call r' = newFrame call r >>= fun f => pure { f with returns := r' } := by
  unfold newFrame
  simp only [bind_assoc]
  congr 1
  funext limit
  congr 1
  funext depth
  split
  · rfl
  · simp only [bind_assoc, pure_bind]

theorem Action.returns_newFrame {call : Call} {r : Returns} {m n : Machine} {f : Frame}
    (made : (newFrame call r).result m = (.ok f, n)) : f.returns = r := by
  have again := made
  rw [newFrame_returns call r r, result_bind_ok made] at again
  have same : { f with returns := r } = f := Except.ok.inj (Prod.mk.inj again).1
  rw [← same]

namespace Meets

variable {c : Seam} {rel : Returns → Returns → Prop} {m m' : Machine} {r r' : Returns}

/-- A call pushes the same frame on both sides, but for what it returns to. -/
theorem activate (even : c.Even) (related : rel r r') (level : AtSeam c m m') (call : Call) :
    Meets c rel ((Action.activate call r).result m) ((Action.activate call r').result m') := by
  obtain ⟨same, after⟩ := (newFrame_quiet call r).atSeam even level
  unfold Action.activate
  rw [newFrame_returns call r r', result_bind, result_bind, result_bind]
  rcases made : (newFrame call r).result m with ⟨e | f, n⟩ <;>
    rcases made' : (newFrame call r).result m' with ⟨e' | f', n'⟩ <;>
    rw [made, made'] at same after <;> cases same
  · exact .raises e after
  · refine .calls related (Twin.noted ?_ _ _)
    have returns := returns_newFrame made
    obtain ⟨⟨h₁, h₂, h₃, h₄, h₅, h₆, h₇, h₈⟩, frames, frames', handlers, handlers', nesting⟩ := after
    refine ⟨⟨h₁, h₂, h₃, h₄, h₅, h₆, h₇, h₈⟩, rfl, ⟨[], f, returns, ?_, ?_⟩,
      ⟨[], handlers, handlers', fun _ member => absurd member List.not_mem_nil⟩, ?_⟩
    · change f :: n.frames = _
      rw [frames]
      rfl
    · change _ :: n'.frames = _
      rw [frames']
      rfl
    · simp only [Machine.nesting, CallStack.nesting_push, Seam.nestingUpTo, Seam.between,
        returns] at nesting ⊢
      grind

/-- Nested calls on both sides. There are as many already. -/
theorem enter {pending pending' : Pending} (even : c.Even)
    (related : rel (.resume pending) (.resume pending')) (level : AtSeam c m m') (call : Call) :
    Meets c rel ((Action.enter call pending).result m) ((Action.enter call pending').result m') := by
  have counted := level.nesting_eq even
  unfold Action.enter
  rw [result_bind_ok (result_ask _ m), result_bind_ok (result_ask _ m),
    result_bind_ok (result_ask _ m'), result_bind_ok (result_ask _ m')]
  dsimp only
  rw [counted, ← level.world.limits]
  split
  · exact .raises _ level
  · exact .activate even related level call

/-- A nested call only on the second side, where the limit may stop it. -/
theorem activate_enter {pending : Pending} (even : c.Even) (related : rel r (.resume pending))
    (level : AtSeam c m m') (call : Call) :
    (∃ limit, ((Action.enter call pending).result m').1 = .error (.fault (.nestingLimit limit))) ∨
    Meets c rel ((Action.activate call r).result m) ((Action.enter call pending).result m') := by
  unfold Action.enter
  rw [result_bind_ok (result_ask _ m'), result_bind_ok (result_ask _ m')]
  dsimp only
  split
  · exact .inl ⟨_, rfl⟩
  · exact .inr (.activate even related level call)

/-- After quiet work both sides go on alike. -/
theorem quietly {α : Type} {a : Action α} {f f' : α → Action Unit} (quiet : Quiet a) (even : c.Even)
    (level : AtSeam c m m')
    (next : ∀ x n n', m.Keeps n → m'.Keeps n' → AtSeam c n n' →
      Meets c rel ((f x).result n) ((f' x).result n')) :
    Meets c rel ((a >>= f).result m) ((a >>= f').result m') := by
  obtain ⟨same, after⟩ := quiet.atSeam even level
  have kept := quiet.keeps m
  have kept' := quiet.keeps m'
  rw [result_bind, result_bind]
  rcases done : a.result m with ⟨e | x, n⟩ <;> rcases done' : a.result m' with ⟨e' | x', n'⟩ <;>
    rw [done, done'] at same after <;> rw [done] at kept <;> rw [done'] at kept' <;> cases same
  · exact .raises e after
  · exact next x n n' kept kept' after

/-- The frames get what they wait for, which run already. -/
theorem fills_running (values : List Value) (level : AtSeam c m m') (running : m.control = .running)
    (running' : m'.control = .running) :
    Meets c rel (.ok (), m.withStack (values ++ m.stack))
      (.ok (), m'.withStack (values ++ m'.stack)) := by
  have meets : Meets c rel _ _ := .fills values level
  rw [Machine.withControl_self running, Machine.withControl_self running'] at meets
  exact meets

end Meets

/-- The same operation on both sides. -/
theorem Answers.meets {live : Bool} {demand : Demand} {a : Action Unit} {c : Seam}
    {rel : Returns → Returns → Prop} (answers : Answers live demand a) (even : c.Even)
    (refl : ∀ r, rel r r) {m m' : Machine} (level : AtSeam c m m')
    (running : live = true → m.control = .running ∧ m'.control = .running) :
    Meets c rel (a.result m) (a.result m') := by
  induction answers generalizing m m' with
  | deliver v _ => exact .delivers v (refl _) level
  | activate call _ _ => exact .activate even (refl _) level call
  | enter call _ => exact .enter even (refl _) level call
  | quietly quiet _ ih =>
      refine .quietly quiet even level fun x n n' kept kept' after => ?_
      refine ih x after fun live => ?_
      obtain ⟨first, second⟩ := running live
      exact ⟨kept.control.trans first, kept'.control.trans second⟩
  | fault cause => exact .raises _ level
  | exception id => exact .raises _ level
  | push v =>
      obtain ⟨first, second⟩ := running rfl
      rw [result_push, result_push]
      exact .fills_running [v] level first second
  | nothing =>
      obtain ⟨first, second⟩ := running rfl
      have meets : Meets c rel _ _ := .fills_running [] level first second
      rw [List.nil_append, List.nil_append, Machine.withStack_self, Machine.withStack_self] at meets
      exact meets
  | proceed =>
      have meets : Meets c rel _ _ :=
        .fills_running [] (level.withControl .running .running) rfl rfl
      rw [List.nil_append, List.nil_append, Machine.withStack_self, Machine.withStack_self] at meets
      exact meets
  | proceedWith v =>
      have pushed (k : Machine) : (Action.proceed >>= fun _ => Action.push v).result k
          = (Action.push v).result { k with control := .running } := rfl
      rw [pushed, pushed, result_push, result_push]
      exact .fills [v] level
  | halt v => exact .halts v level

/-! ## What the machines then are -/

/-- An exception leaves what is above the seam. -/
structure Falls (c : Seam) (m m' : Machine) : Prop where
  world : m.World m'
  frames : ∃ us us', m.frames = us ++ c.base ∧ m'.frames = us' ++ c.base' ∧
    us.map Frame.face = us'.map Frame.face
  handlers : m.handlers = c.below
  handlers' : m'.handlers = c.below'

theorem AtSeam.falls {c : Seam} {m m' : Machine} (level : AtSeam c m m') : Falls c m m' :=
  ⟨level.world, ⟨[], [], level.frames, level.frames', rfl⟩, level.handlers, level.handlers'⟩

theorem Twin.falls {c : Seam} {m m' : Machine} (twin : Twin c m m') (opened : m.handlers = c.below)
    (opened' : m'.handlers = c.below') : Falls c m m' := by
  obtain ⟨us, g, _, first, second⟩ := twin.frames
  refine ⟨twin.world, ⟨us ++ [g], us ++ [{ g with returns := c.returns' }], ?_, ?_, ?_⟩, opened,
    opened'⟩
  · rw [first, List.append_assoc]
    rfl
  · rw [second, List.append_assoc]
    rfl
  · rw [List.map_append, List.map_append]
    rfl

/-- The traces of both are the same, since the frames show the same faces. -/
theorem Falls.trace {c : Seam} {m m' : Machine} (falls : Falls c m m') (even : c.Even) :
    m.trace = m'.trace := by
  obtain ⟨us, us', first, second, faces⟩ := falls.frames
  have same : m.frames.map Frame.face = m'.frames.map Frame.face := by
    rw [first, second, List.map_append, List.map_append, faces, even.faces]
  have lines := congrArg (List.map fun face : Face => TraceFrame.mk face.name face.location) same
  rw [List.map_map, List.map_map] at lines
  exact lines

theorem Falls.announced {c : Seam} {m m' : Machine} (falls : Falls c m m') (even : c.Even)
    (id : ExceptionId) : (m.announced id).World (m'.announced id) :=
  falls.world.announced (falls.trace even) id

/-- What the machines are when an operation has come to something. -/
inductive Goes (c : Seam) (rel : Returns → Returns → Prop) : Machine → Machine → Prop where
  | waits {m m' : Machine} {pending pending' : Pending} (v : Value) :
      rel (.resume pending) (.resume pending') → AtSeam c m m' →
      m.control = .delivering v pending → m'.control = .delivering v pending' → Goes c rel m m'
  | runs {m m' : Machine} {r r' : Returns} : rel r r' → Twin (c.between r r') m m' → Goes c rel m m'
  | filled {m m' : Machine} (values : List Value) : AtSeam c m m' →
      Goes c rel (Machine.withStack { m with control := .running } (values ++ m.stack))
        (Machine.withStack { m' with control := .running } (values ++ m'.stack))
  | raised {m m' : Machine} (id : ExceptionId) : Falls c m m' →
      Goes c rel (m.raise id) (m'.raise id)
  | halted {m m' : Machine} (v : Value) : AtSeam c m m' →
      Goes c rel { m with control := .returned v } { m' with control := .returned v }

theorem AtSeam.resolve {c : Seam} {m m' : Machine} (level : AtSeam c m m') (e : Raised) :
    (e.resolve m').1 = (e.resolve m).1 ∧ AtSeam c (e.resolve m).2 (e.resolve m').2 := by
  obtain ⟨same, world⟩ := level.world.resolve e
  exact ⟨same, level.kept world (e.keeps_resolve m) (e.keeps_resolve m')⟩

/-- What both actions came to is performed alike. -/
theorem Meets.perform {c : Seam} {rel : Returns → Returns → Prop} {m m' : Machine}
    {a a' : Action Unit} (meets : Meets c rel (a.result m) (a'.result m')) :
    Goes c rel (m.perform a) (m'.perform a') := by
  generalize done : a.result m = result, done' : a'.result m' = result' at meets
  cases meets with
  | raises e level =>
      obtain ⟨same, after⟩ := level.resolve e
      rw [Machine.perform_of_error done, Machine.perform_of_error done', same]
      exact .raised _ after.falls
  | delivers v related level =>
      rw [Machine.perform_of_ok done, Machine.perform_of_ok done']
      exact .waits v related (level.withControl _ _) rfl rfl
  | calls related twin =>
      rw [Machine.perform_of_ok done, Machine.perform_of_ok done']
      exact .runs related twin
  | fills values level =>
      rw [Machine.perform_of_ok done, Machine.perform_of_ok done']
      exact .filled values level
  | halts v level =>
      rw [Machine.perform_of_ok done, Machine.perform_of_ok done']
      exact .halted v level

/-! ## Steps -/

/-- What a step of the frames above the seam comes to. -/
theorem Twin.onward {c : Seam} {r r' : Returns} {m m' : Machine} (twin : Twin (c.between r r') m m')
    (fits : (c.between r r').Fits) (live : m.Live) :
    (c.between r r').Overruns (m'.upcoming.result m').1 ∨ Twin (c.between r r') m.step m'.step ∨
      (∃ v k k', AtSeam c k k' ∧ k.control = .running ∧ k'.control = .running ∧
        m.step = k.perform (handOver r v) ∧ m'.step = k'.perform (handOver r' v)) ∨
      ∃ id k k', Falls c k k' ∧ m.step = k.raise id ∧ m'.step = k'.raise id := by
  rcases twin.step fits live with stopped | proceeds
  · exact .inl stopped
  right
  rcases proceeds.cases with above | ⟨v, k, k', parted, first, second⟩ |
      ⟨id, k, k', there, opened, opened', first, second⟩
  · exact .inl above
  · obtain ⟨⟨world, frames, frames', handlers, handlers', nesting⟩, running, running'⟩ := parted
    exact .inr (.inl ⟨v, k, k', ⟨world, frames, frames', handlers, handlers', nesting⟩, running,
      running', first, second⟩)
  · obtain ⟨world, frames, handlers, handlers'⟩ := there.falls opened opened'
    exact .inr (.inr ⟨id, k, k', ⟨world, frames, handlers, handlers'⟩, first, second⟩)

/-- The same operation goes on in the same way on both sides. -/
theorem Goes.step_waits {c : Seam} {rel : Returns → Returns → Prop} {m m' : Machine}
    {pending : Pending} {v : Value} (even : c.Even) (refl : ∀ r, rel r r) (level : AtSeam c m m')
    (control : m.control = .delivering v pending) (control' : m'.control = .delivering v pending) :
    Goes c rel m.step m'.step := by
  have upcoming : m.upcoming = resume v pending := by rw [Machine.upcoming, control]
  have upcoming' : m'.upcoming = resume v pending := by rw [Machine.upcoming, control']
  have meets := (resume_answers v pending).meets even refl level
    fun live => absurd live Bool.false_ne_true
  unfold Machine.step
  rw [upcoming, upcoming']
  exact meets.perform

/-- A frame that returns to the same hands the same over on both sides. -/
theorem Goes.handOver {c : Seam} {rel : Returns → Returns → Prop} {m m' : Machine} (even : c.Even)
    (refl : ∀ r, rel r r) (level : AtSeam c m m') (running : m.control = .running)
    (running' : m'.control = .running) (r : Returns) (v : Value) :
    Goes c rel (m.perform (handOver r v)) (m'.perform (handOver r v)) := by
  have meets := (handOver_answers r v).meets even refl level fun _ => ⟨running, running'⟩
  exact meets.perform

end ScriptMachine
