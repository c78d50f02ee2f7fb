import ScriptMachine.Proofs.Machine.Counting
import ScriptMachine.Proofs.Machine.Preparation

/-!
Two calls side by side. A frame calls a value itself, or an operation of the frame does: then the
call is nested, and the operation hands the value it gets to the frame. While both calls are under
way the machines are abreast: the same frames run above the caller, or the same value is handed
on, though to different ends. Every step leads to machines that are abreast again, or both calls
come back, to the frame or past it, with the machines in the same state. Only the limit of nested
calls can stop one of them and not the other.
-/

namespace ScriptMachine

open ScriptMachine.Action

/-! ## Coming back -/

namespace Machine

/-- Control is in a frame of at most this depth, or the run has ended. -/
def Settled (m : Machine) (depth : Nat) : Prop :=
  m.isDone = true ∨ (m.control = .running ∧ m.calls.depth ≤ depth)

/-- The run comes back in `count` steps, and not before. -/
structure SettlesIn (m : Machine) (depth count : Nat) : Prop where
  settled : (m.run count).Settled depth
  first : ∀ k < count, ¬ (m.run k).Settled depth

/-- The run comes back, and the machine is then `n`. -/
def Settles (m : Machine) (depth : Nat) (n : Machine) : Prop :=
  ∃ count, m.SettlesIn depth count ∧ m.run count = n

/-- Until the run comes back, no call is refused because too many are nested. -/
def Unrefused (m : Machine) (depth : Nat) : Prop :=
  ∀ count, (∀ k ≤ count, ¬ (m.run k).Settled depth) → ∀ limit,
    ((m.run count).upcoming.result (m.run count)).1 ≠ .error (.fault (.nestingLimit limit))

/-- The machines are the same, but for what observers were told. -/
structure Same (m m' : Machine) : Prop extends World m m' where
  calls : m'.calls = m.calls
  handlers : m'.handlers = m.handlers
  control : m'.control = m.control

variable {m : Machine} {depth : Nat}

/-- A run may come back after others steps. -/
theorem SettlesIn.add {count more : Nat} (start : ∀ k < count, ¬ (m.run k).Settled depth)
    (settles : (m.run count).SettlesIn depth more) : m.SettlesIn depth (count + more) := by
  refine ⟨?_, fun k few => ?_⟩
  · rw [run_add]
    exact settles.settled
  · by_cases early : k < count
    · exact start k early
    · obtain ⟨later, rfl⟩ := Nat.exists_eq_add_of_le (Nat.le_of_not_lt early)
      rw [run_add]
      exact settles.first later (by omega)

/-- A run that has not come back yet does so later. -/
theorem SettlesIn.sub {count done : Nat} (settles : m.SettlesIn depth count)
    (start : ∀ k < done, ¬ (m.run k).Settled depth) :
    ∃ more, count = done + more ∧ (m.run done).SettlesIn depth more := by
  have enough : done ≤ count := by
    by_contra less
    exact start count (Nat.lt_of_not_le less) settles.settled
  obtain ⟨more, rfl⟩ := Nat.exists_eq_add_of_le enough
  refine ⟨more, rfl, ?_, fun k few => ?_⟩
  · rw [← run_add]
    exact settles.settled
  · rw [← run_add]
    exact settles.first (done + k) (by omega)

theorem Unrefused.later (free : m.Unrefused depth) {done : Nat}
    (start : ∀ k < done, ¬ (m.run k).Settled depth) : (m.run done).Unrefused depth := by
  intro count others limit
  rw [← run_add]
  refine free (done + count) (fun k few => ?_) limit
  by_cases early : k < done
  · exact start k early
  · obtain ⟨later, rfl⟩ := Nat.exists_eq_add_of_le (Nat.le_of_not_lt early)
    rw [run_add]
    exact others later (by omega)

/-- Both runs come back, if one does, and to the same. -/
def Agree (m m' : Machine) (depth : Nat) : Prop :=
  (∀ n, m.Settles depth n → ∃ n', m'.Settles depth n' ∧ n.Same n') ∧
    ∀ n', m'.Settles depth n' → ∃ n, m.Settles depth n ∧ n.Same n'

end Machine

open Machine

/-- From `m` and `m'` some steps lead on: to related machines again, or both runs come back. -/
structure Advances (R : Machine → Machine → Prop) (depth : Nat) (m m' : Machine) (i j : Nat) :
    Prop where
  first : ∀ k < i, ¬ (m.run k).Settled depth
  second : ∀ k < j, ¬ (m'.run k).Settled depth
  leads : R (m.run i) (m'.run j) ∨
    ((m.run i).Settled depth ∧ (m'.run j).Settled depth ∧ (m.run i).Same (m'.run j))

/-- Machines of which both can always go on agree. -/
theorem agree_of_advances {R : Machine → Machine → Prop} {depth : Nat}
    (goes : ∀ m m', R m m' → m'.Unrefused depth → ∃ i j, 0 < i ∧ 0 < j ∧ Advances R depth m m' i j)
    {m m' : Machine} (related : R m m') (free : m'.Unrefused depth) : m.Agree m' depth := by
  -- by the number of steps that are left to the run which is known to come back
  have forth : ∀ count m m', R m m' → m'.Unrefused depth → m.SettlesIn depth count →
      ∃ n', m'.Settles depth n' ∧ (m.run count).Same n' := by
    intro count
    induction count using Nat.strongRecOn with
    | _ count ih =>
      intro m m' related free settles
      obtain ⟨i, j, some, _, advances⟩ := goes m m' related free
      obtain ⟨more, rfl, rest⟩ := settles.sub advances.first
      rcases advances.leads with again | ⟨done, done', same⟩
      · obtain ⟨n', ⟨count', settles', rfl⟩, same⟩ :=
          ih more (by omega) _ _ again (free.later advances.second) rest
        refine ⟨_, ⟨j + count', settles'.add advances.second, rfl⟩, ?_⟩
        rw [run_add, run_add]
        exact same
      · have last : more = 0 := by
          by_contra left
          exact rest.first 0 (Nat.pos_of_ne_zero left) done
        subst last
        exact ⟨_, ⟨j, ⟨done', advances.second⟩, rfl⟩, same⟩
  have back : ∀ count m m', R m m' → m'.Unrefused depth → m'.SettlesIn depth count →
      ∃ n, m.Settles depth n ∧ n.Same (m'.run count) := by
    intro count
    induction count using Nat.strongRecOn with
    | _ count ih =>
      intro m m' related free settles
      obtain ⟨i, j, _, some, advances⟩ := goes m m' related free
      obtain ⟨more, rfl, rest⟩ := settles.sub advances.second
      rcases advances.leads with again | ⟨done, done', same⟩
      · obtain ⟨n, ⟨count', settles', rfl⟩, same⟩ :=
          ih more (by omega) _ _ again (free.later advances.second) rest
        refine ⟨_, ⟨i + count', settles'.add advances.first, rfl⟩, ?_⟩
        rw [run_add, run_add]
        exact same
      · have last : more = 0 := by
          by_contra left
          exact rest.first 0 (Nat.pos_of_ne_zero left) done'
        subst last
        exact ⟨_, ⟨i, ⟨done, advances.first⟩, rfl⟩, same⟩
  refine ⟨fun n settles => ?_, fun n' settles => ?_⟩
  · obtain ⟨count, settles, rfl⟩ := settles
    exact forth count m m' related free settles
  · obtain ⟨count, settles, rfl⟩ := settles
    exact back count m m' related free settles

/-! ## The frame that calls -/

namespace Machine

/-- The seam above all frames of a machine. -/
def seam (m : Machine) : Seam :=
  ⟨.nothing, .nothing, m.frames, m.frames, m.handlers, m.handlers⟩

theorem Waits.even {m : Machine} {demand : Demand} (waits : m.Waits demand) : m.seam.Even :=
  ⟨rfl, waits.stacked.owned, waits.stacked.owned, rfl⟩

theorem not_settled_of_delivering {m : Machine} {v : Value} {pending : Pending} {depth : Nat}
    (control : m.control = .delivering v pending) : ¬ m.Settled depth := by
  rintro (done | ⟨running, _⟩)
  · rw [isDone, control] at done
    cases done
  · cases control.symm.trans running

theorem Live.not_isDone {m : Machine} (live : m.Live) {f : Frame} {rest : List Frame}
    (top : m.frames = f :: rest) : m.isDone ≠ true := by
  intro done
  have none := (live.atRest done).frames
  rw [top] at none
  cases none

end Machine

/-- While frames above the seam run, control is not back. -/
theorem Twin.not_settled {c : Seam} {m m' : Machine} (twin : Twin c m m') (fits : c.Fits)
    (live : m.Live) : ¬ m.Settled c.base.length ∧ ¬ m'.Settled c.base.length := by
  have deep := twin.depth_lt
  have deep' : c.base.length < m'.calls.depth := by
    rw [← (twin.alike fits).depth]
    exact deep
  obtain ⟨f, rest, _, _, top, _⟩ := twin.head
  have going := live.not_isDone top
  have going' : m'.isDone ≠ true := by
    rw [isDone, twin.control]
    exact going
  refine ⟨?_, ?_⟩
  · rintro (done | ⟨_, low⟩)
    · exact going done
    · omega
  · rintro (done | ⟨_, low⟩)
    · exact going' done
    · omega

/-! ## Machines that have come back -/

section

variable {o m m' : Machine}

theorem AtSeam.calls_eq (level : AtSeam o.seam m m') : m'.calls = m.calls :=
  CallStack.ext (level.frames'.trans level.frames.symm) (Nat.add_right_cancel level.nesting)

/-- Both frames have got what they waited for. -/
theorem AtSeam.filled (level : AtSeam o.seam m m') (values : List Value) :
    (Machine.withStack { m with control := .running } (values ++ m.stack)).Settled o.frames.length ∧
      (Machine.withStack { m' with control := .running } (values ++ m'.stack)).Settled o.frames.length ∧
      (Machine.withStack { m with control := .running } (values ++ m.stack)).Same
        (Machine.withStack { m' with control := .running } (values ++ m'.stack)) := by
  have calls := level.calls_eq
  have stack : m'.stack = m.stack := by rw [Machine.stack, Machine.stack, Machine.frames, calls]; rfl
  have low (k : Machine) (frames : k.frames = o.frames) :
      (Machine.withStack { k with control := .running } (values ++ k.stack)).Settled
        o.frames.length := by
    refine .inr ⟨rfl, ?_⟩
    rw [CallStack.depth_eq]
    change (Machine.withStack { k with control := .running } (values ++ k.stack)).frames.length ≤ _
    rw [frames_withStack, List.length_modifyHead]
    exact Nat.le_of_eq (congrArg List.length frames)
  refine ⟨low m level.frames, low m' level.frames', ?_⟩
  obtain ⟨⟨h₁, h₂, h₃, h₄, h₅, h₆, h₇, h₈⟩, _, _, handlers, handlers'⟩ := level
  refine ⟨⟨h₁, h₂, h₃, h₄, h₅, h₆, h₇, h₈⟩, ?_, handlers'.trans handlers.symm, rfl⟩
  change m'.calls.modifyTop _ = m.calls.modifyTop _
  rw [calls, stack]

theorem AtSeam.halted (level : AtSeam o.seam m m') (v : Value) :
    Machine.Settled { m with control := .returned v } o.frames.length ∧
      Machine.Settled { m' with control := .returned v } o.frames.length ∧
      Machine.Same { m with control := .returned v } { m' with control := .returned v } := by
  have calls := level.calls_eq
  obtain ⟨⟨h₁, h₂, h₃, h₄, h₅, h₆, h₇, h₈⟩, _, _, handlers, handlers'⟩ := level
  exact ⟨.inl rfl, .inl rfl, ⟨h₁, h₂, h₃, h₄, h₅, h₆, h₇, h₈⟩, calls, handlers'.trans handlers.symm,
    rfl⟩

/-- The frames that an exception drops are gone on both sides. -/
theorem Falls.raised (falls : Falls o.seam m m') (even : o.seam.Even) (id : ExceptionId) :
    (m.raise id).Settled o.frames.length ∧ (m'.raise id).Settled o.frames.length ∧
      (m.raise id).Same (m'.raise id) := by
  obtain ⟨h₁, _, h₃, h₄, h₅, h₆, h₇, h₈⟩ := falls.announced even id
  have kept := m.keeps_announced id
  have kept' := m'.keeps_announced id
  cases opened : o.handlers with
  | nil =>
      have closed : m.handlers = [] := falls.handlers.trans opened
      have closed' : m'.handlers = [] := falls.handlers'.trans opened
      rw [raise_of_nil closed, raise_of_nil closed']
      refine ⟨.inl rfl, .inl rfl, ⟨h₁, rfl, h₃, h₄, h₅, h₆, h₇, h₈⟩, rfl, ?_, rfl⟩
      change (m'.announced id).handlers = (m.announced id).handlers
      rw [kept.handlers, kept'.handlers, closed, closed']
  | cons h hs =>
      have first : m.handlers = h :: hs := falls.handlers.trans opened
      have second : m'.handlers = h :: hs := falls.handlers'.trans opened
      have low : h.frameDepth ≤ o.frames.length := even.low h (by
        change h ∈ o.handlers
        rw [opened]
        exact List.mem_cons_self)
      have left (k : Machine) (us : List Frame) (frames : k.frames = us ++ o.frames) :
          (unwind k.calls h).frames
            = (o.frames.drop (o.frames.length - h.frameDepth)).modifyHead (·.recover h) := by
        rw [unwind, CallStack.frames_modifyTop, CallStack.frames_cutTo]
        change (k.frames.drop (k.frames.length - h.frameDepth)).modifyHead _ = _
        have count : (us ++ o.frames).length - h.frameDepth
            = us.length + (o.frames.length - h.frameDepth) := by
          rw [List.length_append]
          omega
        rw [frames, count, List.drop_length_add_append]
      obtain ⟨us, us', frames, frames', _⟩ := falls.frames
      have left₁ := left m us frames
      have left₂ := left m' us' frames'
      have shallow (k : Machine) (us : List Frame) (frames : k.frames = us ++ o.frames) :
          (unwind k.calls h).depth ≤ o.frames.length := by
        rw [CallStack.depth_eq, left k us frames, List.length_modifyHead, List.length_drop]
        omega
      have counted (k : Machine) : (unwind k.calls h).Counted :=
        (k.calls.counted_cutTo h.frameDepth).modifyTop fun _ => rfl
      have calls : unwind m'.calls h = unwind m.calls h :=
        (counted m').ext (counted m) (left₂.trans left₁.symm)
      rw [raise_of_cons first, raise_of_cons second]
      exact ⟨.inr ⟨rfl, shallow m us frames⟩, .inr ⟨rfl, shallow m' us' frames'⟩,
        ⟨h₁, rfl, h₃, h₄, h₅, h₆, h₇, h₈⟩, calls, rfl, rfl⟩

end

/-! ## Two ways to hand a value on -/

/-- What a frame, or an operation, gives its value to in a direct call and in a callback. -/
inductive Corresponds : Returns → Returns → Prop where
  | same (r : Returns) : Corresponds r r
  | value : Corresponds .value (.resume .push)
  | «instance» (id : InstanceId) :
      Corresponds (.instance id) (.resume (Pending.push.before (.answer (.instance id))))
  /-- A class that is to be constructed is made ready first. -/
  | prepares {tasks : List Task} (c : ClassId) (args : List Value) : (∀ t ∈ tasks, t.Prepares) →
      Corresponds (.resume ⟨tasks, .construct c args⟩)
        (.resume ⟨tasks ++ [.construct c args], .push⟩)

theorem Corresponds.nested {r r' : Returns} (pair : Corresponds r r') (nested : r.isNested = true) :
    r'.isNested = true := by
  cases pair with
  | same => exact nested
  | value => rfl
  | «instance» id => rfl
  | prepares c args _ => rfl

/-- A direct call and a callback, made by the topmost frame of `o`, are under way. -/
inductive Abreast (o : Machine) : Machine → Machine → Prop where
  | waits {m m' : Machine} {pending pending' : Pending} (v : Value) :
      Corresponds (.resume pending) (.resume pending') → AtSeam o.seam m m' →
      m.control = .delivering v pending → m'.control = .delivering v pending' → m.Live →
      Abreast o m m'
  | runs {m m' : Machine} {r r' : Returns} : Corresponds r r' → Twin (o.seam.between r r') m m' →
      m.Live → Abreast o m m'

theorem Goes.abreast {o m m' : Machine} (goes : Goes o.seam Corresponds m m') (even : o.seam.Even)
    (live : m.Live) : Abreast o m m' ∨
      (m.Settled o.frames.length ∧ m'.Settled o.frames.length ∧ m.Same m') := by
  cases goes with
  | waits v pair level control control' => exact .inl (.waits v pair level control control' live)
  | runs pair twin => exact .inl (.runs pair twin live)
  | filled values level => exact .inr (level.filled values)
  | raised id falls => exact .inr (falls.raised even id)
  | halted v level => exact .inr (level.halted v)

theorem Abreast.not_settled {o m m' : Machine} (abreast : Abreast o m m') (even : o.seam.Even) :
    ¬ m.Settled o.frames.length ∧ ¬ m'.Settled o.frames.length := by
  cases abreast with
  | waits v _ _ control control' _ =>
      exact ⟨not_settled_of_delivering control, not_settled_of_delivering control'⟩
  | runs pair twin live => exact twin.not_settled (even.fits pair.nested) live

/-! ## Steps of both calls -/

namespace Abreast

variable {o m m' : Machine}

/-- Both machines take a step. -/
theorem advances_of_goes (abreast : Abreast o m m') (even : o.seam.Even)
    (goes : Goes o.seam Corresponds m.step m'.step) (live : m.step.Live) :
    Advances (Abreast o) o.frames.length m m' 1 1 := by
  obtain ⟨before, before'⟩ := abreast.not_settled even
  have only {k : Machine} (unsettled : ¬ k.Settled o.frames.length) :
      ∀ i < 1, ¬ (k.run i).Settled o.frames.length := by
    intro i few
    rw [Nat.lt_one_iff.1 few]
    exact unsettled
  refine ⟨only before, only before', ?_⟩
  rw [run_one, run_one]
  exact goes.abreast even live

/-- The callback takes more steps to come back, in which it only delivers a value. -/
theorem advances_of_filled (abreast : Abreast o m m') (even : o.seam.Even) {k k' : Machine}
    (level : AtSeam o.seam k k') (values : List Value) {more : Nat}
    (first : m.step = Machine.withStack { k with control := .running } (values ++ k.stack))
    (second : m'.step.run more = Machine.withStack { k' with control := .running } (values ++ k'.stack))
    (delivering : ∀ i < more, ∃ v pending, (m'.step.run i).control = .delivering v pending) :
    Advances (Abreast o) o.frames.length m m' 1 (1 + more) := by
  obtain ⟨before, before'⟩ := abreast.not_settled even
  refine ⟨fun i few => ?_, fun i few => ?_, .inr ?_⟩
  · rw [Nat.lt_one_iff.1 few]
    exact before
  · cases i with
    | zero => exact before'
    | succ i =>
        obtain ⟨v, pending, control⟩ := delivering i (by omega)
        rw [Nat.add_comm, run_add, run_one]
        exact not_settled_of_delivering control
  · rw [run_add, run_one, run_one, first, second]
    exact level.filled values

end Abreast

/-- A value that is delivered to the operand stack. -/
theorem Machine.step_push {m : Machine} {v : Value} (control : m.control = .delivering v .push) :
    m.step = Machine.withStack { m with control := .running } ([v] ++ m.stack) := by
  have upcoming : m.upcoming = Action.proceed >>= fun _ => Action.push v := by
    rw [Machine.upcoming, control]
    rfl
  have done : m.upcoming.result m = (.ok (), Machine.withStack { m with control := .running } ([v] ++ m.stack)) := by
    rw [upcoming]
    exact result_push v { m with control := .running }
  exact perform_of_ok done

/-- A value that another takes the place of. -/
theorem Machine.step_answer {m : Machine} {v w : Value} {pending : Pending}
    (control : m.control = .delivering v (pending.before (.answer w))) :
    m.step = { m with control := .delivering w pending } := by
  have upcoming : m.upcoming = Action.deliver w pending := by
    rw [Machine.upcoming, control]
    rfl
  have done : m.upcoming.result m = (.ok (), { m with control := .delivering w pending }) := by
    rw [upcoming]
    rfl
  exact perform_of_ok done

/-- A frame that returns ends both calls, or both go on with what waits for its value. -/
theorem Abreast.returns {o m m' : Machine} (abreast : Abreast o m m') (even : o.seam.Even)
    (live : m.step.Live) {r r' : Returns} (pair : Corresponds r r') {v : Value} {k k' : Machine}
    (level : AtSeam o.seam k k') (running : k.control = .running) (running' : k'.control = .running)
    (first : m.step = k.perform (handOver r v)) (second : m'.step = k'.perform (handOver r' v)) :
    ∃ j, 0 < j ∧ Advances (Abreast o) o.frames.length m m' 1 j := by
  have pushed (w : Value) : k.perform (Action.push w)
      = Machine.withStack { k with control := .running } ([w] ++ k.stack) := by
    rw [perform_of_ok (result_push w k), withControl_self running]
    rfl
  have delivered (pending : Pending) : k'.perform (Action.deliver v pending)
      = { k' with control := .delivering v pending } := rfl
  cases pair with
  | same r =>
      refine ⟨1, Nat.one_pos, abreast.advances_of_goes even ?_ live⟩
      rw [first, second]
      exact .handOver even .same level running running' r v
  | value =>
      refine ⟨1 + 1, Nat.succ_pos _, abreast.advances_of_filled even level [v] ?_ ?_ ?_⟩
      · rw [first]
        exact pushed v
      · rw [second]
        exact (run_one _).trans (step_push rfl)
      · intro i few
        rw [Nat.lt_one_iff.1 few, second]
        exact ⟨v, .push, rfl⟩
  | «instance» id =>
      have answered : m'.step.step = { k' with control := .delivering (.instance id) .push } := by
        rw [second]
        exact step_answer rfl
      refine ⟨1 + 2, Nat.succ_pos _, abreast.advances_of_filled even level [.instance id] ?_ ?_ ?_⟩
      · rw [first]
        exact pushed (.instance id)
      · rw [run_succ, run_one, answered]
        exact step_push rfl
      · intro i few
        rcases (by omega : i = 0 ∨ i = 1) with rfl | rfl
        · rw [second]
          exact ⟨v, _, rfl⟩
        · rw [run_one, answered]
          exact ⟨.instance id, .push, rfl⟩
  | prepares c args all =>
      refine ⟨1, Nat.one_pos, abreast.advances_of_goes even ?_ live⟩
      rw [first, second]
      exact .waits v (.prepares c args all) (level.withControl _ _) rfl rfl

/-- A call that the limit of nested calls stops. -/
def Refused (outcome : Except Raised Unit) : Prop :=
  ∃ limit, outcome = .error (.fault (.nestingLimit limit))

/-- A class that is ready for use is constructed. -/
theorem Meets.construct {c : Seam} (even : c.Even) {m m' : Machine} (level : AtSeam c m m')
    (cls : ClassId) (args : List Value) (v : Value) :
    Refused ((performTask (.construct cls args) v .push).result m').1 ∨
      Meets c Corresponds ((conclude (.construct cls args) v).result m)
        ((performTask (.construct cls args) v .push).result m') := by
  obtain ⟨same, after⟩ := (construction_quiet cls args).atSeam even level
  unfold conclude performTask
  dsimp only
  rw [result_bind, result_bind]
  rcases made : (construction cls args).result m with ⟨e | ⟨id, call⟩, n⟩ <;>
    rcases made' : (construction cls args).result m' with ⟨e' | built', n'⟩ <;>
    rw [made, made'] at same after <;> cases same
  · exact .inr (.raises e after)
  · exact Meets.activate_enter even (.instance id) after call

/-- What a direct call and a callback wait for is carried on. -/
theorem Corresponds.resume {c : Seam} {pending pending' : Pending}
    (pair : Corresponds (.resume pending) (.resume pending')) (even : c.Even) {m m' : Machine}
    (level : AtSeam c m m') (v : Value) :
    Refused ((Action.resume v pending').result m').1 ∨
      Meets c Corresponds ((Action.resume v pending).result m)
        ((Action.resume v pending').result m') := by
  cases pair with
  | same => exact .inr ((resume_answers v pending).meets even .same level nofun)
  | @prepares tasks cls args all =>
      cases tasks with
      | nil => exact Meets.construct even level cls args v
      | cons task tasks =>
          right
          have hands := performTask_hands (all task List.mem_cons_self) v
          refine hands.meets even (fun more others => ?_) level
          have whole : Corresponds (.resume ⟨more ++ tasks, .construct cls args⟩)
              (.resume ⟨(more ++ tasks) ++ [.construct cls args], .push⟩) := by
            refine .prepares cls args fun t member => ?_
            rcases List.mem_append.1 member with new | old
            · exact others t new
            · exact all t (List.mem_cons_of_mem _ old)
          rw [List.append_assoc] at whole
          exact whole

/-- A direct call and a callback that are under way go on, or both come back. -/
theorem Abreast.advances {o m m' : Machine} (abreast : Abreast o m m') (even : o.seam.Even)
    (free : m'.Unrefused o.frames.length) :
    ∃ i j, 0 < i ∧ 0 < j ∧ Advances (Abreast o) o.frames.length m m' i j := by
  have accepted : ¬ Refused (m'.upcoming.result m').1 := by
    rintro ⟨limit, stopped⟩
    refine free 0 (fun k none => ?_) limit stopped
    rw [Nat.le_zero.1 none]
    exact (abreast.not_settled even).2
  have whole := abreast
  cases abreast with
  | @waits pending pending' v pair level control control' live =>
      have upcoming : m.upcoming = Action.resume v pending := by rw [Machine.upcoming, control]
      have upcoming' : m'.upcoming = Action.resume v pending' := by rw [Machine.upcoming, control']
      have goes : Goes o.seam Corresponds m.step m'.step := by
        rw [upcoming'] at accepted
        unfold Machine.step
        rw [upcoming, upcoming']
        exact ((pair.resume even level v).resolve_left accepted).perform
      exact ⟨1, 1, Nat.one_pos, Nat.one_pos, whole.advances_of_goes even goes live.step⟩
  | runs pair twin live =>
      rcases twin.onward (even.fits pair.nested) live with stopped | above |
        ⟨v, k, k', level, running, running', first, second⟩ | ⟨id, k, k', falls, first, second⟩
      · exact absurd stopped.2 accepted
      · exact ⟨1, 1, Nat.one_pos, Nat.one_pos,
          whole.advances_of_goes even (.runs pair above) live.step⟩
      · obtain ⟨j, some, advances⟩ :=
          whole.returns even live.step pair level running running' first second
        exact ⟨1, j, Nat.one_pos, some, advances⟩
      · refine ⟨1, 1, Nat.one_pos, Nat.one_pos, whole.advances_of_goes even ?_ live.step⟩
        rw [first, second]
        exact .raised id falls

/-! ## Both calls -/

/-- What a call from the frame and one in the middle of an operation of the frame come to. -/
theorem Meets.invoke {c : Seam} (even : c.Even) {m m' : Machine} (level : AtSeam c m m')
    (callee : Value) (args : List Value) :
    Refused ((Action.call callee args .push).result m').1 ∨
      Meets c Corresponds ((Action.invoke callee args).result m)
        ((Action.call callee args .push).result m') := by
  have heaps := level.world.heap
  have answers : Answers false (.frame 1) (Action.call callee args .push) :=
    call_answers callee args rfl
  have same := answers.meets even Corresponds.same level nofun
  cases found : callOf? m.heap callee args with
  | some call =>
      have direct : (Action.invoke callee args).result m = (Action.activate call .value).result m := by
        unfold Action.invoke
        rw [result_bind_ok (result_askHeap _ m), found]
      have nested : (Action.call callee args .push).result m' = (Action.enter call .push).result m' := by
        unfold Action.call
        rw [result_bind_ok (result_askHeap _ m'), ← heaps, found]
      rw [direct, nested]
      exact Meets.activate_enter even .value level call
  | none =>
      have plain (other : ∀ cls, callee ≠ .cls cls) :
          (Action.invoke callee args).result m = (Action.call callee args .push).result m := by
        unfold Action.invoke
        rw [result_bind_ok (result_askHeap _ m), found]
        dsimp only
        split
        · next cls => exact absurd rfl (other cls)
        · rfl
      by_cases constructs : ∃ cls, callee = .cls cls
      · right
        obtain ⟨cls, rfl⟩ := constructs
        have related (tasks : List Task) (all : ∀ t ∈ tasks, t.Prepares) :
            Corresponds (.resume (Pending.after { finish := .construct cls args } tasks))
              (.resume ((Pending.push.before (.construct cls args)).after tasks)) := by
          have pair := Corresponds.prepares cls args all
          rw [Pending.after, List.append_nil]
          exact pair
        exact (prepare_hands cls).meets even related level
      · right
        rw [plain fun cls is => constructs ⟨cls, is⟩]
        exact same

end ScriptMachine
