import ScriptMachine.Proofs.Machine.Confinement
import ScriptMachine.Proofs.Meaning.Advance

/-!
Runs that stay in a stretch of the code of an activation. Whatever the activation calls meanwhile,
and whatever regions it opens and closes inside the stretch, a secret among the operands below the
stretch is kept until the activation leaves the stretch with these operands.
-/

namespace ScriptMachine

variable {a : Activation} {regions : List Protection} {first last low high : Nat}
  {m n o : Machine}

namespace Activation

/-- The activation fetches an instruction of a stretch of its code, or carries it out and waits for
what it called. The regions that were open before still are. -/
def Amid (a : Activation) (regions : List Protection) (first last : Nat) (m : Machine) : Prop :=
  ∃ above ip next stack, m.frames = above ++ a.top next stack :: a.base ∧
    (m.Fetching above → next = ip) ∧ (¬ m.Fetching above → next = ip + 1) ∧
    (first ≤ ip ∧ ip ≤ last) ∧ a.handlers regions <:+ m.handlers

/-- The machine comes to another, with the activation in the stretch until then. -/
def Comes (a : Activation) (regions : List Protection) (first last : Nat) (m n : Machine) : Prop :=
  ∃ count, m.run count = n ∧ ∀ k < count, a.Amid regions first last (m.run k)

/-- The activation is about to fetch an instruction, with these operands and open regions. -/
abbrev Arrives (a : Activation) (regions : List Protection) (ip : Nat) (stack : List Value)
    (m : Machine) : Prop :=
  a.At regions ip stack m m

theorem Amid.widen (amid : a.Amid regions first last m) (before : low ≤ first)
    (behind : last ≤ high) : a.Amid regions low high m := by
  obtain ⟨above, ip, next, stack, frames, now, waits, inside, suffix⟩ := amid
  exact ⟨above, ip, next, stack, frames, now, waits,
    ⟨Nat.le_trans before inside.1, Nat.le_trans inside.2 behind⟩, suffix⟩

namespace Comes

theorem trans (there : a.Comes regions first last m n) (onward : a.Comes regions first last n o) :
    a.Comes regions first last m o := by
  obtain ⟨count, rfl, inside⟩ := there
  obtain ⟨more, rfl, after⟩ := onward
  refine ⟨count + more, m.run_add count more, fun k few => ?_⟩
  by_cases early : k < count
  · exact inside k early
  · obtain ⟨j, rfl⟩ := Nat.exists_eq_add_of_le (Nat.not_lt.1 early)
    rw [Machine.run_add]
    exact after j (Nat.lt_of_add_lt_add_left few)

theorem step (here : a.Amid regions first last m) : a.Comes regions first last m m.step := by
  refine ⟨1, m.run_one, fun k one => ?_⟩
  obtain rfl : k = 0 := by omega
  exact here

theorem widen (comes : a.Comes regions first last m n) (before : low ≤ first)
    (behind : last ≤ high) : a.Comes regions low high m n := by
  obtain ⟨count, same, inside⟩ := comes
  exact ⟨count, same, fun k few => (inside k few).widen before behind⟩

/-- The machine leaves the stretch in one way only. -/
theorem unique (there : a.Comes regions first last m n) (there' : a.Comes regions first last m o)
    (outside : ¬ a.Amid regions first last n) (outside' : ¬ a.Amid regions first last o) :
    n = o := by
  obtain ⟨count, rfl, inside⟩ := there
  obtain ⟨count', rfl, inside'⟩ := there'
  rcases Nat.lt_trichotomy count count' with less | rfl | more
  · exact absurd (inside' count less) outside
  · rfl
  · exact absurd (inside count' more) outside'

end Comes

namespace At

variable {ip : Nat} {stack : List Value} {e : Machine}

theorem fetching (here : a.At regions ip stack m e) : m.Fetching [] :=
  ⟨rfl, here.control⟩

theorem amid (here : a.At regions ip stack m e) (inside : first ≤ ip ∧ ip ≤ last) :
    a.Amid regions first last m :=
  ⟨[], ip, ip, stack, here.frames, fun _ => rfl, fun busy => absurd here.fetching busy, inside,
    here.handlers ▸ List.suffix_rfl⟩

theorem not_amid (here : a.At regions ip stack m e) (outside : first ≤ ip → last < ip) :
    ¬ a.Amid regions first last m := by
  rintro ⟨above, ip', next, stack', frames, now, _, inside, _⟩
  have frames' : m.frames = [] ++ a.top ip stack :: a.base := here.frames
  obtain ⟨rfl, same⟩ := frame_unique (frames'.symm.trans frames)
  obtain rfl : ip = next := congrArg Frame.ip same
  obtain rfl : ip = ip' := now here.fetching
  exact absurd (outside inside.1) (Nat.not_lt.2 inside.2)

/-- What the evaluator's machine would be does not matter. -/
theorem arrives (here : a.At regions ip stack m e) : a.Arrives regions ip stack m where
  live := here.live
  counted := here.counted
  constants := here.constants
  stands := ⟨here.counted, _, here.frames, fun _ => rfl⟩
  world := .refl m
  frames := here.frames
  handlers := here.handlers
  control := here.control
  low := here.low

end At

/-- The open regions of the activation, among all handlers. -/
theorem count_handlers (a : Activation) (regions : List Protection) :
    (a.handlers regions).countP (·.frameDepth == a.base.length + 1) = regions.length := by
  have below : a.below.countP (·.frameDepth == a.base.length + 1) = 0 :=
    List.countP_eq_zero.2 fun h member => by
      have deep := a.low h member
      simp only [beq_iff_eq]
      omega
  have own : (regions.map fun p => (⟨a.base.length + 1, p.target, p.floor.length⟩ : Handler)).countP
      (·.frameDepth == a.base.length + 1) = regions.length := by
    rw [List.countP_map]
    exact List.countP_eq_length.2 fun _ _ => beq_self_eq_true _
  rw [handlers, List.countP_append, own, below, Nat.add_zero]

end Activation

/-! ## Secrets below a stretch -/

variable {s : Secret} {pool : Array Constant} {sketch : Sketch} {around : List Region} {d ip : Nat}
  {stack : List Value}

namespace Enclosure

/-- The stretch, as the activation entered it. -/
def entered (a : Activation) (s : Secret) (pool : Array Constant) (sketch : Sketch)
    (first last : Nat) (around outer : List Region) : Enclosure :=
  { frame := a.frame, base := a.base, pool, sketch, first, last, low := s.operands.length, around,
    outer }

/-- An activation that enters a stretch is tracked from there on. -/
theorem tracks_entered (here : a.Arrives regions first stack m)
    (covers : Covers pool a.body sketch first last) (inside : first ≤ last)
    (view_ : sketch first = some (view d around)) (count : around.length = regions.length)
    (depth : stack.length = d + s.operands.length) :
    ∃ outer, (entered a s pool sketch first last around outer).Tracks m first ∧
      outer.length = regions.length := by
  obtain ⟨i, _, found, _⟩ := covers first (Nat.le_refl _) inside
  have frames : m.frames = [] ++ a.top first stack :: a.base := here.frames
  obtain ⟨ip, l, works, owns⟩ := here.live.works frames fun _ none =>
    Option.some_ne_none i (found.symm.trans none)
  obtain ⟨same, length⟩ := works.fetching ⟨rfl, here.control⟩
  obtain rfl : first = ip := same
  have regions : l.regions.length = regions.length := by
    rw [← owns.count, here.handlers, a.count_handlers]
  have length : stack.length = l.depth := length
  refine ⟨l.regions, ⟨[], first, stack, l, frames, works, ⟨d, around⟩, _, view_, ?_⟩, regions⟩
  exact ⟨count.trans regions.symm, length.symm.trans depth, [], rfl, rfl⟩

end Enclosure

namespace Discipline.Within

variable {D : Discipline} {frames : List Frame}

/-- Frames that have none of the operands pass as a whole. -/
theorem allows (within : D.Within frames) (none : ∀ depth < frames.length, D.low depth = []) :
    ∀ f ∈ frames, D.Allows f := by
  induction frames with
  | nil => exact List.forall_mem_nil _
  | cons f rest ih =>
      obtain ⟨held, below⟩ := within
      rw [none rest.length (Nat.lt_succ_self _)] at held
      refine List.forall_mem_cons.2
        ⟨?_, ih below fun depth few => none depth (Nat.lt_succ_of_lt few)⟩
      obtain ⟨above, same, fine⟩ := held.operands
      rw [List.append_nil] at same
      exact ⟨held.receiver, same ▸ fine, held.returns⟩

theorem of_allows (allows : ∀ f ∈ frames, D.Allows f)
    (none : ∀ depth < frames.length, D.low depth = []) : D.Within frames := by
  induction frames with
  | nil => trivial
  | cons f rest ih =>
      obtain ⟨first, others⟩ := List.forall_mem_cons.1 allows
      refine ⟨?_, ih others fun depth few => none depth (Nat.lt_succ_of_lt few)⟩
      rw [none rest.length (Nat.lt_succ_self _)]
      exact Frame.held_of_passes first

end Discipline.Within

namespace Activation

/-- Nothing but operands of the activation refers to the iterator. -/
structure Lacks (a : Activation) (i : IteratorId) (m : Machine) : Prop where
  receiver : Avoids i a.frame.receiver
  returns : Avoids i a.frame.returns
  base : ∀ f ∈ a.base, Avoids i f
  heap : m.heap.Lacks i
  globals : Avoids i m.globals
  foreign : ∀ fn receiver args, Avoids i receiver → Avoids i args →
    Avoids i (m.foreign fn receiver args)

theorem Lacks.world {e : Machine} {i : IteratorId} (lacks : a.Lacks i e) (world : m.World e) :
    a.Lacks i m :=
  { lacks with
    heap := world.heap ▸ lacks.heap
    globals := world.globals ▸ lacks.globals
    foreign := world.foreign ▸ lacks.foreign }

theorem Lacks.withHeap {i : IteratorId} {h : Heap} (lacks : a.Lacks i m) (fine : h.Lacks i) :
    a.Lacks i { m with heap := h } :=
  { lacks with heap := fine }

/-- A secret of the activation, or of no one, is one of its operands. -/
theorem lacks_of_kept (kept : s.Kept m) (frames : m.frames = a.top ip stack :: a.base)
    (own : s.operands = [] ∨ s.depth = a.base.length) : a.Lacks s.iterator m := by
  have within := kept.frames
  rw [frames] at within
  obtain ⟨top, below⟩ := within
  refine ⟨top.receiver, top.returns, below.allows fun depth few => ?_, kept.heap.toMeets,
    kept.globals, kept.foreign⟩
  rw [s.low_eq]
  split
  · next same => exact own.resolve_right fun there => absurd (same.trans there) (Nat.ne_of_lt few)
  · rfl

/-- The lowest operands of the activation are a secret if nothing else refers to the iterator. -/
theorem Lacks.kept {above : List Value} (lacks : a.Lacks s.iterator m)
    (here : a.Arrives regions ip (above ++ s.operands) m) (known : Avoids s.iterator above)
    (depth : s.depth = a.base.length) (state : m.heap.iterators[s.iterator]? = s.state)
    (count : s.count ≤ m.heap.iterators.size) : s.Kept m := by
  have below : s.discipline.Within a.base := .of_allows lacks.base fun d few =>
    if_neg fun same => absurd (same.trans depth) (Nat.ne_of_lt few)
  have deep : s.depth < m.frames.length := by
    rw [here.frames, depth]
    exact Nat.lt_succ_self _
  refine ⟨⟨lacks.heap, state, count⟩, ?_, ?_, lacks.globals, lacks.foreign, fun _ => deep⟩
  · rw [here.frames]
    refine ⟨⟨lacks.receiver, ⟨above, ?_, known⟩, lacks.returns⟩, below⟩
    rw [s.low_eq, if_pos depth.symm]
    rfl
  · rw [here.control]
    trivial

/-- An activation that has left a stretch with the operands below it has kept them. -/
theorem Comes.keeps (comes : a.Comes regions first last m n)
    (covers : Covers pool a.body sketch first last) (inside : first ≤ last)
    (view_ : sketch first = some (view d around)) (count : around.length = regions.length)
    (here : a.Arrives regions first stack m) (length : stack.length = d + s.operands.length)
    (there : a.Arrives regions ip s.operands n) (more : last + 1 < a.body.size) (kept : s.Kept m)
    (depth : s.depth = a.base.length) (known : s.state ≠ none) : s.Kept n := by
  obtain ⟨steps, rfl, amid⟩ := comes
  obtain ⟨outer, entered, opened⟩ :=
    Enclosure.tracks_entered here covers inside view_ count length
  let c := Enclosure.entered a s pool sketch first last around outer
  -- in the stretch the secret is kept and the activation is tracked
  have along : ∀ k < steps, s.Kept (m.run k) ∧
      ∃ ip, (c.first ≤ ip ∧ ip ≤ c.last) ∧ c.Tracks (m.run k) ip := by
    intro k few
    induction k with
    | zero => exact ⟨kept, first, ⟨Nat.le_refl _, inside⟩, entered⟩
    | succ k ih =>
        obtain ⟨kept, ip, within, tracks⟩ := ih (Nat.lt_of_succ_lt few)
        obtain ⟨above, own, next, left, frames, now, waits, within', suffix⟩ := amid (k + 1) few
        rw [Machine.run_succ] at frames now waits suffix ⊢
        have opened : c.Open (m.run k).step.handlers := by
          have more := suffix.sublist.countP_le (p := (·.frameDepth == a.base.length + 1))
          rw [a.count_handlers] at more
          exact Nat.le_trans (Nat.le_of_eq opened) more
        have code : next < a.body.size := by
          by_cases fetching : (m.run k).step.Fetching above
          · have same := now fetching
            omega
          · have same := waits fetching
            omega
        obtain ⟨ip', tracks', same⟩ := tracks.step (here.live.run k) covers within frames
          (fun none => Nat.not_le.2 code (Array.getElem?_eq_none_iff.1 none)) opened
        have within' : c.first ≤ ip' ∧ ip' ≤ c.last := by
          rcases same with rfl | ⟨rfl, fetching⟩
          · exact within
          · exact now fetching ▸ within'
        refine ⟨?_, ip', within', tracks'⟩
        exact kept.step_still known (tracks.room covers within depth rfl)
          (tracks'.stands covers within' depth rfl)
  cases steps with
  | zero => exact kept
  | succ steps =>
      obtain ⟨kept, ip, within, tracks⟩ := along steps (Nat.lt_succ_self _)
      rw [Machine.run_succ] at there ⊢
      refine kept.step_still known (tracks.room covers within depth rfl) fun _ => ?_
      rw [there.frames]
      exact ⟨_, _, List.suffix_rfl, depth.symm, Nat.le_refl _⟩

end Activation

end ScriptMachine
