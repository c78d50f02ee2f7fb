import ScriptMachine.Proofs.Code.Stretches
import ScriptMachine.Proofs.Machine.Passages
import ScriptMachine.Proofs.Machine.Sealing

/-!
Activations that stay in a stretch of their code. While they do, and no region around the stretch is
closed, the layouts they work at are those of the stretch, raised by what lies below. So they never
reach for the operands below, and a secret among these is kept.
-/

namespace ScriptMachine

/-- The stretch of its code that an activation is in, with the operands below and the regions
around. -/
structure Enclosure where
  frame : Frame
  base : List Frame
  pool : Array Constant
  sketch : Sketch
  first : Nat
  last : Nat
  /-- How many operands lie below. -/
  low : Nat
  /-- The regions around, as the stretch knows them and as they are. -/
  around : List Region
  outer : List Region

namespace Enclosure

variable (c : Enclosure)

/-- The code of the activation. -/
def body : Array Instruction :=
  c.frame.method.code.body

def Covered : Prop :=
  Covers c.pool c.body c.sketch c.first c.last

/-- The activation works at an instruction, with the layout that the stretch has there. -/
def Tracks (m : Machine) (ip : Nat) : Prop :=
  ∃ above next stack l, m.frames = above ++ { c.frame with ip := next, stack } :: c.base ∧
    Frame.Works { c.frame with ip := next, stack } (m.Fetching above) ip l ∧
    Known c.sketch c.low c.around c.outer ip l

/-- No region around is closed. -/
def Open (handlers : List Handler) : Prop :=
  c.outer.length ≤ handlers.countP (·.frameDepth == c.base.length + 1)

end Enclosure

theorem Owns.count {handlers : List Handler} {above base : List Frame} {l : Layout}
    (owns : Owns handlers above base l) :
    handlers.countP (·.frameDepth == base.length + 1) = l.regions.length := by
  obtain ⟨upper, below, rfl, high, low, _⟩ := owns
  have own : (l.handlers base.length).countP (·.frameDepth == base.length + 1)
      = l.regions.length := by
    rw [Layout.handlers, List.countP_map]
    exact List.countP_eq_length.2 fun r _ => beq_self_eq_true _
  have first : upper.countP (·.frameDepth == base.length + 1) = 0 :=
    List.countP_eq_zero.2 fun h member => by
      have deep := high h member
      simp only [beq_iff_eq]
      omega
  have last : below.countP (·.frameDepth == base.length + 1) = 0 :=
    List.countP_eq_zero.2 fun h member => by
      have deep := low h member
      simp only [beq_iff_eq]
      omega
  rw [List.countP_append, List.countP_append, first, own, last, Nat.zero_add, Nat.add_zero]

namespace Enclosure

variable {c : Enclosure} {m : Machine} {above above' : List Frame} {ip next next' : Nat}
  {stack stack' : List Value}

/-- An activation that stays in the stretch keeps to it for another step. -/
theorem Tracks.step (tracks : c.Tracks m ip) (live : m.Live) (covered : c.Covered)
    (inside : c.first ≤ ip ∧ ip ≤ c.last)
    (frames' : m.step.frames = above' ++ { c.frame with ip := next', stack := stack' } :: c.base)
    (code : c.body[next']? ≠ none) (opened : c.Open m.step.handlers) :
    ∃ ip', c.Tracks m.step ip' ∧ (ip' = ip ∨ ip' = next' ∧ m.step.Fetching above') := by
  obtain ⟨above, next, stack, l, frames, works, known⟩ := tracks
  obtain ⟨ip', l', works', owns'⟩ := live.step.works frames' fun _ => code
  have still : c.outer.length ≤ l'.regions.length := owns'.count ▸ opened
  obtain ⟨pool, sketch, charted⟩ := works'.charted
  have settled (flow : Flow c.body ip' l) (same : ip' = ip) : ∃ ip', c.Tracks m.step ip' ∧
      (ip' = ip ∨ ip' = next' ∧ m.step.Fetching above') := by
    obtain rfl : l' = l := charted.layout_unique works'.flow flow
    exact ⟨ip', ⟨_, _, _, l', frames', works', same ▸ known⟩, .inl same⟩
  have moved {i : Instruction} (found : c.body[ip]? = some i) (now : m.step.Fetching above')
      (goes : ∃ l', (next', l') ∈ i.successors ip l) : ∃ ip', c.Tracks m.step ip' ∧
      (ip' = ip ∨ ip' = next' ∧ m.step.Fetching above') := by
    obtain ⟨l'', goes⟩ := goes
    obtain ⟨here, _⟩ := works'.fetching now
    obtain rfl : next' = ip' := here
    obtain rfl : l' = l'' := charted.layout_unique works'.flow (.step works.flow found goes)
    exact ⟨next', ⟨_, _, _, l', frames', works', covered.next inside known found goes still⟩,
      .inr ⟨rfl, now⟩⟩
  -- the instruction falls through, and the activation waits for it now or is behind it
  have fallen {i : Instruction} (found : c.body[ip]? = some i) (falls : i.Falls)
      (behind : next' = ip + 1) : ∃ ip', c.Tracks m.step ip' ∧
      (ip' = ip ∨ ip' = next' ∧ m.step.Fetching above') := by
    by_cases now : m.step.Fetching above'
    · refine moved found now ⟨{ l with depth := i.fallDepth l.depth }, ?_⟩
      rw [behind, falls.2]
      exact List.mem_singleton.2 rfl
    · obtain ⟨_, waits, _⟩ := works'.waiting now
      have waits : next' = ip' + 1 := waits
      obtain rfl : ip' = ip := Nat.succ.inj (waits.symm.trans behind)
      exact settled works.flow rfl
  cases live.passes frames frames' with
  | stays waits same =>
      obtain ⟨i, behind, found, falls, _⟩ := works.waiting waits
      exact fallen found falls (same.trans behind)
  | falls now found falls behind =>
      obtain ⟨here, _⟩ := works.fetching now
      have here : next = ip := here
      subst here
      exact fallen found falls behind
  | goes now found now' goes =>
      obtain ⟨here, _⟩ := works.fetching now
      have here : next = ip := here
      subst here
      exact moved found now' (goes l)
  | returns last =>
      have last : next' = c.body.size := last
      exact absurd (Array.getElem?_eq_none (Nat.le_of_eq last.symm)) code
  | @recovers h hs first own now' target =>
      obtain ⟨i, _, found, _⟩ := covered ip inside.1 inside.2
      have some (now : m.Fetching above) :
          Frame.next? { c.frame with ip := next, stack } ≠ none := fun none => by
        obtain ⟨here, _⟩ := works.fetching now
        have here : next = ip := here
        subst here
        exact Option.some_ne_none i (found.symm.trans none)
      obtain ⟨_, _, again, owns⟩ := live.works frames some
      obtain ⟨rfl, rfl⟩ := works.unique again
      obtain ⟨r, others, regions, same⟩ := (first ▸ owns).innermost own
      obtain ⟨here, _⟩ := works'.fetching now'
      have here : next' = ip' := here
      have there : ip' = r.target := here.symm.trans (target.trans same)
      have flow : Flow c.body ip' ⟨r.height, others⟩ :=
        there ▸ Flow.raise works.flow found regions
      obtain rfl := charted.layout_unique works'.flow flow
      exact ⟨ip', ⟨_, _, _, _, frames', works',
        there ▸ covered.recovers inside known regions still⟩,
        .inr ⟨here.symm, now'⟩⟩

/-! ## Secrets below -/

variable {s : Secret}

/-- The activation does not reach for the operands below. -/
theorem Tracks.room (tracks : c.Tracks m ip) (covered : c.Covered)
    (inside : c.first ≤ ip ∧ ip ≤ c.last) (depth : s.depth = c.base.length)
    (size : s.operands.length = c.low) : s.discipline.Room m := by
  obtain ⟨above, next, stack, l, frames, works, known⟩ := tracks
  intro running f rest i top found f' rest' top' some
  obtain ⟨rfl, rfl⟩ := List.cons.inj (top.symm.trans top')
  rw [s.low_eq] at some ⊢
  split at some
  · next deep =>
    rw [if_pos deep, size]
    cases above with
    | cons u above =>
        have long := congrArg List.length (top.symm.trans frames)
        rw [List.length_cons, List.length_append, List.length_cons, List.length_cons] at long
        omega
    | nil =>
        obtain ⟨rfl, rfl⟩ := List.cons.inj (top.symm.trans frames)
        obtain ⟨here, length⟩ := works.fetching ⟨rfl, running⟩
        have here : next = ip := here
        subst here
        rw [length]
        exact covered.operands inside known found
  · exact absurd rfl some

/-- The operands below are there. -/
theorem Tracks.stands (tracks : c.Tracks m ip) (covered : c.Covered)
    (inside : c.first ≤ ip ∧ ip ≤ c.last) (depth : s.depth = c.base.length)
    (size : s.operands.length = c.low) : s.Stands m.frames := by
  obtain ⟨above, next, stack, l, frames, works, known⟩ := tracks
  intro _
  refine ⟨{ c.frame with ip := next, stack }, c.base, ⟨above, frames.symm⟩, depth.symm, ?_⟩
  change s.operands.length ≤ stack.length
  rw [size]
  by_cases now : m.Fetching above
  · obtain ⟨_, length⟩ := works.fetching now
    have length : stack.length = l.depth := length
    rw [length]
    exact known.low_le
  · obtain ⟨i, _, found, _, length⟩ := works.waiting now
    have length : stack.length + i.pops = l.depth := length
    have enough := covered.operands inside known found
    omega

end Enclosure

end ScriptMachine
