import ScriptMachine.Proofs.Machine.Secrets

/-!
Secrets of a run, step by step. An instruction takes its operands from above those that are kept, as
long as there are enough of them. So a step keeps a secret if it leaves the frame that has the
operands where it is, and a machine in which nothing refers to iterators that were never made stays
one.
-/

namespace ScriptMachine

open ScriptMachine.Action

variable {i : IteratorId} {s : Secret}

/-! ## Steps -/

/-- Raising an exception changes no iterator. -/
theorem Machine.iterators_raise (m : Machine) (id : ExceptionId) :
    (m.raise id).heap.iterators = m.heap.iterators := by
  have announced : (m.announced id).heap.iterators = m.heap.iterators := by
    rw [Machine.announced, Machine.tell, Machine.heap_note]
    rfl
  cases opened : m.handlers with
  | nil => rw [raise_of_nil opened, announced]
  | cons h hs => rw [raise_of_cons opened, announced]

theorem Raised.iterators_resolve (e : Raised) (m : Machine) :
    (e.resolve m).2.heap.iterators = m.heap.iterators := by
  cases e <;> rfl

/-- The frame that has the operands is there, with as many operands. -/
def Secret.Stands (s : Secret) (frames : List Frame) : Prop :=
  s.operands ≠ [] → ∃ f rest, f :: rest <:+ frames ∧ rest.length = s.depth ∧
    s.operands.length ≤ f.stack.length

namespace Secret

variable {m : Machine}

/-- The frame that has the operands is one of those that are live. -/
theorem Stands.depth_lt {frames : List Frame} (stands : s.Stands frames) (some : s.operands ≠ []) :
    s.depth < frames.length := by
  obtain ⟨f, rest, suffix, depth, _⟩ := stands some
  have long := suffix.length_le
  rw [List.length_cons, depth] at long
  exact long

/-- What a handler leaves the frame includes the operands. -/
theorem Stands.recovered {f : Frame} {rest : List Frame} {h : Handler}
    (stands : s.Stands (f.recover h :: rest)) (some : s.discipline.low rest.length ≠ []) :
    (s.discipline.low rest.length).length
        + (f.stack.take (f.stack.length - h.stackHeight)).length ≤ f.stack.length := by
  rw [s.low_eq] at some ⊢
  split at some
  · next same =>
    obtain ⟨g, others, suffix, depth, enough⟩ := stands some
    have whole := suffix.eq_of_length (by
      rw [List.length_cons, List.length_cons, depth, same])
    obtain ⟨rfl, rfl⟩ := List.cons.inj whole
    have left : (f.recover h).stack.length = f.stack.length - (f.stack.length - h.stackHeight) :=
      List.length_drop
    rw [if_pos same, List.length_take]
    omega
  · exact absurd rfl some

namespace Kept

/-- A fault becomes a new exception, which refers to no iterator. -/
theorem resolve (kept : s.Kept m) (e : Raised) : s.Kept (e.resolve m).2 := by
  cases e with
  | fault cause | defect cause => exact { kept with heap := kept.heap.newException rfl }
  | exception id => exact kept

/-- Raising an exception drops frames and operands, but not those that are kept. -/
theorem raise (kept : s.Kept m) (id : ExceptionId) (stands : s.Stands (m.raise id).frames) :
    s.Kept (m.raise id) := by
  have traced : s.Kept { m with heap := m.heap.setTrace id m.trace } :=
    { kept with heap := { kept.heap with } }
  have announced : s.Kept (m.announced id) := by
    unfold Machine.announced Machine.tell
    exact traced.note _
  cases opened : m.handlers with
  | nil =>
      rw [Machine.raise_of_nil opened] at stands ⊢
      exact { announced with
        frames := trivial
        control := trivial
        there := stands.depth_lt }
  | cons h hs =>
      have frames := Machine.frames_raise_of_cons opened id
      have there : s.operands ≠ [] → s.depth < (m.raise id).frames.length := stands.depth_lt
      have within : s.discipline.Within (m.raise id).frames := by
        have old : s.discipline.Within (m.frames.drop (m.frames.length - h.frameDepth)) :=
          kept.frames.of_suffix (List.drop_suffix _ _)
        rw [frames] at stands ⊢
        generalize m.frames.drop (m.frames.length - h.frameDepth) = lower at old stands
        cases lower with
        | nil => trivial
        | cons f rest =>
            have split := (List.take_append_drop (f.stack.length - h.stackHeight) f.stack).symm
            have held := (old.1.taken split fun some => ?_).2
            · exact ⟨{ held with }, old.2⟩
            · exact stands.recovered some
      rw [Machine.raise_of_cons opened] at within there ⊢
      exact { announced with frames := within, control := trivial, there }

/-- Whatever an action came to, raising what it raised included. -/
theorem performed {a : Action Unit}
    (after : s.Kept (a.result m).2 ∨ s.Made (a.result m).2)
    (stands : s.Stands (m.perform a).frames) : s.Kept (m.perform a) ∨ s.Made (m.perform a) := by
  rcases done : a.result m with ⟨e | _, n⟩ <;> rw [done] at after
  · rw [Machine.perform_of_error done] at stands ⊢
    rcases after with kept | made
    · exact .inl ((kept.resolve e).raise _ stands)
    · refine .inr ⟨made.1, ?_⟩
      rw [Machine.iterators_raise, e.iterators_resolve]
      exact made.2
  · rw [Machine.perform_of_ok done]
    exact after

/-- A step keeps the secret as long as the frame stands, unless it makes the iterator. -/
theorem step (kept : s.Kept m) (room : s.discipline.Room m) (stands : s.Stands m.step.frames) :
    s.Kept m.step ∨ s.Made m.step :=
  performed ((kept.upcoming room stands.depth_lt).imp_left And.right) stands

/-- An iterator that is there is not made again. -/
theorem step_still (kept : s.Kept m) (there : s.state ≠ none) (room : s.discipline.Room m)
    (stands : s.Stands m.step.frames) : s.Kept m.step :=
  (kept.step room stands).resolve_right fun made => there made.1

end Kept

end Secret

/-! ## Iterators that were never made -/

/-- An iterator that was not made, among so many that were. -/
def Secret.unmade (count : Nat) (i : IteratorId) : Secret :=
  { iterator := i, state := none, count }

/-- Nothing refers to an iterator that was not made, and functions of the host will not either. -/
def Machine.Sealed (m : Machine) : Prop :=
  ∀ i, m.heap.iterators.size ≤ i → Secret.Kept (.unmade m.heap.iterators.size i) m

/-- How many iterators there are makes no difference to the frames. -/
theorem Secret.within_unmade {count : Nat} {frames : List Frame}
    (within : (Secret.unmade count i).discipline.Within frames) (count' : Nat) :
    (Secret.unmade count' i).discipline.Within frames := by
  induction frames with
  | nil => trivial
  | cons f rest ih => exact ⟨within.1, ih within.2⟩

namespace Machine.Sealed

variable {m n : Machine}

/-- An iterator that was not made still is not, or has been made by now. -/
theorem of_kept {count : Nat} (after : ∀ i, count ≤ i →
    Secret.Kept (.unmade count i) n ∨ Secret.Made (.unmade count i) n) : n.Sealed := by
  have many : count ≤ n.heap.iterators.size := by
    rcases after _ (Nat.le_refl _) with kept | made
    · exact kept.heap.own.2
    · exact Nat.le_of_lt made.2
  intro i beyond
  rcases after i (Nat.le_trans many beyond) with kept | made
  · exact { kept with
      heap := { kept.heap with own := ⟨kept.heap.own.1, Nat.le_refl _⟩ }
      frames := Secret.within_unmade kept.frames _ }
  · exact absurd made.2 (Nat.not_lt.2 beyond)

/-- What is careful comes up with no iterator that was not made, unless it makes it. -/
theorem perform (sealed : m.Sealed) {a : Action Unit} (careful : ∀ i, m.heap.iterators.size ≤ i →
      Careful (Secret.unmade m.heap.iterators.size i).discipline a) : (m.perform a).Sealed :=
  .of_kept fun i beyond =>
    Secret.Kept.performed ((careful i beyond m (sealed i beyond)).imp_left And.right)
      fun some => absurd rfl some

theorem step (sealed : m.Sealed) : m.step.Sealed :=
  .of_kept fun i beyond =>
    (sealed i beyond).step (Discipline.room_of_nil rfl) fun some => absurd rfl some

theorem run (sealed : m.Sealed) (steps : Nat) : (m.run steps).Sealed := by
  induction steps with
  | zero => exact sealed
  | succ steps ih =>
      rw [run_succ]
      exact ih.step

end Machine.Sealed

end ScriptMachine
