import ScriptMachine.Proofs.Machine.Moves

/-!
The instruction that comes next. While the machine runs, its next step carries out the instruction
that the topmost frame is about to fetch.
-/

namespace ScriptMachine

open ScriptMachine.Action

namespace Machine

/-- The topmost frame is about to fetch an instruction. -/
structure Fetches (m : Machine) (f : Frame) (rest : List Frame) (i : Instruction) : Prop where
  control : m.control = .running
  frames : m.frames = f :: rest
  next : f.next? = some i

/-- The frame that runs, and the instruction it is about to fetch. -/
def fetch? (m : Machine) : Option (Frame × Instruction) :=
  match m.control, m.frames with
  | .running, f :: _ => f.next?.map (f, ·)
  | _, _ => none

theorem fetches_of_fetch? {m : Machine} {f : Frame} {i : Instruction}
    (found : m.fetch? = some (f, i)) : ∃ rest, m.Fetches f rest i := by
  unfold fetch? at found
  split at found
  · next g rest control frames =>
      obtain ⟨j, next, same⟩ := Option.map_eq_some_iff.1 found
      cases same
      exact ⟨rest, control, frames, next⟩
  · cases found

/-- What is found out about the next instruction is found out about one that is fetched. -/
theorem fetches_of_bind_fetch? {m : Machine} {α : Type} {about : Frame × Instruction → Option α}
    {x : α} (found : m.fetch?.bind about = some x) :
    ∃ f rest i, m.Fetches f rest i ∧ about (f, i) = some x := by
  obtain ⟨⟨f, i⟩, fetched, same⟩ := Option.bind_eq_some_iff.1 found
  obtain ⟨rest, fetches⟩ := fetches_of_fetch? fetched
  exact ⟨f, rest, i, fetches, same⟩

/-- Between two machines the topmost frame has executed one instruction, which took so many operands
off and put a value in their place. -/
structure Yields (m n : Machine) (taken : Nat) (v : Value) : Prop where
  control : n.control = .running
  frames : ∃ f rest, m.frames = f :: rest ∧
    n.frames = { f with ip := f.ip + 1, stack := v :: f.stack.drop taken } :: rest

/-- There is one value that the instruction can have put there. -/
theorem Yields.unique {m n : Machine} {taken taken' : Nat} {v w : Value}
    (first : m.Yields n taken v) (second : m.Yields n taken' w) : v = w := by
  obtain ⟨_, _, _, frames⟩ := first.frames
  obtain ⟨_, _, _, frames'⟩ := second.frames
  have tops := (List.cons.inj (frames.symm.trans frames')).1
  exact (List.cons.inj (congrArg Frame.stack tops)).1

namespace Fetches

variable {m n : Machine} {f : Frame} {rest : List Frame} {i : Instruction}

theorem upcoming (fetches : m.Fetches f rest i) :
    m.upcoming.result m = (execute i).result (fetched m f i) := by
  rw [Machine.upcoming, fetches.control]
  exact result_advance fetches.frames fetches.next

/-- The step has done what the instruction does. -/
theorem step (fetches : m.Fetches f rest i)
    (done : (execute i).result (fetched m f i) = (.ok (), n)) : m.step = n :=
  perform_of_ok (fetches.upcoming.trans done)

theorem stack (fetches : m.Fetches f rest i) : (fetched m f i).stack = f.stack :=
  stack_fetched fetches.frames i

theorem running (fetches : m.Fetches f rest i) : (fetched m f i).control = .running :=
  (m.keeps_note _).control.trans fetches.control

theorem constant? (fetches : m.Fetches f rest i) (k : Nat) :
    (fetched m f i).constant? k = m.constant? k := by
  rw [Machine.constant?, Machine.constant?, frames_fetched fetches.frames, heap_fetched,
    fetches.frames]

/-- The frames once the instruction has changed the operands. -/
theorem frames_withStack (fetches : m.Fetches f rest i) (s : List Value) :
    ((fetched m f i).withStack s).frames = { f with ip := f.ip + 1, stack := s } :: rest := by
  rw [Machine.frames_withStack, frames_fetched fetches.frames]
  rfl

/-- The instruction put a value in the place of operands and did nothing else. -/
theorem yields (fetches : m.Fetches f rest i) (taken : Nat) (v : Value) :
    m.Yields ((fetched m f i).withStack (v :: f.stack.drop taken)) taken v where
  control := fetches.running
  frames := ⟨f, rest, fetches.frames, fetches.frames_withStack _⟩

end Fetches
end Machine
end ScriptMachine
