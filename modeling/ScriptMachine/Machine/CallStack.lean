import ScriptMachine.Machine.Frame

/-!
The frames of a run, with their number and that of the nested calls that are under way. Both are
kept beside the frames, so that asking for them takes no time however many frames there are.

A nested call is carried out by a dispatch loop on the stack of the host. When frames are dropped,
the loops that run them are still there, and each takes itself off the count when it returns. So
dropping frames and counting loops down are two things here; `pop` and `cutTo` do both at once.
-/

namespace ScriptMachine

/-- Frames, topmost first, and how many there are. -/
structure CallStack where
  frames : List Frame
  depth : Nat
  depth_eq : depth = frames.length
  /-- The number of nested calls that have not returned yet. -/
  nesting : Nat

namespace CallStack

/-- No frame. -/
def empty : CallStack where
  frames := []
  depth := 0
  depth_eq := List.length_nil.symm
  nesting := 0

instance : Inhabited CallStack := ⟨empty⟩

/-- Puts a frame on top. That of a nested call is counted. -/
def push (calls : CallStack) (frame : Frame) : CallStack where
  frames := frame :: calls.frames
  depth := calls.depth + 1
  depth_eq := by simp [calls.depth_eq]
  nesting := if frame.returns.isNested then calls.nesting + 1 else calls.nesting

/-- Changes the topmost frame. -/
@[inline] def modifyTop (calls : CallStack) (change : Frame → Frame) : CallStack :=
  match calls with
  | ⟨[], depth, depth_eq, nesting⟩ => ⟨[], depth, depth_eq, nesting⟩
  | ⟨frame :: rest, depth, depth_eq, nesting⟩ =>
      ⟨change frame :: rest, depth, by simpa using depth_eq, nesting⟩

/-- Drops the topmost frame. -/
def dropTop (calls : CallStack) : CallStack where
  frames := calls.frames.tail
  depth := calls.depth - 1
  depth_eq := by simp [calls.depth_eq]
  nesting := calls.nesting

/-- Drops frames from the top until at most `count` are left. -/
def truncate (calls : CallStack) (count : Nat) : CallStack where
  frames := calls.frames.drop (calls.depth - count)
  depth := calls.depth - (calls.depth - count)
  depth_eq := by simp [calls.depth_eq]
  nesting := calls.nesting

/-- A nested call has returned. -/
def leave (calls : CallStack) : CallStack :=
  { calls with nesting := calls.nesting - 1 }

/-- All nested calls have returned whose frames are gone. -/
def recount (calls : CallStack) : CallStack :=
  { calls with nesting := calls.frames.countP (·.returns.isNested) }

/-- Removes the topmost frame. -/
def pop (calls : CallStack) : CallStack :=
  calls.dropTop.recount

/-- Removes frames from the top until at most `count` are left. -/
def cutTo (calls : CallStack) (count : Nat) : CallStack :=
  (calls.truncate count).recount

@[simp] theorem frames_empty : empty.frames = [] := rfl

@[simp] theorem frames_push (calls : CallStack) (frame : Frame) :
    (calls.push frame).frames = frame :: calls.frames := rfl

@[simp] theorem frames_pop (calls : CallStack) : calls.pop.frames = calls.frames.tail := rfl

/-- A change of the topmost frame leaves the others as they are. -/
@[simp] theorem frames_modifyTop (calls : CallStack) (change : Frame → Frame) :
    (calls.modifyTop change).frames = calls.frames.modifyHead change := by
  obtain ⟨frames, depth, depth_eq, nesting⟩ := calls
  cases frames <;> rfl

@[simp] theorem frames_truncate (calls : CallStack) (count : Nat) :
    (calls.truncate count).frames = calls.frames.drop (calls.frames.length - count) := by
  simp [truncate, calls.depth_eq]

@[simp] theorem frames_cutTo (calls : CallStack) (count : Nat) :
    (calls.cutTo count).frames = calls.frames.drop (calls.frames.length - count) :=
  calls.frames_truncate count

theorem nesting_push (calls : CallStack) (frame : Frame) :
    (calls.push frame).nesting = calls.nesting + if frame.returns.isNested then 1 else 0 := by
  unfold push
  split <;> rfl

@[simp] theorem nesting_modifyTop (calls : CallStack) (change : Frame → Frame) :
    (calls.modifyTop change).nesting = calls.nesting := by
  obtain ⟨frames, depth, depth_eq, nesting⟩ := calls
  cases frames <;> rfl

@[simp] theorem nesting_pop (calls : CallStack) :
    calls.pop.nesting = calls.pop.frames.countP (·.returns.isNested) := rfl

@[simp] theorem nesting_cutTo (calls : CallStack) (count : Nat) :
    (calls.cutTo count).nesting = (calls.cutTo count).frames.countP (·.returns.isNested) := rfl

end CallStack
end ScriptMachine
