import ScriptMachine.Proofs.Machine.Moves

/-!
Delivery of exceptions. For every open region a run remembers the step that opened it: the
frames were then a frame `g` on top of others, and ever since `g` is there with at least the
operands it had, above the same frames. So an exception that the region catches finds `g` as it
was, whatever has been called in the meantime and however often calls were nested.
-/

namespace ScriptMachine

/-! ## Frames that continue -/

/-- Among the frames is `g`, on top of `rest`, with the operands it has and perhaps more. -/
def Continues (g : Frame) (rest frames : List Frame) : Prop :=
  ∃ us ip above, frames = us ++ { g with ip, stack := above ++ g.stack } :: rest

namespace Continues

variable {g g' : Frame} {rest rest' frames : List Frame}

theorem refl (g : Frame) (rest : List Frame) (ip : Nat) :
    Continues g rest ({ g with ip } :: rest) :=
  ⟨[], ip, [], rfl⟩

theorem trans (outer : Continues g' rest' (g :: rest)) (inner : Continues g rest frames) :
    Continues g' rest' frames := by
  obtain ⟨us, ip, above, split⟩ := outer
  obtain ⟨vs, ip', above', rfl⟩ := inner
  cases us with
  | nil =>
      obtain ⟨rfl, rfl⟩ := List.cons.inj split
      refine ⟨vs, ip', above' ++ above, ?_⟩
      simp only [List.append_assoc]
  | cons u us =>
      obtain ⟨_, rfl⟩ := List.cons.inj split
      refine ⟨vs ++ { g with ip := ip', stack := above' ++ g.stack } :: us, ip, above, ?_⟩
      rw [List.append_assoc]
      rfl

/-- The next instruction of the frame on top does not matter. -/
theorem withIp {f : Frame} (continues : Continues g rest (f :: frames)) (ip : Nat) :
    Continues g rest ({ f with ip } :: frames) := by
  obtain ⟨us, ip', above, split⟩ := continues
  cases us with
  | nil =>
      obtain ⟨rfl, rfl⟩ := List.cons.inj split
      exact ⟨[], ip, above, rfl⟩
  | cons u us =>
      obtain ⟨_, rfl⟩ := List.cons.inj split
      exact ⟨{ f with ip } :: us, ip', above, rfl⟩

theorem given (continues : Continues g rest frames) (values : List Value) :
    Continues g rest (frames.modifyHead (·.given values)) := by
  obtain ⟨us, ip, above, rfl⟩ := continues
  cases us with
  | nil =>
      refine ⟨[], ip, values ++ above, ?_⟩
      rw [List.append_assoc]
      rfl
  | cons u us => exact ⟨u.given values :: us, ip, above, rfl⟩

theorem pushed (continues : Continues g rest frames) (f : Frame) : Continues g rest (f :: frames) := by
  obtain ⟨us, ip, above, rfl⟩ := continues
  exact ⟨f :: us, ip, above, rfl⟩

/-- A frame that ends is not `g`, if `g` was further down. -/
theorem tail {f : Frame} (continues : Continues g rest (f :: frames))
    (lower : rest.length + 1 ≤ frames.length) : Continues g rest frames := by
  obtain ⟨us, ip, above, split⟩ := continues
  cases us with
  | nil =>
      obtain ⟨_, rfl⟩ := List.cons.inj split
      omega
  | cons u us =>
      obtain ⟨_, rfl⟩ := List.cons.inj split
      exact ⟨us, ip, above, rfl⟩

/-- Operands that are given away come from above those of `g`, if `g` has opened a region. -/
theorem spent {handlers : List Handler} {frames' : List Frame} {h : Handler}
    (continues : Continues g rest frames) (spent : Spent handlers frames frames')
    (opened : h ∈ handlers) (depth : h.frameDepth = rest.length + 1)
    (height : h.stackHeight = g.stack.length) : Continues g rest frames' := by
  cases spent with
  | nothing => exact continues
  | @operands f others s ip suffix floor =>
      obtain ⟨us, ip', above, split⟩ := continues
      cases us with
      | nil =>
          obtain ⟨rfl, rfl⟩ := List.cons.inj split
          have enough : g.stack.length ≤ s.length := by
            rw [← height]
            exact floor h opened depth
          have under : g.stack <:+ s :=
            List.suffix_of_suffix_length_le (List.suffix_append _ _) suffix enough
          obtain ⟨left, rfl⟩ := under
          exact ⟨[], ip, left, rfl⟩
      | cons u us =>
          obtain ⟨_, rfl⟩ := List.cons.inj split
          exact ⟨{ f with ip, stack := s } :: us, ip', above, rfl⟩

/-- Unwinding to a region of `g` leaves `g` as it was when the region was opened, at the handler
of the region. -/
theorem unwound {h : Handler} (continues : Continues g rest frames)
    (depth : h.frameDepth = rest.length + 1) (height : h.stackHeight = g.stack.length) :
    (frames.drop (frames.length - h.frameDepth)).modifyHead (·.recover h)
      = { g with ip := h.target } :: rest := by
  obtain ⟨us, ip, above, rfl⟩ := continues
  have above_count : (us ++ { g with ip, stack := above ++ g.stack } :: rest).length - h.frameDepth
      = us.length := by
    rw [List.length_append, List.length_cons, depth]
    omega
  have left : (above ++ g.stack).drop ((above ++ g.stack).length - h.stackHeight) = g.stack := by
    rw [height, List.length_append, Nat.add_sub_cancel, List.drop_left]
  rw [above_count, List.drop_left, List.modifyHead_cons, Frame.recover, left]

end Continues

/-! ## What a run remembers -/

/-- The machine is about to open a region, in frame `g` on top of `rest`, inside regions `hs`. -/
structure Machine.Opens (m : Machine) (h : Handler) (hs : List Handler) (g : Frame)
    (rest : List Frame) : Prop where
  running : m.control = .running
  frames : m.frames = g :: rest
  handlers : m.handlers = hs
  next : ∃ i, g.next? = some i ∧ i.op = .pushExceptionHandler ∧ i.arg = h.target
  depth : h.frameDepth = rest.length + 1
  height : h.stackHeight = g.stack.length

/-- Every region was opened by an earlier step of the run, and the frame that opened it
continues: in the frames there are, or, for the regions around the innermost, in those there were
when that one was opened. -/
inductive Remembers (run : Nat → Machine) : Nat → List Frame → List Handler → Prop where
  | none (n : Nat) (frames : List Frame) : Remembers run n frames []
  | region {n k : Nat} {frames : List Frame} {h : Handler} {hs : List Handler} {g : Frame}
      {rest : List Frame} : k < n → (run k).Opens h hs g rest → Continues g rest frames →
      Remembers run k (g :: rest) hs → Remembers run n frames (h :: hs)

namespace Remembers

variable {run : Nat → Machine} {n : Nat} {frames frames' : List Frame} {h : Handler}
  {hs : List Handler}

theorem later (remembers : Remembers run n frames hs) {n' : Nat} (order : n ≤ n') :
    Remembers run n' frames hs := by
  cases remembers with
  | none => exact .none n' frames
  | region earlier opens continues inner =>
      exact .region (Nat.lt_of_lt_of_le earlier order) opens continues inner

/-- What keeps the frame of the innermost region keeps them all. -/
theorem transport (remembers : Remembers run n frames hs)
    (keeps : ∀ (g : Frame) (rest : List Frame) (h : Handler), hs.head? = some h →
      h.frameDepth = rest.length + 1 → h.stackHeight = g.stack.length →
      Continues g rest frames → Continues g rest frames') : Remembers run n frames' hs := by
  cases remembers with
  | none => exact .none n frames'
  | region earlier opens continues inner =>
      exact .region earlier opens (keeps _ _ _ rfl opens.depth opens.height continues) inner

/-- The regions around the innermost one are remembered as well. -/
theorem outer (remembers : Remembers run n frames (h :: hs)) : Remembers run n frames hs := by
  cases remembers with
  | region earlier opens continues inner =>
      refine (inner.later (Nat.le_of_lt earlier)).transport fun g' rest' _ _ _ _ before => ?_
      exact before.trans continues

theorem suffix {hs' : List Handler} (remembers : Remembers run n frames hs) (some : hs' <:+ hs) :
    Remembers run n frames hs' := by
  obtain ⟨closed, rfl⟩ := some
  induction closed with
  | nil => exact remembers
  | cons h closed ih => exact ih remembers.outer

end Remembers

/-! ## Steps -/

namespace Machine

variable {m n : Machine} {e : Raised}

/-- What becomes of an exception that a region catches. -/
theorem perform_caught {a : Action Unit} (failed : a.result m = (.error e, n)) {h : Handler}
    {hs : List Handler} (opened : n.handlers = h :: hs) :
    (m.perform a).frames
        = (n.frames.drop (n.frames.length - h.frameDepth)).modifyHead (·.recover h) ∧
      (m.perform a).handlers = hs ∧ (m.perform a).control = .running ∧
      (m.perform a).current = some (e.resolve n).1 := by
  have kept := e.keeps_resolve n
  have opened : (e.resolve n).2.handlers = h :: hs := kept.handlers.trans opened
  rw [perform_of_error failed]
  refine ⟨?_, ?_⟩
  · rw [frames_raise_of_cons opened, kept.frames]
  · rw [raise_of_cons opened]
    exact ⟨rfl, rfl, rfl⟩

/-- What becomes of an exception that nothing catches. -/
theorem perform_uncaught {a : Action Unit} (failed : a.result m = (.error e, n))
    (closed : n.handlers = []) :
    (m.perform a).frames = [] ∧ (m.perform a).handlers = [] ∧
      (m.perform a).control = .uncaught (e.resolve n).1 := by
  have kept := e.keeps_resolve n
  have closed : (e.resolve n).2.handlers = [] := kept.handlers.trans closed
  have announced := (e.resolve n).2.keeps_announced (e.resolve n).1
  rw [perform_of_error failed, raise_of_nil closed]
  exact ⟨rfl, announced.handlers.trans closed, rfl⟩

end Machine

namespace Moves

variable {run : Nat → Machine} {k : Nat}

/-- An action that raises has given away no operand that a region will find. -/
theorem raised {m n : Machine} {e : Raised} (moves : Moves m (.error e, n)) :
    Spent m.handlers m.frames n.frames ∧ n.handlers = m.handlers := by
  cases moves with
  | raises spent handlers _ => exact ⟨spent, handlers⟩

/-- The run goes on remembering what a step does to frames and regions. -/
theorem remembers (step : run (k + 1) = (run k).step)
    (moves : Moves (run k) ((run k).upcoming.result (run k)))
    (remembers : Remembers run k (run k).frames (run k).handlers) :
    Remembers run (k + 1) (run (k + 1)).frames (run (k + 1)).handlers := by
  have later := remembers.later (Nat.le_succ k)
  have stepped : run (k + 1) = (run k).perform (run k).upcoming := step
  rw [stepped]
  generalize done : (run k).upcoming.result (run k) = result at moves
  cases moves with
  | @raises n e spent handlers _ =>
      have given : Remembers run (k + 1) n.frames n.handlers := by
        rw [handlers]
        exact later.transport fun g rest h first depth height continues =>
          continues.spent spent (List.mem_of_head? first) depth height
      cases opened : n.handlers with
      | nil =>
          obtain ⟨_, none, _⟩ := Machine.perform_uncaught done opened
          rw [none]
          exact .none _ _
      | cons h hs =>
          obtain ⟨frames, left, _⟩ := Machine.perform_caught done opened
          rw [opened] at given
          cases given with
          | @region _ j _ _ _ g rest earlier opens continues inner =>
              rw [frames, left, continues.unwound opens.depth opens.height]
              refine (inner.later (Nat.le_of_lt earlier)).transport fun g' rest' _ _ _ _ before => ?_
              exact before.withIp h.target
  | @fills n frames values spent after handlers =>
      rw [Machine.perform_of_ok done, after, handlers]
      exact later.transport fun g rest h first depth height continues =>
        (continues.spent spent (List.mem_of_head? first) depth height).given values
  | @calls n frames f spent _ _ after handlers =>
      rw [Machine.perform_of_ok done, after, handlers]
      exact later.transport fun g rest h first depth height continues =>
        (continues.spent spent (List.mem_of_head? first) depth height).pushed f
  | @opens n f rest i running top next is after handlers =>
      rw [Machine.perform_of_ok done, after, handlers]
      rw [top] at remembers
      refine .region (Nat.lt_succ_self k) ⟨running, top, rfl, ⟨i, next, is, rfl⟩, rfl, rfl⟩
        (.refl f rest _) remembers
  | @closes n f rest h top after depth handlers =>
      rw [Machine.perform_of_ok done, after]
      rw [handlers, top] at later
      exact later.outer.transport fun g rest' _ _ _ _ continues => continues.withIp _
  | @ends n f rest values _ top _ after handlers =>
      rw [Machine.perform_of_ok done, after, handlers]
      rw [top] at later
      have left := later.suffix (List.dropWhile_suffix fun h => decide (rest.length < h.frameDepth))
      refine left.transport fun g below h first depth _ continues => ?_
      have near := List.head?_dropWhile_not (fun h : Handler => decide (rest.length < h.frameDepth))
        (run k).handlers
      rw [first] at near
      have low : below.length + 1 ≤ rest.length := by
        have reached : ¬ rest.length < h.frameDepth := of_decide_eq_false near
        omega
      exact (continues.tail low).given values

end Moves

end ScriptMachine
