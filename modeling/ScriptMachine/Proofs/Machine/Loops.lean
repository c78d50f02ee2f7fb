import ScriptMachine.Machine.Dispatcher
import ScriptMachine.Proofs.Machine.Counting

/-!
The dispatch loops that the frames of a machine need: one for every nested frame, begun when there
were as many frames as lie below it and one more. An action of the machine pushes a frame and
perhaps needs another loop, or drops frames, and the loops of those are the innermost. Neither the
frames nor the nested calls ever get more than the limits allow.
-/

namespace ScriptMachine

open ScriptMachine.Action

/-! ## The loops of frames -/

/-- What the frames return to, topmost first. -/
def Machine.links (m : Machine) : List Returns :=
  m.frames.map (·.returns)

/-- The loops that run frames which return so, innermost first. -/
def entries : List Returns → List DispatchLoop
  | [] => []
  | .resume pending :: rest => ⟨rest.length + 1, pending⟩ :: entries rest
  | _ :: rest => entries rest

/-- A frame that an instruction called begins no loop. -/
theorem entries_plain {r : Returns} (plain : r.isNested = false) (rest : List Returns) :
    entries (r :: rest) = entries rest := by
  cases r with
  | resume pending => cases plain
  | value | «instance» id | nothing => rfl

/-- There are as many loops as nested frames. -/
theorem length_entries (links : List Returns) :
    (entries links).length = links.countP Returns.isNested := by
  induction links with
  | nil => rfl
  | cons r rest ih =>
      cases r with
      | resume pending =>
          rw [List.countP_cons_of_pos rfl, ← ih]
          rfl
      | value | «instance» id | nothing => exact ih

/-- A loop begins at a frame that is live. -/
theorem base_le {links : List Returns} {loop : DispatchLoop} (member : loop ∈ entries links) :
    1 ≤ loop.base ∧ loop.base ≤ links.length := by
  induction links with
  | nil => exact absurd member List.not_mem_nil
  | cons r rest ih =>
      rw [List.length_cons]
      cases r with
      | resume pending =>
          rcases List.mem_cons.1 member with rfl | deeper
          · exact ⟨Nat.le_add_left _ _, Nat.le_refl _⟩
          · exact ⟨(ih deeper).1, Nat.le_succ_of_le (ih deeper).2⟩
      | value | «instance» id | nothing => exact ⟨(ih member).1, Nat.le_succ_of_le (ih member).2⟩

/-- Frames that are dropped leave their loops behind, and the others keep theirs. -/
theorem entries_drop (links : List Returns) (count : Nat) :
    ∃ gone, entries links = gone ++ entries (links.drop count) ∧
      ∀ loop ∈ gone, (links.drop count).length < loop.base := by
  induction count generalizing links with
  | zero => exact ⟨[], rfl, fun _ member => absurd member List.not_mem_nil⟩
  | succ count ih =>
      cases links with
      | nil => exact ⟨[], rfl, fun _ member => absurd member List.not_mem_nil⟩
      | cons r rest =>
          obtain ⟨gone, split, deep⟩ := ih rest
          rw [List.drop_succ_cons]
          cases r with
          | value | «instance» id | nothing => exact ⟨gone, split, deep⟩
          | resume pending =>
              refine ⟨⟨rest.length + 1, pending⟩ :: gone, ?_, fun loop member => ?_⟩
              · rw [List.cons_append, ← split]
                rfl
              · have shorter : (rest.drop count).length ≤ rest.length := by
                  rw [List.length_drop]
                  exact Nat.sub_le _ _
                rcases List.mem_cons.1 member with rfl | deeper
                · exact Nat.lt_succ_of_le shorter
                · exact deep loop deeper

/-! ## Operations that wait -/

/-- Operations wait for one another, innermost first. The outermost, and no other, gives its value
to the host. -/
def Rooted : List Pending → Prop
  | [] => True
  | pending :: rest => (pending.finish = .halt ↔ rest = []) ∧ Rooted rest

/-- The operations that wait for these loops. -/
def waiting (loops : List DispatchLoop) : List Pending :=
  loops.map (·.pending)

theorem waiting_eq_nil {loops : List DispatchLoop} : waiting loops = [] ↔ loops = [] :=
  List.map_eq_nil_iff

/-- Only one end of an operation is for the host. -/
theorem Finish.demand_eq_host {finish : Finish} : finish.demand = .host ↔ finish = .halt := by
  cases finish <;> simp [Finish.demand]

namespace Stacked

variable {heap : Heap} {demand : Demand} {frames : List Frame} {handlers : List Handler}

/-- The host waits for the lowest frame alone. -/
theorem demand_eq_host (stacked : Stacked heap demand frames handlers) :
    demand = .host ↔ frames = [] := by
  cases stacked with
  | host => exact ⟨fun _ => rfl, fun _ => rfl⟩
  | frame _ _ => exact ⟨nofun, nofun⟩

/-- Without frames no region is open. -/
theorem handlers_eq_nil (stacked : Stacked heap demand frames handlers) (none : frames = []) :
    handlers = [] := by
  cases stacked with
  | host => rfl
  | frame _ _ => cases none

/-- The lowest frame is that of a nested call. -/
theorem entries_eq_nil (stacked : Stacked heap demand frames handlers) :
    entries (frames.map (·.returns)) = [] ↔ frames = [] := by
  induction stacked with
  | host => exact ⟨fun _ => rfl, fun _ => rfl⟩
  | @frame f count l rest handlers _ below ih =>
      refine ⟨fun none => ?_, nofun⟩
      rw [List.map_cons] at none
      cases returns : f.returns with
      | resume pending =>
          rw [returns] at none
          cases none
      | value | «instance» id | nothing =>
          rw [returns] at none below
          cases below.demand_eq_host.2 (ih.1 none)

theorem rooted_cons {r : Returns} (stacked : Stacked heap r.demand frames handlers)
    (below : Rooted (waiting (entries (frames.map (·.returns))))) :
    Rooted (waiting (entries (r :: frames.map (·.returns)))) := by
  cases r with
  | resume pending =>
      refine ⟨?_, below⟩
      change pending.finish = .halt ↔ waiting (entries (frames.map (·.returns))) = []
      rw [waiting_eq_nil, stacked.entries_eq_nil, ← stacked.demand_eq_host]
      exact Finish.demand_eq_host.symm
  | value | «instance» id | nothing => exact below

/-- The lowest operation that waits is the one of the host. -/
theorem rooted (stacked : Stacked heap demand frames handlers) :
    Rooted (waiting (entries (frames.map (·.returns)))) := by
  induction stacked with
  | host => trivial
  | frame _ below ih => exact below.rooted_cons ih

end Stacked

namespace Machine

variable {m : Machine}

/-- There is one link for each frame. -/
theorem depth_eq (m : Machine) : m.calls.depth = m.links.length := by
  rw [m.calls.depth_eq, links, List.length_map]
  rfl

theorem Keeps.links {m' : Machine} (keeps : m.Keeps m') : m'.links = m.links :=
  congrArg (List.map Frame.returns) keeps.frames

/-- The count of nested calls is the number of loops. -/
theorem counted_iff : m.Counted ↔ m.nesting = (entries m.links).length := by
  rw [length_entries, Machine.links, List.countP_map]
  rfl

/-- A machine that runs has a loop for its lowest frame. -/
theorem Live.rooted_running (live : m.Live) (running : m.control = .running) :
    entries m.links ≠ [] ∧ Rooted (waiting (entries m.links)) := by
  obtain ⟨f, rest, l, below, top, _, stacked, _⟩ := live.standing running
  rw [links, top, List.map_cons]
  refine ⟨fun none => ?_, stacked.rooted_cons stacked.rooted⟩
  cases returns : f.returns with
  | resume pending =>
      rw [returns] at none
      cases none
  | value | «instance» id | nothing =>
      rw [returns] at none stacked
      cases stacked.demand_eq_host.2 (stacked.entries_eq_nil.1 none)

/-- What a value is delivered to ends in the operation of the host. -/
theorem Live.rooted_delivering (live : m.Live) {v : Value} {pending : Pending}
    (delivering : m.control = .delivering v pending) :
    Rooted (pending :: waiting (entries m.links)) := by
  have stacked := live.2
  rw [delivering] at stacked
  refine ⟨?_, stacked.rooted⟩
  rw [waiting_eq_nil, ← Finish.demand_eq_host, stacked.demand_eq_host]
  exact stacked.entries_eq_nil.symm

/-- Without loops there are neither frames nor regions. -/
theorem Live.bottom (live : m.Live) (idle : entries m.links = []) :
    m.frames = [] ∧ m.handlers = [] := by
  have shape := live.2
  cases control : m.control with
  | running => exact absurd idle (live.rooted_running control).1
  | delivering v pending =>
      rw [control] at shape
      have none := shape.entries_eq_nil.1 idle
      exact ⟨none, shape.handlers_eq_nil none⟩
  | returned v =>
      rw [control] at shape
      exact shape
  | uncaught id =>
      rw [control] at shape
      exact shape

end Machine

/-! ## What an action does to the links -/

/-- Dropping operands changes no link. -/
theorem Spent.links {handlers : List Handler} {frames frames' : List Frame}
    (spent : Spent handlers frames frames') :
    frames'.map (·.returns) = frames.map (·.returns) := by
  cases spent with
  | nothing => rfl
  | operands ip _ _ => rfl

theorem links_given (frames : List Frame) (values : List Value) :
    (frames.modifyHead (·.given values)).map (·.returns) = frames.map (·.returns) := by
  cases frames <;> rfl

namespace Moves

variable {m n : Machine}

/-- An action that raises has pushed nothing. -/
theorem links_error {e : Raised} (moves : Moves m (.error e, n)) :
    n.links = m.links ∧ n.handlers = m.handlers ∧ n.control = m.control := by
  cases moves with
  | raises spent handlers control => exact ⟨spent.links, handlers, control⟩

/-- The frames stay, or there is a new one that the limits allow, or the topmost one ends. -/
theorem links_ok (moves : Moves m (.ok (), n)) : n.links = m.links ∨
    (∃ r, n.links = r :: m.links ∧ n.handlers = m.handlers ∧ m.links.length < m.limits.frames ∧
      (r.isNested = true → m.nesting < m.limits.nesting)) ∨
    ∃ f rest, m.control = .running ∧ m.frames = f :: rest ∧ f.next? = none ∧
      n.links = m.links.drop 1 := by
  cases moves with
  | fills values spent after _ =>
      left
      rw [Machine.links, after, links_given, spent.links]
      rfl
  | @calls _ frames f spent room nested after handlers =>
      right
      left
      have length : frames.length = m.links.length := by
        have lengths := congrArg List.length spent.links
        rw [List.length_map, List.length_map] at lengths
        rw [Machine.links, List.length_map]
        exact lengths
      refine ⟨f.returns, ?_, handlers, length ▸ room, nested⟩
      rw [Machine.links, after, List.map_cons, spent.links]
      rfl
  | opens _ top _ _ after _ =>
      left
      rw [Machine.links, after, Machine.links, top]
      rfl
  | closes top after _ _ =>
      left
      rw [Machine.links, after, Machine.links, top]
      rfl
  | @ends _ f rest values running top atEnd after _ =>
      right
      right
      refine ⟨f, rest, running, top, atEnd, ?_⟩
      rw [Machine.links, after, links_given, Machine.links, top]
      rfl

end Moves

namespace Machine

variable {m : Machine} {a : Action Unit}

/-- Raising drops links from the top. -/
theorem links_raise (m : Machine) (id : ExceptionId) :
    ∃ count, (m.raise id).links = m.links.drop count := by
  cases opened : m.handlers with
  | nil =>
      refine ⟨m.links.length, ?_⟩
      rw [links, frames_raise_of_nil opened, List.drop_length]
      rfl
  | cons h hs =>
      refine ⟨m.frames.length - h.frameDepth, ?_⟩
      rw [links, frames_raise_of_cons opened, links, ← List.map_drop]
      cases m.frames.drop (m.frames.length - h.frameDepth) <;> rfl

/-- The limits of a machine are never changed. -/
theorem perform_limits (steady : m.Steady (a.result m).2) : (m.perform a).limits = m.limits := by
  rcases done : a.result m with ⟨e | x, n⟩ <;> rw [done] at steady
  · have kept := e.keeps_resolve n
    have announced := (e.resolve n).2.keeps_announced (e.resolve n).1
    rw [perform_of_error done, ← steady.limits, ← kept.limits, ← announced.limits]
    cases opened : (e.resolve n).2.handlers with
    | nil => rw [raise_of_nil opened]
    | cons h hs => rw [raise_of_cons opened]
  · rw [perform_of_ok done]
    exact steady.limits

/-- An action drops frames from the top, or none, or pushes one that the limits allow. -/
theorem links_perform (moves : Moves m (a.result m)) :
    (∃ count, (m.perform a).links = m.links.drop count) ∨
      ∃ r, (m.perform a).links = r :: m.links ∧ (m.perform a).handlers = m.handlers ∧
        m.links.length < m.limits.frames ∧
        (r.isNested = true → m.nesting < m.limits.nesting) := by
  rcases done : a.result m with ⟨e | _, n⟩ <;> rw [done] at moves
  · left
    obtain ⟨count, dropped⟩ := (e.resolve n).2.links_raise (e.resolve n).1
    refine ⟨count, ?_⟩
    rw [perform_of_error done, dropped, (e.keeps_resolve n).links, moves.links_error.1]
  · rw [perform_of_ok done]
    rcases moves.links_ok with same | pushed | ⟨_, _, _, _, _, dropped⟩
    · exact .inl ⟨0, same⟩
    · exact .inr pushed
    · exact .inl ⟨1, dropped⟩

/-- There are no more frames and nested calls than the limits allow. -/
structure Roomy (m : Machine) : Prop where
  frames : m.calls.depth ≤ m.limits.frames
  nesting : m.nesting ≤ m.limits.nesting

/-- The room for nested calls is kept, since each is counted before it is made. -/
theorem Roomy.perform (room : m.Roomy) (counted : m.Counted) (moves : Moves m (a.result m))
    (after : (a.result m).2.Counted) (steady : m.Steady (a.result m).2) : (m.perform a).Roomy := by
  have limits := perform_limits steady
  have counts := counted_iff.1 counted
  have counts' := counted_iff.1 (Counted.performed after)
  have frames := room.frames
  have nesting := room.nesting
  rw [depth_eq] at frames
  rw [counts] at nesting
  rcases links_perform moves with ⟨count, dropped⟩ | ⟨r, pushed, _, space, nested⟩
  · obtain ⟨gone, split, _⟩ := entries_drop m.links count
    refine ⟨?_, ?_⟩
    · rw [limits, depth_eq, dropped, List.length_drop]
      omega
    · rw [limits, counts', dropped]
      rw [split, List.length_append] at nesting
      omega
  · refine ⟨?_, ?_⟩
    · rw [limits, depth_eq, pushed]
      exact space
    · rw [limits, counts', pushed]
      cases r with
      | resume pending =>
          have more := nested rfl
          rw [counts] at more
          exact more
      | value | «instance» id | nothing => exact nesting

end Machine

end ScriptMachine
