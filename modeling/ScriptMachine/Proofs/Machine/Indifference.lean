import ScriptMachine.Proofs.Machine.Upkeep

/-!
Runs without positions. No step looks at a position. So with all positions taken out a machine makes
the same run, but for the positions, as long as the functions of the host look at none either. Code
that differs in positions alone runs alike. Not to look at positions is a discipline that asks
nothing of values.
-/

namespace ScriptMachine

open ScriptMachine.Action

/-- What a function of the host does is the same without positions. -/
def Routine.Indifferent : Routine → Prop
  | .edit change next =>
      (∀ h : Heap, change.apply h.unplaced = (change.apply h).unplaced) ∧
        ∀ h : Heap, next h.unplaced = next h ∧ (next h).Indifferent
  | .global _ next => ∀ v, (next v).Indifferent
  | .setGlobal _ _ next => next.Indifferent
  | .call _ _ next => ∀ v, (next v).Indifferent
  | .give _ | .fail _ _ | .raise _ => True

/-- Positions are not looked at. -/
def Discipline.blindness : Discipline where
  value _ := True
  routine := Routine.Indifferent
  blind := true

/-- A machine keeps the discipline if no function of the host looks at positions. -/
theorem Discipline.kept_blindness {m : Machine} :
    blindness.Kept m ↔ m.Hosts Routine.Indifferent :=
  (kept_iff (fun _ => trivial) rfl).trans (and_iff_right trivial)

instance : Discipline.blindness.Instructs where
  plain _ := trivial
  tuple _ := ⟨fun _ _ _ => trivial, fun _ => trivial⟩
  same _ _ _ := trivial
  newException _ _ := trivial
  newIterator _ _ := .inr ⟨trivial, trivial⟩
  setIterator _ _ _ := trivial
  give _ := trivial
  edit fine _ := .inl ⟨⟨Heap.meets_of_all (fun _ => trivial) _, trivial⟩, (fine.2 _).2⟩
  overlooks fine h := ⟨fine.1 h, (fine.2 h).1⟩
  «global» fine _ := fine _
  setGlobal fine := ⟨trivial, fine⟩
  call fine := ⟨trivial, fun _ _ => trivial, fun v _ => fine v⟩

variable {m : Machine}

/-- An action that keeps to all disciplines does the same without positions. -/
theorem Careful.indifferent {a : Action Unit} (careful : Careful .blindness a)
    (fine : m.Hosts Routine.Indifferent) :
    a.result m.unplaced = ((a.result m).1, (a.result m).2.unplaced) ∧
      (a.result m).2.Hosts Routine.Indifferent := by
  obtain ⟨same, after⟩ := (careful m (Discipline.kept_blindness.2 fine)).resolve_right not_false
  exact ⟨same, Discipline.kept_blindness.1 after⟩

/-! ## Steps -/

namespace Machine

/-- Raising what an action raised, if it raised. -/
theorem perform_unplaced {a : Action Unit}
    (same : a.result m.unplaced = ((a.result m).1, (a.result m).2.unplaced)) :
    m.unplaced.perform a = (m.perform a).unplaced := by
  rcases done : a.result m with ⟨e | _, n⟩ <;> rw [done] at same
  · rw [perform_of_error done, perform_of_error same, resolve_unplaced]
    exact raise_unplaced _ _
  · rw [perform_of_ok done, perform_of_ok same]

/-- A step without positions. -/
theorem Hosts.step_unplaced (fine : m.Hosts Routine.Indifferent) :
    m.unplaced.step = m.step.unplaced ∧ m.step.Hosts Routine.Indifferent := by
  have next := (Discipline.kept_blindness.2 fine).upcoming (Discipline.room_of_nil rfl)
    fun some => absurd rfl some
  obtain ⟨same, after⟩ := next.resolve_right not_false
  exact ⟨perform_unplaced same, (Discipline.kept_blindness.1 after).performed⟩

/-- A run without positions. -/
theorem Hosts.run_unplaced (fine : m.Hosts Routine.Indifferent) (steps : Nat) :
    m.unplaced.run steps = (m.run steps).unplaced ∧ (m.run steps).Hosts Routine.Indifferent := by
  induction steps with
  | zero => exact ⟨rfl, fine⟩
  | succ steps ih =>
      obtain ⟨same, before⟩ := ih
      rw [run_succ, run_succ, same]
      exact before.step_unplaced

end Machine

/-! ## Other code -/

/-- The method with other code. -/
def LoadedMethod.recoded (change : Method → Method) (method : LoadedMethod) : LoadedMethod :=
  { method with code := change method.code }

def Frame.recoded (change : Method → Method) (f : Frame) : Frame :=
  { f with method := f.method.recoded change }

def CallStack.recoded (change : Method → Method) (calls : CallStack) : CallStack where
  frames := calls.frames.map (Frame.recoded change)
  depth := calls.depth
  depth_eq := by rw [List.length_map, calls.depth_eq]
  nesting := calls.nesting

/-- The machine with other code, for the methods that it has and those that run. -/
def Machine.recoded (change : Method → Method) (m : Machine) : Machine :=
  { m with
    heap := { m.heap with methods := m.heap.methods.map (LoadedMethod.recoded change) }
    calls := m.calls.recoded change }

namespace Machine

variable {m : Machine} {change : Method → Method}

/-- Code that differs in positions alone is the same once they are taken out. -/
theorem unplaced_recoded (same : ∀ code, (change code).unplaced = code.unplaced) :
    (m.recoded change).unplaced = m.unplaced := by
  have method (k : LoadedMethod) : (k.recoded change).unplaced = k.unplaced := by
    rw [LoadedMethod.unplaced, LoadedMethod.recoded, same, LoadedMethod.unplaced]
  have frame (f : Frame) : (f.recoded change).unplaced = f.unplaced := by
    rw [Frame.unplaced, Frame.recoded, method, Frame.unplaced]
  have heap : (m.recoded change).heap.unplaced = m.heap.unplaced := by
    simp [recoded, Heap.unplaced, Function.comp_def, method]
  have calls : (m.recoded change).calls.unplaced = m.calls.unplaced := by
    refine CallStack.ext ?_ rfl
    simp [recoded, CallStack.recoded, CallStack.unplaced, Function.comp_def, frame]
  rw [Machine.unplaced, Machine.unplaced, heap, calls]
  rfl

theorem Hosts.recoded {P : Routine → Prop} (fine : m.Hosts P) (change : Method → Method) :
    (m.recoded change).Hosts P where
  foreign := fine.foreign
  control := fine.control
  frames := List.forall_mem_map.2 fine.frames

/-- Code that differs in positions runs alike. -/
theorem Hosts.run_recoded (fine : m.Hosts Routine.Indifferent)
    (same : ∀ code, (change code).unplaced = code.unplaced) (steps : Nat) :
    ((m.recoded change).run steps).unplaced = (m.run steps).unplaced := by
  rw [← ((fine.recoded change).run_unplaced steps).1, unplaced_recoded same,
    (fine.run_unplaced steps).1]

end Machine
end ScriptMachine
