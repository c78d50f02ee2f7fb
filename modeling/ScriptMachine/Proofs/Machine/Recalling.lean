import ScriptMachine.Proofs.Machine.Lasting

/-!
Exceptions in a run. No operation and no instruction changes an exception that is there, and raising
one gives it a trace at most. Functions of the host could do more. As long as they leave exceptions
alone, and what they do later in the run does so too, a run recalls every exception as it was.
-/

namespace ScriptMachine

/-! ## Functions of the host -/

/-- What a function of the host does leaves the exceptions that are there as they are. -/
def Routine.Respectful : Routine → Prop
  | .edit change next => (∀ h : Heap, h.Recalls (change.apply h)) ∧ ∀ h, (next h).Respectful
  | .global _ next => ∀ v, (next v).Respectful
  | .setGlobal _ _ next => next.Respectful
  | .call _ _ next => ∀ v, (next v).Respectful
  | .give _ | .fail _ _ | .raise _ => True

/-- The functions that leave exceptions as they are leave alone what is recalled. -/
theorem Routine.respectful_eq : Routine.Respectful = Routine.Leaves Heap.Recalls := by
  funext routine
  induction routine with
  | give v | fail type message | raise id => rfl
  | edit change next ih =>
      exact congrArg (_ ∧ ·) (forall_congr fun h => ih h)
  | «global» name next ih | call callee args next ih => exact forall_congr fun v => ih v
  | setGlobal name v next ih => exact ih

instance : Lasting Heap.Recalls where
  of_makes makes := by
    cases makes with
    | same same => exact .of_exceptions same
    | one e untraced => exact Heap.recalls_newException _ e
  trans := .trans

namespace Machine

variable {m : Machine} {id : ExceptionId}

/-! ## Raising -/

/-- Raising an exception changes nothing on the heap but its trace. -/
theorem heap_raise (m : Machine) (id : ExceptionId) :
    (m.raise id).heap = m.heap.setTrace id m.trace := by
  have announced : (m.announced id).heap = m.heap.setTrace id m.trace := heap_note _ _
  cases opened : m.handlers with
  | nil =>
      rw [raise_of_nil opened]
      exact announced
  | cons h hs =>
      rw [raise_of_cons opened]
      exact announced

/-- An exception that has a trace keeps it, and any other gets that of the machine. -/
theorem exception_raise (known : id < m.heap.exceptions.size) : (m.raise id).heap.exception id
    = if (m.heap.exception id).trace.isEmpty then { m.heap.exception id with trace := m.trace }
      else m.heap.exception id := by
  rw [heap_raise]
  simp [Heap.exception, Heap.setTrace, Array.getElem_modify, known]

/-- An exception that was raised in some frame has a trace. -/
theorem trace_raise (known : id < m.heap.exceptions.size) (inside : m.frames ≠ []) :
    ((m.raise id).heap.exception id).trace ≠ [] := by
  rw [exception_raise known]
  split
  · exact fun none => inside (List.map_eq_nil_iff.1 none)
  · next some => exact fun none => some (List.isEmpty_iff.2 none)

/-- A trace is given to an exception that has none, and changes it no further. -/
theorem recalls_raise (m : Machine) (id : ExceptionId) : m.heap.Recalls (m.raise id).heap := by
  rw [heap_raise]
  exact m.heap.recalls_setTrace id m.trace

/-! ## Runs -/

/-- Raising what an action raised, if it raised. -/
theorem recalls_perform {a : Action Unit} (recalls : m.heap.Recalls (a.result m).2.heap) :
    m.heap.Recalls (m.perform a).heap := by
  rcases done : a.result m with ⟨e | _, n⟩ <;> rw [done] at recalls
  · have resolved : n.heap.Recalls (e.resolve n).2.heap := n.stays_resolve e
    rw [perform_of_error done]
    exact recalls.trans (resolved.trans (recalls_raise _ _))
  · rw [perform_of_ok done]
    exact recalls

theorem Hosts.perform_recalls (fine : m.Hosts Routine.Respectful) {a : Action Unit}
    (respects : Respects Heap.Recalls a) :
    (m.perform a).Hosts Routine.Respectful ∧ m.heap.Recalls (m.perform a).heap := by
  rw [Routine.respectful_eq] at fine
  obtain ⟨after, recalls⟩ := respects m fine
  exact ⟨Routine.respectful_eq ▸ after.performed, recalls_perform recalls⟩

/-- A step recalls every exception. -/
theorem Hosts.step_recalls (fine : m.Hosts Routine.Respectful) :
    m.step.Hosts Routine.Respectful ∧ m.heap.Recalls m.step.heap := by
  rw [Routine.respectful_eq] at fine
  obtain ⟨after, recalls⟩ := fine.upcoming
  exact ⟨Routine.respectful_eq ▸ after.performed, recalls_perform recalls⟩

/-- A run recalls every exception. The induction is on its steps. -/
theorem Hosts.run_recalls (fine : m.Hosts Routine.Respectful) (steps : Nat) :
    (m.run steps).Hosts Routine.Respectful ∧ m.heap.Recalls (m.run steps).heap := by
  induction steps with
  | zero => exact ⟨fine, .refl _⟩
  | succ steps ih =>
      obtain ⟨before, recalls⟩ := ih
      obtain ⟨after, later⟩ := before.step_recalls
      rw [run_succ]
      exact ⟨after, recalls.trans later⟩

end Machine
end ScriptMachine
