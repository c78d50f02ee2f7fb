import ScriptMachine.Proofs.Heap.Keeping

/-!
Exceptions on the heap. Once it is there an exception keeps its type, its message and the object
that was raised, and its trace as soon as it has one.
-/

namespace ScriptMachine

/-- What an exception may have become: at most it was given a trace. -/
structure ExceptionObject.Becomes (e e' : ExceptionObject) : Prop where
  type : e'.type = e.type
  message : e'.message = e.message
  payload : e'.payload = e.payload
  trace : e.trace ≠ [] → e'.trace = e.trace

/-- The exceptions that are there stay what they are. -/
structure Heap.Recalls (h h' : Heap) : Prop where
  size : h.exceptions.size ≤ h'.exceptions.size
  becomes : ∀ id < h.exceptions.size, (h.exception id).Becomes (h'.exception id)

namespace ExceptionObject

theorem Becomes.refl (e : ExceptionObject) : e.Becomes e :=
  ⟨rfl, rfl, rfl, fun _ => rfl⟩

/-- A trace that was given to it first stays, since it is not empty. -/
theorem Becomes.trans {e₁ e₂ e₃ : ExceptionObject} (first : e₁.Becomes e₂)
    (second : e₂.Becomes e₃) : e₁.Becomes e₃ where
  type := second.type.trans first.type
  message := second.message.trans first.message
  payload := second.payload.trans first.payload
  trace some := by
    have same := first.trace some
    rw [second.trace (by rwa [same]), same]

/-- An exception that has a trace is the same ever after. -/
theorem Becomes.eq {e e' : ExceptionObject} (becomes : e.Becomes e') (some : e.trace ≠ []) :
    e' = e := by
  obtain ⟨type, message, payload, trace⟩ := becomes
  obtain ⟨_, _, _, _⟩ := e'
  obtain ⟨_, _, _, _⟩ := e
  obtain ⟨rfl⟩ := type
  obtain ⟨rfl⟩ := message
  obtain ⟨rfl⟩ := payload
  obtain ⟨rfl⟩ := trace some
  rfl

end ExceptionObject

namespace Heap

theorem Recalls.refl (h : Heap) : h.Recalls h :=
  ⟨Nat.le_refl _, fun _ _ => .refl _⟩

theorem Recalls.trans {h₁ h₂ h₃ : Heap} (first : h₁.Recalls h₂) (second : h₂.Recalls h₃) :
    h₁.Recalls h₃ where
  size := Nat.le_trans first.size second.size
  becomes id known :=
    (first.becomes id known).trans (second.becomes id (Nat.lt_of_lt_of_le known first.size))

/-- Other objects may change as they like. -/
theorem Recalls.of_exceptions {h h' : Heap} (same : h'.exceptions = h.exceptions) :
    h.Recalls h' where
  size := Nat.le_of_eq (congrArg Array.size same.symm)
  becomes id _ := by
    rw [exception, exception, same]
    exact .refl _

/-- A new exception is the last one. -/
theorem exception_newException (h : Heap) (e : ExceptionObject) :
    (h.newException e).2.exception h.exceptions.size = e := by
  simp [newException, exception]

theorem size_newException (h : Heap) (e : ExceptionObject) :
    h.exceptions.size < (h.newException e).2.exceptions.size := by
  rw [newException, Array.size_push]
  exact Nat.lt_succ_self _

/-- A new exception leaves those that are there alone. -/
theorem recalls_newException (h : Heap) (e : ExceptionObject) :
    h.Recalls (h.newException e).2 where
  size := Nat.le_of_lt (size_newException h e)
  becomes id known := by
    simp only [newException, exception, Array.getD_eq_getD_getElem?, Array.getElem?_push_lt known]
    rw [Array.getElem?_eq_getElem known]
    exact .refl _

/-- A trace is set only where there is none. -/
theorem recalls_setTrace (h : Heap) (id : ExceptionId) (trace : List TraceFrame) :
    h.Recalls (h.setTrace id trace) where
  size := Nat.le_of_eq (by rw [setTrace, Array.size_modify])
  becomes other known := by
    simp only [setTrace, exception, Array.getD_eq_getD_getElem?, Array.getElem?_modify]
    rw [Array.getElem?_eq_getElem known]
    split
    · rw [Option.map_some, Option.getD_some, Option.getD_some]
      split
      · next none => exact ⟨rfl, rfl, rfl, fun some => absurd (List.isEmpty_iff.1 none) some⟩
      · exact .refl _
    · exact .refl _

end Heap
end ScriptMachine
