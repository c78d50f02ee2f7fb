import ScriptMachine.Proofs.Heap.Recalling
import ScriptMachine.Proofs.Machine.Upkeep

/-!
What stays of exceptions. All that operations and instructions do to exceptions is to make new ones,
which have no trace yet. So whatever survives this stays as it is until something is raised, as long
as the functions of the host leave it alone as well. To leave it alone is a discipline that asks
nothing of values.
-/

namespace ScriptMachine

open ScriptMachine.Action

/-- The exceptions are the same, or there is one more, which has no trace. -/
inductive Heap.Makes : Heap → Heap → Prop where
  | same {h h' : Heap} : h'.exceptions = h.exceptions → Makes h h'
  | one (h : Heap) (e : ExceptionObject) : e.trace = [] → Makes h (h.newException e).2

/-- A relation between a heap and a later one that making exceptions does not break. -/
class Lasting (stays : Heap → Heap → Prop) : Prop where
  of_makes {h h' : Heap} : h.Makes h' → stays h h'
  trans {h₁ h₂ h₃ : Heap} : stays h₁ h₂ → stays h₂ h₃ → stays h₁ h₃

variable {stays : Heap → Heap → Prop}

/-- What a function of the host does leaves alone what is to stay. -/
def Routine.Leaves (stays : Heap → Heap → Prop) : Routine → Prop
  | .edit change next => (∀ h : Heap, stays h (change.apply h)) ∧ ∀ h, (next h).Leaves stays
  | .global _ next => ∀ v, (next v).Leaves stays
  | .setGlobal _ _ next => next.Leaves stays
  | .call _ _ next => ∀ v, (next v).Leaves stays
  | .give _ | .fail _ _ | .raise _ => True

/-- The action leaves alone what is to stay, and the machine one in which all functions of the host
do so. -/
def Respects (stays : Heap → Heap → Prop) {α : Type} (a : Action α) : Prop :=
  ∀ m : Machine, m.Hosts (Routine.Leaves stays) →
    (a.result m).2.Hosts (Routine.Leaves stays) ∧ stays m.heap (a.result m).2.heap

/-- What was there at first is to stay. -/
def Discipline.lasting (stays : Heap → Heap → Prop) (first : Heap) : Discipline where
  value _ := True
  routine := Routine.Leaves stays
  heap := stays first

/-- A machine keeps the discipline if what was there at first has stayed and all functions of the
host leave it alone. -/
theorem Discipline.kept_lasting {first : Heap} {m : Machine} : (lasting stays first).Kept m ↔
    stays first m.heap ∧ m.Hosts (Routine.Leaves stays) :=
  kept_iff (fun _ => trivial) rfl

variable [Lasting stays]

/-- Whatever else changes on the heap makes no difference. -/
theorem Lasting.of_exceptions {h h' : Heap} (same : h'.exceptions = h.exceptions) : stays h h' :=
  of_makes (.same same)

theorem Lasting.refl (h : Heap) : stays h h :=
  of_exceptions rfl

instance (first : Heap) : (Discipline.lasting stays first).Instructs where
  plain _ := trivial
  tuple _ := ⟨fun _ _ _ => trivial, fun _ => trivial⟩
  same _ exceptions kept := Lasting.trans kept (Lasting.of_exceptions exceptions)
  newException untraced kept := Lasting.trans kept (Lasting.of_makes (.one _ _ untraced))
  newIterator _ kept := .inr ⟨Lasting.trans kept (Lasting.of_exceptions rfl), trivial⟩
  setIterator _ _ kept := Lasting.trans kept (Lasting.of_exceptions rfl)
  give _ := trivial
  edit fine on := .inl ⟨⟨Heap.meets_of_all (fun _ => trivial) _, Lasting.trans on.own (fine.1 _)⟩,
    fine.2 _⟩
  overlooks _ _ := ⟨rfl, rfl⟩
  «global» fine _ := fine _
  setGlobal fine := ⟨trivial, fine⟩
  call fine := ⟨trivial, fun _ _ => trivial, fun v _ => fine v⟩

/-- Whatever keeps to every discipline leaves alone what is to stay. -/
theorem Careful.respects {a : Action Unit}
    (careful : ∀ first, Careful (Discipline.lasting stays first) a) : Respects stays a := by
  intro m fine
  rcases careful m.heap m (Discipline.kept_lasting.2 ⟨Lasting.refl _, fine⟩) with ⟨_, kept⟩ | lost
  · exact (Discipline.kept_lasting.1 kept).symm
  · exact lost.elim

/-! ## Steps -/

namespace Machine

/-- A fault becomes a new exception before it is raised. -/
theorem stays_resolve (m : Machine) (e : Raised) : stays m.heap (e.resolve m).2.heap := by
  cases e with
  | fault cause | defect cause => exact Lasting.of_makes (.one m.heap _ rfl)
  | exception id => exact Lasting.refl m.heap

/-- What is done next leaves alone what is to stay. -/
theorem Hosts.upcoming {m : Machine} (fine : m.Hosts (Routine.Leaves stays)) :
    (m.upcoming.result m).2.Hosts (Routine.Leaves stays) ∧
      stays m.heap (m.upcoming.result m).2.heap := by
  have before : (Discipline.lasting stays m.heap).Kept m :=
    Discipline.kept_lasting.2 ⟨Lasting.refl _, fine⟩
  rcases before.upcoming (Discipline.room_of_nil rfl) (fun some => absurd rfl some) with
    ⟨_, kept⟩ | lost
  · exact (Discipline.kept_lasting.1 kept).symm
  · exact lost.elim

end Machine
end ScriptMachine
