import ScriptMachine.Proofs.Machine.Upkeep

/-!
Secrets of a run. The iterator of a loop lies among the operands of the frame that runs the loop,
and nothing else refers to it. As long as the frame does not reach for these operands, the iterator
stays as it is, and nothing else comes to refer to it, whatever runs in the meantime. Functions of
the host could do more, since they change objects as they like; here they reach only what they are
given. To keep a secret is a discipline.
-/

namespace ScriptMachine

open ScriptMachine.Action

variable {i : IteratorId}

/-! ## What may refer to an iterator -/

/-- The value is the iterator, or leads to it through tuples. -/
inductive Value.RefersTo (i : IteratorId) : Value → Prop where
  | iterator : RefersTo i (.iterator i)
  | tuple {items : List Value} {v : Value} : v ∈ items → RefersTo i v → RefersTo i (.tuple items)

/-- Nothing but iterators and tuples refers to an iterator. -/
theorem Value.not_refersTo_of_isPlain {v : Value} (plain : v.isPlain = true) : ¬v.RefersTo i := by
  intro refers
  cases refers <;> cases plain

theorem Value.not_refersTo_iterator (j : IteratorId) :
    ¬(Value.iterator j).RefersTo i ↔ j ≠ i := by
  refine ⟨fun avoids same => avoids (same ▸ .iterator), fun apart refers => ?_⟩
  cases refers
  exact apart rfl

/-- A tuple refers to what its items refer to. -/
theorem Value.not_refersTo_tuple (items : List Value) :
    ¬(Value.tuple items).RefersTo i ↔ ∀ v ∈ items, ¬v.RefersTo i := by
  refine ⟨fun avoids v member refers => avoids (.tuple member refers), fun avoids refers => ?_⟩
  cases refers with
  | tuple member refers => exact avoids _ member refers

/-- Values do not refer to the iterator. -/
def Standard.without (i : IteratorId) : Standard where
  value v := ¬v.RefersTo i

/-- Nothing on the heap refers to the iterator, and it is as it was, if it is there. There are no
fewer iterators than there were. -/
structure Heap.Hides (i : IteratorId) (state : Option Iter) (count : Nat) (h : Heap) : Prop
    extends h.Meets (.without i) where
  still : h.iterators[i]? = state
  many : count ≤ h.iterators.size

/-- What a function of the host does if it was not given the iterator: it neither changes it nor
comes up with it. It may make iterators. -/
def Routine.Discreet (i : IteratorId) : Routine → Prop
  | .give v => ¬v.RefersTo i
  | .edit change next =>
      (∀ h : Heap, h.Meets (.without i) →
        (change.apply h).Hides i h.iterators[i]? h.iterators.size ∨
        h.iterators[i]? = none ∧ i < (change.apply h).iterators.size) ∧
      ∀ h : Heap, h.Meets (.without i) → (next h).Discreet i
  | .global _ next => ∀ v, Passes (.without i) v → (next v).Discreet i
  | .setGlobal _ v next => ¬v.RefersTo i ∧ next.Discreet i
  | .call callee args next =>
      ¬callee.RefersTo i ∧ Passes (.without i) args ∧ ∀ v, ¬v.RefersTo i → (next v).Discreet i
  | .fail _ _ | .raise _ => True

/-- No iterator is removed. -/
def Routine.Grows : Routine → Prop
  | .edit change next =>
      (∀ h : Heap, h.iterators.size ≤ (change.apply h).iterators.size) ∧ ∀ h, (next h).Grows
  | .global _ next => ∀ v, (next v).Grows
  | .setGlobal _ _ next => next.Grows
  | .call _ _ next => ∀ v, (next v).Grows
  | .give _ | .fail _ _ | .raise _ => True

/-- Nothing refers to the iterator, and functions of the host will not come up with it. -/
def Standard.avoiding (i : IteratorId) : Standard where
  value v := ¬v.RefersTo i
  routine routine := routine.Discreet i ∧ routine.Grows

/-- Nothing in the data refers to the iterator. -/
abbrev Avoids (i : IteratorId) {α : Type} [Holder α] (x : α) : Prop :=
  Passes (.avoiding i) x

/-- Nothing on the heap refers to the iterator. -/
abbrev Heap.Lacks (i : IteratorId) (h : Heap) : Prop :=
  h.Meets (.avoiding i)

instance : (Standard.avoiding i).Lawful :=
  ⟨Value.not_refersTo_of_isPlain, Value.not_refersTo_tuple⟩

/-- A heap has no functions of the host, so what is asked of them does not matter to it. -/
theorem Heap.lacks_iff {h : Heap} : h.Lacks i ↔ h.Meets (.without i) := by
  have same : (Standard.avoiding i).value = (Standard.without i).value := rfl
  exact ⟨fun lacks => lacks.congr same, fun meets => meets.congr same.symm⟩

/-! ## Secrets -/

/-- An iterator to which nothing refers but the lowest operands of one frame. -/
structure Secret where
  iterator : IteratorId
  /-- What the iterator is, if it is there. -/
  state : Option Iter
  /-- How many iterators there are at least. -/
  count : Nat := 0
  /-- The number of frames below the one. -/
  depth : Nat := 0
  operands : List Value := []

namespace Secret

variable (s : Secret)

/-- To keep a secret is to leave the iterator as it was. It is too late for one that was not there
and has been made. -/
def discipline : Discipline where
  toStandard := .avoiding s.iterator
  heap h := h.iterators[s.iterator]? = s.state ∧ s.count ≤ h.iterators.size
  lost h := s.state = none ∧ s.iterator < h.iterators.size
  depth := s.depth
  operands := s.operands

/-- Nothing in the machine refers to the iterator but the operands, and it is what it was. -/
abbrev Kept (m : Machine) : Prop :=
  s.discipline.Kept m

/-- The iterator was not there and has been made. -/
abbrev Made (m : Machine) : Prop :=
  s.discipline.lost m.heap

theorem low_eq (depth : Nat) :
    s.discipline.low depth = if depth = s.depth then s.operands else [] :=
  rfl

/-- A heap meets the demands if nothing refers to the iterator and it is as it was. -/
theorem metBy_iff {h : Heap} :
    s.discipline.MetBy h ↔ h.Hides s.iterator s.state s.count :=
  ⟨fun on => ⟨Heap.lacks_iff.1 on.toMeets, on.own.1, on.own.2⟩,
    fun hides => ⟨Heap.lacks_iff.2 hides.toMeets, hides.still, hides.many⟩⟩

end Secret

/-- Making iterators and changing what is there removes none. -/
theorem Action.carryOut_grows {routine : Routine} (grows : routine.Grows) (pending : Pending)
    (m : Machine) :
    m.heap.iterators.size ≤ ((carryOut pending routine).result m).2.heap.iterators.size := by
  induction routine generalizing m with
  | give v => exact Nat.le_refl _
  | fail type message => exact Nat.le_refl _
  | raise id => exact Nat.le_refl _
  | edit change next ih =>
      exact Nat.le_trans (grows.1 m.heap)
        (ih _ (grows.2 _) { m with heap := change.apply m.heap })
  | «global» name next ih => exact ih _ (grows _) m
  | setGlobal name v next ih => exact ih grows { m with globals := m.globals.set name v }
  | call callee args next => exact Nat.le_refl _

namespace Secret

variable {s : Secret}

instance : s.discipline.Lawful where
  plain := Value.not_refersTo_of_isPlain
  tuple := Value.not_refersTo_tuple
  same iterators _ own := by
    change _ ∧ _
    rw [iterators]
    exact own
  newException _ own := own
  newIterator {h} it own := by
    by_cases same : h.iterators.size = s.iterator
    · refine .inl ⟨?_, ?_⟩
      · rw [← own.1, ← same, Array.getElem?_size]
      · change s.iterator < (h.iterators.push it).size
        rw [Array.size_push, same]
        exact Nat.lt_succ_self _
    · refine .inr ⟨⟨?_, ?_⟩, (Value.not_refersTo_iterator _).2 same⟩
      · change (h.iterators.push it)[s.iterator]? = s.state
        rw [Array.getElem?_push, if_neg fun last => same last.symm]
        exact own.1
      · exact Nat.le_trans own.2 (Array.size_push it ▸ Nat.le_succ _)
  setIterator {h id} it other own := by
    have apart : id ≠ s.iterator := (Value.not_refersTo_iterator id).1 other
    refine ⟨?_, ?_⟩
    · change (h.iterators.modify id fun _ => it)[s.iterator]? = s.state
      rw [Array.getElem?_modify, if_neg apart]
      exact own.1
    · change s.count ≤ (h.iterators.modify id fun _ => it).size
      rw [Array.size_modify]
      exact own.2

instance : s.discipline.Instructs where
  give fine := fine.1
  edit {change next h} fine on := by
    have hides := s.metBy_iff.1 on
    rcases fine.1.1 h hides.toMeets with still | made
    · have after : (change.apply h).Hides s.iterator s.state s.count :=
        { still with
          still := still.still.trans hides.still
          many := Nat.le_trans hides.many still.many }
      exact .inl ⟨s.metBy_iff.2 after, fine.1.2 _ after.toMeets, fine.2.2 _⟩
    · -- what is left to do takes no iterator away
      refine .inr fun pending m same => ⟨hides.still.symm.trans made.1, ?_⟩
      have grows := carryOut_grows (fine.2.2 (change.apply h)) pending m
      rw [same] at grows
      exact Nat.lt_of_lt_of_le made.2 grows
  overlooks _ _ := ⟨rfl, rfl⟩
  «global» fine known := ⟨fine.1 _ known, fine.2 _⟩
  setGlobal fine := ⟨fine.1.1, fine.1.2, fine.2⟩
  call fine := ⟨fine.1.1, fine.1.2.1, fun v known => ⟨fine.1.2.2 v known, fine.2 v⟩⟩

end Secret
end ScriptMachine
