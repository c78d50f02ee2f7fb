import ScriptMachine.Machine.Iteration
import ScriptMachine.Proofs.Heap.Walks

/-!
What iterators visit. Every iterator has a sequence of items from its start on, wherever it stands.
A list is looked at when a move is made, so its sequence is that of the moment; the items of all
others were settled when the iterator was made. A move goes on to the next item of the sequence.
-/

namespace ScriptMachine

namespace Iter

/-- The item that a walk from the start visits at its move with this number, if it is made now. -/
def item? (h : Heap) (it : Iter) (k : Nat) : Option Value :=
  match it with
  | .list id _ _ => (h.list id)[k]?
  | .items all _ _ => all[k]?
  | .range first stop step _ _ =>
      let next := Progression.term first step k
      if Progression.Before stop step next then some (.int (Int64.ofInt next)) else none

/-- These are all the items of the iterator from its start on, as things are now. -/
def Lists (h : Heap) (it : Iter) (items : List Value) : Prop :=
  ∀ k, items[k]? = it.item? h k

/-- The iterator has made so many moves since its start. -/
def Stands (k : Nat) : Iter → Prop
  | .list _ index _ => index = k
  | .items all rest _ => rest = all.drop k
  | .range first stop step next _ => Progression.Awaits first stop step k next

variable {h h' : Heap} {it : Iter} {k : Nat} {v : Value}

theorem item?_reset (h : Heap) (it : Iter) (k : Nat) : it.reset.item? h k = it.item? h k := by
  cases it <;> rfl

theorem item?_congr (lists : h.lists = h'.lists) (it : Iter) (k : Nat) :
    it.item? h k = it.item? h' k := by
  cases it with
  | list id index item =>
      change (h.lists.getD id #[])[k]? = (h'.lists.getD id #[])[k]?
      rw [lists]
  | items all rest item => rfl
  | range first stop step next item => rfl

theorem stands_reset (it : Iter) : it.reset.Stands 0 := by
  cases it with
  | list => rfl
  | items => rfl
  | range first stop step => exact .inl (by simp [Progression.term])

/-- A move goes on to the next item. -/
theorem Stands.moves (stands : it.Stands k) (found : it.item? h k = some v) :
    ∃ it', it.moveNext h = (true, it') ∧ it'.Stands (k + 1) ∧ it'.current = v := by
  cases it with
  | list id index item =>
      obtain rfl : index = k := stands
      have found : (h.list id)[index]? = some v := found
      refine ⟨.list id (index + 1) v, ?_, rfl, rfl⟩
      simp only [moveNext, found]
  | items all rest item =>
      obtain rfl : rest = all.drop k := stands
      obtain ⟨inside, rfl⟩ := List.getElem?_eq_some_iff.1 found
      refine ⟨.items all (all.drop (k + 1)) all[k], ?_, rfl, rfl⟩
      rw [List.drop_eq_getElem_cons inside]
      rfl
  | range first stop step next item =>
      have awaits : Progression.Awaits first stop step k next := stands
      obtain ⟨before, same⟩ := Option.ite_none_right_eq_some.1 found
      obtain ⟨later, awaited, moved⟩ := awaits.moves before h item
      refine ⟨_, moved, awaited, ?_⟩
      rw [← Option.some.inj same, ← awaits.exact before, Int64.ofInt_toInt]
      rfl

/-- At the end a move changes nothing. -/
theorem Stands.ends (stands : it.Stands k) (none : it.item? h k = none) :
    it.moveNext h = (false, it) := by
  cases it with
  | list id index item =>
      obtain rfl : index = k := stands
      have none : (h.list id)[index]? = Option.none := none
      simp only [moveNext, none]
  | items all rest item =>
      obtain rfl : rest = all.drop k := stands
      rw [List.drop_eq_nil_of_le (List.getElem?_eq_none_iff.1 none)]
      rfl
  | range first stop step next item =>
      have awaits : Progression.Awaits first stop step k next := stands
      refine awaits.stays (fun before => ?_) h item
      cases none.symm.trans (if_pos before)

/-- A progression that gets on ends, and so does every other walk. -/
theorem exists_lists (h : Heap) (it : Iter)
    (advances : ∀ first stop next item, it ≠ .range first stop 0 next item) :
    ∃ items, it.Lists h items := by
  cases it with
  | list id _ _ => exact ⟨(h.list id).toList, fun k => Array.getElem?_toList⟩
  | items all _ _ => exact ⟨all, fun k => rfl⟩
  | range first stop step next item =>
      have moves : step ≠ 0 := fun zero => advances first stop next item (zero ▸ rfl)
      refine ⟨(List.range (Progression.count first stop step)).map fun k =>
        .int (Int64.ofInt (Progression.term first step k)), fun k => ?_⟩
      have before : k < Progression.count first stop step ↔ _ := Progression.lt_count_iff moves k
      by_cases more : k < Progression.count first stop step
      · rw [List.getElem?_map, List.getElem?_range more]
        exact (if_pos (before.1 more)).symm
      · rw [List.getElem?_map, List.getElem?_eq_none (by rw [List.length_range]; omega)]
        exact (if_neg (mt before.2 more)).symm

end Iter

namespace Heap

/-- The iterator, at its start, that goes through a value of this heap. Only values that are built
in and can be walked have one. -/
def walk? (h : Heap) : Value → Option Iter
  | .iterator id => h.iterators[id]?.map Iter.reset
  | x => Action.iterOver? h x

/-- An iterator of this heap has made so many moves from this start. -/
def Walks (h : Heap) (id : IteratorId) (source : Iter) (k : Nat) : Prop :=
  ∃ it, h.iterators[id]? = some it ∧ it.reset = source ∧ it.Stands k

variable {h h' : Heap} {x v : Value} {source it : Iter} {id : IteratorId} {k : Nat}

theorem iterator_eq (found : h.iterators[id]? = some it) : h.iterator id = it := by
  unfold iterator
  rw [Array.getD_eq_getD_getElem?, found, Option.getD_some]

theorem iterators_setIterator (found : h.iterators[id]? = some it) (it' : Iter) :
    (h.setIterator id it').iterators[id]? = some it' := by
  unfold setIterator
  rw [Array.getElem?_modify, if_pos rfl, found, Option.map_some]

/-- An iterator goes through its own sequence, and whatever else can be walked gets one. -/
theorem walk?_cases (walk : h.walk? x = some source) :
    (∃ id it, x = .iterator id ∧ h.iterators[id]? = some it ∧ it.reset = source) ∨
      Action.iterOver? h x = some source ∧ ∀ id, x ≠ .iterator id := by
  cases x with
  | iterator id =>
      obtain ⟨it, found, start⟩ := Option.map_eq_some_iff.1 walk
      exact .inl ⟨id, it, rfl, found, start⟩
  | _ => exact .inr ⟨walk, nofun⟩

/-- A fresh iterator stands at its start. -/
theorem reset_of_iterOver? (walk : Action.iterOver? h x = some source) : source.reset = source := by
  cases x <;> cases walk <;> rfl

/-- An iterator that is made for a value is at its start. -/
theorem walks_newIterator (walk : Action.iterOver? h x = some source) :
    (h.newIterator source).2.Walks h.iterators.size source 0 := by
  have start := reset_of_iterOver? walk
  exact ⟨source, Array.getElem?_push_size, start, start ▸ source.stands_reset⟩

/-- An iterator that is reset is at its start, wherever it was. -/
theorem walks_reset (found : h.iterators[id]? = some it) :
    (h.setIterator id (h.iterator id).reset).Walks id it.reset 0 := by
  refine ⟨it.reset, ?_, by cases it <;> rfl, it.stands_reset⟩
  rw [iterators_setIterator found, iterator_eq found]

namespace Walks

/-- A move takes the next item, as long as there is one. -/
theorem moves (walks : h.Walks id source k) (found : source.item? h k = some v) :
    ∃ it, (h.iterator id).moveNext h = (true, it) ∧
      ((h.setIterator id it).iterator id).current = v ∧
      (h.setIterator id it).Walks id source (k + 1) := by
  obtain ⟨it, here, rfl, stands⟩ := walks
  rw [Iter.item?_reset] at found
  obtain ⟨it', moved, stands', current⟩ := stands.moves found
  rw [iterator_eq here]
  have start := Iter.reset_moveNext h it
  rw [moved] at start
  have set := iterators_setIterator here it'
  refine ⟨it', moved, ?_, it', set, start, stands'⟩
  rw [iterator_eq set, current]

/-- At the end a move changes nothing. -/
theorem ends (walks : h.Walks id source k) (none : source.item? h k = none) :
    (h.iterator id).moveNext h = (false, h.iterator id) := by
  obtain ⟨it, here, rfl, stands⟩ := walks
  rw [Iter.item?_reset] at none
  rw [iterator_eq here]
  exact stands.ends none

/-- Walking does not depend on the rest of the heap. -/
theorem congr (walks : h.Walks id source k) (same : h'.iterators[id]? = h.iterators[id]?) :
    h'.Walks id source k := by
  obtain ⟨it, here, start⟩ := walks
  exact ⟨it, same.trans here, start⟩

end Walks
end Heap

/-! ## What values have -/

namespace Value

/-- The item with this number that a walk over a value comes to: of a list the one that is there
now, of a tuple, a string or a map the one that was there when the walk began, on the heap `h₀`, and
of an iterator the one of its full sequence. -/
def item? (h₀ h : Heap) (k : Nat) : Value → Option Value
  | .list id => (h.list id)[k]?
  | .tuple items => items[k]?
  | .str s => (s.toList.map fun c => .str (String.singleton c))[k]?
  | .map id => (h₀.map id).keys[k]?
  | .iterator id => (h₀.iterator id).item? h k
  | _ => none

/-- These are all the items of the value. -/
def Lists (x : Value) (h₀ h : Heap) (items : List Value) : Prop :=
  ∀ k, items[k]? = x.item? h₀ h k

/-- A value that is built in and can be walked. -/
def IsIterable (h : Heap) : Value → Prop
  | .list _ | .tuple _ | .str _ | .map _ => True
  | .iterator id => id < h.iterators.size
  | _ => False

/-- An iterator over a progression with a step of zero, which no program is given. -/
def Endless (h : Heap) (x : Value) : Prop :=
  ∃ id first stop next item, x = .iterator id ∧ h.iterator id = .range first stop 0 next item

variable {h : Heap} {x : Value}

theorem exists_walk? (iterable : x.IsIterable h) :
    ∃ source, h.walk? x = some source ∧ ∀ h' k, source.item? h' k = x.item? h h' k := by
  cases x with
  | iterator id =>
      have found := Array.getElem?_eq_getElem (show id < h.iterators.size from iterable)
      refine ⟨_, congrArg (Option.map Iter.reset) found, fun h' k => ?_⟩
      rw [Iter.item?_reset, ← Heap.iterator_eq found]
      rfl
  | list | tuple | str | map => exact ⟨_, rfl, fun _ _ => rfl⟩
  | _ => exact iterable.elim

/-- Whatever is not endless has a list of items. -/
theorem exists_lists (iterable : x.IsIterable h) (ends : ¬ x.Endless h) (h' : Heap) :
    ∃ items, x.Lists h h' items := by
  obtain ⟨source, walk, same⟩ := exists_walk? iterable
  have advances : ∀ first stop next item, source ≠ .range first stop 0 next item := by
    rintro first stop next item rfl
    rcases Heap.walk?_cases walk with ⟨id, it, rfl, found, start⟩ | ⟨made, _⟩
    · cases it with
      | range first' stop' step' next' item' =>
          cases start
          exact ends ⟨id, _, _, _, _, rfl, Heap.iterator_eq found⟩
      | _ => cases start
    · cases x <;> cases made
  obtain ⟨items, lists⟩ := source.exists_lists h' advances
  exact ⟨items, fun k => (lists k).trans (same h' k)⟩

end Value

end ScriptMachine
