import ScriptMachine.Proofs.Heap.Sequences
import ScriptMachine.Proofs.Machine.Moves

/-!
Going through built-in iterables without a loop of the program. What an iterator does depends only
on the heap, and changes iterators only. A builtin that collects what it is given goes through the
whole sequence at once, with shorter ways for lists and tuples that come to the same.
-/

namespace ScriptMachine

open ScriptMachine.Action

/-! ## What is delivered -/

/-- The machine delivers a value, with another heap. -/
def Machine.delivering (m : Machine) (h : Heap) (v : Value) (pending : Pending) : Machine :=
  { m with heap := h, control := .delivering v pending }

/-- Whatever waits for an operation gets this value, and the heap is another then. -/
def Produces (act : Pending → Action Unit) (h : Heap) (v : Value) (h' : Heap) : Prop :=
  ∀ (m : Machine) (pending : Pending), m.heap = h →
    (act pending).result m = (.ok (), m.delivering h' v pending)

namespace Produces

variable {act : Pending → Action Unit} {h h' : Heap} {v w : Value}

theorem perform {m : Machine} (produces : Produces act h v h') (heap : m.heap = h)
    (pending : Pending) : m.perform (act pending) = m.delivering h' v pending :=
  Machine.perform_of_ok (produces m pending heap)

/-- A task that has got its value goes on with another operation. -/
theorem step (produces : Produces act h v h') {task : Task} {pending pending' : Pending}
    (performs : performTask task w pending = act pending') (m : Machine) :
    (m.delivering h w (pending.before task)).step = m.delivering h' v pending' := by
  change Machine.perform _ (performTask task w pending) = _
  rw [performs]
  exact produces.perform rfl pending'

end Produces

variable {h h' : Heap} {x v : Value} {source it : Iter} {id : IteratorId} {k : Nat}
  {items : List Value} {m : Machine}

theorem deliver_produces (h : Heap) (v : Value) : Produces (deliver v) h v h := by
  rintro m pending rfl
  rfl

theorem iterate_produces (walk : iterOver? h x = some source) (left : Nat) :
    Produces (iterate x left) h (.iterator h.iterators.size) (h.newIterator source).2 := by
  rintro m pending rfl
  unfold iterate
  rw [result_bind_ok (result_askHeap _ m), walk]
  rfl

theorem iterate_iterator_produces (h : Heap) (id : IteratorId) (left : Nat) :
    Produces (iterate (.iterator id) left) h (.iterator id) h := by
  rintro m pending rfl
  cases left <;> rfl

theorem resetIter_produces (h : Heap) (id : IteratorId) :
    Produces (resetIter (.iterator id)) h .null (h.setIterator id (h.iterator id).reset) := by
  rintro m pending rfl
  rfl

theorem moveIter_produces {moved : Bool} (moves : (h.iterator id).moveNext h = (moved, it)) :
    Produces (moveIter (.iterator id)) h (.bool moved) (h.setIterator id it) := by
  rintro m pending rfl
  have done : (moveIter (.iterator id) pending).result m
      = (.ok (), m.delivering (m.heap.setIterator id ((m.heap.iterator id).moveNext m.heap).2)
          (.bool ((m.heap.iterator id).moveNext m.heap).1) pending) := rfl
  rw [done, moves]

theorem iterItem_produces (h : Heap) (id : IteratorId) :
    Produces (iterItem (.iterator id)) h (h.iterator id).current h := by
  rintro m pending rfl
  rfl

/-- Everything that can be walked has an iterator, its own or a new one, and a reset takes it to its
start. -/
theorem iterate_walks (walk : h.walk? x = some source) (left : Nat) :
    ∃ id h', Produces (iterate x left) h (.iterator id) h' ∧
      (h'.setIterator id (h'.iterator id).reset).Walks id source 0 ∧
      { h' with iterators := h.iterators } = h ∧
      (x = .iterator id ∨ (∀ own, x ≠ .iterator own) ∧ iterOver? h x = some source ∧
        id = h.iterators.size ∧ h' = (h.newIterator source).2) := by
  rcases Heap.walk?_cases walk with ⟨own, it, rfl, found, rfl⟩ | ⟨made, other⟩
  · exact ⟨own, h, iterate_iterator_produces h own left, Heap.walks_reset found, rfl, .inl rfl⟩
  · have start := Heap.reset_of_iterOver? made
    obtain ⟨it, found, same, _⟩ := Heap.walks_newIterator made
    have walks := Heap.walks_reset found
    rw [same] at walks
    exact ⟨_, _, iterate_produces made left, walks, rfl, .inr ⟨other, made, rfl, rfl⟩⟩

/-! ## Collecting -/

/-- The machine comes to deliver the items in a tuple, and changes nothing but iterators. -/
def Gathers (m : Machine) (act : Action Unit) (items : List Value) (pending : Pending) : Prop :=
  ∃ steps iterators, (m.perform act).run steps
    = m.delivering { m.heap with iterators } (.tuple items) pending

/-- The items from a place on are collected after those before. -/
theorem gathers_rest {pending : Pending} (left : Nat) :
    ∀ {m : Machine} {k : Nat}, k + left = items.length → m.heap.Walks id source k →
      source.Lists m.heap items →
      Gathers m (moveIter (.iterator id) (pending.before (.collectTest (.iterator id)
        (items.take k).reverse))) items pending := by
  induction left with
  | zero =>
      intro m k all walks lists
      have none : source.item? m.heap k = none := by
        rw [← lists k]
        exact List.getElem?_eq_none (by omega)
      rw [List.take_of_length_le (by omega)]
      refine ⟨1, (m.heap.setIterator id (m.heap.iterator id)).iterators, ?_⟩
      rw [Machine.run_one, (moveIter_produces (walks.ends none)).perform rfl]
      refine (deliver_produces _ (.tuple items)).step ?_ m
      change deliver (.tuple items.reverse.reverse) pending = _
      rw [List.reverse_reverse]
  | succ left ih =>
      intro m k all walks lists
      have inside : k < items.length := by omega
      have found : source.item? m.heap k = some items[k] := by
        rw [← lists k, List.getElem?_eq_getElem inside]
      obtain ⟨it, moves, current, walks'⟩ := walks.moves found
      have shows_ := iterItem_produces (m.heap.setIterator id it) id
      rw [current] at shows_
      have taken : (items.take (k + 1)).reverse = items[k] :: (items.take k).reverse := by
        rw [List.take_succ_eq_append_getElem inside, List.reverse_append]
        rfl
      let n := m.delivering (m.heap.setIterator id it) items[k]
        (pending.before (.collectItem (.iterator id) (items.take k).reverse))
      obtain ⟨steps, iterators, ends⟩ := ih (m := n) (k := k + 1) (by omega) walks'
        fun j => (lists j).trans (Iter.item?_congr rfl _ _)
      rw [taken] at ends
      -- the test and the item take one step each, and then the next move is made
      have tested : (m.delivering (m.heap.setIterator id it) (.bool true) (pending.before
          (.collectTest (.iterator id) (items.take k).reverse))).step = n := shows_.step rfl m
      refine ⟨1 + (1 + steps), iterators, ?_⟩
      rw [Machine.run_add, Machine.run_one, (moveIter_produces moves).perform rfl, tested,
        Machine.run_add, Machine.run_one]
      exact ends

theorem gathers_deliver {pending : Pending} (m : Machine) (items : List Value) :
    Gathers m (deliver (.tuple items) pending) items pending :=
  ⟨0, m.heap.iterators, rfl⟩

/-- Whatever has no shorter way is gone through by an iterator. -/
theorem gathers_iterate (walk : m.heap.walk? x = some source) (lists : source.Lists m.heap items)
    (pending : Pending) :
    Gathers m (iterate x maxDelegation (pending.before .collect)) items pending := by
  obtain ⟨id, h, produces, walks, same, _⟩ := iterate_walks walk maxDelegation
  have lists' : source.Lists h items := fun j =>
    (lists j).trans (Iter.item?_congr (congrArg Heap.lists same.symm) _ _)
  let n := m.delivering (h.setIterator id (h.iterator id).reset) .null
    (pending.before (.collectMove (.iterator id) []))
  obtain ⟨steps, iterators, ends⟩ :=
    gathers_rest (m := n) items.length (Nat.zero_add _) walks lists'
  have set :=
    congrArg (fun h : Heap => m.delivering { h with iterators } (.tuple items) pending) same
  refine ⟨1 + (1 + steps), iterators, ?_⟩
  rw [Machine.run_add, Machine.run_one, produces.perform rfl,
    (resetIter_produces h id).step (show performTask .collect _ pending = _ from rfl) m,
    Machine.run_add, Machine.run_one]
  exact ends.trans set

/-- Collecting a built-in iterable delivers all its items. -/
theorem gathers_collect (walk : m.heap.walk? x = some source) (lists : source.Lists m.heap items)
    (pending : Pending) : Gathers m (collect x pending) items pending := by
  cases x with
  | list id =>
      obtain rfl : Iter.overList id = source := Option.some.inj walk
      have all : items = (m.heap.list id).toList := List.ext_getElem? fun k => by
        rw [lists k, Array.getElem?_toList]
        rfl
      rw [all]
      exact ⟨0, m.heap.iterators, rfl⟩
  | tuple own =>
      obtain rfl : Iter.overItems own = source := Option.some.inj walk
      have all : items = own := List.ext_getElem? lists
      rw [all]
      exact gathers_deliver m own
  | _ => exact gathers_iterate walk lists pending

/-- The builtins that collect a value. What then waits for the items is `pending'`. -/
inductive Collects (x : Value) (pending : Pending) : Action Unit → Pending → Prop where
  | list : Collects x pending (constructType .list [x] pending) (pending.before .makeList)
  | tuple : Collects x pending (constructType .tuple [x] pending) pending
  | appendrange (receiver : Option Value) :
      Collects x pending (callNative (.list .appendrange) receiver [x] pending)
        (pending.before (.appendItems receiver))
  | join (receiver : Option Value) :
      Collects x pending (callNative (.text .join) receiver [x] pending)
        ((pending.before (.joinTexts receiver)).before .showItems)

theorem Collects.eq {pending pending' : Pending} {act : Action Unit}
    (collects : Collects x pending act pending') : act = collect x pending' := by
  cases collects <;> rfl

/-! ## Draining -/

/-- Moves of an iterator that show these items, and one more that answers no. -/
inductive Drains (it : Value) : Heap → List Value → Heap → Prop where
  | ends {h h' : Heap} : Produces (moveIter it) h (.bool false) h' → Drains it h [] h'
  | next {h h' h'' : Heap} {v : Value} {items : List Value} :
      Produces (moveIter it) h (.bool true) h' → Produces (iterItem it) h' v h' →
      Drains it h' items h'' → Drains it h (v :: items) h''

theorem drains_rest (left : Nat) : ∀ {h : Heap} {k : Nat}, k + left = items.length →
    h.Walks id source k → source.Lists h items →
    ∃ h', Drains (.iterator id) h (items.drop k) h' := by
  induction left with
  | zero =>
      intro h k all walks lists
      have none : source.item? h k = none := by
        rw [← lists k]
        exact List.getElem?_eq_none (by omega)
      rw [List.drop_eq_nil_of_le (by omega)]
      exact ⟨_, .ends (moveIter_produces (walks.ends none))⟩
  | succ left ih =>
      intro h k all walks lists
      have inside : k < items.length := by omega
      have found : source.item? h k = some items[k] := by
        rw [← lists k, List.getElem?_eq_getElem inside]
      obtain ⟨it, moves, current, walks'⟩ := walks.moves found
      have shows_ := iterItem_produces (h.setIterator id it) id
      rw [current] at shows_
      obtain ⟨h', rest⟩ := ih (k := k + 1) (by omega) walks'
        fun j => (lists j).trans (Iter.item?_congr rfl _ _)
      rw [List.drop_eq_getElem_cons inside]
      exact ⟨h', .next (moveIter_produces moves) shows_ rest⟩

/-- After a reset, the iterator of a value shows all its items. -/
theorem drains_iterate (walk : h.walk? x = some source) (lists : source.Lists h items) :
    ∃ it h₁ h₂ h₃, Produces (iterate x maxDelegation) h it h₁ ∧
      Produces (resetIter it) h₁ .null h₂ ∧ Drains it h₂ items h₃ := by
  obtain ⟨id, h₁, produces, walks, same, _⟩ := iterate_walks walk maxDelegation
  have lists' : source.Lists h₁ items := fun j =>
    (lists j).trans (Iter.item?_congr (congrArg Heap.lists same.symm) _ _)
  obtain ⟨h₃, drains⟩ := drains_rest items.length (Nat.zero_add _) walks lists'
  exact ⟨_, h₁, _, h₃, produces, resetIter_produces h₁ id, drains⟩

end ScriptMachine
