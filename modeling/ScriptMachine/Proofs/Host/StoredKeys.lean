import ScriptMachine.Proofs.Host.Maps

/-!
Keys that are stored. A key is found again if it equals itself, which is up to the floats in it and
to how deep its tuples are nested, while any key is stored that has no list and no map in it. A
comparison stops where tuples are nested too deep and takes them for unequal; so a key of that kind
is stored and not found again, and every assignment under it adds another entry.
-/

namespace ScriptMachine

namespace Entries

variable {key : Value}

/-- Storing under a key is not seen under a key that is unequal. -/
theorem find?_insert_of_unequal {other : Value} (unequal : Value.keyEquals other key = false)
    (value : Value) (entries : Entries Value Value) :
    find? Value.keyEquals other (insert Value.keyEquals key value entries)
      = find? Value.keyEquals other entries := by
  induction entries with
  | nil => simp [insert, find?, unequal]
  | cons entry rest ih =>
      obtain ⟨k, v⟩ := entry
      rw [insert]
      split
      · next here =>
          have apart : Value.keyEquals other k = false := by
            refine Bool.eq_false_iff.2 fun same => ?_
            rw [Value.keyEquals_trans same (Value.keyEquals_symm here)] at unequal
            cases unequal
          rw [find?, find?, apart, if_neg Bool.false_ne_true, if_neg Bool.false_ne_true]
      · rw [find?, find?, ih]

/-- A key that is not equal to itself is equal to no key. -/
theorem find?_of_unequal_self (unequal : Value.keyEquals key key = false)
    (entries : Entries Value Value) : find? Value.keyEquals key entries = none := by
  induction entries with
  | nil => rfl
  | cons entry rest ih =>
      have apart : Value.keyEquals key entry.1 = false := by
        refine Bool.eq_false_iff.2 fun same => ?_
        rw [Value.keyEquals_trans same (Value.keyEquals_symm same)] at unequal
        cases unequal
      rw [find?, apart, if_neg Bool.false_ne_true, ih]

end Entries

namespace Ledger

variable {l : Ledger} {id : MapId}

theorem entries_modify (there : id < l.length) (entries : Entries Value Value) :
    Ledger.entries (l.modify id fun _ => entries) id = entries := by
  rw [Ledger.entries, List.getD_eq_getElem?_getD, List.getElem?_modify_eq,
    List.getElem?_eq_getElem there]
  rfl

/-- Only a map that there is has entries. -/
theorem lt_length_of_find? {key v : Value}
    (found : Entries.find? Value.keyEquals key (l.entries id) = some v) : id < l.length := by
  by_contra beyond
  rw [Ledger.entries, List.getD_eq_getElem?_getD, List.getElem?_eq_none (Nat.le_of_not_lt beyond)]
    at found
  cases found

end Ledger

namespace Machine

variable {m : Machine} {id : MapId} {key v : Value}

/-- An assignment under a key that is hashable stores the value. -/
theorem step_assign (stores : m.mapOperation? = some (.assign id key v))
    (there : id < m.heap.ledger.length) (hashable : key.isHashable = true) :
    m.failure? = none ∧ m.step.heap.ledger.entries id
      = Entries.insert Value.keyEquals key v (m.heap.ledger.entries id) := by
  have came : MapOperation.outcome m.heap.ledger (.assign id key v) = .ok (.nothing,
      m.heap.ledger.modify id fun _ =>
        Entries.insert Value.keyEquals key v (m.heap.ledger.entries id)) := by
    rw [MapOperation.outcome, Entries.write, if_pos hashable]
    rfl
  obtain ⟨fine, ledger, -⟩ := answers_of_outcome stores came
  exact ⟨fine, ledger ▸ Ledger.entries_modify there _⟩

/-- What is found under a key is read under it. -/
theorem reads_item {w : Value} (reads : m.mapOperation? = some (.item id key))
    (hashable : key.isHashable = true)
    (found : Entries.find? Value.keyEquals key (m.heap.ledger.entries id) = some w) :
    m.failure? = none ∧ m.Answers (.item id key) (.value w) := by
  have came : MapOperation.outcome m.heap.ledger (.item id key) = .ok (.value w, m.heap.ledger) := by
    rw [MapOperation.outcome, Entries.read, Entries.look, if_pos hashable, found]
    rfl
  exact ⟨(answers_of_outcome reads came).1, (answers_of_outcome reads came).2.2⟩

theorem finds_contained {w : Value} (asks : m.mapOperation? = some (.method id .contains [key]))
    (hashable : key.isHashable = true)
    (found : Entries.find? Value.keyEquals key (m.heap.ledger.entries id) = some w) :
    m.failure? = none ∧ m.Answers (.method id .contains [key]) (.value (.bool true)) := by
  have came : MapOperation.outcome m.heap.ledger (.method id .contains [key])
      = .ok (.value (.bool true), m.heap.ledger.modify id fun _ => m.heap.ledger.entries id) := by
    rw [MapOperation.outcome, MapOperation.called, Entries.look, if_pos hashable, found]
    rfl
  exact ⟨(answers_of_outcome asks came).1, (answers_of_outcome asks came).2.2⟩

/-- Under a key that is not equal to itself nothing is read, and each assignment adds another
entry. -/
theorem lost_key (hashable : key.isHashable = true)
    (unequal : Value.keyEquals key key = false) :
    (m.mapOperation? = some (.item id key) → m.failure? = some .keyNotFound) ∧
    ∀ v, m.mapOperation? = some (.assign id key v) → id < m.heap.ledger.length →
      m.failure? = none ∧ (m.step.heap.ledger.entries id).keys
        = (m.heap.ledger.entries id).keys ++ [key] := by
  have missing := Entries.find?_of_unequal_self unequal (m.heap.ledger.entries id)
  refine ⟨fun reads => ?_, fun v stores there => ?_⟩
  · have came : MapOperation.outcome m.heap.ledger (.item id key) = .error .keyNotFound := by
      rw [MapOperation.outcome, Entries.read, Entries.look, if_pos hashable, missing]
      rfl
    exact (refused_of_outcome reads came).1
  · obtain ⟨fine, stored⟩ := step_assign stores there hashable
    refine ⟨fine, ?_⟩
    rw [stored, Entries.keys_insert, missing]
    rfl

/-- A key that is hashable, holds no float that is not a number and is not nested too deep is found
again. Whenever the map has the entries that an assignment under the key has left it with, the value
is read under the key, the key is contained, and a second assignment keeps the keys as they are and
replaces this one value. -/
theorem stored_key (stores : m.mapOperation? = some (.assign id key v))
    (there : id < m.heap.maps.size) (hashable : key.isHashable = true)
    (shallow : key.tupleDepth ≤ Value.maxNesting) (numbers : key.holdsNaN = false) :
    m.failure? = none ∧
    ∀ n : Machine, n.heap.ledger.entries id = m.step.heap.ledger.entries id →
      (n.mapOperation? = some (.item id key) →
        n.failure? = none ∧ n.Answers (.item id key) (.value v)) ∧
      (n.mapOperation? = some (.method id .contains [key]) →
        n.failure? = none ∧ n.Answers (.method id .contains [key]) (.value (.bool true))) ∧
      ∀ w, n.mapOperation? = some (.assign id key w) → n.failure? = none ∧
        (n.step.heap.ledger.entries id).keys = (n.heap.ledger.entries id).keys ∧
        Entries.find? Value.keyEquals key (n.step.heap.ledger.entries id) = some w ∧
        ∀ other, Value.keyEquals other key = false →
          Entries.find? Value.keyEquals other (n.step.heap.ledger.entries id)
            = Entries.find? Value.keyEquals other (n.heap.ledger.entries id) := by
  have itself : Value.keyEquals key key = true := by
    rw [← Heap.equals_eq_key (h := m.heap) hashable]
    exact Heap.equals_iff.2 (Heap.equalsWithin_self.2 ⟨shallow, numbers⟩)
  obtain ⟨fine, stored⟩ := step_assign stores (m.heap.length_ledger ▸ there) hashable
  refine ⟨fine, fun n same => ?_⟩
  have found : Entries.find? Value.keyEquals key (n.heap.ledger.entries id) = some v := by
    rw [same, stored]
    exact Entries.find?_insert_self _ itself v _
  refine ⟨fun reads => reads_item reads hashable found,
    fun asks => finds_contained asks hashable found, fun w again => ?_⟩
  obtain ⟨fine, replaced⟩ := step_assign again (Ledger.lt_length_of_find? found) hashable
  rw [replaced]
  refine ⟨fine, ?_, Entries.find?_insert_self _ itself w _,
    fun other unequal => Entries.find?_insert_of_unequal unequal w _⟩
  rw [Entries.keys_insert, found]
  rfl

end Machine

/-! ## Nested tuples -/

namespace Value

/-- The empty tuple, nested in this many others. -/
def nested : Nat → Value
  | 0 => .tuple []
  | n + 1 => .tuple [nested n]

/-- In how many tuples the empty one is nested. -/
def nesting? : Value → Option Nat
  | .tuple [] => some 0
  | .tuple [v] => (nesting? v).map (· + 1)
  | _ => none

theorem eq_nested {n : Nat} {v : Value} (is : nesting? v = some n) : v = nested n := by
  fun_induction nesting? v generalizing n with
  | case1 =>
      cases is
      rfl
  | case2 v ih =>
      obtain ⟨n, inner, rfl⟩ := Option.map_eq_some_iff.1 is
      rw [ih inner, nested]
  | case3 => cases is

end Value

namespace MapOperation

/-- The map, the nesting of the key and the integer that is stored under it. -/
def storesNested? : MapOperation → Option (MapId × Nat × Int64)
  | assign id key (.int i) => key.nesting?.map fun n => (id, n, i)
  | _ => none

/-- The map and the nesting of the key that is read. -/
def readsNested? : MapOperation → Option (MapId × Nat)
  | item id key => key.nesting?.map fun n => (id, n)
  | _ => none

end MapOperation

namespace Machine

variable {m : Machine} {id : MapId} {n : Nat}

theorem mapOperation?_of_storesNested {i : Int64}
    (next : m.mapOperation?.bind MapOperation.storesNested? = some (id, n, i)) :
    m.mapOperation? = some (.assign id (.nested n) (.int i)) := by
  obtain ⟨op, found, stores⟩ := Option.bind_eq_some_iff.1 next
  unfold MapOperation.storesNested? at stores
  split at stores
  · obtain ⟨n, is, same⟩ := Option.map_eq_some_iff.1 stores
    cases same
    rw [found, Value.eq_nested is]
  · cases stores

theorem mapOperation?_of_readsNested
    (next : m.mapOperation?.bind MapOperation.readsNested? = some (id, n)) :
    m.mapOperation? = some (.item id (.nested n)) := by
  obtain ⟨op, found, reads⟩ := Option.bind_eq_some_iff.1 next
  unfold MapOperation.readsNested? at reads
  split at reads
  · obtain ⟨n, is, same⟩ := Option.map_eq_some_iff.1 reads
    cases same
    rw [found, Value.eq_nested is]
  · cases reads

/-- The instruction that comes next drops a value or reads a local variable. -/
def movesValue (m : Machine) : Bool :=
  match m.fetch? with
  | some (f, i) =>
      match i.op with
      | .pop => !f.stack.isEmpty
      | .loadLocal => (m.local? i.arg).isSome
      | _ => false
  | none => false

theorem heap_of_movesValue (moves : m.movesValue = true) : m.step.heap = m.heap := by
  unfold movesValue at moves
  split at moves
  · next f i found =>
      obtain ⟨rest, fetches⟩ := fetches_of_fetch? found
      have upcoming := fetches.upcoming
      split at moves
      · next is =>
          cases here : f.stack with
          | nil =>
              rw [here] at moves
              cases moves
          | cons v s =>
              rw [Action.execute_pop is (fetches.stack.trans here)] at upcoming
              have stepped : m.step = _ := perform_of_ok upcoming
              rw [stepped]
              exact Action.heap_fetched m f i
      · next is =>
          obtain ⟨v, there⟩ := Option.isSome_iff_exists.1 moves
          have same : (Action.fetched m f i).local? i.arg = m.local? i.arg := by
            rw [local?, local?, Action.frames_fetched fetches.frames, fetches.frames,
              Action.heap_fetched]
          rw [Action.execute_loadLocal is (same.trans there), Action.result_push] at upcoming
          have stepped : m.step = _ := perform_of_ok upcoming
          rw [stepped]
          exact Action.heap_fetched m f i
      · cases moves
  · cases moves

theorem heap_run_of_movesValue {count : Nat}
    (moves : ∀ k < count, (m.run k).movesValue = true) : (m.run count).heap = m.heap := by
  induction count with
  | zero => rfl
  | succ count ih =>
      rw [run_succ, heap_of_movesValue (moves count (Nat.lt_succ_self _))]
      exact ih fun k less => moves k (Nat.lt_succ_of_lt less)

end Machine

/-- A function that stores one under its argument in a new map and reads it from there. -/
def keeping : List Stmt :=
  [.function {} (.mk { name := "keep", params := ["key"] }
    [.expr {} (.assign {} (.name {} "m") none (.hash {} [])),
      .expr {} (.assign {} (.index {} (.name {} "m") (.name {} "key")) none (.int {} 1)),
      .ret {} (some (.index {} (.name {} "m") (.name {} "key")))])]

/-- The machine of a host that calls the function with a nested tuple, where it stores the one. -/
def keepingMachine (n : Nat) : Machine :=
  (HostCall.value (.method 0) [.nested n]).after (Engine.loaded (compiledUnit keeping)).machine 8

/-- A tuple that is nested as deep as a comparison looks is found. -/
theorem stored_key_nested :
    let m := keepingMachine (Value.maxNesting - 1)
    m.mapOperation? = some (.assign 0 (.nested (Value.maxNesting - 1)) (.int 1)) ∧
      m.failure? = none ∧
      (m.step.run 3).Answers (.item 0 (.nested (Value.maxNesting - 1))) (.value (.int 1)) := by
  intro m
  have stores : m.mapOperation? = some (.assign 0 (.nested (Value.maxNesting - 1)) (.int 1)) :=
    Machine.mapOperation?_of_storesNested (by decide +kernel)
  have reads : (m.step.run 3).mapOperation? = some (.item 0 (.nested (Value.maxNesting - 1))) :=
    Machine.mapOperation?_of_readsNested (by decide +kernel)
  have kept : (m.step.run 3).heap = m.step.heap :=
    Machine.heap_run_of_movesValue (by decide +kernel)
  obtain ⟨fine, later⟩ := Machine.stored_key stores (by decide +kernel) (by decide +kernel)
    (by decide +kernel) (by decide +kernel)
  exact ⟨stores, fine, ((later _ (kept ▸ rfl)).1 reads).2⟩

/-- A tuple that is nested once more is stored without complaint and not found. -/
theorem nested_key_lost :
    let m := keepingMachine Value.maxNesting
    (m.mapOperation? = some (.assign 0 (.nested Value.maxNesting) (.int 1)) ∧
      (Value.nested Value.maxNesting).isHashable = true ∧
      (Value.nested Value.maxNesting).holdsNaN = false ∧ m.failure? = none) ∧
    (m.step.run 3).heap = m.step.heap ∧
      (m.step.run 3).mapOperation? = some (.item 0 (.nested Value.maxNesting)) ∧
      (m.step.run 3).failure? = some .keyNotFound := by
  intro m
  have stores : m.mapOperation? = some (.assign 0 (.nested Value.maxNesting) (.int 1)) :=
    Machine.mapOperation?_of_storesNested (by decide +kernel)
  have reads : (m.step.run 3).mapOperation? = some (.item 0 (.nested Value.maxNesting)) :=
    Machine.mapOperation?_of_readsNested (by decide +kernel)
  have hashable : (Value.nested Value.maxNesting).isHashable = true := by decide +kernel
  have unequal : Value.keyEquals (.nested Value.maxNesting) (.nested Value.maxNesting) = false := by
    decide +kernel
  have there : 0 < m.heap.ledger.length := m.heap.length_ledger ▸ by decide +kernel
  have stored := (Machine.lost_key hashable unequal).2 _ stores there
  exact ⟨⟨stores, hashable, by decide +kernel, stored.1⟩,
    Machine.heap_run_of_movesValue (by decide +kernel), reads,
    (Machine.lost_key hashable unequal).1 reads⟩

end ScriptMachine
