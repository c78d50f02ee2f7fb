import ScriptMachine.Heap.Iteration
import ScriptMachine.Operation.MapMethods
import ScriptMachine.Proofs.Heap.Keeping

/-!
Maps as lists. The ledger of a heap holds the entries of all its maps, in insertion order. It tells
what every operation on maps answers and how it changes them: a key that equals one that is present
keeps its place and the key first used, a new key goes last, and an operation that is refused leaves
everything as it is.
-/

namespace ScriptMachine

theorem bound_of_ok {ε α β : Type} {x : Except ε α} {f : α → Except ε β} {y : β}
    (given : (x >>= f) = .ok y) : ∃ a, x = .ok a ∧ f a = .ok y := by
  cases x with
  | error e => cases given
  | ok a => exact ⟨a, rfl, given⟩

/-- The entries of all maps, oldest map first. -/
abbrev Ledger := List (Entries Value Value)

/-- The entries of a map. There are none where there is no map. -/
def Ledger.entries (l : Ledger) (id : MapId) : Entries Value Value :=
  l.getD id []

/-- The entries of the map that a call of the type of maps makes. -/
def Ledger.constructed (l : Ledger) :
    List Value → Except ExceptionType (Entries Value Value)
  | [] => .ok []
  | [.map source] => .ok (l.entries source)
  | [_] => .error .typeError
  | _ :: _ :: _ => .error .argumentError

/-- An operation on maps. -/
inductive MapOperation where
  /-- A map made of keys and values in turn. -/
  | literal (items : List Value)
  /-- A call of the type of maps, which copies a map. -/
  | construct (args : List Value)
  /-- `map[key] = value` -/
  | assign (id : MapId) (key value : Value)
  /-- `map[key]` -/
  | item (id : MapId) (key : Value)
  | method (id : MapId) (fn : MapMethod) (args : List Value)
  /-- The size that the function for sizes gives. -/
  | size (id : MapId)
  /-- An iterator over the map. -/
  | walk (id : MapId)

/-- What an operation on maps answers. -/
inductive Reply where
  | nothing
  | value (v : Value)
  /-- A new list of these items. -/
  | items (items : List Value)
  /-- A new iterator that visits these items. -/
  | visits (items : List Value)

namespace Entries

/-- The answer to a look at a key, which has to be hashable. -/
def look (key : Value) (entries : Entries Value Value) : Except ExceptionType (Option Value) :=
  if key.isHashable then .ok (find? Value.keyEquals key entries) else .error .typeError

/-- The value under a key, which has to be there. -/
def read (key : Value) (entries : Entries Value Value) : Except ExceptionType Value :=
  match entries.look key with
  | .ok (some v) => .ok v
  | .ok none => .error .keyNotFound
  | .error type => .error type

/-- The entries once a value has been stored under a key, which has to be hashable. -/
def write (key value : Value) (entries : Entries Value Value) :
    Except ExceptionType (Entries Value Value) :=
  if key.isHashable then .ok (insert Value.keyEquals key value entries) else .error .typeError

/-- The entries once keys and values that come in turn have been added. -/
def fill (entries : Entries Value Value) : List Value → Except ExceptionType (Entries Value Value)
  | key :: value :: rest => do fill (← entries.write key value) rest
  | _ => .ok entries

/-- The values in the order of their keys. -/
def values (entries : Entries Value Value) : List Value :=
  entries.map Prod.snd

end Entries

namespace MapOperation

/-- What a method of a map comes to: its answer and the entries of the map after it. -/
def called (entries : Entries Value Value) :
    MapMethod → List Value → Except ExceptionType (Reply × Entries Value Value)
  | .contains, [key] => do return (.value (.bool (← entries.look key).isSome), entries)
  | .getSize, [] => .ok (.value (.int (Int64.ofNat entries.length)), entries)
  | .clear, [] => .ok (.value .null, [])
  | .set, [key, v] => do return (.value .null, ← entries.write key v)
  | .get, [key] => do return (.value (← entries.read key), entries)
  | .get, [key, fallback] => do return (.value ((← entries.look key).getD fallback), entries)
  | .remove, [key] => do
      return (.value (← entries.read key), Entries.erase Value.keyEquals key entries)
  | .keys, [] => .ok (.items entries.keys, entries)
  | .values, [] => .ok (.items entries.values, entries)
  | _, _ => .error .argumentError

/-- What comes to a map comes to the ledger. -/
def onMap (l : Ledger) (id : MapId) :
    Except ExceptionType (Reply × Entries Value Value) → Except ExceptionType (Reply × Ledger)
  | .ok (reply, entries) => .ok (reply, l.modify id fun _ => entries)
  | .error type => .error type

theorem onMap_eq_ok {l l' : Ledger} {id : MapId} {reply : Reply}
    {came : Except ExceptionType (Reply × Entries Value Value)}
    (given : onMap l id came = .ok (reply, l')) :
    ∃ entries, came = .ok (reply, entries) ∧ l' = l.modify id fun _ => entries := by
  rcases came with type | ⟨reply', entries⟩ <;> cases given
  exact ⟨entries, rfl, rfl⟩

/-- What an operation comes to: its answer and the ledger after it, or the type of the exception
that it raises. -/
def outcome (l : Ledger) : MapOperation → Except ExceptionType (Reply × Ledger)
  | literal items => do return (.value (.map l.length), l ++ [← Entries.fill [] items])
  | construct args => do return (.value (.map l.length), l ++ [← l.constructed args])
  | assign id key v => onMap l id (do return (.nothing, ← (l.entries id).write key v))
  | item id key => do return (.value (← (l.entries id).read key), l)
  | method id fn args => onMap l id (called (l.entries id) fn args)
  | size id => .ok (.value (.int (Int64.ofNat (l.entries id).length)), l)
  | walk id => .ok (.visits (l.entries id).keys, l)

/-- The ledger after an operation. -/
def after (l : Ledger) (op : MapOperation) : Ledger :=
  match op.outcome l with
  | .ok (_, l') => l'
  | .error _ => l

/-- The map that an operation may change. -/
def target? : MapOperation → Option MapId
  | assign id _ _ | method id _ _ => some id
  | _ => none

/-- An operation adds a map at the end, or changes the entries of the map that it names, or leaves
everything as it is. -/
theorem after_cases (op : MapOperation) (l : Ledger) :
    (∃ entries, op.after l = l ++ [entries]) ∨
    (∃ id entries, op.target? = some id ∧ op.after l = l.modify id fun _ => entries) ∨
    op.after l = l := by
  unfold after
  cases given : op.outcome l with
  | error type => exact .inr (.inr rfl)
  | ok answered =>
      obtain ⟨reply, l'⟩ := answered
      cases op with
      | literal args | construct args =>
          obtain ⟨entries, -, same⟩ := bound_of_ok given
          cases same
          exact .inl ⟨entries, rfl⟩
      | assign id key v =>
          obtain ⟨entries, -, same⟩ := onMap_eq_ok given
          exact .inr (.inl ⟨id, entries, rfl, same⟩)
      | item id key =>
          obtain ⟨v, -, same⟩ := bound_of_ok given
          cases same
          exact .inr (.inr rfl)
      | method id fn args =>
          obtain ⟨entries, -, same⟩ := onMap_eq_ok given
          exact .inr (.inl ⟨id, entries, rfl, same⟩)
      | size id | walk id =>
          cases given
          exact .inr (.inr rfl)

/-- An operation leaves all maps alone but the one that it names. -/
theorem getElem?_after (op : MapOperation) {l : Ledger} {id : MapId} (known : id < l.length)
    (other : op.target? ≠ some id) : (op.after l)[id]? = l[id]? := by
  obtain ⟨entries, same⟩ | ⟨id', entries, target, same⟩ | same := op.after_cases l <;> rw [same]
  · exact List.getElem?_append_left known
  · have apart : id' ≠ id := fun here => other (here ▸ target)
    exact List.getElem?_modify_ne _ _ apart

/-- Maps do not get lost. -/
theorem length_le_after (op : MapOperation) (l : Ledger) : l.length ≤ (op.after l).length := by
  obtain ⟨entries, same⟩ | ⟨id, entries, -, same⟩ | same := op.after_cases l
  · rw [same, List.length_append]
    exact Nat.le_add_right _ _
  · have kept : (op.after l).length = l.length := same ▸ List.length_modify _ _ _
    exact Nat.le_of_eq kept.symm
  · exact Nat.le_of_eq (congrArg List.length same).symm

end MapOperation

/-! ## The maps of a heap -/

namespace Heap

variable (h : Heap)

/-- The entries of all maps of the heap. -/
def ledger : Ledger :=
  h.maps.toList.map Table.toList

theorem toList_map (id : MapId) : (h.map id).toList = h.ledger.entries id := by
  unfold map ledger Ledger.entries
  rw [Array.getD_eq_getD_getElem?, List.getD_eq_getElem?_getD, List.getElem?_map,
    Array.getElem?_toList]
  cases h.maps[id]? <;> rfl

theorem length_ledger : h.ledger.length = h.maps.size := by
  rw [ledger, List.length_map, Array.length_toList]

theorem ledger_newMap (t : Table) : (h.newMap t).2.ledger = h.ledger ++ [t.toList] := by
  simp [ledger, newMap]

theorem ledger_modifyMap (id : MapId) (change : Table → Table) :
    (h.modifyMap id change).ledger
      = h.ledger.modify id fun _ => (change (h.map id)).toList := by
  refine List.ext_getElem? fun other => ?_
  unfold ledger modifyMap
  rw [List.getElem?_map, Array.toList_modify, List.getElem?_modify, List.getElem?_modify,
    List.getElem?_map]
  by_cases here : id = other
  · subst here
    have contents : ∀ t, h.maps.toList[id]? = some t → h.map id = t := by
      intro t found
      rw [map, Array.getD_eq_getD_getElem?, ← Array.getElem?_toList, found, Option.getD_some]
    cases found : h.maps.toList[id]? with
    | none => rfl
    | some t => simp [contents t found]
  · simp [here]

/-- Keys of one map are pairwise unequal. -/
theorem distinct_of_mem_ledger {entries : Entries Value Value} (there : entries ∈ h.ledger) :
    Table.Distinct entries.keys := by
  obtain ⟨t, -, rfl⟩ := List.mem_map.1 there
  exact t.distinct

end Heap

theorem Ledger.modify_entries (l : Ledger) (id : MapId) :
    (l.modify id fun _ => l.entries id) = l := by
  refine List.ext_getElem? fun other => ?_
  rw [List.getElem?_modify]
  by_cases here : id = other
  · subst here
    unfold Ledger.entries
    cases found : l[id]? <;> simp [List.getD_eq_getElem?_getD, found]
  · simp [here]

/-- The iterator visits these items one after another, whatever becomes of the heap meanwhile. -/
def Iter.Visits : Iter → List Value → Prop
  | it, [] => ∀ h, (it.moveNext h).1 = false
  | it, item :: rest => ∀ h,
      (it.moveNext h).1 = true ∧ (it.moveNext h).2.current = item ∧ (it.moveNext h).2.Visits rest

theorem Iter.visits_items (all rest : List Value) (item : Value) :
    (Iter.items all rest item).Visits rest := by
  induction rest generalizing item with
  | nil => exact fun _ => rfl
  | cons next rest ih => exact fun _ => ⟨rfl, rfl, ih next⟩

/-- A value shows what an operation answered. -/
def Heap.Shows (h : Heap) : Reply → Value → Prop
  | .nothing, v => v = .null
  | .value answer, v => v = answer
  | .items items, v => ∃ id, v = .list id ∧ (h.list id).toList = items
  | .visits items, v => ∃ id, v = .iterator id ∧ (h.iterator id).reset.Visits items

/-! ## The work -/

theorem Primitive.result_consult {α : Type} (question : Heap → Except Fault α) (h : Heap) :
    (Primitive.consult question).result h = (question h, h) := by
  unfold Primitive.consult
  rw [result_bind_ask rfl]
  cases question h <;> rfl

theorem Primitive.result_bind_ok {α β : Type} {p : Primitive α} {f : α → Primitive β} {h h' : Heap}
    {x : α} (given : p.result h = (.ok x, h')) : (p >>= f).result h = (f x).result h' := by
  change (match p.run.run h with | (r, h') => (ExceptT.bindCont f r) h') = _
  unfold Primitive.result at given
  rw [given]
  rfl

theorem Primitive.result_bind_error {α β : Type} {p : Primitive α} {f : α → Primitive β}
    {h h' : Heap} {cause : Fault} (failed : p.result h = (.error cause, h')) :
    (p >>= f).result h = (.error cause, h') := by
  change (match p.run.run h with | (r, h') => (ExceptT.bindCont f r) h') = _
  unfold Primitive.result at failed
  rw [failed]
  rfl

/-- On this heap the primitive does what an operation on maps comes to. What it refuses leaves the
heap as it is. -/
def Primitive.Agrees (p : Primitive Value) (h : Heap) :
    Except ExceptionType (Reply × Ledger) → Prop
  | .ok (reply, l) => ∃ v h', p.result h = (.ok v, h') ∧ h'.ledger = l ∧ h'.Shows reply v
  | .error type => ∃ cause : Fault, p.result h = (.error cause, h) ∧ cause.type = type

namespace Operation

variable (h : Heap) (id : MapId) (key : Value)

theorem lookup?_type :
    (lookup? h id key).mapError Fault.type = (h.ledger.entries id).look key := by
  unfold Entries.look lookup? checkKey Value.isHashable
  rw [← Heap.toList_map, ← Table.find?_eq]
  cases key.unhashable? <;> rfl

theorem lookup_type :
    (lookup h id key).mapError Fault.type = (h.ledger.entries id).read key := by
  unfold Entries.read lookup
  rw [← lookup?_type]
  rcases lookup? h id key with cause | _ | v <;> rfl

theorem addAll_type (t : Table) (items : List Value) :
    ((addAll t items).map Table.toList).mapError Fault.type = Entries.fill t.toList items := by
  fun_induction addAll t items with
  | case1 t key v rest ih =>
      unfold Entries.fill Entries.write checkKey Value.isHashable
      rw [← Table.toList_insert]
      cases key.unhashable? with
      | none => exact ih
      | some tag => rfl
  | case2 t items few =>
      unfold Entries.fill
      split
      · next key v rest => exact absurd rfl (few key v rest)
      · rfl

/-- Looking up is reading. -/
theorem lookup_agrees : (Primitive.consult (lookup · id key)).Agrees h
    (do return (.value (← (h.ledger.entries id).read key), h.ledger)) := by
  rw [← lookup_type]
  have asked := Primitive.result_consult (lookup · id key) h
  cases found : lookup h id key with
  | error cause => exact ⟨cause, found ▸ asked, rfl⟩
  | ok v => exact ⟨v, h, found ▸ asked, rfl, rfl⟩

/-- A look at a key is passed on as a value. -/
theorem lookup?_agrees (make : Option Value → Value) :
    (do return make (← Primitive.consult (lookup? · id key)) : Primitive Value).Agrees h
      (do return (.value (make (← (h.ledger.entries id).look key)), h.ledger)) := by
  rw [← lookup?_type]
  have asked := Primitive.result_consult (lookup? · id key) h
  cases found : lookup? h id key with
  | error cause => exact ⟨cause, Primitive.result_bind_error (found ▸ asked), rfl⟩
  | ok v => exact ⟨make v, h, Primitive.result_bind_ok (found ▸ asked), rfl, rfl⟩

end Operation

/-- What carries an operation out. -/
def MapOperation.work : MapOperation → Primitive Value
  | literal items => Operation.newMap items
  | construct [] => Primitive.make (·.newMap .empty)
  | construct [.map source] => Primitive.make fun h => h.newMap (h.map source)
  | construct [_] => throw (.notConstructible .hashMap)
  | construct args => throw (.argumentCount TypeTag.hashMap.name 1 args.length)
  | assign id key v => do Operation.store id key v; return .null
  | item id key => Primitive.consult (Operation.lookup · id key)
  | method id fn args =>
      match fn.arity? with
      | some arity =>
          if arity ≠ args.length then throw (.argumentCount fn.name arity args.length)
          else Operation.mapMethod fn (some (.map id)) args
      | none => Operation.mapMethod fn (some (.map id)) args
  | size id => Primitive.ask fun h => .int (Int64.ofNat (h.map id).size)
  | walk id => Primitive.make fun h => h.newIterator (.overItems (h.map id).keys)

namespace MapOperation

variable (h : Heap)

/-- Storing is writing. -/
theorem store_agrees (id : MapId) (key v : Value) (reply : Reply)
    (shows : ∀ h' : Heap, h'.Shows reply .null) :
    (do Operation.store id key v; return .null : Primitive Value).Agrees h
      (onMap h.ledger id (do return (reply, ← (h.ledger.entries id).write key v))) := by
  unfold Entries.write Operation.store Operation.checkKey Value.isHashable
  cases key.unhashable? with
  | none =>
      refine ⟨.null, h.modifyMap id (·.insert key v), rfl, ?_, shows _⟩
      rw [Heap.ledger_modifyMap, Table.toList_insert, Heap.toList_map]
  | some tag => exact ⟨.unhashable tag, rfl, rfl⟩

/-- What is removed has to be there. -/
theorem remove_agrees (id : MapId) (key : Value) :
    (do
      let removed ← Primitive.consult (Operation.lookup · id key)
      Primitive.change (·.modifyMap id (·.erase key))
      return removed : Primitive Value).Agrees h
      (onMap h.ledger id (do
        return (.value (← (h.ledger.entries id).read key),
          Entries.erase Value.keyEquals key (h.ledger.entries id)))) := by
  rw [← Operation.lookup_type]
  have asked := Primitive.result_consult (Operation.lookup · id key) h
  cases found : Operation.lookup h id key with
  | error cause => exact ⟨cause, Primitive.result_bind_error (found ▸ asked), rfl⟩
  | ok v =>
      refine ⟨v, h.modifyMap id (·.erase key), Primitive.result_bind_ok (found ▸ asked), ?_, rfl⟩
      rw [Heap.ledger_modifyMap, Table.toList_erase, Heap.toList_map]

/-- Looking at a map does not change it. -/
theorem agrees_of_look {α : Type} {id : MapId} {p : Primitive Value}
    (answer : Except ExceptionType α) (make : α → Value)
    (agrees : p.Agrees h (do return (.value (make (← answer)), h.ledger))) :
    p.Agrees h (onMap h.ledger id (do return (.value (make (← answer)), h.ledger.entries id))) := by
  cases answer with
  | error type => exact agrees
  | ok x =>
      change p.Agrees h (.ok (.value (make x), h.ledger.modify id fun _ => h.ledger.entries id))
      rw [Ledger.modify_entries]
      exact agrees

/-- A list of what is in a map is a new list. -/
theorem listed_agrees {id : MapId} (items : Table → List Value)
    (entries : Entries Value Value → List Value) (same : ∀ t, items t = entries t.toList) :
    (Primitive.make fun h => h.newList (items (h.map id)).toArray).Agrees h
      (onMap h.ledger id (.ok (.items (entries (h.ledger.entries id)), h.ledger.entries id))) := by
  refine ⟨_, _, rfl, (h.ledger.modify_entries id).symm, h.lists.size, rfl, ?_⟩
  rw [← h.toList_map, ← same, Heap.list, Array.getD_eq_getD_getElem?, Array.getElem?_push_size]
  rfl

theorem method_agrees (id : MapId) (fn : MapMethod) (args : List Value) :
    (work (method id fn args)).Agrees h (outcome h.ledger (method id fn args)) := by
  rcases args with _ | ⟨key, _ | ⟨v, _ | ⟨w, rest⟩⟩⟩
  · cases fn with
    | contains | set | get | remove => exact ⟨_, rfl, rfl⟩
    | getSize =>
        refine agrees_of_look h (.ok (h.ledger.entries id).length)
          (fun n => .int (Int64.ofNat n)) ⟨_, h, rfl, rfl, ?_⟩
        rw [← h.toList_map, Table.length_toList]
        rfl
    | clear => exact ⟨.null, _, rfl, h.ledger_modifyMap id _, rfl⟩
    | keys => exact listed_agrees h Table.keys Entries.keys fun _ => rfl
    | values => exact listed_agrees h Table.values Entries.values fun _ => rfl
  · cases fn with
    | getSize | clear | set | keys | values => exact ⟨_, rfl, rfl⟩
    | contains =>
        exact agrees_of_look h ((h.ledger.entries id).look key) (fun found => .bool found.isSome)
          (Operation.lookup?_agrees h id key _)
    | get =>
        exact agrees_of_look h ((h.ledger.entries id).read key) (fun v => v)
          (Operation.lookup_agrees h id key)
    | remove => exact remove_agrees h id key
  · cases fn with
    | getSize | clear | contains | remove | keys | values => exact ⟨_, rfl, rfl⟩
    | get =>
        exact agrees_of_look h ((h.ledger.entries id).look key) (fun found => found.getD v)
          (Operation.lookup?_agrees h id key _)
    | set => exact store_agrees h id key v (.value .null) fun _ => rfl
  · cases fn <;> exact ⟨_, rfl, rfl⟩

theorem work_agrees (op : MapOperation) : op.work.Agrees h (op.outcome h.ledger) := by
  cases op with
  | literal items =>
      have same := Operation.addAll_type .empty items
      change (Operation.newMap items).Agrees h (do
        return (.value (.map h.ledger.length), h.ledger ++ [← Entries.fill Table.empty.toList items]))
      rw [← same]
      unfold Operation.newMap
      cases added : Operation.addAll .empty items with
      | error cause => exact ⟨cause, rfl, rfl⟩
      | ok t =>
          refine ⟨_, _, rfl, h.ledger_newMap t, ?_⟩
          rw [h.length_ledger]
          rfl
  | construct args =>
      rcases args with _ | ⟨v, _ | ⟨w, rest⟩⟩
      · refine ⟨_, _, rfl, h.ledger_newMap .empty, ?_⟩
        rw [h.length_ledger]
        rfl
      · cases v with
        | map source =>
            refine ⟨_, _, rfl, ?_, ?_⟩
            · rw [← h.toList_map]
              exact h.ledger_newMap _
            · rw [h.length_ledger]
              rfl
        | _ => exact ⟨_, rfl, rfl⟩
      · cases v <;> exact ⟨_, rfl, rfl⟩
  | assign id key v => exact store_agrees h id key v .nothing fun _ => rfl
  | item id key => exact Operation.lookup_agrees h id key
  | method id fn args => exact method_agrees h id fn args
  | size id =>
      refine ⟨_, h, rfl, rfl, ?_⟩
      rw [← h.toList_map, Table.length_toList]
      rfl
  | walk id =>
      refine ⟨_, _, rfl, rfl, h.iterators.size, rfl, ?_⟩
      rw [← h.toList_map, Heap.iterator, Array.getD_eq_getD_getElem?, Array.getElem?_push_size]
      exact Iter.visits_items _ _ _

end MapOperation
end ScriptMachine
