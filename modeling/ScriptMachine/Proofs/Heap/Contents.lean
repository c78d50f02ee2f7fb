import ScriptMachine.Heap.Iteration
import ScriptMachine.Machine.Frame
import ScriptMachine.Operation.Fault

/-!
What data holds. A standard says which values may be held, and which functions of the host may be
gone on with. Data passes it if all that it holds does. A value is held to it as a whole: a tuple
passes if its items do.
-/

namespace ScriptMachine

/-- What is asked of the values that data holds, and of the functions of the host that it goes on
with. -/
structure Standard where
  value : Value → Prop
  routine : Routine → Prop := fun _ => True

/-- The value is neither an iterator nor a tuple. -/
@[simp, grind =]
def Value.isPlain : Value → Bool
  | .iterator _ | .tuple _ => false
  | .null | .bool _ | .int _ | .float _ | .str _ | .list _ | .map _ | .method _ | .closure _
  | .bound _ _ | .native _ | .cls _ | .instance _ | .exception _ | .module _ | .interface _
  | .enum _ | .type _ | .exceptionType _ => true

/-- All that a standard can tell apart is iterators. -/
class Standard.Lawful (E : Standard) : Prop where
  plain {v : Value} : v.isPlain = true → E.value v
  tuple (items : List Value) : E.value (.tuple items) ↔ ∀ v ∈ items, E.value v

/-- Data that may hold values. -/
class Holder (α : Type) where
  /-- All that the data holds passes the standard. -/
  Passes : Standard → α → Prop

export Holder (Passes)

/-- Data without values. -/
instance (priority := low) Holder.plain {α : Type} : Holder α :=
  ⟨fun _ _ => True⟩

instance : Holder Value :=
  ⟨Standard.value⟩

instance : Holder Routine :=
  ⟨Standard.routine⟩

section

variable {α β : Type} [Holder α] [Holder β]

instance : Holder (List α) :=
  ⟨fun E xs => ∀ x ∈ xs, Passes E x⟩

instance : Holder (Array α) :=
  ⟨fun E xs => ∀ x ∈ xs, Passes E x⟩

instance : Holder (Option α) :=
  ⟨fun E x => ∀ y ∈ x, Passes E y⟩

instance : Holder (α × β) :=
  ⟨fun E p => Passes E p.1 ∧ Passes E p.2⟩

instance {ε : Type} : Holder (Except ε α) :=
  ⟨fun E x => ∀ y, x = .ok y → Passes E y⟩

end

instance : Holder Table :=
  ⟨fun E t => Passes E t.toList⟩

instance : Holder Iter :=
  ⟨fun E it =>
    match it with
    | .list _ _ item => Passes E item
    | .items all rest item => Passes E all ∧ Passes E rest ∧ Passes E item
    | .range _ _ _ _ item => Passes E item⟩

instance : Holder Member :=
  ⟨fun E member =>
    match member with
    | .method _ => True
    | .attribute v => Passes E v⟩

variable {E : Standard}

/-! ## Values -/

/-- Data without values always passes. -/
@[simp, grind .] theorem passes_plain {α : Type} (x : α) : @Passes α Holder.plain E x :=
  trivial

/-- A lawful standard has nothing against a value that is neither an iterator nor a tuple. -/
@[simp, grind ←] theorem Value.passes_of_isPlain [E.Lawful] {v : Value} (plain : v.isPlain = true) :
    Passes E v :=
  Standard.Lawful.plain plain

/-- A tuple is held to the standard item by item. -/
@[simp, grind =] theorem Value.passes_tuple [E.Lawful] (items : List Value) :
    Passes E (Value.tuple items) ↔ Passes E items :=
  Standard.Lawful.tuple items

@[simp, grind .] theorem passes_strings (xs : List String) : Passes E xs :=
  fun _ _ => trivial

@[simp, grind .] theorem passes_number (x : Option Nat) : Passes E x :=
  fun _ _ => trivial

@[simp, grind .] theorem passes_plain_except {ε α : Type} (x : Except ε α) :
    @Passes (Except ε α) (@instHolderExcept α Holder.plain ε) E x :=
  fun _ _ => trivial

section

variable {α β ε : Type} [Holder α] [Holder β]

theorem passes_list {xs : List α} : Passes E xs ↔ ∀ x ∈ xs, Passes E x := Iff.rfl

theorem passes_array {xs : Array α} : Passes E xs ↔ ∀ x ∈ xs, Passes E x := Iff.rfl

@[simp, grind .] theorem passes_nil : Passes E ([] : List α) :=
  fun _ member => absurd member List.not_mem_nil

@[simp, grind =] theorem passes_cons {x : α} {xs : List α} :
    Passes E (x :: xs) ↔ Passes E x ∧ Passes E xs :=
  List.forall_mem_cons

/-- Two lists pass together if each of them does. -/
@[simp, grind =] theorem passes_append {xs ys : List α} :
    Passes E (xs ++ ys) ↔ Passes E xs ∧ Passes E ys :=
  List.forall_mem_append

@[simp, grind =] theorem passes_append_array {xs ys : Array α} :
    Passes E (xs ++ ys) ↔ Passes E xs ∧ Passes E ys := by
  simp only [passes_array, Array.mem_append, or_imp, forall_and]

/-- A list may lose items, repeat them and change their order. -/
@[grind →] theorem passes_of_subset {xs ys : List α} (passes : Passes E ys) (subset : xs ⊆ ys) :
    Passes E xs :=
  fun x member => passes x (subset member)

@[simp, grind =] theorem passes_toArray {xs : List α} : Passes E xs.toArray ↔ Passes E xs := by
  simp only [passes_array, passes_list, List.mem_toArray]

/-- An array passes as its list of items does. -/
@[simp, grind =] theorem passes_toList {xs : Array α} : Passes E xs.toList ↔ Passes E xs := by
  simp only [passes_array, passes_list, Array.mem_toList_iff]

@[simp, grind =] theorem passes_appendList {xs : Array α} {ys : List α} :
    Passes E (xs.appendList ys) ↔ Passes E xs ∧ Passes E ys := by
  rw [Array.appendList_eq_append, ← passes_toList, Array.toList_appendList, passes_append,
    passes_toList]

/-- An item may be replaced by one that passes. -/
@[grind ←] theorem passes_set {xs : Array α} {x : α} (passes : Passes E xs) (new : Passes E x)
    (k : Nat) (inside : k < xs.size) : Passes E (xs.set k x inside) :=
  fun _ member => (Array.mem_or_eq_of_mem_set member).elim (passes _) (· ▸ new)

/-- Out of bounds nothing is replaced. -/
@[grind ←] theorem passes_setIfInBounds {xs : Array α} {x : α} (passes : Passes E xs)
    (new : Passes E x) (k : Nat) : Passes E (xs.setIfInBounds k x) := by
  unfold Array.setIfInBounds
  split
  · exact passes_set passes new k _
  · exact passes

@[grind ←] theorem passes_eraseIdx {xs : Array α} (passes : Passes E xs) (k : Nat)
    (inside : k < xs.size) : Passes E (xs.eraseIdx k inside) :=
  fun _ member => passes _ (Array.mem_of_mem_eraseIdx member)

@[simp, grind =] theorem passes_some {x : α} : Passes E (some x) ↔ Passes E x :=
  ⟨fun passes => passes x rfl, fun passes _ same => Option.some.inj same ▸ passes⟩

@[simp, grind .] theorem passes_none : Passes E (none : Option α) :=
  fun _ same => by cases same

@[simp, grind =] theorem passes_pair {x : α} {y : β} : Passes E (x, y) ↔ Passes E x ∧ Passes E y :=
  Iff.rfl

@[simp, grind =] theorem passes_ok {x : α} : Passes E (.ok x : Except ε α) ↔ Passes E x :=
  ⟨fun passes => passes x rfl, fun passes _ same => Except.ok.inj same ▸ passes⟩

@[simp, grind .] theorem passes_error {cause : ε} : Passes E (.error cause : Except ε α) :=
  fun _ same => by cases same

/-- A computation passes whose parts do. -/
theorem passes_bind {x : Except ε α} {f : α → Except ε β} (first : Passes E x)
    (next : ∀ y, Passes E y → Passes E (f y)) : Passes E (x >>= f) := by
  cases x with
  | error cause => exact passes_error
  | ok y => exact next y (passes_ok.1 first)

end

namespace Value

/-- The items of a value that is no tuple are none at all. -/
@[grind ←] theorem passes_items [E.Lawful] {v : Value} (passes : Passes E v) : Passes E v.items := by
  cases v with
  | tuple items => exact (passes_tuple items).1 passes
  | _ => exact passes_nil

/-- A receiver is neither an iterator nor a tuple. -/
@[grind .] theorem passes_toValue [E.Lawful] (receiver : Receiver) : Passes E receiver.toValue := by
  cases receiver <;> exact passes_of_isPlain rfl

/-- The first argument passes. So does null, which stands for one that is missing. -/
@[grind ←] theorem passes_headD [E.Lawful] {vs : List Value} (passes : Passes E vs) :
    Passes E (vs.headD .null) := by
  cases vs with
  | nil => exact passes_of_isPlain rfl
  | cons v rest => exact (passes_cons.1 passes).1

@[grind ←] theorem passes_getD {o : Option Value} {v : Value} (passes : Passes E o)
    (instead : Passes E v) : Passes E (o.getD v) := by
  cases o with
  | none => exact instead
  | some v => exact passes_some.1 passes

/-- A slot passes. So does null, which stands for a slot that is out of bounds. -/
theorem passes_getD_array [E.Lawful] {vs : Array Value} (passes : Passes E vs) (k : Nat) :
    Passes E (vs.getD k .null) := by
  rw [Array.getD_eq_getD_getElem?]
  exact passes_getD (fun v found => passes v (Array.mem_of_getElem? found)) (passes_of_isPlain rfl)

@[grind ←] theorem passes_getD_list [E.Lawful] {vs : List Value} (passes : Passes E vs) (k : Nat) :
    Passes E (vs.getD k .null) := by
  rw [List.getD_eq_getElem?_getD]
  exact passes_getD (fun v found => passes v (List.mem_of_getElem? found)) (passes_of_isPlain rfl)

@[grind ←] theorem passes_reverse {vs : List Value} (passes : Passes E vs) : Passes E vs.reverse :=
  fun v member => passes v (List.mem_reverse.1 member)

/-- Some of the values pass if all do. -/
@[grind ←] theorem passes_drop {vs : List Value} (passes : Passes E vs) (count : Nat) :
    Passes E (vs.drop count) :=
  fun v member => passes v (List.mem_of_mem_drop member)

@[grind ←] theorem passes_take {vs : List Value} (passes : Passes E vs) (count : Nat) :
    Passes E (vs.take count) :=
  fun v member => passes v (List.mem_of_mem_take member)

/-- Texts refer to nothing. -/
theorem passes_strs [E.Lawful] {α : Type} (text : α → String) (xs : List α) :
    Passes E (xs.map fun x => Value.str (text x)) := by
  intro v member
  obtain ⟨x, _, rfl⟩ := List.mem_map.1 member
  exact passes_of_isPlain rfl

end Value

/-! ## Bindings and tables -/

namespace Entries

/-- After an insertion an entry is an old one, or has the new value. Its key is the new one or an
old one: the key of an entry that is there is not replaced. -/
theorem mem_insert {κ υ : Type} {same : κ → κ → Bool} {key : κ} {value : υ} {entries : Entries κ υ}
    {e : κ × υ} (member : e ∈ entries.insert same key value) :
    e ∈ entries ∨ e.2 = value ∧ (e.1 = key ∨ e.1 ∈ entries.map Prod.fst) := by
  induction entries with
  | nil =>
      obtain rfl := List.mem_singleton.1 member
      exact .inr ⟨rfl, .inl rfl⟩
  | cons first rest ih =>
      obtain ⟨k, v⟩ := first
      rw [insert] at member
      split at member
      · rcases List.mem_cons.1 member with rfl | later
        · exact .inr ⟨rfl, .inr List.mem_cons_self⟩
        · exact .inl (List.mem_cons_of_mem _ later)
      · rcases List.mem_cons.1 member with rfl | later
        · exact .inl List.mem_cons_self
        · rcases ih later with old | ⟨new, key⟩
          · exact .inl (List.mem_cons_of_mem _ old)
          · exact .inr ⟨new, key.imp_right (List.mem_cons_of_mem _)⟩

/-- Erasing a key adds no entry. -/
theorem sublist_erase {κ υ : Type} (same : κ → κ → Bool) (key : κ) (entries : Entries κ υ) :
    (entries.erase same key).Sublist entries := by
  induction entries with
  | nil => exact .slnil
  | cons first rest ih =>
      rw [erase]
      split
      · exact List.sublist_cons_self _ _
      · exact ih.cons_cons _

/-- What is found under a key is the value of an entry. -/
theorem mem_of_find? {κ υ : Type} {same : κ → κ → Bool} {key : κ} {entries : Entries κ υ} {v : υ}
    (found : entries.find? same key = some v) : ∃ k, (k, v) ∈ entries := by
  induction entries with
  | nil => cases found
  | cons first rest ih =>
      obtain ⟨k, w⟩ := first
      rw [find?] at found
      split at found
      · cases found
        exact ⟨k, List.mem_cons_self⟩
      · obtain ⟨k', member⟩ := ih found
        exact ⟨k', List.mem_cons_of_mem _ member⟩

variable {κ υ : Type} [Holder κ] [Holder υ] {same : κ → κ → Bool}

/-- A key and a value that pass may be inserted. -/
theorem passes_insert {entries : Entries κ υ} {key : κ} {value : υ} (passes : Passes E entries)
    (new : Passes E key) (new' : Passes E value) : Passes E (entries.insert same key value) := by
  intro e member
  rcases mem_insert member with old | ⟨rfl, rfl | known⟩
  · exact passes e old
  · exact ⟨new, new'⟩
  · obtain ⟨e', member', same⟩ := List.mem_map.1 known
    exact ⟨same ▸ (passes e' member').1, new'⟩

/-- What is found among entries that pass does too. -/
theorem passes_find? {entries : Entries κ υ} (passes : Passes E entries) (key : κ) :
    Passes E (entries.find? same key) := by
  intro v found
  obtain ⟨k, member⟩ := mem_of_find? found
  exact (passes _ member).2

end Entries

/-- A name may be bound to what passes. -/
@[grind ←] theorem Bindings.passes_set {bindings : Bindings Value} {v : Value} {name : String}
    (passes : Passes E bindings) (new : Passes E v) : Passes E (bindings.set name v) :=
  Entries.passes_insert passes trivial new

/-- What a name is bound to passes. -/
@[grind ←] theorem Bindings.passes_get? {bindings : Bindings Value} (passes : Passes E bindings)
    (name : String) : Passes E (bindings.get? name) :=
  Entries.passes_find? passes name

namespace Table

variable {t : Table} {key v : Value}

/-- A table without entries holds nothing. -/
@[grind .] theorem passes_empty : Passes E Table.empty :=
  passes_nil

/-- A table may get an entry that passes. -/
@[grind ←] theorem passes_insert (passes : Passes E t) (new : Passes E key) (new' : Passes E v) :
    Passes E (t.insert key v) := by
  change Passes E (t.insert key v).toList
  rw [toList_insert]
  exact Entries.passes_insert passes new new'

@[grind ←] theorem passes_erase (passes : Passes E t) (key : Value) : Passes E (t.erase key) := by
  change Passes E (t.erase key).toList
  rw [toList_erase]
  exact passes_of_subset passes (Entries.sublist_erase _ _ _).subset

/-- What a table has under a key passes. -/
@[grind ←] theorem passes_find? (passes : Passes E t) (key : Value) : Passes E (t.find? key) := by
  rw [find?_eq]
  exact Entries.passes_find? passes key

/-- A table is held to the standard by its keys as well as by its values. -/
@[grind ←] theorem passes_keys (passes : Passes E t) : Passes E t.keys := by
  intro v member
  obtain ⟨e, inside, rfl⟩ := List.mem_map.1 member
  exact (passes e inside).1

@[grind ←] theorem passes_values (passes : Passes E t) : Passes E t.values := by
  intro v member
  obtain ⟨e, inside, rfl⟩ := List.mem_map.1 member
  exact (passes e inside).2

end Table

/-! ## Iterators -/

namespace Iter

variable {it : Iter}

/-- The item that an iterator shows is one of the values it holds. -/
@[grind ←] theorem passes_current (passes : Passes E it) : Passes E it.current := by
  cases it with
  | list id index item => exact passes
  | items all rest item => exact passes.2.2
  | range first stop step next item => exact passes

/-- An iterator that begins anew shows null until it is moved. -/
@[grind ←] theorem passes_reset [E.Lawful] (passes : Passes E it) : Passes E it.reset := by
  have null : Passes E Value.null := Value.passes_of_isPlain rfl
  cases it with
  | list id index item => exact null
  | items all rest item => exact ⟨passes.1, passes.1, null⟩
  | range first stop step next item => exact null

end Iter

/-! ## Heaps -/

/-- All that objects of the heap hold passes the standard. -/
structure Heap.Meets (E : Standard) (h : Heap) : Prop where
  lists : ∀ id, Passes E (h.list id)
  maps : ∀ id, Passes E (h.map id)
  envs : ∀ id, Passes E (h.env id)
  closures : ∀ id, Passes E (h.closure id).receiver
  classes : ∀ id, Passes E (h.cls id).attributes
  instances : ∀ id, Passes E (h.inst id).attributes
  constants : ∀ id, Passes E (h.module id).constants
  globals : ∀ id, Passes E (h.module id).attributes
  iterators : ∀ id, Passes E (h.iterator id)

section

variable {α : Type} {P : α → Prop} {xs : Array α} {default : α}

/-- What holds of all slots, and out of bounds, still does with one more slot. -/
theorem forall_getD_push {x : α} (old : ∀ k, P (xs.getD k default)) (new : P x) (k : Nat) :
    P ((xs.push x).getD k default) := by
  rw [Array.getD_eq_getD_getElem?, Array.getElem?_push]
  split
  · exact new
  · rw [← Array.getD_eq_getD_getElem?]
    exact old k

/-- What holds of all slots, and out of bounds, still does with more slots behind. -/
theorem forall_getD_append {ys : List α} (old : ∀ k, P (xs.getD k default)) (new : ∀ x ∈ ys, P x)
    (k : Nat) : P ((xs ++ ys).getD k default) := by
  rw [Array.getD_eq_getD_getElem?, ← Array.getElem?_toList, Array.toList_appendList,
    List.getElem?_append]
  split
  · have before := old k
    rwa [Array.getD_eq_getD_getElem?, ← Array.getElem?_toList] at before
  · next beyond =>
    cases found : ys[k - xs.toList.length]? with
    | some x => exact new x (List.mem_of_getElem? found)
    | none =>
        have outside := old k
        rwa [Array.getD_eq_getD_getElem?, Array.getElem?_eq_none (Nat.not_lt.1 beyond)] at outside

/-- What holds of all slots, and out of bounds, still does after a change that keeps it. -/
theorem forall_getD_modify {f : α → α} (old : ∀ k, P (xs.getD k default))
    (kept : ∀ x, P x → P (f x)) (j k : Nat) : P ((xs.modify j f).getD k default) := by
  have before := old k
  rw [Array.getD_eq_getD_getElem?] at before ⊢
  rw [Array.getElem?_modify]
  split
  · cases found : xs[k]? with
    | none =>
        rw [found] at before
        exact before
    | some x =>
        rw [found] at before
        exact kept x before
  · exact before

end

namespace Heap.Meets

variable {h : Heap}

/-- A heap holds values, and no functions of the host. -/
theorem congr {E' : Standard} (same : E.value = E'.value) (meets : h.Meets E) : h.Meets E' := by
  obtain ⟨value, routine⟩ := E
  obtain ⟨value', routine'⟩ := E'
  obtain rfl : value = value' := same
  exact ⟨meets.lists, meets.maps, meets.envs, meets.closures, meets.classes, meets.instances,
    meets.constants, meets.globals, meets.iterators⟩

/-- A new iterator may hold what passes. -/
theorem newIterator (meets : h.Meets E) {it : Iter} (new : Passes E it) :
    (h.newIterator it).2.Meets E :=
  { meets with iterators := forall_getD_push meets.iterators new }

/-- An iterator may be set to one that passes. -/
theorem setIterator (meets : h.Meets E) (id : IteratorId) {it : Iter} (new : Passes E it) :
    (h.setIterator id it).Meets E :=
  { meets with iterators := forall_getD_modify meets.iterators (fun _ _ => new) id }

/-- A member is found in the class itself or in a class above it. Either way it is what some class
of the heap holds. -/
theorem findMember? (meets : h.Meets E) (c : ClassId) (name : String) :
    Passes E (h.findMember? c name) := by
  have own (c : ClassId) : Passes E (h.ownMember? name c) := by
    unfold ownMember?
    split
    · exact passes_some.2 trivial
    · intro member found
      obtain ⟨v, held, rfl⟩ := Option.map_eq_some_iff.1 found
      exact Bindings.passes_get? (meets.classes c) name v held
  have up (fuel : Nat) (c : ClassId) : Passes E (h.searchUp (h.ownMember? name) fuel c) := by
    induction fuel generalizing c with
    | zero => exact passes_none
    | succ fuel ih =>
        rw [searchUp]
        split
        · next answer found =>
            rw [← found]
            exact own c
        · intro member found
          obtain ⟨base, _, there⟩ := List.exists_of_findSome?_eq_some found
          exact ih base member there
  exact up _ c

/-- A method that is found stands for itself, and an attribute is held by a class. -/
theorem findAttribute? [E.Lawful] (meets : h.Meets E) (c : ClassId) (name : String) :
    Passes E (h.findAttribute? c name) := by
  intro v found
  obtain ⟨member, there, rfl⟩ := Option.map_eq_some_iff.1 found
  have known := meets.findMember? c name member there
  cases member with
  | method id => exact Value.passes_of_isPlain rfl
  | «attribute» v => exact known

/-- Moving an iterator on shows nothing but what it walks over. -/
theorem moveNext [E.Lawful] (meets : h.Meets E) {it : Iter} (known : Passes E it) :
    Passes E (it.moveNext h).2 := by
  unfold Iter.moveNext
  cases it with
  | list id index item =>
      dsimp only
      split
      · next v found => exact meets.lists id v (Array.mem_of_getElem? found)
      · exact known
  | items all rest item =>
      obtain ⟨whole, left, shown⟩ := known
      cases rest with
      | nil => exact ⟨whole, passes_nil, shown⟩
      | cons v rest =>
          obtain ⟨first, others⟩ := passes_cons.1 left
          exact ⟨whole, others, first⟩
  | range first stop step next item =>
      dsimp only
      split
      · exact Value.passes_of_isPlain rfl
      · exact known

attribute [grind ←] lists maps envs closures classes instances constants globals iterators
  findMember? findAttribute? moveNext

end Heap.Meets

end ScriptMachine
