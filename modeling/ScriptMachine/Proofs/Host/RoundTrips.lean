import Mathlib.Data.List.Forall2
import Mathlib.Logic.Relation
import ScriptMachine.Host.Value
import ScriptMachine.Proofs.Heap.Equality

/-!
Host values on the heap and back. A host value is refused only for what stands in it: something
without a data form, or a key that cannot be one. What is accepted is written to fresh objects and
reads back as it was, since the heap only grows meanwhile, a table keeps entries in order as long as
their keys are unequal, and the reader gives up only below the nesting limit.
-/

namespace ScriptMachine

namespace HostValue

/-! ## What a host value is made of -/

/-- The host values that a container holds, the keys of a map included. -/
def parts : HostValue → List HostValue
  | .tuple items => items
  | .list items => items
  | .map entries => entries.flatMap fun (key, value) => [key, value]
  | _ => []

/-- A host value holds another, in itself or in what it holds, or is the other. -/
def Contains : HostValue → HostValue → Prop :=
  Relation.ReflTransGen fun o part => part ∈ o.parts

/-- The items of a tuple. -/
def tupleItems : HostValue → List HostValue
  | .tuple items => items
  | _ => []

/-- A host value holds another in tuples only, or is the other. -/
def ContainsInTuples : HostValue → HostValue → Prop :=
  Relation.ReflTransGen fun o item => item ∈ o.tupleItems

/-- What may not be part of a key. -/
def isListOrMap : HostValue → Bool
  | .list _ | .map _ => true
  | _ => false

/-- The containers in a host value, which may be one itself, are nested at most this deep. -/
def nestsWithin : Nat → HostValue → Bool
  | 0, .tuple _ | 0, .list _ | 0, .map _ => false
  | 0, _ => true
  | depth + 1, o => o.parts.all (nestsWithin depth)

/-- The values that two keys become, one after the other, are equal. -/
def sameKey (a b : HostValue) : Bool :=
  let both : Import Bool := do
    let x ← a.toValue
    let y ← b.toValue
    return x.keyEquals y
  match both.run.run {} with
  | (.ok same, _) => same
  | _ => false

/-- No map in a host value has two keys that are equal as values. -/
def DistinctKeys (o : HostValue) : Prop :=
  ∀ entries, o.Contains (.map entries) → entries.Pairwise fun e f => sameKey e.1 f.1 = false

/-- A key is nothing, and holds nothing in tuples, that may not be part of one. -/
def Keyable (key : HostValue) : Prop :=
  ∀ inner, key.ContainsInTuples inner → inner.isListOrMap = false

/-- The entries of a map without data forms or keys in the wrong place. -/
def Importable (o : HostValue) : Prop :=
  (∀ text, ¬ o.Contains (.repr text)) ∧
    ∀ entries, o.Contains (.map entries) → ∀ entry ∈ entries, entry.1.Keyable

section Parts

variable {o part : HostValue} {entries : List (HostValue × HostValue)}

theorem key_mem_parts {entry : HostValue × HostValue} (member : entry ∈ entries) :
    entry.1 ∈ (HostValue.map entries).parts :=
  List.mem_flatMap.2 ⟨entry, member, List.mem_cons_self⟩

theorem value_mem_parts {entry : HostValue × HostValue} (member : entry ∈ entries) :
    entry.2 ∈ (HostValue.map entries).parts :=
  List.mem_flatMap.2 ⟨entry, member, List.mem_cons_of_mem _ List.mem_cons_self⟩

/-- The parts of a map are its keys and its values. -/
theorem mem_parts_map : part ∈ (HostValue.map entries).parts ↔
    ∃ entry ∈ entries, part = entry.1 ∨ part = entry.2 := by
  simp [parts]

/-- Parts are smaller, so objects are gone through by induction on their size. -/
theorem sizeOf_part (member : part ∈ o.parts) : sizeOf part < sizeOf o := by
  cases o with
  | tuple items =>
      have smaller : _ < sizeOf items := List.sizeOf_lt_of_mem member
      simp only [tuple.sizeOf_spec]
      omega
  | list items =>
      have smaller : _ < sizeOf items := List.sizeOf_lt_of_mem member
      simp only [list.sizeOf_spec]
      omega
  | map entries =>
      obtain ⟨⟨key, value⟩, stored, is⟩ := mem_parts_map.1 member
      have smaller := List.sizeOf_lt_of_mem stored
      simp only [map.sizeOf_spec, Prod.mk.sizeOf_spec] at smaller ⊢
      rcases is with rfl | rfl <;> omega
  | _ => cases member

/-- What holds of a host value if it holds of its parts holds of all. -/
theorem parts_induction {motive : HostValue → Prop}
    (step : ∀ o, (∀ part ∈ o.parts, motive part) → motive o) (o : HostValue) : motive o :=
  step o fun part member =>
    have : sizeOf part < sizeOf o := sizeOf_part member
    parts_induction step part
termination_by sizeOf o

/-- Keys are distinct at every level. -/
theorem DistinctKeys.of_part (distinct : o.DistinctKeys) (member : part ∈ o.parts) :
    part.DistinctKeys := fun entries inside =>
  distinct entries (.head member inside)

/-- Keys are distinct if they are in the map itself and in all its parts. -/
theorem distinctKeys_iff :
    o.DistinctKeys ↔
      (∀ entries, o = .map entries → entries.Pairwise fun e f => sameKey e.1 f.1 = false) ∧
        ∀ part ∈ o.parts, part.DistinctKeys := by
  constructor
  · exact fun distinct =>
      ⟨fun entries is => distinct entries (is ▸ .refl), fun part => distinct.of_part⟩
  · rintro ⟨here, rest⟩ entries inside
    rcases inside.cases_head with is | ⟨part, member, inside⟩
    · exact here entries is
    · exact rest part member entries inside

/-- A part may nest one level less. -/
theorem nestsWithin_part {depth : Nat} (nests : o.nestsWithin (depth + 1) = true)
    (member : part ∈ o.parts) : part.nestsWithin depth = true :=
  List.all_eq_true.1 nests part member

/-- A key is no list and no map, nor has it one among its items. -/
theorem keyable_iff :
    o.Keyable ↔ o.isListOrMap = false ∧ ∀ item ∈ o.tupleItems, item.Keyable := by
  constructor
  · exact fun keyable => ⟨keyable o .refl, fun item member inner inside =>
      keyable inner (.head member inside)⟩
  · rintro ⟨here, items⟩ inner inside
    rcases inside.cases_head with rfl | ⟨item, member, inside⟩
    · exact here
    · exact items item member inner inside

/-- Whether a host value is importable shows in itself and in its parts. -/
theorem importable_iff :
    o.Importable ↔ (∀ text, o ≠ .repr text) ∧
      (∀ entries, o = .map entries → ∀ entry ∈ entries, entry.1.Keyable) ∧
      ∀ part ∈ o.parts, part.Importable := by
  constructor
  · rintro ⟨forms, keys⟩
    exact ⟨fun text is => forms text (is ▸ .refl), fun entries is => keys entries (is ▸ .refl),
      fun part member => ⟨fun text inside => forms text (.head member inside),
        fun entries inside => keys entries (.head member inside)⟩⟩
  · rintro ⟨form, keys, rest⟩
    refine ⟨fun text inside => ?_, fun entries inside => ?_⟩
    · rcases inside.cases_head with is | ⟨part, member, inside⟩
      · exact form text is
      · exact (rest part member).1 text inside
    · rcases inside.cases_head with is | ⟨part, member, inside⟩
      · exact keys entries is
      · exact (rest part member).2 entries inside

end Parts

/-! ## Importing -/

section Importing

variable {α β : Type} {h later : Heap}

/-- What an import gives or is refused for, and the heap after it. -/
def Import.result (x : Import α) (h : Heap) : Except InvalidInput α × Heap :=
  x.run.run h

/-- An import that succeeds with this value and leaves this heap. -/
def Brings (x : Import α) (h : Heap) (a : α) (later : Heap) : Prop :=
  Import.result x h = (.ok a, later)

@[simp] theorem brings_pure {a b : α} : Brings (pure a) h b later ↔ a = b ∧ h = later := by
  constructor
  · intro brings
    cases brings
    exact ⟨rfl, rfl⟩
  · rintro ⟨rfl, rfl⟩
    rfl

@[simp] theorem brings_make {action : Heap → α × Heap} {a : α} :
    Brings (make action) h a later ↔ action h = (a, later) := by
  have result : Import.result (make action) h = (.ok (action h).1, (action h).2) := rfl
  rw [Brings, result]
  simp [Prod.ext_iff]

@[simp] theorem not_brings_throw {cause : InvalidInput} {a : α} :
    ¬ Brings (throw cause) h a later := nofun

/-- Bringing in two parts leaves the heap of the first between them. -/
theorem brings_bind {x : Import α} {f : α → Import β} {b : β} :
    Brings (x >>= f) h b later ↔
      ∃ a between, Brings x h a between ∧ Brings (f a) between b later := by
  have result : Import.result (x >>= f) h = match Import.result x h with
      | (r, between) => ((ExceptT.bindCont f r) between : Except InvalidInput β × Heap) := rfl
  unfold Brings
  rw [result]
  rcases Import.result x h with ⟨cause | a, between⟩
  · refine ⟨nofun, ?_⟩
    rintro ⟨a, between, impossible, -⟩
    cases impossible
  · refine ⟨fun brings => ⟨a, between, rfl, brings⟩, ?_⟩
    rintro ⟨_, _, same, brings⟩
    cases same
    exact brings

/-! ## The equations of the conversion -/

theorem brings_tuple {items : List HostValue} {v : Value} :
    Brings (toValue (.tuple items)) h v later ↔
      ∃ values, Brings (toValues items) h values later ∧ v = .tuple values := by
  rw [toValue, brings_bind]
  simp only [brings_pure]
  exact ⟨fun ⟨values, _, brings, is, rfl⟩ => ⟨values, brings, is.symm⟩,
    fun ⟨values, brings, is⟩ => ⟨values, later, brings, is.symm, rfl⟩⟩

/-- The items of a list are brought in before the list is made. -/
theorem brings_list {items : List HostValue} {v : Value} :
    Brings (toValue (.list items)) h v later ↔
      ∃ values between, Brings (toValues items) h values between ∧
        between.newList values.toArray = (v, later) := by
  rw [toValue, brings_bind]
  simp only [brings_make]

/-- The entries of a map are brought in before the map is made. -/
theorem brings_map {entries : List (HostValue × HostValue)} {v : Value} :
    Brings (toValue (.map entries)) h v later ↔
      ∃ table between, Brings (toTable .empty entries) h table between ∧
        between.newMap table = (v, later) := by
  rw [toValue, brings_bind]
  simp only [brings_make]

/-- An exception is a new object and nothing else. -/
theorem brings_exception {type : ExceptionType} {message : String} {v : Value} :
    Brings (toValue (.exception type message)) h v later ↔
      v = .exception h.exceptions.size ∧ later = (h.newException { type, message }).2 := by
  rw [toValue, brings_bind]
  simp only [brings_make, brings_pure]
  constructor
  · rintro ⟨id, between, made, rfl, rfl⟩
    cases made
    exact ⟨rfl, rfl⟩
  · rintro ⟨rfl, rfl⟩
    exact ⟨_, _, rfl, rfl, rfl⟩

theorem brings_cons {item : HostValue} {rest : List HostValue} {values : List Value} :
    Brings (toValues (item :: rest)) h values later ↔
      ∃ v between vs, Brings item.toValue h v between ∧ Brings (toValues rest) between vs later ∧
        values = v :: vs := by
  rw [toValues, brings_bind]
  simp only [brings_bind, brings_pure]
  constructor
  · rintro ⟨v, between, brings, vs, _, more, is, rfl⟩
    exact ⟨v, between, vs, brings, more, is.symm⟩
  · rintro ⟨v, between, vs, brings, more, is⟩
    exact ⟨v, between, brings, vs, later, more, is.symm, rfl⟩

/-- A key is brought in and checked before its value, and both before the rest. -/
theorem brings_entry {key value : HostValue} {rest : List (HostValue × HostValue)}
    {table filled : Table} :
    Brings (toTable table ((key, value) :: rest)) h filled later ↔
      ∃ k h₁ v h₂, Brings key.toValue h k h₁ ∧ k.isHashable = true ∧ Brings value.toValue h₁ v h₂ ∧
        Brings (toTable (table.insert k v) rest) h₂ filled later := by
  rw [toTable, brings_bind]
  constructor
  · rintro ⟨k, h₁, brings, more⟩
    dsimp only at more
    split at more
    · next hashable =>
        obtain ⟨v, h₂, stored, more⟩ := brings_bind.1 more
        exact ⟨k, h₁, v, h₂, brings, hashable, stored, more⟩
    · obtain ⟨_, _, impossible, -⟩ := brings_bind.1 more
      exact absurd impossible not_brings_throw
  · rintro ⟨k, h₁, v, h₂, brings, hashable, stored, more⟩
    refine ⟨k, h₁, brings, ?_⟩
    dsimp only
    rw [if_pos hashable]
    exact brings_bind.2 ⟨v, h₂, stored, more⟩

end Importing

end HostValue

/-! ## Growth of the heap -/

/-- The heap has new objects after the old ones, and the old ones are as they were. -/
structure Heap.Extends (h later : Heap) : Prop where
  lists : h.lists.toList <+: later.lists.toList
  maps : h.maps.toList <+: later.maps.toList
  exceptions : h.exceptions.toList <+: later.exceptions.toList

namespace Heap.Extends

variable {h later latest : Heap}

theorem refl (h : Heap) : h.Extends h :=
  ⟨List.prefix_rfl, List.prefix_rfl, List.prefix_rfl⟩

/-- A heap that is extended twice is extended. -/
theorem trans (first : h.Extends later) (next : later.Extends latest) : h.Extends latest :=
  ⟨first.lists.trans next.lists, first.maps.trans next.maps,
    first.exceptions.trans next.exceptions⟩

/-- What is in the shorter of two arrays is in the longer one at the same place. -/
theorem getD_of_prefix {α : Type} {old new : Array α} (grown : old.toList <+: new.toList) {i : Nat}
    (there : i < old.size) (fallback : α) : new.getD i fallback = old.getD i fallback := by
  obtain ⟨more, is⟩ := grown
  rw [Array.getD_eq_getD_getElem?, Array.getD_eq_getD_getElem?, ← Array.getElem?_toList,
    ← Array.getElem?_toList, ← is, List.getElem?_append_left there]

/-- A list that was there is as it was. -/
theorem list_eq (grown : h.Extends later) {id : ListId} (there : id < h.lists.size) :
    later.list id = h.list id :=
  getD_of_prefix grown.lists there _

theorem map_eq (grown : h.Extends later) {id : MapId} (there : id < h.maps.size) :
    later.map id = h.map id :=
  getD_of_prefix grown.maps there _

theorem exception_eq (grown : h.Extends later) {id : ExceptionId}
    (there : id < h.exceptions.size) : later.exception id = h.exception id :=
  getD_of_prefix grown.exceptions there _

/-- Exceptions become no fewer. -/
theorem exceptions_le (grown : h.Extends later) : h.exceptions.size ≤ later.exceptions.size :=
  grown.exceptions.length_le

theorem newList (h : Heap) (items : Array Value) : h.Extends (h.newList items).2 :=
  ⟨⟨[items], Array.toList_push.symm⟩, List.prefix_rfl, List.prefix_rfl⟩

theorem newMap (h : Heap) (table : Table) : h.Extends (h.newMap table).2 :=
  ⟨List.prefix_rfl, ⟨[table], Array.toList_push.symm⟩, List.prefix_rfl⟩

theorem newException (h : Heap) (e : ExceptionObject) : h.Extends (h.newException e).2 :=
  ⟨List.prefix_rfl, List.prefix_rfl, ⟨[e], Array.toList_push.symm⟩⟩

/-! What was made is read as it was made. -/

/-- A new list keeps its items while the heap grows. -/
theorem list_newList {items : Array Value} (grown : (h.newList items).2.Extends later) :
    later.list h.lists.size = items := by
  rw [grown.list_eq (by simp [Heap.newList])]
  simp [Heap.newList, Heap.list]

theorem map_newMap {table : Table} (grown : (h.newMap table).2.Extends later) :
    later.map h.maps.size = table := by
  rw [grown.map_eq (by simp [Heap.newMap])]
  simp [Heap.newMap, Heap.map]

theorem exception_newException {e : ExceptionObject} (grown : (h.newException e).2.Extends later) :
    later.exception h.exceptions.size = e := by
  rw [grown.exception_eq (by simp [Heap.newException])]
  simp [Heap.newException, Heap.exception]

end Heap.Extends

namespace HostValue

/-- An import that only adds to the heap. -/
def Grows {α : Type} (x : Import α) : Prop :=
  ∀ ⦃h a later⦄, Brings x h a later → h.Extends later

namespace Grows

variable {α β : Type}

theorem pure (a : α) : Grows (pure a : Import α) := by
  intro h b later brings
  obtain ⟨-, rfl⟩ := brings_pure.1 brings
  exact .refl h

theorem throw (cause : InvalidInput) : Grows (throw cause : Import α) :=
  fun _ _ _ brings => absurd brings not_brings_throw

/-- Two parts in a row extend the heap twice. -/
theorem bind {x : Import α} {f : α → Import β} (first : Grows x) (next : ∀ a, Grows (f a)) :
    Grows (x >>= f) := by
  intro h b later brings
  obtain ⟨a, between, brings, more⟩ := brings_bind.1 brings
  exact (first brings).trans (next a more)

theorem make {action : Heap → α × Heap} (grows : ∀ h : Heap, h.Extends (action h).2) :
    Grows (make action) := by
  intro h a later brings
  have grown := grows h
  rwa [brings_make.1 brings] at grown

end Grows

mutual

/-- Bringing in changes nothing that was there. The induction is on what is brought in. -/
theorem toValue_grows : (o : HostValue) → Grows o.toValue
  | .null | .bool _ | .int _ | .float _ | .str _ => .pure _
  | .tuple items => .bind (toValues_grows items) fun _ => .pure _
  | .list items => .bind (toValues_grows items) fun _ => .make fun _ => .newList _ _
  | .map entries => .bind (toTable_grows .empty entries) fun _ => .make fun _ => .newMap _ _
  | .exception _ _ => .bind (.make fun _ => .newException _ _) fun _ => .pure _
  | .repr _ => .throw _

theorem toValues_grows : (items : List HostValue) → Grows (toValues items)
  | [] => .pure _
  | item :: rest => .bind (toValue_grows item) fun _ => .bind (toValues_grows rest) fun _ => .pure _

theorem toTable_grows (table : Table) :
    (entries : List (HostValue × HostValue)) → Grows (toTable table entries)
  | [] => .pure _
  | (key, value) :: rest => by
      refine .bind (toValue_grows key) fun k => ?_
      dsimp only
      split
      · exact .bind (toValue_grows value) fun v => toTable_grows _ rest
      · exact .bind (.throw _) fun _ => .bind (toValue_grows value) fun v => toTable_grows _ rest

end

section Conversion

variable {h later : Heap} {o : HostValue} {items : List HostValue}
  {entries : List (HostValue × HostValue)} {v : Value} {values : List Value}

/-- The items are brought one after the other. -/
theorem items_brought (brings : Brings (toValues items) h values later) :
    List.Forall₂ (fun o v => ∃ h₁ h₂, h.Extends h₁ ∧ Brings o.toValue h₁ v h₂ ∧ h₂.Extends later)
      items values := by
  induction items generalizing h values with
  | nil =>
      rw [toValues, brings_pure] at brings
      rw [← brings.1]
      exact .nil
  | cons item rest ih =>
      obtain ⟨v, between, vs, first, more, rfl⟩ := brings_cons.1 brings
      refine .cons ⟨h, between, .refl h, first, toValues_grows rest more⟩ ?_
      exact (ih more).imp fun _ _ ⟨h₁, h₂, before, brings, after⟩ =>
        ⟨h₁, h₂, (toValue_grows item first).trans before, brings, after⟩

/-! ## What is refused -/

/-- What two rows of related objects have in common is asked of either row. -/
theorem forall_of_forall₂ {α β : Type} {R : α → β → Prop} {P : α → Prop} {Q : β → Prop}
    {as : List α} {bs : List β} (related : List.Forall₂ R as bs)
    (carry : ∀ a ∈ as, ∀ b, R a b → (Q b ↔ P a)) : (∀ b ∈ bs, Q b) ↔ ∀ a ∈ as, P a := by
  induction related with
  | nil => simp
  | cons here _ ih =>
      rw [List.forall_mem_cons, List.forall_mem_cons, carry _ List.mem_cons_self _ here,
        ih fun a member => carry a (List.mem_cons_of_mem _ member)]

/-- The value of a host value can be a key just if the host value can. -/
theorem isHashable_iff (brings : Brings o.toValue h v later) : v.isHashable = true ↔ o.Keyable := by
  induction o using parts_induction generalizing h v later with
  | step o ih =>
      rw [keyable_iff]
      cases o with
      | tuple items =>
          obtain ⟨values, brought, rfl⟩ := brings_tuple.1 brings
          have each := forall_of_forall₂ (items_brought brought) fun item member v both =>
            let ⟨_, _, _, brings, _⟩ := both
            ih item member brings
          rw [Value.isHashable_tuple, each]
          exact ⟨fun keyable => ⟨rfl, keyable⟩, And.right⟩
      | list items =>
          obtain ⟨values, between, -, made⟩ := brings_list.1 brings
          cases made
          exact ⟨nofun, fun keyable => nomatch keyable.1⟩
      | map entries =>
          obtain ⟨table, between, -, made⟩ := brings_map.1 brings
          cases made
          exact ⟨nofun, fun keyable => nomatch keyable.1⟩
      | exception type message =>
          obtain ⟨rfl, -⟩ := brings_exception.1 brings
          exact ⟨fun _ => ⟨rfl, nofun⟩, fun _ => rfl⟩
      | repr text => exact absurd brings not_brings_throw
      | _ =>
          obtain ⟨rfl, -⟩ := brings_pure.1 brings
          exact ⟨fun _ => ⟨rfl, nofun⟩, fun _ => rfl⟩

/-- The import gives a value. -/
def Accepts {α : Type} (x : Import α) (h : Heap) : Prop :=
  ∃ a later, Brings x h a later

/-- Items are accepted if each of them can be brought in. -/
theorem accepts_items (each : ∀ item ∈ items, ∀ h, Accepts item.toValue h ↔ item.Importable) :
    Accepts (toValues items) h ↔ ∀ item ∈ items, item.Importable := by
  induction items generalizing h with
  | nil => exact ⟨fun _ => nofun, fun _ => ⟨[], h, brings_pure.2 ⟨rfl, rfl⟩⟩⟩
  | cons item rest ih =>
      have ih (h : Heap) := @ih h fun other member => each other (List.mem_cons_of_mem _ member)
      rw [List.forall_mem_cons]
      constructor
      · rintro ⟨values, later, brings⟩
        obtain ⟨v, between, vs, first, more, -⟩ := brings_cons.1 brings
        exact ⟨(each item List.mem_cons_self h).1 ⟨v, between, first⟩,
          (ih between).1 ⟨vs, later, more⟩⟩
      · rintro ⟨here, others⟩
        obtain ⟨v, between, first⟩ := (each item List.mem_cons_self h).2 here
        obtain ⟨vs, later, more⟩ := (ih between).2 others
        exact ⟨v :: vs, later, brings_cons.2 ⟨v, between, vs, first, more, rfl⟩⟩

/-- An entry is accepted if its key may be one and both of its parts can be brought in. -/
theorem accepts_entries {table : Table}
    (each : ∀ part ∈ (HostValue.map entries).parts, ∀ h, Accepts part.toValue h ↔ part.Importable) :
    Accepts (toTable table entries) h ↔
      ∀ entry ∈ entries, entry.1.Keyable ∧ entry.1.Importable ∧ entry.2.Importable := by
  induction entries generalizing h table with
  | nil => exact ⟨fun _ => nofun, fun _ => ⟨table, h, brings_pure.2 ⟨rfl, rfl⟩⟩⟩
  | cons entry rest ih =>
      obtain ⟨key, value⟩ := entry
      have keys := each key (key_mem_parts List.mem_cons_self)
      have contents := each value (value_mem_parts List.mem_cons_self)
      have ih (h : Heap) (table : Table) := @ih h table fun part member =>
        each part (List.mem_cons_of_mem _ (List.mem_cons_of_mem _ member))
      rw [List.forall_mem_cons]
      constructor
      · rintro ⟨filled, later, brings⟩
        obtain ⟨k, h₁, v, h₂, first, hashable, second, more⟩ := brings_entry.1 brings
        exact ⟨⟨(isHashable_iff first).1 hashable, (keys h).1 ⟨k, h₁, first⟩,
          (contents h₁).1 ⟨v, h₂, second⟩⟩, (ih h₂ _).1 ⟨filled, later, more⟩⟩
      · rintro ⟨⟨keyable, here, there⟩, others⟩
        obtain ⟨k, h₁, first⟩ := (keys h).2 here
        obtain ⟨v, h₂, second⟩ := (contents h₁).2 there
        obtain ⟨filled, later, more⟩ := (ih h₂ (table.insert k v)).2 others
        exact ⟨filled, later, brings_entry.2
          ⟨k, h₁, v, h₂, first, (isHashable_iff first).2 keyable, second, more⟩⟩

/-- Which host values are accepted does not depend on the heap. -/
theorem accepts_iff (o : HostValue) (h : Heap) : Accepts o.toValue h ↔ o.Importable := by
  induction o using parts_induction generalizing h with
  | step o ih =>
      rw [importable_iff]
      cases o with
      | tuple items =>
          constructor
          · rintro ⟨v, later, brings⟩
            obtain ⟨values, brought, -⟩ := brings_tuple.1 brings
            exact ⟨nofun, nofun, (accepts_items ih).1 ⟨values, later, brought⟩⟩
          · rintro ⟨-, -, importable⟩
            obtain ⟨values, later, brought⟩ := (accepts_items ih).2 importable
            exact ⟨_, later, brings_tuple.2 ⟨values, brought, rfl⟩⟩
      | list items =>
          constructor
          · rintro ⟨v, later, brings⟩
            obtain ⟨values, between, brought, -⟩ := brings_list.1 brings
            exact ⟨nofun, nofun, (accepts_items ih).1 ⟨values, between, brought⟩⟩
          · rintro ⟨-, -, importable⟩
            obtain ⟨values, between, brought⟩ := (accepts_items ih).2 importable
            exact ⟨_, _, brings_list.2 ⟨values, between, brought, rfl⟩⟩
      | map entries =>
          constructor
          · rintro ⟨v, later, brings⟩
            obtain ⟨table, between, brought, -⟩ := brings_map.1 brings
            have each := (accepts_entries ih).1 ⟨table, between, brought⟩
            refine ⟨nofun, fun _ is entry member => ?_, fun part member => ?_⟩
            · cases is
              exact (each entry member).1
            · obtain ⟨entry, stored, rfl | rfl⟩ := mem_parts_map.1 member
              · exact (each entry stored).2.1
              · exact (each entry stored).2.2
          · rintro ⟨-, keyable, importable⟩
            obtain ⟨table, between, brought⟩ := (accepts_entries ih).2 fun entry stored =>
              ⟨keyable entries rfl entry stored, importable _ (key_mem_parts stored),
                importable _ (value_mem_parts stored)⟩
            exact ⟨_, _, brings_map.2 ⟨table, between, brought, rfl⟩⟩
      | exception type message =>
          exact ⟨fun _ => ⟨nofun, nofun, nofun⟩,
            fun _ => ⟨_, _, brings_exception.2 ⟨rfl, rfl⟩⟩⟩
      | repr text =>
          exact ⟨fun ⟨_, _, brings⟩ => absurd brings not_brings_throw,
            fun importable => absurd rfl (importable.1 text)⟩
      | _ =>
          exact ⟨fun _ => ⟨nofun, nofun, nofun⟩, fun _ => ⟨_, h, brings_pure.2 ⟨rfl, rfl⟩⟩⟩

/-! ## Keys -/

/-- The value of a key, whose exceptions have numbers in this range. -/
inductive IsCopy (low high : Nat) : HostValue → Value → Prop
  | null : IsCopy low high .null .null
  | bool (b : Bool) : IsCopy low high (.bool b) (.bool b)
  | int (i : Int64) : IsCopy low high (.int i) (.int i)
  | float (f : Binary64) : IsCopy low high (.float f) (.float f)
  | str (s : String) : IsCopy low high (.str s) (.str s)
  | tuple {items : List HostValue} {values : List Value} :
      List.Forall₂ (IsCopy low high) items values → IsCopy low high (.tuple items) (.tuple values)
  | exception {type : ExceptionType} {message : String} {id : Nat} :
      low ≤ id → id < high → IsCopy low high (.exception type message) (.exception id)

/-- A copy is one also within wider bounds. -/
theorem isCopy_widen {low high low' high' : Nat} (down : low' ≤ low) (up : high ≤ high')
    (copy : IsCopy low high o v) : IsCopy low' high' o v := by
  induction o using parts_induction generalizing v with
  | step o ih =>
      cases copy with
      | tuple items =>
          have both := (List.forall₂_and_left _ _).2 ⟨fun item member => @ih item member, items⟩
          exact .tuple (both.imp fun _ _ ⟨wider, copy⟩ => wider copy)
      | exception above below =>
          exact .exception (Nat.le_trans down above) (Nat.lt_of_lt_of_le below up)
      | _ => constructor

/-- The value of a key has its data, and its exceptions are new. -/
theorem isCopy_of_brings (brings : Brings o.toValue h v later) (keyable : o.Keyable) :
    IsCopy h.exceptions.size later.exceptions.size o v := by
  induction o using parts_induction generalizing h v later with
  | step o ih =>
      obtain ⟨here, inner⟩ := keyable_iff.1 keyable
      cases o with
      | tuple items =>
          obtain ⟨values, brought, rfl⟩ := brings_tuple.1 brings
          have both := (List.forall₂_and_left _ _).2 ⟨fun item member => (⟨@ih item member,
            inner item member⟩ : _ ∧ item.Keyable), items_brought brought⟩
          refine .tuple (both.imp ?_)
          rintro item v ⟨⟨copies, keyable⟩, h₁, h₂, before, brings, after⟩
          exact isCopy_widen before.exceptions_le after.exceptions_le (copies brings keyable)
      | list items => cases here
      | map entries => cases here
      | exception type message =>
          obtain ⟨rfl, rfl⟩ := brings_exception.1 brings
          refine .exception (Nat.le_refl _) ?_
          rw [Heap.newException, Array.size_push]
          exact Nat.lt_succ_self _
      | repr text => exact absurd brings not_brings_throw
      | _ =>
          obtain ⟨rfl, -⟩ := brings_pure.1 brings
          constructor

/-- Two sequences of keys compare in one way wherever they were put on the heap. -/
theorem pairwise_copies {compare : Value → Value → Option Bool}
    {R S R' S' : HostValue → Value → Prop}
    {as bs : List HostValue} {xs ys xs' ys' : List Value}
    (each : ∀ a b x y x' y', R a x → S b y → R' a x' → S' b y' → compare x y = compare x' y')
    (first : List.Forall₂ R as xs) (second : List.Forall₂ S bs ys)
    (first' : List.Forall₂ R' as xs') (second' : List.Forall₂ S' bs ys') :
    Value.pairwise compare xs ys = Value.pairwise compare xs' ys' := by
  induction first generalizing bs ys xs' ys' with
  | nil =>
      cases first'
      rfl
  | cons here _ ih =>
      cases first' with | cons here' rest' => ?_
      cases second with
      | nil =>
          cases second'
          rfl
      | cons there more =>
          cases second' with | cons there' more' => ?_
          rw [Value.pairwise, Value.pairwise, each _ _ _ _ _ _ here there here' there',
            ih more rest' more']

/-- Exceptions of different ranges are different, so two keys compare in one way wherever they
were put on the heap, as long as the exceptions of one are older than those of the other. -/
theorem keyEqualsWithin_copies {a b : HostValue} {x y x' y' : Value} {low middle high : Nat}
    {low' middle' high' : Nat} (budget : Nat)
    (first : IsCopy low middle a x) (second : IsCopy middle high b y)
    (first' : IsCopy low' middle' a x') (second' : IsCopy middle' high' b y') :
    Value.keyEqualsWithin budget x y = Value.keyEqualsWithin budget x' y' := by
  cases first <;> cases first' <;> cases second <;> cases second'
  case tuple.tuple.tuple.tuple as xs first xs' first' bs ys second ys' second' =>
    have sizes : xs.length = xs'.length := first.length_eq.symm.trans first'.length_eq
    have sizes' : ys.length = ys'.length := second.length_eq.symm.trans second'.length_eq
    rw [Value.keyEqualsWithin.eq_def, Value.keyEqualsWithin.eq_def budget (.tuple xs')]
    dsimp only
    rw [sizes, sizes']
    cases budget with
    | zero => rfl
    | succ budget =>
        have items (a b : HostValue) (x y x' y' : Value) (here : IsCopy low middle a x)
            (there : IsCopy middle high b y) (here' : IsCopy low' middle' a x')
            (there' : IsCopy middle' high' b y') :
            Value.keyEqualsWithin budget x y = Value.keyEqualsWithin budget x' y' :=
          keyEqualsWithin_copies budget here there here' there'
        have inner := pairwise_copies items first second first' second'
        exact congrArg (fun equal => if xs'.length ≠ ys'.length then some false else equal) inner
  case exception.exception.exception.exception
      older _ below older' _ below' _ _ younger above _ younger' above' _ =>
    have apart : (older == younger) = false := beq_false_of_ne (by omega)
    have apart' : (older' == younger') = false := beq_false_of_ne (by omega)
    simp only [Value.keyEqualsWithin, Value.atomEquals, apart, apart']
  all_goals simp only [Value.keyEqualsWithin, Value.atomEquals]

/-- Keys compare on any heap as they do on an empty one. -/
theorem keyEquals_of_brings {a b : HostValue} {x y : Value} {h₁ h₂ h₃ h₄ : Heap}
    (first : Brings a.toValue h₁ x h₂) (between : h₂.Extends h₃) (second : Brings b.toValue h₃ y h₄)
    (keyable : a.Keyable) (keyable' : b.Keyable) : x.keyEquals y = sameKey a b := by
  obtain ⟨x', h₅, first'⟩ := (accepts_iff a {}).2 ((accepts_iff a h₁).1 ⟨x, h₂, first⟩)
  obtain ⟨y', h₆, second'⟩ := (accepts_iff b h₅).2 ((accepts_iff b h₃).1 ⟨y, h₄, second⟩)
  have both : sameKey a b = x'.keyEquals y' := by
    have run : Brings (do
        let x ← a.toValue
        let y ← b.toValue
        return x.keyEquals y) {} (x'.keyEquals y') h₆ :=
      brings_bind.2 ⟨x', h₅, first', brings_bind.2 ⟨y', h₆, second', brings_pure.2 ⟨rfl, rfl⟩⟩⟩
    unfold Brings Import.result at run
    unfold sameKey
    dsimp only
    rw [run]
  rw [both, Value.keyEquals, Value.keyEquals, keyEqualsWithin_copies]
  · exact isCopy_widen (Nat.le_refl _) between.exceptions_le (isCopy_of_brings first keyable)
  · exact isCopy_of_brings second keyable'
  · exact isCopy_of_brings first' keyable
  · exact isCopy_of_brings second' keyable'

/-! ## Reading back -/

/-- The items that were brought are read back in order. -/
theorem read_items {copy : Value → HostValue} (brings : Brings (toValues items) h values later)
    (each : ∀ item ∈ items, ∀ h₁ v h₂, Brings item.toValue h₁ v h₂ → h₂.Extends later →
      copy v = item) : values.map copy = items := by
  have both := (List.forall₂_and_left _ _).2 ⟨each, items_brought brings⟩
  refine List.forall₂_eq_eq_eq ▸ List.forall₂_map_left_iff.2 (both.flip.imp ?_)
  rintro v item ⟨each, h₁, h₂, -, brings, after⟩
  exact each h₁ v h₂ brings after

/-- Storing under a key that equals none of the others adds an entry at the end. -/
theorem insert_of_unequal {key value : Value} {stored : Entries Value Value}
    (unequal : ∀ entry ∈ stored, Value.keyEquals key entry.1 = false) :
    Entries.insert Value.keyEquals key value stored = stored ++ [(key, value)] := by
  induction stored with
  | nil => rfl
  | cons entry rest ih =>
      obtain ⟨here, others⟩ := List.forall_mem_cons.1 unequal
      rw [Entries.insert, here, ih others]
      rfl

/-- The keys of the table were put on the heap earlier and are none of these. -/
def Apart (table : Table) (h : Heap) (entries : List (HostValue × HostValue)) : Prop :=
  ∀ stored ∈ table.toList, ∃ key h₁ h₂, Brings key.toValue h₁ stored.1 h₂ ∧ h₂.Extends h ∧
    key.Keyable ∧ ∀ entry ∈ entries, sameKey key entry.1 = false

/-- The entries that were brought are read back in order, after those that the table had before. -/
theorem read_entries {copy : Value → HostValue} {table filled : Table} {latest : Heap}
    (brings : Brings (toTable table entries) h filled later) (after : later.Extends latest)
    (apart : Apart table h entries)
    (distinct : entries.Pairwise fun e f => sameKey e.1 f.1 = false)
    (each : ∀ part ∈ (HostValue.map entries).parts, ∀ h₁ v h₂, Brings part.toValue h₁ v h₂ →
      h₂.Extends latest → copy v = part) :
    filled.toList.map (fun (key, value) => (copy key, copy value)) =
      table.toList.map (fun (key, value) => (copy key, copy value)) ++ entries := by
  induction entries generalizing h table with
  | nil =>
      obtain ⟨rfl, -⟩ := brings_pure.1 brings
      rw [List.append_nil]
  | cons entry rest ih =>
      obtain ⟨key, value⟩ := entry
      obtain ⟨k, h₁, v, h₂, first, hashable, second, more⟩ := brings_entry.1 brings
      obtain ⟨here, others⟩ := List.pairwise_cons.1 distinct
      have keyable := (isHashable_iff first).1 hashable
      have grown := toTable_grows _ rest more
      have new : ∀ stored ∈ table.toList, Value.keyEquals k stored.1 = false := by
        intro stored member
        obtain ⟨key', h₃, h₄, earlier, between, keyable', unequal⟩ := apart stored member
        rw [Value.keyEquals_comm, keyEquals_of_brings earlier between first keyable' keyable]
        exact unequal _ List.mem_cons_self
      have added : (table.insert k v).toList = table.toList ++ [(k, v)] := by
        rw [Table.toList_insert, insert_of_unequal new]
      have apart' : Apart (table.insert k v) h₂ rest := by
        intro stored member
        rw [added] at member
        rcases List.mem_append.1 member with old | last
        · obtain ⟨key', h₃, h₄, earlier, between, keyable', unequal⟩ := apart stored old
          exact ⟨key', h₃, h₄, earlier, (between.trans (toValue_grows key first)).trans
            (toValue_grows value second), keyable', fun e inside =>
              unequal e (List.mem_cons_of_mem _ inside)⟩
        · obtain rfl := List.mem_singleton.1 last
          exact ⟨key, h, h₁, first, toValue_grows value second, keyable, here⟩
      have readKey : copy k = key := each key (key_mem_parts List.mem_cons_self) h k h₁ first
        (((toValue_grows value second).trans grown).trans after)
      have readValue : copy v = value := each value (value_mem_parts List.mem_cons_self) h₁ v h₂
        second (grown.trans after)
      rw [ih more apart' others fun part member =>
          each part (List.mem_cons_of_mem _ (List.mem_cons_of_mem _ member)),
        added, List.map_append, List.append_assoc]
      simp only [List.map_cons, List.map_nil, readKey, readValue, List.singleton_append]

/-- A value that was brought reads back as it was, whatever is added to the heap later. -/
theorem read_back {budget : Nat} {latest : Heap} (brings : Brings o.toValue h v later)
    (after : later.Extends latest) (distinct : o.DistinctKeys)
    (nests : o.nestsWithin budget = true) :
    ofValueWithin latest budget v = o := by
  induction o using parts_induction generalizing h v later budget with
  | step o ih =>
      have inner {part : HostValue} {depth : Nat} (member : part ∈ o.parts)
          (nests : o.nestsWithin (depth + 1) = true) (h₁ : Heap) (v : Value) (h₂ : Heap)
          (brings : Brings part.toValue h₁ v h₂) (after : h₂.Extends latest) :
          ofValueWithin latest depth v = part :=
        ih part member brings after (distinct.of_part member) (nestsWithin_part nests member)
      cases o with
      | tuple items =>
          obtain ⟨values, brought, rfl⟩ := brings_tuple.1 brings
          cases budget with
          | zero => cases nests
          | succ budget =>
              rw [ofValueWithin, read_items brought fun item member h₁ v h₂ brings grown =>
                inner member nests h₁ v h₂ brings (grown.trans after)]
      | list items =>
          obtain ⟨values, between, brought, made⟩ := brings_list.1 brings
          cases budget with
          | zero => cases nests
          | succ budget =>
              cases made
              have grown := (Heap.Extends.newList between values.toArray).trans after
              rw [ofValueWithin, after.list_newList,
                read_items brought fun item member h₁ v h₂ brings before =>
                  inner member nests h₁ v h₂ brings (before.trans grown)]
      | map entries =>
          obtain ⟨table, between, brought, made⟩ := brings_map.1 brings
          cases budget with
          | zero => cases nests
          | succ budget =>
              cases made
              have grown := (Heap.Extends.newMap between table).trans after
              have empty : Apart .empty h entries := fun stored member => by
                rw [Table.toList_empty] at member
                cases member
              rw [ofValueWithin, after.map_newMap, read_entries brought grown empty
                (distinct entries .refl) fun part member => inner member nests, Table.toList_empty]
              rfl
      | exception type message =>
          obtain ⟨rfl, rfl⟩ := brings_exception.1 brings
          rw [ofValueWithin, after.exception_newException]
      | repr text => exact absurd brings not_brings_throw
      | _ =>
          obtain ⟨rfl, -⟩ := brings_pure.1 brings
          unfold ofValueWithin
          rfl

end Conversion

/-- What cannot be brought in contains a value without a data form, or a key that is or holds a list
or a map. -/
theorem not_importable_iff {o : HostValue} :
    ¬ o.Importable ↔ (∃ text, o.Contains (.repr text)) ∨
      ∃ entries, o.Contains (.map entries) ∧ ∃ entry ∈ entries, ∃ inner,
        entry.1.ContainsInTuples inner ∧ inner.isListOrMap = true := by
  unfold Importable Keyable
  rw [not_and_or]
  push Not
  simp

/-- Bringing in either succeeds or names a cause. -/
theorem accepts_iff_not_error {x : Import Value} {h : Heap} :
    Accepts x h ↔ ¬ ∃ cause, (Import.result x h).1 = .error cause := by
  unfold Accepts Brings
  rcases Import.result x h with ⟨cause | v, later⟩ <;> simp

/-- A host value is refused just if it holds something without a data form, or a key that is a list
or a map or holds one in tuples. One that is accepted reads back as it was, with the bits of its
floats and the order of its entries, if its containers are nested within the limit and no map in it
has two equal keys. -/
theorem survives_round_trip (h : Heap) (o : HostValue) :
    ((∃ cause, (Import.result o.toValue h).1 = .error cause) ↔
      (∃ text, o.Contains (.repr text)) ∨
        ∃ entries, o.Contains (.map entries) ∧ ∃ entry ∈ entries, ∃ inner,
          entry.1.ContainsInTuples inner ∧ inner.isListOrMap = true) ∧
    ∀ v later, Import.result o.toValue h = (.ok v, later) →
      o.nestsWithin Value.maxNesting = true → o.DistinctKeys → ofValue later v = o := by
  refine ⟨?_, fun v later brings nests distinct => read_back brings (.refl later) distinct nests⟩
  rw [← not_importable_iff, ← accepts_iff o h, accepts_iff_not_error, not_not]

/-- A key that holds a word and an exception. -/
def failedKey : HostValue :=
  .tuple [.int 1, .exception .valueError "late"]

/-- A map with two such keys, which are unequal, since an exception equals only itself. -/
def failures : HostValue :=
  .map [(failedKey, .list [.float (.zero true), .tuple []]),
    (failedKey, .map [(.null, .str "late")])]

theorem distinctKeys_failures : failures.DistinctKeys := by
  have unequal : sameKey failedKey failedKey = false := by decide +kernel
  have atom {o : HostValue} (empty : o.parts = []) (other : ∀ entries, o ≠ .map entries) :
      o.DistinctKeys :=
    distinctKeys_iff.2 ⟨fun entries is => absurd is (other entries), fun _ member =>
      nomatch empty ▸ member⟩
  have pair {a b : HostValue} (first : a.DistinctKeys) (second : b.DistinctKeys) :
      ∀ part ∈ [a, b], part.DistinctKeys :=
    List.forall_mem_cons.2 ⟨first, List.forall_mem_singleton.2 second⟩
  have key : failedKey.DistinctKeys :=
    distinctKeys_iff.2 ⟨nofun, pair (atom rfl nofun) (atom rfl nofun)⟩
  have zero : (HostValue.list [.float (.zero true), .tuple []]).DistinctKeys :=
    distinctKeys_iff.2 ⟨nofun, pair (atom rfl nofun) (atom rfl nofun)⟩
  have note : (HostValue.map [(.null, .str "late")]).DistinctKeys := by
    refine distinctKeys_iff.2 ⟨?_, pair (atom rfl nofun) (atom rfl nofun)⟩
    rintro _ ⟨⟩
    exact List.pairwise_singleton _ _
  refine distinctKeys_iff.2 ⟨?_, List.forall_mem_append.2 ⟨pair key zero, pair key note⟩⟩
  rintro _ ⟨⟩
  exact List.pairwise_pair.2 unequal

theorem survives_round_trip_failures :
    ∃ v later, Import.result failures.toValue {} = (.ok v, later) ∧
      failures.nestsWithin Value.maxNesting = true ∧ failures.DistinctKeys ∧
      ofValue later v = failures := by
  obtain ⟨refused, reads⟩ := survives_round_trip {} failures
  have nests : failures.nestsWithin Value.maxNesting = true := by decide
  have distinct := distinctKeys_failures
  have accepted : (Import.result failures.toValue {}).1.toOption.isSome = true := by decide +kernel
  rcases done : Import.result failures.toValue {} with ⟨cause | v, later⟩
  · rw [done] at accepted
    cases accepted
  · exact ⟨v, later, rfl, nests, distinct, reads v later done nests distinct⟩

end HostValue
end ScriptMachine
