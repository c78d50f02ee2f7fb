import Std.Data.HashMap
import ScriptMachine.Data.Entries
import ScriptMachine.Value.Key

/-!
The contents of a map. Entries stand in slots in insertion order, and the slots are
found by the hash of their key, so that a lookup takes the same time in a large map as
in a small one. A removed entry leaves its slot empty, and the others stay where they
are. No two entries have equal keys. In every respect a table behaves like the list of
its entries.
-/

namespace ScriptMachine

namespace Table

/-- A place for an entry. -/
abbrev Slot := Option (Value × Value)

namespace Slot

/-- The slot has an entry whose key equals this one. -/
def holds (key : Value) (slot : Slot) : Bool :=
  slot.any fun entry => Value.keyEquals key entry.1

/-- The slot has an entry whose key has this hash. -/
def hasHash (hash : Int64) (slot : Slot) : Bool :=
  slot.any fun entry => entry.1.hash == hash

/-- Puts another value into the entry of a slot. -/
def setValue (value : Value) (slot : Slot) : Slot :=
  slot.map fun entry => (entry.1, value)

@[simp] theorem hasHash_none (hash : Int64) : hasHash hash none = false := rfl

@[simp] theorem hasHash_some (hash : Int64) (entry : Value × Value) :
    hasHash hash (some entry) = (entry.1.hash == hash) := rfl

@[simp] theorem hasHash_setValue (hash : Int64) (value : Value) (slot : Slot) :
    (slot.setValue value).hasHash hash = slot.hasHash hash := by
  cases slot <;> rfl

theorem hasHash_of_holds {key : Value} {slot : Slot} (equal : slot.holds key = true) :
    slot.hasHash key.hash = true := by
  cases slot with
  | none => simp [holds] at equal
  | some entry => simpa using (Value.hash_eq_of_keyEquals equal).symm

end Slot

/-! ## Slots that satisfy a condition -/

/-- The numbers of the slots that satisfy a condition, in order. -/
def slotsWhere (condition : Slot → Bool) (slots : Array Slot) : List Nat :=
  (List.range slots.size).filter fun i => condition (slots.getD i none)

theorem slotsWhere_push (condition : Slot → Bool) (slots : Array Slot) (slot : Slot) :
    slotsWhere condition (slots.push slot) =
      slotsWhere condition slots ++ if condition slot then [slots.size] else [] := by
  have before : ∀ i ∈ List.range slots.size,
      condition ((slots.push slot).getD i none) = condition (slots.getD i none) := by
    intro i within
    rw [List.mem_range] at within
    rw [Array.getD_eq_getD_getElem?, Array.getD_eq_getD_getElem?, Array.getElem?_push_lt within,
      Array.getElem?_eq_getElem within]
  rw [slotsWhere, Array.size_push, List.range_succ, List.filter_append,
    List.filter_congr before, ← slotsWhere]
  congr 1
  simp [List.filter_cons]

theorem slotsWhere_modify {condition : Slot → Bool} {change : Slot → Slot}
    (same : ∀ slot, condition (change slot) = condition slot) (slots : Array Slot) (i : Nat) :
    slotsWhere condition (slots.modify i change) = slotsWhere condition slots := by
  have each : ∀ j ∈ List.range slots.size,
      condition ((slots.modify i change).getD j none) = condition (slots.getD j none) := by
    intro j within
    rw [List.mem_range] at within
    by_cases here : i = j
    · simp [Array.getElem_modify, within, here, same]
    · simp [Array.getElem_modify, within, here]
  rw [slotsWhere, Array.size_modify, List.filter_congr each, slotsWhere]

/-- Emptying a slot takes it out of every condition that only slots in use satisfy. -/
theorem slotsWhere_clear {condition : Slot → Bool} (used : condition none = false)
    (slots : Array Slot) (i : Nat) :
    slotsWhere condition (slots.setIfInBounds i none) =
      (slotsWhere condition slots).filter (· != i) := by
  rw [slotsWhere, slotsWhere, List.filter_filter, Array.size_setIfInBounds]
  apply List.filter_congr
  intro j within
  rw [List.mem_range] at within
  by_cases here : i = j
  · simp [within, here, used]
  · simp [within, here, Ne.symm here]

/-! ## Slots as entries -/

/-- The entries of slots in order. -/
def entries : List Slot → Entries Value Value
  | [] => []
  | none :: rest => entries rest
  | some entry :: rest => entry :: entries rest

@[simp] theorem entries_nil : entries [] = [] := rfl

@[simp] theorem entries_none (rest : List Slot) : entries (none :: rest) = entries rest := rfl

@[simp] theorem entries_some (entry : Value × Value) (rest : List Slot) :
    entries (some entry :: rest) = entry :: entries rest := rfl

@[simp] theorem entries_concat (slots : List Slot) (entry : Value × Value) :
    entries (slots ++ [some entry]) = entries slots ++ [entry] := by
  induction slots with
  | nil => rfl
  | cons slot rest ih => cases slot <;> simp [ih]

theorem length_entries_modify (slots : List Slot) (i : Nat) (value : Value) :
    (entries (slots.modify i (Slot.setValue value))).length = (entries slots).length := by
  induction slots generalizing i with
  | nil => simp
  | cons slot rest ih =>
      cases i with
      | zero => cases slot <;> simp [Slot.setValue]
      | succ i => cases slot <;> simp [ih]

theorem length_entries_pos {slots : List Slot} {i : Nat} {entry : Value × Value}
    (used : slots[i]? = some (some entry)) : 0 < (entries slots).length := by
  induction slots generalizing i with
  | nil => simp at used
  | cons slot rest ih =>
      cases slot with
      | some => simp
      | none =>
          cases i with
          | zero => simp at used
          | succ i => exact ih (by simpa using used)

theorem length_entries_clear {slots : List Slot} {i : Nat} {entry : Value × Value}
    (used : slots[i]? = some (some entry)) :
    (entries (slots.set i none)).length = (entries slots).length - 1 := by
  induction slots generalizing i with
  | nil => simp at used
  | cons slot rest ih =>
      cases i with
      | zero => simp_all
      | succ i =>
          have inRest : rest[i]? = some (some entry) := by simpa using used
          cases slot with
          | none => simpa using ih inRest
          | some other =>
              have others : 0 < (entries rest).length := length_entries_pos inRest
              simp [ih inRest]
              omega

/-- Another value in a slot leaves the keys as they are. -/
theorem keys_entries_modify (slots : List Slot) (i : Nat) (value : Value) :
    Entries.keys (entries (slots.modify i (Slot.setValue value))) = Entries.keys (entries slots) := by
  induction slots generalizing i with
  | nil => simp
  | cons slot rest ih =>
      simp only [Entries.keys] at ih
      cases i with
      | zero => cases slot <;> simp [Slot.setValue, Entries.keys]
      | succ i => cases slot <;> simp [ih, Entries.keys]

/-- Emptying a slot only takes an entry away. -/
theorem entries_set_sublist (slots : List Slot) (i : Nat) :
    (entries (slots.set i none)).Sublist (entries slots) := by
  induction slots generalizing i with
  | nil => simp
  | cons slot rest ih =>
      cases i with
      | zero => cases slot <;> simp
      | succ i => cases slot <;> simp [ih]

/-- A key that no slot holds is unequal to every key there is. -/
theorem keyEquals_of_findIdx? {key : Value} {slots : List Slot}
    (missing : slots.findIdx? (Slot.holds key) = none) :
    ∀ other ∈ Entries.keys (entries slots), Value.keyEquals key other = false := by
  induction slots with
  | nil => simp [Entries.keys]
  | cons slot rest ih =>
      rw [List.findIdx?_cons] at missing
      cases here : Slot.holds key slot with
      | true => simp [here] at missing
      | false =>
          have others := ih (by simpa [here] using missing)
          cases slot with
          | none => exact others
          | some entry =>
              have apart : Value.keyEquals key entry.1 = false := here
              simpa [Entries.keys, apart] using others

/-- The first number that satisfies a condition on slots is the first slot that does. -/
theorem find?_range_length (condition : Slot → Bool) (slots : List Slot) :
    (List.range slots.length).find? (fun i => condition (slots.getD i none)) =
      slots.findIdx? condition := by
  induction slots with
  | nil => rfl
  | cons slot rest ih =>
      rw [List.length_cons, List.range_succ_eq_map, List.find?_cons, List.findIdx?_cons]
      cases here : condition slot with
      | true => simp [here]
      | false => simp [here, List.find?_map, Function.comp_def, ← ih]

/-- A key is looked up in the entries as it is in the slots. -/
theorem find?_entries (key : Value) (slots : List Slot) :
    Entries.find? Value.keyEquals key (entries slots) =
      (slots.findIdx? (Slot.holds key)).bind fun i => (slots.getD i none).map Prod.snd := by
  induction slots with
  | nil => rfl
  | cons slot rest ih =>
      cases slot with
      | none => simp [List.findIdx?_cons, Slot.holds, ih, Option.bind_map, Function.comp_def]
      | some entry =>
          cases here : Value.keyEquals key entry.1 <;>
            simp [List.findIdx?_cons, Slot.holds, Entries.find?, here, ih, Option.bind_map,
              Function.comp_def]

/-- A value is stored in the entries as it is in the slots. -/
theorem insert_entries (key value : Value) (slots : List Slot) :
    Entries.insert Value.keyEquals key value (entries slots) =
      entries
        (match slots.findIdx? (Slot.holds key) with
        | some i => slots.modify i (Slot.setValue value)
        | none => slots ++ [some (key, value)]) := by
  induction slots with
  | nil => rfl
  | cons slot rest ih =>
      rw [List.findIdx?_cons]
      cases slot with
      | none =>
          cases found : rest.findIdx? (Slot.holds key) <;>
            simp [Slot.holds, found, ih]
      | some entry =>
          cases here : Value.keyEquals key entry.1 with
          | true => simp [Slot.holds, Entries.insert, here, Slot.setValue]
          | false =>
              cases found : rest.findIdx? (Slot.holds key) <;>
                simp [Slot.holds, Entries.insert, here, found, ih]

/-- A key is removed from the entries as it is from the slots. -/
theorem erase_entries (key : Value) (slots : List Slot) :
    Entries.erase Value.keyEquals key (entries slots) =
      entries
        (match slots.findIdx? (Slot.holds key) with
        | some i => slots.set i none
        | none => slots) := by
  induction slots with
  | nil => rfl
  | cons slot rest ih =>
      rw [List.findIdx?_cons]
      cases slot with
      | none =>
          cases found : rest.findIdx? (Slot.holds key) <;> simp [Slot.holds, found, ih]
      | some entry =>
          cases here : Value.keyEquals key entry.1 with
          | true => simp [Slot.holds, Entries.erase, here]
          | false =>
              cases found : rest.findIdx? (Slot.holds key) <;>
                simp [Slot.holds, Entries.erase, here, found, ih]

end Table

/-! ## Tables -/

/-- No key equals one that stands before it. -/
def Table.Distinct (keys : List Value) : Prop :=
  keys.Pairwise fun earlier later => Value.keyEquals later earlier = false

/-- Entries in insertion order, with an index. -/
structure Table where
  slots : Array Table.Slot
  /-- The slots in use, by the hash of their key. -/
  index : Std.HashMap Int64 (List Nat)
  /-- The number of slots in use. -/
  size : Nat
  index_eq : ∀ hash, index.getD hash [] = Table.slotsWhere (Table.Slot.hasHash hash) slots
  size_eq : size = (Table.entries slots.toList).length
  distinct : Table.Distinct (Entries.keys (Table.entries slots.toList))

namespace Table

/-- The table without entries. -/
def empty : Table where
  slots := #[]
  index := ∅
  size := 0
  index_eq := by simp [slotsWhere]
  size_eq := rfl
  distinct := .nil

instance : Inhabited Table := ⟨empty⟩

/-- The entries in order. -/
def toList (t : Table) : Entries Value Value :=
  entries t.slots.toList

/-- The slot that holds a key. -/
def position? (t : Table) (key : Value) : Option Nat :=
  (t.index.getD key.hash []).find? fun i => (t.slots.getD i none).holds key

/-- The index leads to the first slot that holds the key. -/
theorem position?_eq (t : Table) (key : Value) :
    t.position? key = t.slots.toList.findIdx? (Slot.holds key) := by
  have both : ∀ slot : Slot,
      (slot.hasHash key.hash && slot.holds key) = slot.holds key := by
    intro slot
    cases equal : slot.holds key with
    | false => simp
    | true => simp [Slot.hasHash_of_holds equal]
  rw [position?, t.index_eq, slotsWhere, List.find?_filter, ← find?_range_length]
  simp [both]

/-- The value stored under a key. -/
def find? (t : Table) (key : Value) : Option Value :=
  (t.position? key).bind fun i => (t.slots.getD i none).map Prod.snd

/-- Adds an entry with a new key at the end. -/
def push (t : Table) (key value : Value) (new : t.position? key = none) : Table :=
  let hash := key.hash
  let bucket := t.index.getD hash [] ++ [t.slots.size]
  { slots := t.slots.push (some (key, value))
    index := t.index.insert hash bucket
    size := t.size + 1
    index_eq := by
      intro other
      rw [Std.HashMap.getD_insert, slotsWhere_push, ← t.index_eq]
      by_cases same : hash = other
      · subst same; simp [bucket, hash]
      · have apart : key.hash ≠ other := same
        simp [same, apart]
    size_eq := by simp [t.size_eq]
    distinct := by
      have apart := keyEquals_of_findIdx? ((t.position?_eq key).symm.trans new)
      rw [Array.toList_push, entries_concat, Entries.keys, List.map_append]
      refine List.pairwise_append.2 ⟨t.distinct, List.pairwise_singleton _ _, ?_⟩
      intro earlier member later last
      obtain rfl := List.mem_singleton.1 last
      exact apart earlier member }

/-- Puts another value into the entry of a slot. -/
def setValue (t : Table) (i : Nat) (value : Value) : Table where
  slots := t.slots.modify i (Slot.setValue value)
  index := t.index
  size := t.size
  index_eq hash := by rw [slotsWhere_modify (by simp), t.index_eq]
  size_eq := by rw [Array.toList_modify, length_entries_modify, t.size_eq]
  distinct := by
    rw [Array.toList_modify, keys_entries_modify]
    exact t.distinct

/-- Empties a slot. -/
def remove (t : Table) (i : Nat) : Table :=
  match found : t.slots.getD i none with
  | none => t
  | some entry =>
      { slots := t.slots.setIfInBounds i none
        index := t.index.insert entry.1.hash
          ((t.index.getD entry.1.hash []).filter (· != i))
        size := t.size - 1
        index_eq := by
          intro hash
          rw [Std.HashMap.getD_insert, slotsWhere_clear rfl, ← t.index_eq]
          by_cases same : entry.1.hash = hash
          · subst same; simp
          · have apart : ∀ j ∈ t.index.getD hash [], (j != i) = true := by
              intro j member
              rw [t.index_eq, slotsWhere, List.mem_filter] at member
              by_cases here : j = i
              · rw [here, found] at member
                simp [same] at member
              · simpa using here
            simp [same, List.filter_eq_self.2 apart]
        size_eq := by
          have used : t.slots.toList[i]? = some (some entry) := by
            rw [Array.getD_eq_getD_getElem?] at found
            rw [Array.getElem?_toList]
            cases slot : t.slots[i]? <;> simp_all
          rw [Array.toList_setIfInBounds, length_entries_clear used, t.size_eq]
        distinct := by
          rw [Array.toList_setIfInBounds]
          exact t.distinct.sublist ((entries_set_sublist _ i).map Prod.fst) }

/-- Stores a value under a key. The place of a key that is present stays the same. -/
def insert (t : Table) (key value : Value) : Table :=
  match found : t.position? key with
  | some i => t.setValue i value
  | none => t.push key value found

/-- Removes the entry of a key. -/
def erase (t : Table) (key : Value) : Table :=
  match t.position? key with
  | some i => t.remove i
  | none => t

/-- The keys in order. -/
def keys (t : Table) : List Value :=
  t.toList.map Prod.fst

/-- The values in the order of their keys. -/
def values (t : Table) : List Value :=
  t.toList.map Prod.snd

/-! ## A table as the list of its entries -/

@[simp] theorem toList_empty : empty.toList = [] := rfl

@[simp] theorem length_toList (t : Table) : t.toList.length = t.size :=
  t.size_eq.symm

theorem find?_eq (t : Table) (key : Value) :
    t.find? key = Entries.find? Value.keyEquals key t.toList := by
  rw [find?, position?_eq, toList, find?_entries]
  simp

theorem toList_insert (t : Table) (key value : Value) :
    (t.insert key value).toList = Entries.insert Value.keyEquals key value t.toList := by
  rw [toList, toList, insert_entries, ← position?_eq]
  unfold insert
  split
  · next found => simp [setValue, found]
  · next new => simp [push, new]

theorem slots_remove (t : Table) (i : Nat) :
    (t.remove i).slots = t.slots.setIfInBounds i none := by
  unfold remove
  split
  · rename_i free
    refine Array.ext (by simp) fun j within _ => ?_
    by_cases here : i = j
    · subst here
      simpa [within] using free
    · rw [Array.getElem_setIfInBounds_ne within here]
  · rfl

theorem toList_erase (t : Table) (key : Value) :
    (t.erase key).toList = Entries.erase Value.keyEquals key t.toList := by
  rw [erase, position?_eq, toList, toList, erase_entries]
  cases t.slots.toList.findIdx? (Slot.holds key) <;> simp [slots_remove]

end Table
end ScriptMachine
