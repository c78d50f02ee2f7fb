/-!
Association lists in insertion order, for any notion of equal keys. Setting a key
that is present keeps its place and the key first used; a new key goes last.
-/

namespace ScriptMachine

/-- Keys with their values, oldest first. -/
abbrev Entries (κ υ : Type) := List (κ × υ)

namespace Entries

variable {κ υ : Type} (same : κ → κ → Bool)

/-- The value stored under a key. -/
def find? (key : κ) : Entries κ υ → Option υ
  | [] => none
  | (k, v) :: rest => if same key k then some v else find? key rest

/-- Stores a value under a key. -/
def insert (key : κ) (value : υ) : Entries κ υ → Entries κ υ
  | [] => [(key, value)]
  | (k, v) :: rest => if same key k then (k, value) :: rest else (k, v) :: insert key value rest

/-- Removes the entry of a key; the others keep their order. -/
def erase (key : κ) : Entries κ υ → Entries κ υ
  | [] => []
  | (k, v) :: rest => if same key k then rest else (k, v) :: erase key rest

/-- The keys in order. -/
def keys (entries : Entries κ υ) : List κ :=
  entries.map Prod.fst

/-- What is stored under a key that equals itself is found there. -/
theorem find?_insert_self {key : κ} (reflexive : same key key = true) (value : υ)
    (entries : Entries κ υ) : find? same key (insert same key value entries) = some value := by
  induction entries with
  | nil => simp [insert, find?, reflexive]
  | cons entry rest ih =>
      obtain ⟨k, v⟩ := entry
      by_cases found : same key k = true
      · simp [insert, find?, found]
      · simp [insert, find?, found, ih]

/-- Storing under a key that is present keeps the keys; a new key goes last. -/
theorem keys_insert (key : κ) (value : υ) (entries : Entries κ υ) :
    keys (insert same key value entries) =
      if (find? same key entries).isSome then keys entries else keys entries ++ [key] := by
  induction entries with
  | nil => simp [insert, find?, keys]
  | cons entry rest ih =>
      obtain ⟨k, v⟩ := entry
      by_cases found : same key k = true
      · simp [insert, find?, keys, found]
      · simp only [keys] at ih
        by_cases present : (find? same key rest).isSome = true
        · simp [insert, find?, keys, found, ih, present]
        · simp [insert, find?, keys, found, ih, present]

end Entries

/-- Values bound to names, oldest first. -/
abbrev Bindings (υ : Type) := Entries String υ

namespace Bindings

variable {υ : Type}

/-- The value bound to a name. -/
def get? (bindings : Bindings υ) (name : String) : Option υ :=
  Entries.find? (· == ·) name bindings

/-- Binds a name. -/
def set (bindings : Bindings υ) (name : String) (value : υ) : Bindings υ :=
  Entries.insert (· == ·) name value bindings

@[simp] theorem get?_set_self (bindings : Bindings υ) (name : String) (value : υ) :
    (bindings.set name value).get? name = some value :=
  Entries.find?_insert_self _ (by simp) value bindings

theorem get?_set_of_ne (bindings : Bindings υ) {name other : String} (ne : other ≠ name)
    (value : υ) : (bindings.set name value).get? other = bindings.get? other := by
  induction bindings with
  | nil => simp [set, get?, Entries.insert, Entries.find?, ne]
  | cons entry rest ih =>
      obtain ⟨k, v⟩ := entry
      simp only [set, get?] at ih
      by_cases found : name = k
      · subst found
        simp [set, get?, Entries.insert, Entries.find?, ne]
      · simp [set, get?, Entries.insert, Entries.find?, found, ih]

end Bindings
end ScriptMachine
