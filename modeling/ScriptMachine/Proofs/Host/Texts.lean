import Mathlib.Logic.Relation
import ScriptMachine.Host.Value

/-!
Texts of host values. A host value is a copy of a run-time value, and both have a text of their own.
The copy and the text count how deep they are from different ends and stop at different depths, but
within the nesting limit neither stops, and then the text of the copy is the text of the value. The
copy of an exception does not keep the instance that was raised, which may give it another name.
-/

namespace ScriptMachine

/-! ## Contents of values -/

namespace Heap

/-- The values a container holds, the keys of a map included. -/
def members (h : Heap) : Value → List Value
  | .tuple items => items
  | .list id => (h.list id).toList
  | .map id => (h.map id).toList.flatMap fun (key, value) => [key, value]
  | _ => []

/-- The containers in a value, which may be one itself, are nested at most this deep. -/
def nestsWithin (h : Heap) : Nat → Value → Bool
  | 0, .tuple _ | 0, .list _ | 0, .map _ => false
  | 0, _ => true
  | depth + 1, v => (h.members v).all (nestsWithin h depth)

/-- A value holds another, in itself or in what it holds, or is the other. -/
def Contains (h : Heap) : Value → Value → Prop :=
  Relation.ReflTransGen fun v w => w ∈ h.members v

/-- The exceptions in a value are built-in ones: none stands for an instance that was raised. -/
def Payloadless (h : Heap) (v : Value) : Prop :=
  ∀ id, h.Contains v (.exception id) → (h.exception id).payload = none

variable {h : Heap} {v w : Value} {depth : Nat}

theorem nestsWithin_member (nests : h.nestsWithin (depth + 1) v = true) (member : w ∈ h.members v) :
    h.nestsWithin depth w = true :=
  List.all_eq_true.1 nests w member

theorem Payloadless.member (plain : h.Payloadless v) (member : w ∈ h.members v) :
    h.Payloadless w := fun id inside =>
  plain id (inside.head member)

theorem key_mem_members {id : MapId} {entry : Value × Value} (stored : entry ∈ (h.map id).toList) :
    entry.1 ∈ h.members (.map id) :=
  List.mem_flatMap.2 ⟨entry, stored, List.mem_cons_self⟩

theorem value_mem_members {id : MapId} {entry : Value × Value}
    (stored : entry ∈ (h.map id).toList) : entry.2 ∈ h.members (.map id) :=
  List.mem_flatMap.2 ⟨entry, stored, List.mem_cons_of_mem _ List.mem_cons_self⟩

end Heap

/-! ## Texts of copies -/

namespace HostValue

open Heap

variable {h : Heap}

theorem texts_map (copy : Value → HostValue) (items : List Value) :
    texts (items.map copy) = items.map fun item => (copy item).text := by
  induction items with
  | nil => rfl
  | cons item rest ih => rw [List.map_cons, texts, ih, List.map_cons]

theorem entryTexts_map (copy : Value → HostValue) (entries : List (Value × Value)) :
    entryTexts (entries.map fun (key, value) => (copy key, copy value)) =
      entries.map fun (key, value) => (copy key).text ++ ": " ++ (copy value).text := by
  induction entries with
  | nil => rw [List.map_nil, entryTexts, List.map_nil]
  | cons entry rest ih => rw [List.map_cons, entryTexts, ih, List.map_cons]

/-- An exception without an instance shows its built-in type. -/
theorem text_exception {id : ExceptionId} (plain : (h.exception id).payload = none) :
    (HostValue.exception (h.exception id).type (h.exception id).message).text =
      h.atomText (.exception id) := by
  have named : h.exceptionTypeName id = (h.exception id).type.name := by
    rw [exceptionTypeName, plain]
  rw [text, ← named]
  rfl

/-- The copy of a value with some budget has the text that the value has when it is followed one
level further: the copy spends its budget on containers only, the text a level on every value. -/
theorem text_ofValueWithin {budget : Nat} {v : Value} (nests : h.nestsWithin budget v = true)
    (plain : h.Payloadless v) : (ofValueWithin h budget v).text = h.reprWithin (budget + 1) v := by
  induction budget generalizing v with
  | zero =>
      cases v with
      | tuple items => cases nests
      | list id => cases nests
      | map id => cases nests
      | exception id => exact text_exception (plain id .refl)
      | _ => rfl
  | succ budget ih =>
      have member {w : Value} (inside : w ∈ h.members v) :
          (ofValueWithin h budget w).text = h.reprWithin (budget + 1) w :=
        ih (nestsWithin_member nests inside) (plain.member inside)
      cases v with
      | tuple items =>
          have same : items.map (fun item => (ofValueWithin h budget item).text) =
              items.map fun item => h.reprWithin (budget + 1) item :=
            List.map_congr_left fun _ inside => member inside
          rw [ofValueWithin, text, reprWithin, texts_map, same, List.length_map]
      | list id =>
          have same : (h.list id).toList.map (fun item => (ofValueWithin h budget item).text) =
              (h.list id).toList.map fun item => h.reprWithin (budget + 1) item :=
            List.map_congr_left fun _ inside => member inside
          rw [ofValueWithin, text, reprWithin, texts_map, same]
      | map id =>
          have same : (h.map id).toList.map (fun (key, value) =>
                (ofValueWithin h budget key).text ++ ": " ++ (ofValueWithin h budget value).text) =
              (h.map id).toList.map fun (key, value) =>
                h.reprWithin (budget + 1) key ++ ": " ++ h.reprWithin (budget + 1) value :=
            List.map_congr_left fun (key, value) stored => by
              have first := member (key_mem_members stored)
              have second := member (value_mem_members stored)
              simp only [first, second]
          rw [ofValueWithin, text, reprWithin, entryTexts_map, same]
      | exception id => exact text_exception (plain id .refl)
      | _ => rfl

/-- The host shows a value as scripts do, if its containers are nested within the limit and its
exceptions are built-in ones. -/
theorem text_eq_repr (h : Heap) (v : Value) (nests : h.nestsWithin Value.maxNesting v = true)
    (plain : h.Payloadless v) : (ofValue h v).text = h.repr v :=
  text_ofValueWithin nests plain

/-! ## At the limit -/

/-- A value in a tuple in a tuple, and so on. -/
def wrapped (v : Value) : Nat → Value
  | 0 => v
  | n + 1 => .tuple [wrapped v n]

theorem contains_wrapped {v w : Value} {n : Nat} (inside : h.Contains (wrapped v n) w) :
    (∃ m, w = wrapped v (m + 1)) ∨ h.Contains v w := by
  induction n with
  | zero => exact .inr inside
  | succ n ih =>
      rcases inside.cases_head with rfl | ⟨u, member, inside⟩
      · exact .inl ⟨n, rfl⟩
      · obtain rfl := List.mem_singleton.1 member
        exact ih inside

/-- A heap with one exception. -/
def failedHeap : Heap where
  exceptions := #[{ type := .valueError, message := "late" }]

/-- An exception in as many tuples as may be nested. -/
theorem text_eq_repr_wrapped :
    failedHeap.nestsWithin Value.maxNesting (wrapped (.exception 0) Value.maxNesting) = true ∧
      failedHeap.Payloadless (wrapped (.exception 0) Value.maxNesting) ∧
      (ofValue failedHeap (wrapped (.exception 0) Value.maxNesting)).text =
        failedHeap.repr (wrapped (.exception 0) Value.maxNesting) := by
  have nests : failedHeap.nestsWithin Value.maxNesting
      (wrapped (.exception 0) Value.maxNesting) = true := by
    decide +kernel
  have plain : failedHeap.Payloadless (wrapped (.exception 0) Value.maxNesting) := by
    intro id inside
    rcases contains_wrapped inside with ⟨m, is⟩ | inside
    · cases is
    · obtain same | ⟨u, member, -⟩ := inside.cases_head
      · cases same
        rfl
      · cases member
  exact ⟨nests, plain, text_eq_repr failedHeap _ nests plain⟩

end HostValue
end ScriptMachine
