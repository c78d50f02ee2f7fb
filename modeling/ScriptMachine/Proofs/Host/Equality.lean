import ScriptMachine.Proofs.Heap.Ledger
import ScriptMachine.Proofs.Heap.Visiting
import ScriptMachine.Proofs.Host.Operators

/-!
Equality as programs see it. The operators for equality say whether the operands are equal and raise
an exception if containers are nested too deep to tell. With the operands exchanged they say the
same, except that the order of the entries in maps may decide between unequal and too deep.
-/

namespace ScriptMachine

open ScriptMachine.Action

namespace Operation

variable {h : Heap} {left right : Value}

/-- The operators say of two values what the comparison comes to. -/
theorem result_equals {answer : Bool} (came : h.equals? left right = some answer) :
    (binary .equals left right).result h = (.ok (.bool answer), h) ∧
      (binary .notEquals left right).result h = (.ok (.bool !answer), h) := by
  have consulted : (Primitive.consult (equality · left right)).result h = (.ok answer, h) := by
    rw [Primitive.result_consult, equality, came]
  constructor
  · exact (Primitive.result_bind_ok consulted).trans rfl
  · exact (Primitive.result_bind_ok consulted).trans rfl

theorem result_equals_deep (deep : h.equals? left right = none) :
    (binary .equals left right).result h = (.error .comparisonTooDeep, h) ∧
      (binary .notEquals left right).result h = (.error .comparisonTooDeep, h) := by
  have consulted : (Primitive.consult (equality · left right)).result h =
      (.error .comparisonTooDeep, h) := by
    rw [Primitive.result_consult, equality, deep]
  exact ⟨Primitive.result_bind_error consulted, Primitive.result_bind_error consulted⟩

end Operation

namespace Machine

variable {m : Machine} {left right : Value}

/-- The step puts the answer in the place of the operands, or raises the exception for containers
that are nested too deep. -/
def Judges (m : Machine) : Option Bool → Prop
  | some answer => m.failure? = none ∧ m.Yields m.step 2 (.bool answer)
  | none => m.failure? = some .recursionError

theorem judges_equality (plain : ∀ id, left ≠ .instance id) :
    (m.operation? = some (.equals, left, right) → m.Judges (m.heap.equals? left right)) ∧
      (m.operation? = some (.notEquals, left, right) →
        m.Judges ((m.heap.equals? left right).map not)) := by
  cases came : m.heap.equals? left right with
  | none =>
      obtain ⟨equal, unequal⟩ := Operation.result_equals_deep came
      exact ⟨fun next => failure?_of_operation next plain equal,
        fun next => failure?_of_operation next plain unequal⟩
  | some answer =>
      obtain ⟨equal, unequal⟩ := Operation.result_equals came
      exact ⟨fun next => yields_of_operation next plain equal,
        fun next => yields_of_operation next plain unequal⟩

/-- What becomes of comparing two values, neither of which is an instance, in both directions. Each
direction comes to one outcome: the operator for inequality says the opposite of the one for
equality, or both raise an exception. The values are found equal in both directions or in neither.
Either outcome is one that the comparison may have with the entries of maps in some order, so that
both are the same where no order matters. That is so if one of the values has no map in it, and if
one of them is not nested too deep. -/
theorem equality_symmetric (h : Heap) {a b : Value} (plain : ∀ id, a ≠ .instance id)
    (plain' : ∀ id, b ≠ .instance id) : ∃ forward backward : Option Bool,
    (∀ m : Machine, m.heap = h →
      (m.operation? = some (.equals, a, b) → m.Judges forward) ∧
      (m.operation? = some (.notEquals, a, b) → m.Judges (forward.map not)) ∧
      (m.operation? = some (.equals, b, a) → m.Judges backward) ∧
      (m.operation? = some (.notEquals, b, a) → m.Judges (backward.map not))) ∧
    (forward = some true ↔ backward = some true) ∧
    h.MayAnswer Value.maxNesting a b forward ∧ h.MayAnswer Value.maxNesting a b backward ∧
    (h.Settled a b → forward = backward) ∧
    (h.Mapless a ∨ h.Mapless b ∨ h.nestsWithin Value.maxNesting a = true ∨
      h.nestsWithin Value.maxNesting b = true → h.Settled a b) := by
  have forward : h.MayAnswer Value.maxNesting a b (h.equals? a b) := h.mayAnswer_equalsWithin _ a b
  have backward : h.MayAnswer Value.maxNesting a b (h.equals? b a) :=
    (h.mayAnswer_equalsWithin _ b a).symm
  refine ⟨h.equals? a b, h.equals? b a, ?_, ?_, forward, backward, ?_, ?_⟩
  · rintro m rfl
    exact ⟨(judges_equality plain).1, (judges_equality plain).2, (judges_equality plain').1,
      (judges_equality plain').2⟩
  · exact ⟨Heap.equalsWithin_symm, Heap.equalsWithin_symm⟩
  · exact fun settled => settled _ _ forward backward
  · rintro (mapless | mapless | nests | nests)
    · exact Heap.settled_of_mapless mapless
    · exact (Heap.settled_of_mapless mapless).symm
    · exact Heap.settled_of_nestsWithin nests
    · exact (Heap.settled_of_nestsWithin nests).symm

end Machine

/-! ## Knots -/

namespace Heap

/-- Two maps with a list each under a key of both, and with another key each. -/
def firstKnot : Table :=
  (Table.empty.insert (.str "x") (.list 0)).insert (.str "y") (.int 1)
def secondKnot : Table :=
  (Table.empty.insert (.str "z") (.int 1)).insert (.str "x") (.list 1)

/-- A heap with these maps, where the lists contain themselves. -/
def knotted (h : Heap) : Heap :=
  { h with lists := #[#[.list 0], #[.list 1]], maps := #[firstKnot, secondKnot] }

variable {h : Heap}

theorem toList_firstKnot : firstKnot.toList = [(.str "x", .list 0), (.str "y", .int 1)] := by
  rw [firstKnot, Table.toList_insert, Table.toList_insert]
  rfl

theorem toList_secondKnot : secondKnot.toList = [(.str "z", .int 1), (.str "x", .list 1)] := by
  rw [secondKnot, Table.toList_insert, Table.toList_insert]
  rfl

theorem atOnce?_knots : h.knotted.atOnce? (.map 0) (.map 1) = none := by
  have sizes : firstKnot.size = secondKnot.size := by
    rw [← Table.length_toList, ← Table.length_toList, toList_firstKnot, toList_secondKnot]
    rfl
  have differ : (0 : MapId) ≠ 1 := nofun
  rw [atOnce?, if_neg differ]
  exact if_pos sizes

theorem equalsWithin_lists (budget : Nat) :
    h.knotted.equalsWithin budget (.list 0) (.list 1) = none := by
  induction budget with
  | zero => rfl
  | succ budget ih =>
      rw [equalsWithin_list rfl]
      change Value.pairwise _ [.list 0] [.list 1] = none
      rw [Value.pairwise, ih]

/-- In the order of the first map the lists are compared first. -/
theorem equals?_knots : h.knotted.equals? (.map 0) (.map 1) = none := by
  have partner : secondKnot.find? (.str "x") = some (.list 1) := by
    rw [Table.find?_eq, toList_secondKnot]
    rfl
  obtain ⟨less, limit⟩ := Nat.exists_eq_succ_of_ne_zero (Nat.ne_of_gt Value.maxNesting_pos)
  rw [equals?, limit, equalsWithin_map atOnce?_knots]
  change entriesAgree _ secondKnot firstKnot.toList = none
  rw [toList_firstKnot, entriesAgree, partner]
  dsimp only
  rw [equalsWithin_lists]

/-- In the order of the second map a key is missed first. -/
theorem equals?_knots_exchanged : h.knotted.equals? (.map 1) (.map 0) = some false := by
  have missing : firstKnot.find? (.str "z") = none := by
    rw [Table.find?_eq, toList_firstKnot]
    rfl
  obtain ⟨less, limit⟩ := Nat.exists_eq_succ_of_ne_zero (Nat.ne_of_gt Value.maxNesting_pos)
  rw [equals?, limit, equalsWithin_map (h.knotted.atOnce?_comm _ _ ▸ atOnce?_knots)]
  change entriesAgree _ firstKnot secondKnot.toList = some false
  rw [toList_secondKnot, entriesAgree, missing]

/-- A list that contains only itself holds no map. -/
theorem mapless_knot : h.knotted.Mapless (.list 0) := by
  have itself : ∀ v, h.knotted.Contains (.list 0) v → v = .list 0 := by
    intro v inside
    induction inside with
    | refl => rfl
    | tail _ member same =>
        rw [same] at member
        exact List.mem_singleton.1 member
  intro id inside
  cases itself _ inside

end Heap

/-- The list or the map with a number. -/
def Value.ofContainer : ListId ⊕ MapId → Value
  | .inl i => .list i
  | .inr i => .map i

/-- Which list or map a value is. -/
def Value.container? : Value → Option (ListId ⊕ MapId)
  | .list i => some (.inl i)
  | .map i => some (.inr i)
  | _ => none

theorem Value.eq_of_container? {v : Value} {c : ListId ⊕ MapId} (is : v.container? = some c) :
    v = ofContainer c := by
  unfold container? at is
  split at is <;> cases is <;> rfl

namespace Machine

variable {m : Machine} {op : BinaryOp}

theorem operation?_of_containers {c d : ListId ⊕ MapId}
    (next : m.operation?.map (fun (op, left, right) => (op, left.container?, right.container?))
      = some (op, some c, some d)) :
    m.operation? = some (op, .ofContainer c, .ofContainer d) := by
  obtain ⟨⟨op', left, right⟩, found, same⟩ := Option.map_eq_some_iff.1 next
  obtain ⟨rfl, is, is'⟩ : op' = op ∧ left.container? = some c ∧ right.container? = some d := by
    simpa using same
  rw [found, Value.eq_of_container? is, Value.eq_of_container? is']

/-- The machine with the two topmost operands exchanged. -/
def exchanged (m : Machine) : Machine :=
  m.withStack (match m.stack with
    | right :: left :: rest => left :: right :: rest
    | operands => operands)

end Machine

/-- The machine of a host that has such lists and maps and calls a function with two of them, where
it applies an operator. -/
def knottedMachine (op : BinaryOp) (c d : ListId ⊕ MapId) : Machine :=
  let m := operatorMachine op (.ofContainer c) (.ofContainer d)
  { m with heap := m.heap.knotted }

/-- The lists cannot be compared in either direction. -/
theorem equality_symmetric_knots :
    let m := knottedMachine .equals (.inl 0) (.inl 1)
    m.operation? = some (.equals, .list 0, .list 1) ∧ m.failure? = some .recursionError ∧
      m.exchanged.operation? = some (.equals, .list 1, .list 0) ∧
      m.exchanged.failure? = some .recursionError := by
  intro m
  have next : m.operation? = some (.equals, .list 0, .list 1) :=
    Machine.operation?_of_containers (c := .inl 0) (d := .inl 1) (by decide +kernel)
  have next' : m.exchanged.operation? = some (.equals, .list 1, .list 0) :=
    Machine.operation?_of_containers (c := .inl 1) (d := .inl 0) (by decide +kernel)
  have raises : m.failure? = some .recursionError := by decide +kernel
  obtain ⟨forward, backward, judges, -, -, -, settled, enough⟩ :=
    Machine.equality_symmetric m.heap (a := .list 0) (b := .list 1) nofun nofun
  obtain rfl := settled (enough (.inl Heap.mapless_knot))
  have first : m.Judges forward := (judges m rfl).1 next
  have second : m.exchanged.Judges forward := (judges m.exchanged rfl).2.2.1 next'
  cases forward with
  | none => exact ⟨next, raises, next', second⟩
  | some answer => cases first.1.symm.trans raises

/-- The maps cannot be compared in one direction and are unequal in the other, although no instance
is there. -/
theorem equality_depends_on_order :
    let m := knottedMachine .equals (.inr 0) (.inr 1)
    m.heap.instances.size = 0 ∧
      m.operation? = some (.equals, .map 0, .map 1) ∧ m.failure? = some .recursionError ∧
      m.exchanged.heap = m.heap ∧ m.exchanged.operation? = some (.equals, .map 1, .map 0) ∧
      m.exchanged.failure? = none ∧ m.exchanged.Yields m.exchanged.step 2 (.bool false) := by
  intro m
  have next : m.operation? = some (.equals, .map 0, .map 1) :=
    Machine.operation?_of_containers (c := .inr 0) (d := .inr 1) (by decide +kernel)
  have next' : m.exchanged.operation? = some (.equals, .map 1, .map 0) :=
    Machine.operation?_of_containers (c := .inr 1) (d := .inr 0) (by decide +kernel)
  have plain (i : MapId) (id : InstanceId) : Value.map i ≠ .instance id := nofun
  have first := (Machine.judges_equality (plain 0)).1 next
  have second := (Machine.judges_equality (plain 1)).1 next'
  have deep : m.heap.equals? (.map 0) (.map 1) = none := Heap.equals?_knots
  have unequal : m.exchanged.heap.equals? (.map 1) (.map 0) = some false :=
    Heap.equals?_knots_exchanged
  rw [deep] at first
  rw [unequal] at second
  exact ⟨by decide +kernel, next, first, rfl, next', second⟩

end ScriptMachine
