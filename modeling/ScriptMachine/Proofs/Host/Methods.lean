import ScriptMachine.Proofs.Host.Equality
import ScriptMachine.Proofs.Host.StoredKeys

/-!
Methods that are read twice. A method of a class is one object, and reading it from an instance
binds it to the instance, so that two readings give one value. A method of a list, a map or a string
is an object that is made when it is read, and no two of them are equal.
-/

namespace ScriptMachine

open ScriptMachine.Action

namespace Heap

/-- Between the heaps nothing was stored in the receiver or in a class. Objects for functions may
have been made, with new numbers. -/
structure Unstored (receiver : Value) (h h' : Heap) : Prop where
  inst : ∀ id, receiver = .instance id → h'.inst id = h.inst id
  classes : h'.classes = h.classes
  nextNative : h.nextNative ≤ h'.nextNative

variable {h h' : Heap}

theorem findMember?_of_classes (same : h'.classes = h.classes) (c : ClassId) (name : String) :
    h'.findMember? c name = h.findMember? c name := by
  have classes : h'.cls = h.cls := by
    funext c
    rw [cls, cls, same]
  have own : h'.ownMember? name = h.ownMember? name := by
    funext c
    rw [ownMember?, ownMember?, classes]
  have up (fuel : Nat) (c : ClassId) : h'.searchUp (h.ownMember? name) fuel c =
      h.searchUp (h.ownMember? name) fuel c := by
    induction fuel generalizing c with
    | zero => rfl
    | succ fuel ih => simp only [searchUp, classes, ih]
  rw [findMember?, findMember?, search, search, own, same, up]

/-- What is there without any work is there as long as nothing is stored. -/
theorem Unstored.ownAttribute? {id : InstanceId} (unstored : Unstored (.instance id) h h')
    (name : String) : Action.ownAttribute? h' (.instance id) name =
      Action.ownAttribute? h (.instance id) name := by
  rw [Action.ownAttribute?, Action.ownAttribute?, unstored.inst id rfl,
    findMember?_of_classes unstored.classes]

end Heap

namespace Machine

variable {m n k : Machine} {v w a b : Value} {name : String} {receiver : Receiver}
  {target : BoundTarget} {fn : Native} {h : Heap}

/-! ## Values that are keys -/

/-- Programs take one value for the other: the operator for equality says that they are equal, they
have the same hash, and what is stored in a map under the first is read under the second. -/
structure Interchangeable (a b : Value) : Prop where
  equal : ∀ m : Machine, m.operation? = some (.equals, a, b) → m.Judges (some true)
  hash : a.hash = b.hash
  stored : ∀ (m : Machine) (id : MapId) (w : Value), m.mapOperation? = some (.assign id a w) →
    id < m.heap.maps.size → ∀ n : Machine,
      n.heap.ledger.entries id = m.step.heap.ledger.entries id →
      n.mapOperation? = some (.item id b) →
      n.failure? = none ∧ n.Answers (.item id b) (.value w)

/-- Programs tell one value from the other: the operator for equality says that they are not equal,
and what is stored in a map under the first is not seen under the second. -/
structure Distinguished (a b : Value) : Prop where
  unequal : ∀ m : Machine, m.operation? = some (.equals, a, b) → m.Judges (some false)
  unseen : ∀ (m : Machine) (id : MapId) (w : Value), m.mapOperation? = some (.assign id a w) →
    id < m.heap.maps.size → Entries.find? Value.keyEquals b (m.step.heap.ledger.entries id) =
      Entries.find? Value.keyEquals b (m.heap.ledger.entries id)

/-- A bound method is compared without looking into anything. -/
theorem judges_bound (next : m.operation? = some (.equals, .bound receiver target, b)) :
    m.Judges (some (Value.keyEquals (.bound receiver target) b)) := by
  have plain (id : InstanceId) : Value.bound receiver target ≠ .instance id := nofun
  have judges := (judges_equality plain).1 next
  rwa [Heap.equals?, Heap.equalsWithin_eq_key rfl] at judges

theorem interchangeable_bound (receiver : Receiver) (target : BoundTarget) :
    Interchangeable (.bound receiver target) (.bound receiver target) := by
  have itself : Value.keyEquals (.bound receiver target) (.bound receiver target) = true := by
    simp [Value.keyEquals_iff, Value.keyEqualsWithin, Value.atomEquals]
  refine ⟨fun m next => itself ▸ judges_bound next, rfl, fun m id w stores there n same reads => ?_⟩
  obtain ⟨-, stored⟩ := step_assign stores (m.heap.length_ledger ▸ there) rfl
  refine reads_item reads rfl ?_
  rw [same, stored]
  exact Entries.find?_insert_self _ itself w _

theorem distinguished_bound {receiver' : Receiver} {target' : BoundTarget}
    (differ : target ≠ target') :
    Distinguished (.bound receiver target) (.bound receiver' target') := by
  have unequal : Value.keyEquals (.bound receiver target) (.bound receiver' target') = false := by
    simp [Value.keyEquals, Value.keyEqualsWithin, Value.atomEquals, differ]
  refine ⟨fun m next => unequal ▸ judges_bound next, fun m id w stores there => ?_⟩
  obtain ⟨-, stored⟩ := step_assign stores (m.heap.length_ledger ▸ there) rfl
  rw [stored]
  exact Entries.find?_insert_of_unequal ((Value.keyEquals_comm _ _).trans unequal) w _

/-! ## Readings -/

/-- What is handed to the operands takes the place of the object. -/
theorem yields_of_reading (reads : m.readAttribute? = some (v, name))
    (gives : ∀ n : Machine, n.heap = m.heap → (Action.readAttribute v name .push).result n =
      (.ok (), { n with heap := h, control := .delivering w .push })) :
    m.Yields (m.run 2) 1 w ∧ (m.run 2).heap = h := by
  obtain ⟨f, rest, n, frames, below, heap, upcoming⟩ := readAttribute?_upcoming reads
  exact (yields_of_delivering (n := { n with heap := h }) frames below
    (upcoming.trans (gives n heap))).2

/-- What is there without any work is what a reading gives. -/
theorem yields_own (reads : m.readAttribute? = some (v, name))
    (own : ownAttribute? m.heap v name = some w) (other : ∀ c, v ≠ .cls c) :
    m.Yields (m.run 2) 1 w ∧ (m.run 2).heap = m.heap := by
  refine yields_of_reading reads fun n heap => ?_
  rw [← heap] at own ⊢
  cases v with
  | cls c => exact absurd rfl (other c)
  | _ =>
      unfold Action.readAttribute
      rw [result_bind_ok (result_askHeap _ n), own]
      rfl

/-- A method of a built-in value is made when it is read. -/
theorem yields_builtin (reads : m.readAttribute? = some (v, name))
    (finds : builtinMethod? v name = some (receiver, fn)) :
    m.Yields (m.run 2) 1 (.bound receiver (.native (m.heap.newNative fn).1)) ∧
      (m.run 2).heap = (m.heap.newNative fn).2 := by
  refine yields_of_reading reads fun n heap => ?_
  rw [← heap]
  have none : ownAttribute? n.heap v name = none := by
    cases v <;> first | rfl | cases finds
  cases v with
  | cls c => cases finds
  | _ =>
      unfold Action.readAttribute
      rw [result_bind_ok (result_askHeap _ n), none]
      dsimp only
      rw [finds]
      rfl

/-- What becomes of a method that is read twice from one receiver, if nothing is stored in between.
From an instance both readings give one bound method, which programs cannot tell from itself. From a
list, a map or a string they give bound methods of one name, which are distinguished. -/
theorem method_read_twice (first : m.readAttribute? = some (v, name))
    (second : k.readAttribute? = some (v, name))
    (unstored : Heap.Unstored v (m.run 2).heap k.heap) :
    (∀ id receiver target, v = .instance id →
      ownAttribute? m.heap v name = some (.bound receiver target) →
      m.Yields (m.run 2) 1 (.bound receiver target) ∧
      k.Yields (k.run 2) 1 (.bound receiver target) ∧
      Interchangeable (.bound receiver target) (.bound receiver target)) ∧
    ∀ receiver fn, builtinMethod? v name = some (receiver, fn) → ∃ i j,
      m.Yields (m.run 2) 1 (.bound receiver (.native ⟨fn, i⟩)) ∧
      k.Yields (k.run 2) 1 (.bound receiver (.native ⟨fn, j⟩)) ∧
      Interchangeable (.bound receiver (.native ⟨fn, i⟩)) (.bound receiver (.native ⟨fn, i⟩)) ∧
      Distinguished (.bound receiver (.native ⟨fn, i⟩)) (.bound receiver (.native ⟨fn, j⟩)) := by
  constructor
  · rintro id receiver target rfl own
    have other : ∀ c, Value.instance id ≠ .cls c := nofun
    obtain ⟨yields, kept⟩ := yields_own first own other
    have again : ownAttribute? k.heap (.instance id) name = some (.bound receiver target) := by
      rw [unstored.ownAttribute?, kept, own]
    exact ⟨yields, (yields_own second again other).1, interchangeable_bound receiver target⟩
  · intro receiver fn finds
    obtain ⟨yields, made⟩ := yields_builtin first finds
    have later : m.heap.nextNative + 1 ≤ k.heap.nextNative := by
      have numbers := unstored.nextNative
      rwa [made] at numbers
    refine ⟨_, _, yields, (yields_builtin second finds).1, interchangeable_bound _ _,
      distinguished_bound ?_⟩
    intro same
    have numbers : m.heap.nextNative = k.heap.nextNative :=
      congrArg NativeObject.number (BoundTarget.native.inj same)
    omega

end Machine

/-- A class with a method, a function that reads a method from an object twice and compares what it
gives, and one that calls it with an object. -/
def comparingMethods (name : String) (object : Expr) : List Stmt :=
  [.classDef {} (.mk {} "C" [] none [.function {} (.mk { name := "m" } [])]),
    .function {} (.mk { name := "compare", params := ["object"] }
      [.ret {} (some (.binary {} .equals (.attr {} (.name {} "object") name)
        (.attr {} (.name {} "object") name)))]),
    .function {} (.mk { name := "main" }
      [.ret {} (some (.call {} (.name {} "compare") [object] []))])]

/-- The machine of a host that calls the last function, after some steps. -/
def comparingMachine (name : String) (object : Expr) (steps : Nat) : Machine :=
  (HostCall.value (.method 3) []).after
    (Engine.loaded (compiledUnit (comparingMethods name object))).machine steps

/-- The receiver that a value is. -/
def Value.receiver? : Value → Option Receiver
  | .instance id => some (.instance id)
  | .list id => some (.list id)
  | .map id => some (.map id)
  | .str s => some (.str s)
  | _ => none

theorem Value.eq_of_receiver? {v : Value} {receiver : Receiver}
    (is : v.receiver? = some receiver) : v = receiver.toValue := by
  unfold receiver? at is
  split at is <;> cases is <;> rfl

/-- The parts of a bound method. -/
def Value.bound? : Value → Option (Receiver × BoundTarget)
  | .bound receiver target => some (receiver, target)
  | _ => none

theorem Value.eq_of_bound? {v : Value} {receiver : Receiver} {target : BoundTarget}
    (is : v.bound? = some (receiver, target)) : v = .bound receiver target := by
  unfold bound? at is
  split at is <;> cases is
  rfl

namespace Machine

variable {m : Machine} {name : String} {receiver receiver' : Receiver}
  {target target' : BoundTarget}

theorem readAttribute?_of_receiver (reads : m.readAttribute?.map
    (fun (v, name) => (v.receiver?, name)) = some (some receiver, name)) :
    m.readAttribute? = some (receiver.toValue, name) := by
  obtain ⟨⟨v, _⟩, found, same⟩ := Option.map_eq_some_iff.1 reads
  obtain ⟨is, rfl⟩ : v.receiver? = some receiver ∧ _ = name := by simpa using same
  rw [found, Value.eq_of_receiver? is]

theorem operation?_of_bound {op : BinaryOp} (next : m.operation?.map
    (fun (op, left, right) => (op, left.bound?, right.bound?)) =
      some (op, some (receiver, target), some (receiver', target'))) :
    m.operation? = some (op, .bound receiver target, .bound receiver' target') := by
  obtain ⟨⟨op', left, right⟩, found, same⟩ := Option.map_eq_some_iff.1 next
  obtain ⟨rfl, is, is'⟩ : op' = op ∧ left.bound? = some (receiver, target) ∧
      right.bound? = some (receiver', target') := by simpa using same
  rw [found, Value.eq_of_bound? is, Value.eq_of_bound? is']

end Machine

/-- Both readings from an instance give one value. -/
theorem method_read_twice_instance :
    let m := comparingMachine "m" (.call {} (.name {} "C") [] []) 9
    let k := (m.run 2).step
    m.Yields (m.run 2) 1 (.bound (.instance 0) (.method 1)) ∧
      k.Yields (k.run 2) 1 (.bound (.instance 0) (.method 1)) ∧
      (k.run 2).operation? = some (.equals, .bound (.instance 0) (.method 1),
        .bound (.instance 0) (.method 1)) ∧ (k.run 2).Judges (some true) := by
  intro m k
  have first : m.readAttribute? = some (Receiver.toValue (.instance 0), "m") :=
    Machine.readAttribute?_of_receiver (by decide +kernel)
  have second : k.readAttribute? = some (Receiver.toValue (.instance 0), "m") :=
    Machine.readAttribute?_of_receiver (by decide +kernel)
  have kept : k.heap = (m.run 2).heap := Machine.heap_of_movesValue (by decide +kernel)
  have unstored : Heap.Unstored (.instance 0) (m.run 2).heap k.heap := by
    rw [kept]
    exact ⟨fun _ _ => rfl, rfl, Nat.le_refl _⟩
  have own : Action.ownAttribute? m.heap (.instance 0) "m"
      = some (.bound (.instance 0) (.method 1)) := by
    obtain ⟨v, found, is⟩ : ∃ v, Action.ownAttribute? m.heap (.instance 0) "m" = some v ∧
        v.bound? = some (.instance 0, .method 1) := Option.bind_eq_some_iff.1 (by decide +kernel)
    rw [found, Value.eq_of_bound? is]
  have next : (k.run 2).operation? = some (.equals, .bound (.instance 0) (.method 1),
      .bound (.instance 0) (.method 1)) := Machine.operation?_of_bound (by decide +kernel)
  obtain ⟨yields, yields', same⟩ :=
    (Machine.method_read_twice first second unstored).1 0 _ _ rfl own
  exact ⟨yields, yields', next, same.equal _ next⟩

/-- The readings from a list give values that are not equal, although nothing is stored. -/
theorem methods_of_list_differ :
    let m := comparingMachine "append" (.list {} []) 4
    let k := (m.run 2).step
    m.readAttribute? = some (.list 0, "append") ∧ k.readAttribute? = some (.list 0, "append") ∧
      k.heap = (m.run 2).heap ∧
      (k.run 2).operation? = some (.equals, .bound (.list 0) (.native ⟨.list .append, 0⟩),
        .bound (.list 0) (.native ⟨.list .append, 1⟩)) ∧ (k.run 2).Judges (some false) := by
  intro m k
  have first : m.readAttribute? = some (Receiver.toValue (.list 0), "append") :=
    Machine.readAttribute?_of_receiver (by decide +kernel)
  have second : k.readAttribute? = some (Receiver.toValue (.list 0), "append") :=
    Machine.readAttribute?_of_receiver (by decide +kernel)
  have kept : k.heap = (m.run 2).heap := Machine.heap_of_movesValue (by decide +kernel)
  have next : (k.run 2).operation? = some (.equals,
      .bound (.list 0) (.native ⟨.list .append, 0⟩),
      .bound (.list 0) (.native ⟨.list .append, 1⟩)) :=
    Machine.operation?_of_bound (by decide +kernel)
  have unequal : Value.keyEquals (.bound (.list 0) (.native ⟨.list .append, 0⟩))
      (.bound (.list 0) (.native ⟨.list .append, 1⟩)) = false := by decide +kernel
  exact ⟨first, second, kept, next, unequal ▸ Machine.judges_bound next⟩

end ScriptMachine
