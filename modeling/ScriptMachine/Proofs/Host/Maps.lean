import ScriptMachine.Proofs.Heap.Equality
import ScriptMachine.Proofs.Heap.Ledger
import ScriptMachine.Proofs.Host.Attributes
import ScriptMachine.Proofs.Host.Operators

/-!
Maps as programs see them. Whatever instruction works on a map, be it a literal, an item that is
read or assigned, a call of a method, of the type or of the function for sizes, or the start of a
loop over the keys, takes its operands off, carries one primitive out and hands on what that gives.
So the machine answers what the ledger tells, and a history of such operations leaves the entries
that the ledger is left with.
-/

namespace ScriptMachine

open ScriptMachine.Action

namespace MapOperation

/-- The operation that the call of a value is. -/
def ofCall? (callee : Value) (args : List Value) : Option MapOperation :=
  match callee, args with
  | .bound (.map id) (.native ⟨.map fn, _⟩), args => some (method id fn args)
  | .type .hashMap, args => some (construct args)
  | .native ⟨.builtin .len, _⟩, [.map id] => some (size id)
  | _, _ => none

/-- How many operands it takes off. -/
def operands : MapOperation → Nat
  | literal items => items.length
  | construct args | method _ _ args => args.length + 1
  | assign .. => 3
  | item .. => 2
  | size _ => 2
  | walk _ => 1

/-- How many steps it takes. What is called hands its answer on with a step of its own, and so does
what makes an iterator. -/
def steps : MapOperation → Nat
  | literal _ | assign .. | item .. => 1
  | construct _ | method .. | size _ | walk _ => 2

/-- What is done with the answer first. -/
def finish : MapOperation → Value → Action Unit
  | literal _, v | item .., v => push v
  | assign .., _ => pure ()
  | construct _, v | method .., v | size _, v | walk _, v => deliver v .push

/-- A method of a map does its work and hands on what it gives. -/
theorem invoke_method (id : MapId) (fn : MapMethod) (number : Nat) (args : List Value)
    (m : Machine) : (invoke (.bound (.map id) (.native ⟨.map fn, number⟩)) args).result m
      = (do deliver (← primitive (method id fn args).work) .push).result m := by
  change (callNative (.map fn) (some (.map id)) args .push).result m = _
  unfold callNative work
  dsimp only [Native.arity?]
  generalize fn.arity? = arity
  cases arity with
  | none => rfl
  | some arity =>
      dsimp only
      by_cases wrong : arity ≠ args.length
      · rw [if_pos wrong, if_pos wrong]
        rfl
      · rw [if_neg wrong, if_neg wrong]

theorem invoke_type (args : List Value) (m : Machine) :
    (invoke (.type .hashMap) args).result m
      = (do deliver (← primitive (construct args).work) .push).result m := by
  change (constructType .hashMap args .push).result m = _
  rcases args with _ | ⟨v, _ | ⟨w, rest⟩⟩
  · rfl
  · cases v <;> rfl
  · cases v <;> rfl

theorem invoke_len (id : MapId) (number : Nat) (m : Machine) :
    (invoke (.native ⟨.builtin .len, number⟩) [.map id]).result m
      = (do deliver (← primitive (size id).work) .push).result m := rfl

/-- A call that is an operation on maps does its work and hands on what it gives. -/
theorem result_of_call {callee : Value} {args : List Value} {op : MapOperation}
    (call : ofCall? callee args = some op) (m : Machine) :
    op.operands = args.length + 1 ∧
      (invoke callee args).result m = (do op.finish (← primitive op.work)).result m := by
  unfold ofCall? at call
  split at call <;> cases call
  · exact ⟨rfl, invoke_method _ _ _ args m⟩
  · exact ⟨rfl, invoke_type args m⟩
  · exact ⟨rfl, invoke_len _ _ m⟩

theorem result_readItem (id : MapId) (key : Value) (m : Machine) :
    (readItem (.map id) key).result m
      = (do push (← primitive (item id key).work)).result m := by
  have asked : Operation.item? m.heap (.map id) key = some (Operation.lookup m.heap id key) := rfl
  unfold readItem
  rw [result_bind_ok (result_askHeap _ m), asked, result_bind, result_primitive, work,
    Primitive.result_consult]
  cases Operation.lookup m.heap id key <;> rfl

theorem result_writeItem (id : MapId) (key v : Value) (m : Machine) :
    (writeItem (.map id) key v).result m
      = (do (assign id key v).finish (← primitive (assign id key v).work)).result m := by
  change (primitive (Operation.store id key v)).result m = _
  rw [result_primitive, result_bind, result_primitive, work]
  rcases stored : (Operation.store id key v).result m.heap with ⟨cause | done, h⟩
  · rw [Primitive.result_bind_error stored]
  · rw [Primitive.result_bind_ok stored]
    rfl

end MapOperation

namespace Machine

variable {m : Machine} {op : MapOperation}

/-- The operation on maps that comes next. -/
def mapOperation? (m : Machine) : Option MapOperation := do
  let (f, i) ← m.fetch?
  match i.op, f.stack with
  | .buildHash, s => if i.arg * 2 ≤ s.length then some (.literal (s.take (i.arg * 2)).reverse) else none
  | .storeIndex, index :: .map id :: v :: _ => some (.assign id index v)
  | .loadIndex, index :: .map id :: _ => some (.item id index)
  | .getIter, .map id :: _ => some (.walk id)
  | .invoke, callee :: s => if i.arg ≤ s.length then MapOperation.ofCall? callee (s.take i.arg).reverse else none
  | _, _ => none

/-- The step takes the operands off, does the work and goes on with what it gives. -/
theorem upcoming_mapOperation (next : m.mapOperation? = some op) :
    ∃ f rest i, m.Fetches f rest i ∧ m.upcoming.result m
      = (do op.finish (← primitive op.work)).result
          ((fetched m f i).withStack (f.stack.drop op.operands)) := by
  obtain ⟨f, rest, i, fetches, next⟩ := fetches_of_bind_fetch? next
  refine ⟨f, rest, i, fetches, ?_⟩
  rw [fetches.upcoming]
  have stack := fetches.stack
  dsimp only at next
  split at next
  · next is =>
      obtain ⟨enough, same⟩ := Option.ite_none_right_eq_some.1 next
      cases same
      have parts := stack.trans (List.take_append_drop (i.arg * 2) f.stack).symm
      have length : (f.stack.take (i.arg * 2)).length = i.arg * 2 := by
        rw [List.length_take, Nat.min_eq_left enough]
      rw [execute_buildHash is parts length, MapOperation.operands, List.length_reverse, length]
      rfl
  · next index id v s is here =>
      cases next
      rw [execute_storeIndex is (stack.trans here), here, MapOperation.result_writeItem]
      rfl
  · next index id s is here =>
      cases next
      rw [execute_loadIndex is (stack.trans here), here, MapOperation.result_readItem]
      rfl
  · next id s is here =>
      cases next
      rw [execute_getIter is (stack.trans here), here]
      rfl
  · next callee s is here =>
      obtain ⟨enough, call⟩ := Option.ite_none_right_eq_some.1 next
      have parts : (fetched m f i).stack = callee :: (s.take i.arg ++ s.drop i.arg) := by
        rw [stack, here, List.take_append_drop]
      have length : (s.take i.arg).length = i.arg := by
        rw [List.length_take, Nat.min_eq_left enough]
      obtain ⟨operands, same⟩ :=
        MapOperation.result_of_call call ((fetched m f i).withStack (s.drop i.arg))
      rw [execute_invoke is parts length, same, operands, here, List.length_reverse, length]
      rfl
  · cases next

/-- After the operation its answer stands in the place of the operands. An assignment puts nothing
there. -/
def Answers (m : Machine) : MapOperation → Reply → Prop
  | op@(.assign ..), _ => m.step.control = .running ∧ ∃ f rest, m.frames = f :: rest ∧
      m.step.frames = { f with ip := f.ip + 1, stack := f.stack.drop op.operands } :: rest
  | op, reply =>
      ∃ v, m.Yields (m.run op.steps) op.operands v ∧ (m.run op.steps).heap.Shows reply v

/-- Raising a fault does not touch the maps. -/
theorem ledger_of_fault {cause : Fault} {n : Machine}
    (failed : m.upcoming.result m = (.error (.fault cause), n)) :
    m.step.heap.ledger = n.heap.ledger := by
  have stepped : m.step = _ := perform_of_error failed
  rw [stepped, heap_raise]
  rfl

theorem heap_of_delivers {n : Machine} {below : List Frame} {v : Value}
    (delivers : n.Delivers below .push v) : n.step.heap = n.heap := by
  have done : n.upcoming.result n = (push v).result { n with control := .running } := by
    rw [Machine.upcoming, delivers.control]
    rfl
  rw [result_push] at done
  have stepped : n.step = _ := perform_of_ok done
  rw [stepped]
  rfl

/-- What is handed to the operands takes the place of those that were taken off. -/
theorem yields_of_delivering {f : Frame} {rest : List Frame} {n : Machine} {taken : Nat} {v : Value}
    (top : m.frames = f :: rest)
    (frames : n.frames = { f with ip := f.ip + 1, stack := f.stack.drop taken } :: rest)
    (upcoming : m.upcoming.result m = (.ok (), { n with control := .delivering v .push })) :
    m.failure? = none ∧ m.Yields (m.run 2) taken v ∧ (m.run 2).heap = n.heap := by
  have stepped : m.step = _ := perform_of_ok upcoming
  have delivers : m.step.Delivers n.frames .push v := by
    rw [stepped]
    exact ⟨rfl, rfl⟩
  have heap : m.step.heap = n.heap := by rw [stepped]
  rw [run_two]
  exact ⟨failure?_of_ok upcoming, (frames ▸ delivers).yields top,
    (heap_of_delivers delivers).trans heap⟩

/-- What the work gives is put in the place of the operands, at once or with the next step. -/
theorem answers_of_finish {f : Frame} {rest : List Frame} {n : Machine} {v : Value} {reply : Reply}
    (top : m.frames = f :: rest)
    (frames : n.frames = { f with ip := f.ip + 1, stack := f.stack.drop op.operands } :: rest)
    (running : n.control = .running) (shows : n.heap.Shows reply v)
    (upcoming : m.upcoming.result m = (op.finish v).result n) :
    m.failure? = none ∧ m.step.heap = n.heap ∧ m.Answers op reply := by
  have some : n.frames ≠ [] := frames ▸ List.cons_ne_nil _ _
  have pushed (w : Value) : (n.withStack (w :: n.stack)).frames
      = { f with ip := f.ip + 1, stack := w :: f.stack.drop op.operands } :: rest := by
    rw [frames_withStack, stack, frames]
    rfl
  cases op with
  | literal items | item id key =>
      have done := upcoming.trans (result_push v n)
      have stepped : m.step = _ := perform_of_ok done
      refine ⟨failure?_of_ok done, stepped ▸ rfl, v, ?_, ?_⟩
      · change m.Yields (m.run 1) _ v
        rw [run_one, stepped]
        exact ⟨running, f, rest, top, pushed v⟩
      · change (m.run 1).heap.Shows reply v
        rw [run_one, stepped]
        exact shows
  | assign id key w =>
      have stepped : m.step = n := perform_of_ok upcoming
      refine ⟨failure?_of_ok upcoming, congrArg _ stepped, ?_⟩
      rw [Answers, stepped]
      exact ⟨running, f, rest, top, frames⟩
  | construct args | method id fn args | size id | walk id =>
      have stepped : m.step = { n with control := .delivering v .push } := perform_of_ok upcoming
      have delivers : m.step.Delivers n.frames .push v := by
        rw [stepped]
        exact ⟨rfl, rfl⟩
      refine ⟨failure?_of_ok upcoming, stepped ▸ rfl, v, ?_, ?_⟩
      · change m.Yields (m.run 2) _ v
        rw [run_two]
        exact (frames ▸ delivers).yields top
      · change (m.run 2).heap.Shows reply v
        rw [run_two, heap_of_delivers delivers, stepped]
        exact shows

/-- An operation comes to what the entries of the maps say it does. -/
theorem step_mapOperation (next : m.mapOperation? = some op) :
    match op.outcome m.heap.ledger with
    | .ok (reply, l) => m.failure? = none ∧ m.step.heap.ledger = l ∧ m.Answers op reply
    | .error type => m.failure? = some type ∧ m.step.heap.ledger = m.heap.ledger := by
  obtain ⟨f, rest, i, fetches, upcoming⟩ := upcoming_mapOperation next
  have agrees := op.work_agrees m.heap
  have heap : ((fetched m f i).withStack (f.stack.drop op.operands)).heap = m.heap :=
    heap_fetched m f i
  have frames := fetches.frames_withStack (f.stack.drop op.operands)
  have running : ((fetched m f i).withStack (f.stack.drop op.operands)).control = .running :=
    fetches.running
  generalize (fetched m f i).withStack (f.stack.drop op.operands) = n at *
  rw [← heap] at agrees ⊢
  rcases came : op.outcome n.heap.ledger with type | ⟨reply, l⟩ <;> rw [came] at agrees
  · obtain ⟨cause, failed, rfl⟩ := agrees
    rw [result_bind, result_primitive_error failed] at upcoming
    exact ⟨failure?_of_fault upcoming, ledger_of_fault upcoming⟩
  · obtain ⟨v, h', given, rfl, shows⟩ := agrees
    rw [result_bind_ok (result_primitive_ok given)] at upcoming
    let k : Machine := { n with heap := h' }
    have there : k.frames = { f with ip := f.ip + 1, stack := f.stack.drop op.operands } :: rest :=
      frames
    have runs : k.control = .running := running
    obtain ⟨fine, stepped, answers⟩ := answers_of_finish fetches.frames there runs shows upcoming
    exact ⟨fine, congrArg Heap.ledger stepped, answers⟩

section Outcome

variable {l : Ledger}

theorem answers_of_outcome {reply : Reply} (next : m.mapOperation? = some op)
    (came : op.outcome m.heap.ledger = .ok (reply, l)) :
    m.failure? = none ∧ m.step.heap.ledger = l ∧ m.Answers op reply := by
  have does := step_mapOperation next
  rw [came] at does
  exact does

theorem refused_of_outcome {type : ExceptionType} (next : m.mapOperation? = some op)
    (came : op.outcome m.heap.ledger = .error type) :
    m.failure? = some type ∧ m.step.heap.ledger = m.heap.ledger := by
  have does := step_mapOperation next
  rw [came] at does
  exact does

end Outcome

theorem ledger_step (next : m.mapOperation? = some op) :
    m.step.heap.ledger = op.after m.heap.ledger := by
  unfold MapOperation.after
  rcases came : op.outcome m.heap.ledger with type | ⟨reply, l⟩
  · exact (refused_of_outcome next came).2
  · exact (answers_of_outcome next came).2.1

/-- Operations on maps that one machine after another is about to carry out. Whatever happens
between them may do anything but change a map. -/
inductive Undergoes (m : Machine) : List MapOperation → Machine → Prop where
  | start : Undergoes m [] m
  | meanwhile {history : List MapOperation} {n n' : Machine} : Undergoes m history n →
      n'.heap.ledger = n.heap.ledger → Undergoes m history n'
  | operation {history : List MapOperation} {n : Machine} {op : MapOperation} :
      Undergoes m history n → n.mapOperation? = some op → Undergoes m (history ++ [op]) n.step

variable {n : Machine} {history : List MapOperation}

/-- The entries of all maps are what the operations have made of them. -/
theorem Undergoes.ledger (undergoes : m.Undergoes history n) :
    n.heap.ledger = history.foldl MapOperation.after m.heap.ledger := by
  induction undergoes with
  | start => rfl
  | meanwhile _ same ih => rw [same, ih]
  | operation _ next ih => rw [ledger_step next, ih, List.foldl_append, List.foldl_cons, List.foldl_nil]

/-- A map that no operation names stays as it is. -/
theorem Undergoes.getElem?_ledger (undergoes : m.Undergoes history n) {id : MapId}
    (known : id < m.heap.ledger.length) (others : ∀ op ∈ history, op.target? ≠ some id) :
    id < n.heap.ledger.length ∧ n.heap.ledger[id]? = m.heap.ledger[id]? := by
  induction undergoes with
  | start => exact ⟨known, rfl⟩
  | meanwhile _ same ih =>
      rw [same]
      exact ih others
  | @operation history n op _ next ih =>
      obtain ⟨before, last⟩ := List.forall_mem_append.1 others
      obtain ⟨there, same⟩ := ih before
      rw [ledger_step next]
      exact ⟨Nat.lt_of_lt_of_le there (op.length_le_after _),
        (op.getElem?_after there (last op (List.mem_singleton.2 rfl))).trans same⟩

/-- Maps are lists of entries. After any history of operations the maps hold what the operations
make of such lists, one after another, where keys are the same that are equal; the keys of one map
are pairwise unequal, and a map that no operation has named, such as the copy of another one, is as
it was. What any operation answers next can be read off these lists, and if it is refused, with the
exception that they tell as well, the maps stay as they are. -/
theorem maps_follow (undergoes : m.Undergoes history n) :
    n.heap.ledger = history.foldl MapOperation.after m.heap.ledger ∧
    (∀ key other, key.isHashable = true → Value.keyEquals key other = n.heap.equals key other) ∧
    (∀ entries ∈ n.heap.ledger, Table.Distinct entries.keys) ∧
    (∀ id < m.heap.ledger.length, (∀ op ∈ history, op.target? ≠ some id) →
      n.heap.ledger[id]? = m.heap.ledger[id]?) ∧
    ∀ op, n.mapOperation? = some op →
      match op.outcome n.heap.ledger with
      | .ok (reply, l) => n.failure? = none ∧ n.step.heap.ledger = l ∧ n.Answers op reply
      | .error type => n.failure? = some type ∧ n.step.heap.ledger = n.heap.ledger :=
  ⟨undergoes.ledger, fun _ _ hashable => (Heap.equals_eq_key hashable).symm,
    fun _ => n.heap.distinct_of_mem_ledger,
    fun _ known others => (undergoes.getElem?_ledger known others).2, fun _ => step_mapOperation⟩

end Machine

/-- A function that walks over a map in which one key is given twice. -/
def walkingLiteral : List Stmt :=
  [.function {} (.mk { name := "walk", params := [] }
    [.foreach {} "x" (.hash {} [(.int {} 1, .int {} 10), (.int {} 2, .int {} 20),
        (.int {} 1, .int {} 30)]) (.block {} [])])]

/-- The machine of a host that calls the function, where it makes the map. -/
def literalMachine : Machine :=
  (HostCall.value (.method 0) []).after (Engine.loaded (compiledUnit walkingLiteral)).machine 6

/-- The integers of which an operation makes a map. -/
def MapOperation.ints? : MapOperation → Option (List Int64)
  | literal items => items.mapM Value.int?
  | _ => none

/-- The map that an operation walks over. -/
def MapOperation.walked? : MapOperation → Option MapId
  | walk id => some id
  | _ => none

theorem Value.eq_of_ints? {items : List Value} {ints : List Int64}
    (are : items.mapM int? = some ints) : items = ints.map .int := by
  induction items generalizing ints with
  | nil =>
      cases are
      rfl
  | cons v rest ih =>
      rw [List.mapM_cons] at are
      obtain ⟨i, is, are⟩ := Option.bind_eq_some_iff.1 are
      obtain ⟨more, rests, are⟩ := Option.bind_eq_some_iff.1 are
      cases are
      rw [eq_of_int? is, ih rests, List.map_cons]

theorem Machine.mapOperation?_of_ints {m : Machine} {ints : List Int64}
    (next : m.mapOperation?.bind MapOperation.ints? = some ints) :
    m.mapOperation? = some (.literal (ints.map .int)) := by
  obtain ⟨op, found, is⟩ := Option.bind_eq_some_iff.1 next
  cases op with
  | literal items => rw [found, Value.eq_of_ints? is]
  | _ => cases is

theorem Machine.mapOperation?_of_walked {m : Machine} {id : MapId}
    (next : m.mapOperation?.bind MapOperation.walked? = some id) :
    m.mapOperation? = some (.walk id) := by
  obtain ⟨op, found, is⟩ := Option.bind_eq_some_iff.1 next
  cases op with
  | walk id => rw [found, Option.some.inj is]
  | _ => cases is

/-- The key that is given twice keeps its place and is visited once. -/
theorem maps_follow_literal :
    literalMachine.step.heap.ledger = [[(.int 1, .int 30), (.int 2, .int 20)]] ∧
      literalMachine.step.Answers (.walk 0) (.visits [.int 1, .int 2]) := by
  have makes : literalMachine.mapOperation?
      = some (.literal ([1, 10, 2, 20, 1, 30].map .int)) :=
    Machine.mapOperation?_of_ints (by decide +kernel)
  have walks : literalMachine.step.mapOperation? = some (.walk 0) :=
    Machine.mapOperation?_of_walked (by decide +kernel)
  have none : literalMachine.heap.ledger = [] := by
    refine List.eq_nil_of_length_eq_zero ?_
    rw [Heap.length_ledger]
    decide +kernel
  obtain ⟨ledger, -, -, -, answers⟩ := Machine.maps_follow (.operation .start makes)
  rw [none] at ledger
  have visits := answers _ walks
  rw [ledger] at visits
  exact ⟨ledger, visits.2.2⟩

end ScriptMachine
