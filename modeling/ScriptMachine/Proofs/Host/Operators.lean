import ScriptMachine.Proofs.Host.Arithmetic

/-!
Binary operators on built-in values. Where the left operand is no instance, no class takes the
operator over: the step puts what the primitive operation gives in the place of the operands, or it
raises what the operation fails with.
-/

namespace ScriptMachine

open ScriptMachine.Action

/-- An outcome that needs no heap is the result of a primitive, and leaves the heap as it is. -/
theorem Primitive.result_lift {α : Type} (outcome : Except Fault α) (h : Heap) :
    (liftM outcome : Primitive α).result h = (outcome, h) := by
  cases outcome <;> rfl

namespace Action

variable {α : Type} {p : Primitive α} {m : Machine} {h : Heap}

theorem result_primitive_ok {x : α} (given : p.result m.heap = (.ok x, h)) :
    (primitive p).result m = (.ok x, { m with heap := h }) := by
  rw [result_primitive, given]

theorem result_primitive_error {cause : Fault} (failed : p.result m.heap = (.error cause, h)) :
    (primitive p).result m = (.error (.fault cause), { m with heap := h }) := by
  rw [result_primitive, failed]

end Action

namespace Machine

variable {m : Machine} {op : BinaryOp} {left right : Value}

/-- The binary operator that comes next, with its operands. -/
def operation? (m : Machine) : Option (BinaryOp × Value × Value) := do
  let (f, i) ← m.fetch?
  match i.op, f.stack with
  | .binOp, right :: left :: _ => return (← BinaryOp.ofTag? i.arg, left, right)
  | _, _ => none

/-- The step takes the operands off, carries out the primitive operation and pushes the result. -/
theorem upcoming_operation (next : m.operation? = some (op, left, right))
    (plain : ∀ id, left ≠ .instance id) :
    ∃ f rest i, m.Fetches f rest i ∧ m.upcoming.result m
      = (do push (← primitive (Operation.binary op left right))).result
          ((fetched m f i).withStack (f.stack.drop 2)) := by
  obtain ⟨f, rest, i, fetches, next⟩ := fetches_of_bind_fetch? next
  refine ⟨f, rest, i, fetches, ?_⟩
  dsimp only at next
  split at next
  · next b a s is stack =>
      obtain ⟨op', tag, same⟩ := Option.bind_eq_some_iff.1 next
      cases same
      rw [fetches.upcoming, execute_binOp is tag (fetches.stack.trans stack), stack]
      unfold Action.binary
      cases op.overload? with
      | none => rfl
      | some name =>
          cases left with
          | «instance» id => exact absurd rfl (plain id)
          | _ => rfl
  · cases next

/-- The operands give way to the result. -/
theorem yields_of_operation {v : Value} (next : m.operation? = some (op, left, right))
    (plain : ∀ id, left ≠ .instance id)
    (given : (Operation.binary op left right).result m.heap = (.ok v, m.heap)) :
    m.failure? = none ∧ m.Yields m.step 2 v := by
  obtain ⟨f, rest, i, fetches, upcoming⟩ := upcoming_operation next plain
  have some : (fetched m f i).frames ≠ [] := by
    rw [frames_fetched fetches.frames]
    exact List.cons_ne_nil _ _
  have heap : ((fetched m f i).withStack (f.stack.drop 2)).heap = m.heap := heap_fetched m f i
  have done : m.upcoming.result m
      = (.ok (), (fetched m f i).withStack (v :: f.stack.drop 2)) := by
    rw [← heap] at given
    rw [upcoming, result_bind_ok (result_primitive_ok given)]
    change (push v).result ((fetched m f i).withStack (f.stack.drop 2)) = _
    rw [result_push, withStack_withStack, stack_withStack some]
  refine ⟨failure?_of_ok done, ?_⟩
  have stepped : m.step = _ := perform_of_ok done
  rw [stepped]
  exact fetches.yields 2 v

/-- What the operation fails with is raised. -/
theorem failure?_of_operation {cause : Fault} {h : Heap}
    (next : m.operation? = some (op, left, right)) (plain : ∀ id, left ≠ .instance id)
    (failed : (Operation.binary op left right).result m.heap = (.error cause, h)) :
    m.failure? = some cause.type := by
  obtain ⟨f, rest, i, fetches, upcoming⟩ := upcoming_operation next plain
  have heap : ((fetched m f i).withStack (f.stack.drop 2)).heap = m.heap := heap_fetched m f i
  rw [← heap] at failed
  rw [result_bind, result_primitive_error failed] at upcoming
  exact failure?_of_fault upcoming

end Machine

/-- A function that applies an operator to its arguments. -/
def applying (op : BinaryOp) : List Stmt :=
  [.function {} (.mk { name := "apply", params := ["a", "b"] }
    [.ret {} (some (.binary {} op (.name {} "a") (.name {} "b")))])]

/-- The machine of a host that calls the function, where it applies the operator. -/
def operatorMachine (op : BinaryOp) (left right : Value) : Machine :=
  (HostCall.value (.method 0) [left, right]).after
    (Engine.loaded (compiledUnit (applying op))).machine 2

end ScriptMachine
