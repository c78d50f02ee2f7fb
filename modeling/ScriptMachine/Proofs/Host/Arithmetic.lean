import ScriptMachine.Proofs.Host.Reraising
import ScriptMachine.Proofs.Value.Keys

/-!
Arithmetic on words. An operation gives the result that it has on the integers, or it fails: with an
overflow if the result does not fit in a word, and with a division by zero if there is none. There
is one exception. The least word has no quotient by minus one that fits, and its remainder, which
is zero, is refused along with the quotient.
-/

namespace ScriptMachine

open ScriptMachine.Action

namespace Word

/-- A quotient of words is a word, but for the one that is the opposite of the least word. -/
theorem fits_tdiv {i j : Int} (fits : Fits i) (other : j ≠ 0) :
    Fits (i.tdiv j) ↔ ¬ (i = least ∧ j = -1) := by
  have size := Int.natAbs_tdiv i j
  unfold Fits least bound at *
  by_cases unit : j.natAbs = 1
  · rcases (by omega : j = 1 ∨ j = -1) with rfl | rfl
    · rw [Int.tdiv_one]
      omega
    · rw [Int.tdiv_neg, Int.tdiv_one]
      omega
  -- dividing by anything else at least halves the size
  · have halved : i.natAbs / j.natAbs ≤ i.natAbs / 2 := Nat.div_le_div_left (by omega) (by decide)
    change _ = i.natAbs / j.natAbs at size
    omega

end Word

/-- An operation on words. -/
inductive Calculation where
  | add (a b : Int64)
  | sub (a b : Int64)
  | mul (a b : Int64)
  | div (a b : Int64)
  | mod (a b : Int64)
  | neg (a : Int64)
deriving DecidableEq

namespace Calculation

/-- The operation that a binary operator stands for. -/
def ofBinary? (op : BinaryOp) (a b : Int64) : Option Calculation :=
  match op with
  | .add => some (.add a b)
  | .sub => some (.sub a b)
  | .mul => some (.mul a b)
  | .div => some (.div a b)
  | .mod => some (.mod a b)
  | _ => none

/-- The result on the integers. The quotient is rounded toward zero, and the remainder has the sign
of the dividend. There is none of division by zero. -/
def result? : Calculation → Option Int
  | add a b => some (a.toInt + b.toInt)
  | sub a b => some (a.toInt - b.toInt)
  | mul a b => some (a.toInt * b.toInt)
  | div a b => if b = 0 then none else some (a.toInt.tdiv b.toInt)
  | mod a b => if b = 0 then none else some (a.toInt.tmod b.toInt)
  | neg a => some (-a.toInt)

/-- The remainder that is refused along with the quotient. -/
def leastByMinusOne : Calculation :=
  mod Int64.minValue (-1)

/-- The number of operands. -/
def operands : Calculation → Nat
  | neg _ => 1
  | _ => 2

/-- What carrying out the operation gives. -/
def outcome : Calculation → Except Fault Value
  | add a b => Operation.onWords .add a b
  | sub a b => Operation.onWords .sub a b
  | mul a b => Operation.onWords .mul a b
  | div a b => Operation.onWords .div a b
  | mod a b => Operation.onWords .mod a b
  | neg a => Operation.exact (-a.toInt)

/-- Division by zero fails as such. -/
theorem outcome_of_none {c : Calculation} (none : c.result? = none) :
    ∃ cause, c.outcome = .error cause ∧ cause.type = .zeroDivisionError := by
  cases c with
  | add | sub | mul | neg => cases none
  | div a b =>
      have zero : b = 0 := by simpa [result?] using none
      exact ⟨.zeroDivision, if_pos zero, rfl⟩
  | mod a b =>
      have zero : b = 0 := by simpa [result?] using none
      exact ⟨.zeroModulo, if_pos zero, rfl⟩

theorem outcome_leastByMinusOne : leastByMinusOne.outcome = .error .overflow := by
  have large : Word.ofInt? (Int64.minValue.toInt.tdiv (-1 : Int64).toInt) = none := by decide
  change Operation.modulo Int64.minValue (-1) = _
  rw [Operation.modulo, if_neg (by decide), large]

/-- The quotient of a remainder fits, with one exception. -/
theorem fits_quotient {a b : Int64} (other : b ≠ 0) (usual : mod a b ≠ leastByMinusOne) :
    Word.Fits (a.toInt.tdiv b.toInt) := by
  have nonzero : b.toInt ≠ 0 := fun zero => other (Int64.toInt_inj.1 zero)
  refine (Word.fits_tdiv (Word.fits_toInt a) nonzero).2 fun ⟨least, minus⟩ => usual ?_
  rw [leastByMinusOne, Int64.toInt_inj.1 (least.trans (by decide : _ = Int64.minValue.toInt)),
    Int64.toInt_inj.1 (minus.trans (by decide : _ = (-1 : Int64).toInt))]

/-- Any other operation has the result on the integers, if it fits. -/
theorem outcome_of_some {c : Calculation} {i : Int} (some : c.result? = some i)
    (usual : c ≠ leastByMinusOne) : c.outcome = Operation.exact i := by
  cases c with
  | add a b | sub a b | mul a b | neg a =>
      cases some
      rfl
  | div a b =>
      obtain ⟨other, same⟩ := Option.ite_none_left_eq_some.1 some
      cases same
      exact if_neg other
  | mod a b =>
      obtain ⟨other, same⟩ := Option.ite_none_left_eq_some.1 some
      cases same
      have quotient : Word.ofInt? (a.toInt.tdiv b.toInt) = .some _ :=
        if_pos (fits_quotient other usual)
      change Operation.modulo a b = _
      rw [Operation.modulo, if_neg other, quotient]

end Calculation

namespace Action

variable {m : Machine} {c : Calculation}

/-- Goes on with the result of an operation on built-in values. -/
def settle : Except Fault Value → Action Unit
  | .ok v => push v
  | .error cause => fault cause

/-- No class takes over an operator on words. -/
theorem result_hook_int (a : Int64) (name : String) (args : List Value) (pending : Pending)
    (otherwise : Action Unit) (m : Machine) :
    (hook (.int a) name args pending otherwise).result m = otherwise.result m := rfl

theorem result_push_primitive (outcome : Except Fault Value) (m : Machine) :
    (do push (← primitive (liftM outcome : Primitive Value))).result m
      = (settle outcome).result m := by
  cases outcome <;> rfl

theorem result_binary {op : BinaryOp} {a b : Int64} (is : Calculation.ofBinary? op a b = some c)
    (m : Machine) :
    (binary op (.int a) (.int b)).result m = (settle c.outcome).result m ∧ c.operands = 2 := by
  unfold Calculation.ofBinary? at is
  split at is <;> cases is <;> exact ⟨result_push_primitive _ m, rfl⟩

theorem result_unary (a : Int64) (m : Machine) :
    (unary .negate (.int a)).result m = (settle (Calculation.neg a).outcome).result m := by
  rw [unary, result_hook_int]
  change (consult (fun _ => Operation.exact (-a.toInt)) >>= push).result m = _
  rw [Calculation.outcome]
  cases Operation.exact (-a.toInt) <;> rfl

end Action

namespace Machine

variable {m : Machine} {c : Calculation}

/-- The type of the exception that the next step raises. -/
def failure? (m : Machine) : Option ExceptionType :=
  m.raisedNext?.map fun id => (m.step.heap.exception id).type

/-- A fault is raised as a new exception of its type. -/
theorem failure?_of_fault {cause : Fault} {n : Machine}
    (failed : m.upcoming.result m = (.error (.fault cause), n)) :
    m.failure? = some cause.type := by
  have raised : m.raisedNext? = some n.heap.exceptions.size :=
    raisedNext?_eq_some.2 ⟨_, n, failed, rfl⟩
  let k : Machine :=
    { n with heap := (n.heap.newException { type := cause.type, message := cause.message }).2 }
  have known : n.heap.exceptions.size < k.heap.exceptions.size := Heap.size_newException _ _
  have made : (k.heap.exception n.heap.exceptions.size).type = cause.type :=
    congrArg ExceptionObject.type (Heap.exception_newException _ _)
  have stepped : m.step = k.raise n.heap.exceptions.size := perform_of_error failed
  rw [failure?, raised, Option.map_some, stepped, exception_raise known, ← made]
  split <;> rfl

theorem failure?_of_ok {n : Machine} (done : m.upcoming.result m = (.ok (), n)) :
    m.failure? = none := by
  rw [failure?, raisedNext?, done]
  rfl

/-- The operation on words that comes next. -/
def calculation? (m : Machine) : Option Calculation := do
  let (f, i) ← m.fetch?
  match i.op, f.stack with
  | .binOp, .int b :: .int a :: _ => Calculation.ofBinary? (← BinaryOp.ofTag? i.arg) a b
  | .unaryOp, .int a :: _ =>
      if UnaryOp.ofTag? i.arg = some .negate then some (.neg a) else none
  | _, _ => none

/-- The next step takes the operands off and settles what the operation gives. -/
theorem calculation?_eq_some (next : m.calculation? = some c) :
    ∃ f rest i, m.Fetches f rest i ∧ (execute i).result (fetched m f i)
      = (settle c.outcome).result ((fetched m f i).withStack (f.stack.drop c.operands)) := by
  obtain ⟨f, rest, i, fetches, next⟩ := fetches_of_bind_fetch? next
  refine ⟨f, rest, i, fetches, ?_⟩
  dsimp only at next
  split at next
  · next b a s is stack =>
      obtain ⟨op, tag, is'⟩ := Option.bind_eq_some_iff.1 next
      obtain ⟨same, two⟩ := result_binary is' ((fetched m f i).withStack s)
      rw [execute_binOp is tag (fetches.stack.trans stack), same, two, stack]
      rfl
  · next a s is stack =>
      obtain ⟨tag, same⟩ := Option.ite_none_right_eq_some.1 next
      cases same
      rw [execute_unaryOp is tag (fetches.stack.trans stack), result_unary, stack]
      rfl
  · cases next

theorem failure?_of_error {cause : Fault} (next : m.calculation? = some c)
    (failed : c.outcome = .error cause) : m.failure? = some cause.type := by
  obtain ⟨f, rest, i, fetches, done⟩ := calculation?_eq_some next
  rw [failed] at done
  exact failure?_of_fault (fetches.upcoming.trans done)

theorem yields_of_outcome {v : Value} (next : m.calculation? = some c)
    (given : c.outcome = .ok v) : m.failure? = none ∧ m.Yields m.step c.operands v := by
  obtain ⟨f, rest, i, fetches, done⟩ := calculation?_eq_some next
  have some : (fetched m f i).frames ≠ [] := by
    rw [frames_fetched fetches.frames]
    exact List.cons_ne_nil _ _
  rw [given, settle, result_push, withStack_withStack, stack_withStack some] at done
  refine ⟨failure?_of_ok (fetches.upcoming.trans done), ?_⟩
  rw [fetches.step done]
  exact fetches.yields c.operands v

/-- What becomes of an operation on words. Division by zero raises a division by zero, and nothing
else does. A result that does not fit in a word raises an overflow, and so does the remainder of
the least word by minus one, and nothing else does. In all other cases the operands give way to
the result on the integers. -/
theorem calculates (next : m.calculation? = some c) :
    (m.failure? = some .zeroDivisionError ↔ c.result? = none) ∧
    (m.failure? = some .overflowError ↔
      (∃ i, c.result? = some i ∧ ¬ Word.Fits i) ∨ c = .leastByMinusOne) ∧
    ∀ i, c.result? = some i → Word.Fits i → c ≠ .leastByMinusOne →
      m.failure? = none ∧ ∃ w : Int64, w.toInt = i ∧ m.Yields m.step c.operands (.int w) := by
  by_cases refused : c = .leastByMinusOne
  · have raised := failure?_of_error next (refused ▸ Calculation.outcome_leastByMinusOne)
    have result : c.result? ≠ none := by
      rw [refused]
      decide
    rw [raised]
    exact ⟨⟨nofun, fun none => absurd none result⟩, ⟨fun _ => .inr refused, fun _ => rfl⟩,
      fun _ _ _ usual => absurd refused usual⟩
  cases result : c.result? with
  | none =>
      obtain ⟨cause, failed, type⟩ := Calculation.outcome_of_none result
      rw [failure?_of_error next failed, type]
      refine ⟨⟨fun _ => rfl, fun _ => rfl⟩, ⟨nofun, ?_⟩, nofun⟩
      rintro (⟨i, some, -⟩ | same)
      · cases some
      · exact absurd same refused
  | some i =>
      have outcome := Calculation.outcome_of_some result refused
      rw [Operation.exact] at outcome
      by_cases fits : Word.Fits i
      · have word : Word.ofInt? i = some (Int64.ofInt i) := if_pos fits
        rw [word] at outcome
        obtain ⟨fine, yields⟩ := yields_of_outcome next outcome
        rw [fine]
        refine ⟨⟨nofun, nofun⟩, ⟨nofun, ?_⟩, ?_⟩
        · rintro (⟨j, same, large⟩ | same)
          · cases same
            exact absurd fits large
          · exact absurd same refused
        · rintro j same - -
          cases same
          exact ⟨rfl, _, Word.toInt_of_ofInt? word, yields⟩
      · rw [Word.ofInt?_eq_none.2 fits] at outcome
        rw [failure?_of_error next outcome]
        refine ⟨⟨nofun, nofun⟩, ⟨fun _ => .inl ⟨i, rfl, fits⟩, fun _ => rfl⟩, ?_⟩
        rintro j same fits' -
        cases same
        exact absurd fits' fits

end Machine

/-- A function that gives the remainder of its arguments. -/
def remainder : List Stmt :=
  [.function {} (.mk { name := "remainder", params := ["a", "b"] }
    [.ret {} (some (.binary {} .mod (.name {} "a") (.name {} "b")))])]

/-- The machine of a host that calls the function with two words, where it divides. -/
def remainderMachine (a b : Int64) : Machine :=
  (HostCall.value (.method 0) [.int a, .int b]).after
    (Engine.loaded (compiledUnit remainder)).machine 2

/-- The remainder of a negative number is negative. -/
theorem calculates_remainder : ∃ w : Int64, w.toInt = -1 ∧
    (remainderMachine (-7) 3).Yields (remainderMachine (-7) 3).step 2 (.int w) := by
  have next : (remainderMachine (-7) 3).calculation? = some (.mod (-7) 3) := by decide +kernel
  exact ((Machine.calculates next).2.2 (-1) (by decide) (by decide) (by decide)).2

/-- The remainder of the least word by minus one is zero, which fits in a word, and yet an overflow
is raised. -/
theorem remainder_overflows :
    let m := remainderMachine Int64.minValue (-1)
    m.calculation? = some (.mod Int64.minValue (-1)) ∧
      (Calculation.mod Int64.minValue (-1)).result? = some 0 ∧ Word.Fits 0 ∧
      m.failure? = some .overflowError := by
  decide +kernel

end ScriptMachine
