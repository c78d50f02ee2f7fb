import ScriptMachine.Proofs.Host.Operators
import ScriptMachine.Proofs.Value.Places

/-!
Comparisons of numbers. Words are compared with words and floats with floats by their places on the
number line. A word is ordered against a float as the float that it becomes, but equal to it only if
both have the same place. Hence all comparisons agree on the number line, unless a word is not the
float that it becomes: such a pair is in no order and not equal, and yet neither is above the other.
-/

namespace ScriptMachine

open ScriptMachine.Action Binary64

/-- The operators that compare numbers. -/
def BinaryOp.compares : BinaryOp → Bool
  | .lessThan | .lessThanOrEqu | .equals | .greaterThan | .greaterThanOrEqu => true
  | _ => false

/-- Of the operators that tell an order, only the one that tells this order holds. -/
theorem BinaryOp.existsUnique_of_order {verdict : BinaryOp → Bool} {order : Ordering}
    (less : verdict .lessThan = (order == .lt)) (equal : verdict .equals = (order == .eq))
    (greater : verdict .greaterThan = (order == .gt)) :
    ∃! op, op ∈ [.lessThan, .equals, .greaterThan] ∧ verdict op = true := by
  cases order
  case lt => exact ⟨.lessThan, by simp [less], by grind⟩
  case eq => exact ⟨.equals, by simp [equal], by grind⟩
  case gt => exact ⟨.greaterThan, by simp [greater], by grind⟩

theorem compare_congr {p q r s : Int} (below : p < q ↔ r < s) (above : q < p ↔ s < r) :
    compare p q = compare r s := by
  rcases Int.lt_trichotomy r s with less | rfl | greater
  · rw [compare_lt_iff_lt.2 less, compare_lt_iff_lt.2 (below.2 less)]
  · rw [compare_eq_iff_eq.2 rfl, compare_eq_iff_eq]
    omega
  · rw [compare_gt_iff_gt.2 greater, compare_gt_iff_gt.2 (above.2 greater)]

namespace Binary64

variable {f g : Binary64}

theorem compare?_of_isNaN (missing : f.isNaN = true ∨ g.isNaN = true) : compare? f g = none := by
  unfold compare?
  rw [Bool.or_eq_true_iff.2 missing, if_pos rfl]

theorem compare?_of_numbers (first : f.isNaN = false) (second : g.isNaN = false) :
    compare? f g = some (compare f.rank g.rank) := by
  unfold compare?
  rw [first, second, Bool.or_false, if_neg Bool.false_ne_true]

/-- A float equals a word that has the same place. -/
theorem toWord?_iff_place {w : Int64} :
    f.toWord? = some w ↔ f.isNaN = false ∧ f.place = wordPlace w :=
  ⟨fun equal => ⟨isNaN_of_toWord? equal, toWord?_iff.1 equal⟩, fun ⟨_, same⟩ => toWord?_iff.2 same⟩

/-- Floats are equal that have the same place. -/
theorem equals_iff_place :
    f.equals g = true ↔ f.isNaN = false ∧ g.isNaN = false ∧ f.place = g.place := by
  rw [equals, Bool.and_eq_true, Bool.and_eq_true, Bool.not_eq_true', Bool.not_eq_true', beq_iff_eq,
    rank_inj, and_assoc]

end Binary64

/-- A value that is a number. -/
inductive Number where
  | word (w : Int64)
  | float (f : Binary64)
deriving DecidableEq

namespace Number

variable {a b : Number}

/-- The number as a value. -/
def value : Number → Value
  | word w => .int w
  | float f => .float f

/-- The number that a value is. -/
def ofValue? : Value → Option Number
  | .int w => some (word w)
  | .float f => some (float f)
  | _ => none

theorem value_of_ofValue? {v : Value} (is : ofValue? v = some a) : v = a.value := by
  cases v <;> cases is <;> rfl

/-- The place of a number on the number line. There is none for a float that is not a number. -/
def place? : Number → Option Int
  | word w => some (wordPlace w)
  | float f => if f.isNaN then none else some f.place

@[simp] theorem place?_word {w : Int64} {p : Int} : (word w).place? = some p ↔ wordPlace w = p :=
  Option.some_inj

@[simp] theorem place?_float {f : Binary64} {p : Int} :
    (float f).place? = some p ↔ f.isNaN = false ∧ f.place = p := by
  rw [place?, Option.ite_none_left_eq_some, Bool.not_eq_true, Option.some_inj]

theorem isNaN_of_place? {f : Binary64} (missing : (float f).place? = none) : f.isNaN = true := by
  by_contra number
  exact absurd missing (Option.ne_none_iff_exists'.2 ⟨_, if_neg number⟩)

/-- One is a word and the other a float that is another number, but the one that the word becomes as
a float. -/
def Blurred : Number → Number → Prop
  | word w, float f => Blurs w f
  | float f, word w => Blurs w f
  | _, _ => False

/-- The order in which the operators see two numbers. -/
def order? : Number → Number → Option Ordering
  | word v, word w => some (compare v.toInt w.toInt)
  | word w, float f => compare? (ofWord w) f
  | float f, word w => compare? f (ofWord w)
  | float f, float g => compare? f g

/-- What comparing two numbers comes to. -/
def verdict (a b : Number) : BinaryOp → Bool
  | .equals => Value.atomEquals a.value b.value
  | op => (order? a b).any (Operation.accepts op)

/-- The operators say of two numbers what their order and their equality say. -/
theorem result_binary {op : BinaryOp} (compares : op.compares = true) (h : Heap) :
    (Operation.binary op a.value b.value).result h = (.ok (.bool (verdict a b op)), h) := by
  cases a <;> cases b <;> cases op <;> cases compares <;> rfl

/-- Numbers are equal that have the same place. -/
theorem verdict_equals :
    verdict a b .equals = true ↔ ∃ p, a.place? = some p ∧ b.place? = some p := by
  change Value.atomEquals a.value b.value = true ↔ _
  cases a <;> cases b
  case word.word v w =>
    simp only [value, Value.atomEquals, beq_iff_eq, place?_word, exists_eq_left', wordPlace_inj]
    exact eq_comm
  case word.float w f =>
    simp only [value, Value.atomEquals, beq_iff_eq, toWord?_iff_place, place?_word, place?_float,
      exists_eq_left']
  case float.word f w =>
    simp only [value, Value.atomEquals, beq_iff_eq, toWord?_iff_place, place?_word, place?_float,
      exists_eq_right']
  case float.float f g =>
    simp only [value, Value.atomEquals, equals_iff_place, place?_float]
    constructor
    · rintro ⟨first, second, same⟩
      exact ⟨_, ⟨first, rfl⟩, second, same.symm⟩
    · rintro ⟨_, ⟨first, rfl⟩, second, same⟩
      exact ⟨first, second, same.symm⟩

/-- What has no place is in no order with anything. -/
theorem order?_of_none (missing : a.place? = none ∨ b.place? = none) : order? a b = none := by
  cases a <;> cases b
  case word.word => simp [place?] at missing
  case word.float => exact compare?_of_isNaN (missing.imp nofun isNaN_of_place?)
  case float.word => exact compare?_of_isNaN (missing.imp isNaN_of_place? nofun)
  case float.float => exact compare?_of_isNaN (missing.imp isNaN_of_place? isNaN_of_place?)

/-- Numbers are in the order of their places, if neither blurs. -/
theorem order?_of_place {p q : Int} (first : a.place? = some p) (second : b.place? = some q)
    (sharp : ¬ Blurred a b) : order? a b = some (compare p q) := by
  cases a <;> cases b <;> simp only [place?_word, place?_float] at first second
  case word.word v w =>
    rw [← first, ← second]
    exact congrArg some (compare_congr wordPlace_lt.symm wordPlace_lt.symm)
  case word.float w f =>
    obtain ⟨number, rfl⟩ := second
    obtain ⟨below, above⟩ := rank_ofWord sharp
    rw [← first]
    exact (compare?_of_numbers (ofWord_between w).1 number).trans
      (congrArg some (compare_congr below above))
  case float.word f w =>
    obtain ⟨number, rfl⟩ := first
    obtain ⟨below, above⟩ := rank_ofWord sharp
    rw [← second]
    exact (compare?_of_numbers number (ofWord_between w).1).trans
      (congrArg some (compare_congr above below))
  case float.float f g =>
    obtain ⟨first, rfl⟩ := first
    obtain ⟨second, rfl⟩ := second
    exact (compare?_of_numbers first second).trans (congrArg some (compare_congr rank_lt rank_lt))

/-- Numbers that blur are different, but neither is above the other. -/
theorem blurred {p q : Int} (blurred : Blurred a b) (first : a.place? = some p)
    (second : b.place? = some q) : p ≠ q ∧ order? a b = some .eq := by
  cases a <;> cases b <;> simp only [place?_word, place?_float] at first second
  case word.word | float.float => cases blurred
  case word.float w f =>
    obtain ⟨differ, same⟩ := blurred
    obtain ⟨number, rfl⟩ := second
    rw [← first]
    refine ⟨differ, (compare?_of_numbers (ofWord_between w).1 number).trans ?_⟩
    rw [rank_inj.2 same, compare_eq_iff_eq.2 rfl]
  case float.word f w =>
    obtain ⟨differ, same⟩ := blurred
    obtain ⟨number, rfl⟩ := first
    rw [← second]
    refine ⟨differ.symm, (compare?_of_numbers number (ofWord_between w).1).trans ?_⟩
    rw [rank_inj.2 same, compare_eq_iff_eq.2 rfl]

/-- Without an order nothing holds, and without a place there is neither order nor equality. -/
theorem verdict_of_none (missing : a.place? = none ∨ b.place? = none) {op : BinaryOp}
    (compares : op.compares = true) : verdict a b op = false := by
  have unordered := order?_of_none missing
  have unequal : verdict a b .equals = false := by
    refine Bool.eq_false_iff.2 fun equal => ?_
    obtain ⟨p, first, second⟩ := verdict_equals.1 equal
    rw [first, second] at missing
    rcases missing with none | none <;> cases none
  cases op <;> cases compares
  case equals => exact unequal
  all_goals exact congrArg (Option.any _) unordered

/-- Of numbers that have an order, the operators say what the order says. -/
theorem verdict_of_order {order : Ordering} (ordered : order? a b = some order) :
    verdict a b .lessThan = (order == .lt) ∧ verdict a b .greaterThan = (order == .gt) ∧
    verdict a b .lessThanOrEqu = (order != .gt) ∧
    verdict a b .greaterThanOrEqu = (order != .lt) := by
  refine ⟨?_, ?_, ?_, ?_⟩ <;> exact congrArg (Option.any _) ordered

end Number

namespace Machine

variable {m : Machine} {op : BinaryOp} {a b : Number}

/-- The comparison of numbers that comes next. -/
def comparison? (m : Machine) : Option (BinaryOp × Number × Number) := do
  let (op, left, right) ← m.operation?
  if op.compares then return (op, ← Number.ofValue? left, ← Number.ofValue? right) else none

/-- A comparison puts the verdict in the place of the numbers. -/
theorem yields_of_comparison (next : m.comparison? = some (op, a, b)) :
    m.failure? = none ∧ m.Yields m.step 2 (.bool (Number.verdict a b op)) := by
  obtain ⟨⟨op', left, right⟩, found, next⟩ := Option.bind_eq_some_iff.1 next
  obtain ⟨compares, next⟩ := Option.ite_none_right_eq_some.1 next
  obtain ⟨a', is, next⟩ := Option.bind_eq_some_iff.1 next
  obtain ⟨b', is', next⟩ := Option.bind_eq_some_iff.1 next
  cases next
  rw [Number.value_of_ofValue? is, Number.value_of_ofValue? is'] at found
  refine yields_of_operation found ?_ (Number.result_binary compares m.heap)
  cases a <;> exact fun _ => nofun

/-- What becomes of the comparisons of two numbers. Without a place on the number line nothing holds
of a number. Otherwise numbers are equal that have the same place; exactly one of less, equal and
greater holds, and it is the one that holds of the places; and the operators that admit equality
hold where the others or equality do. The exceptions are a word and the float that it becomes,
where this is another number: none of less, equal and greater holds, and yet the operators that
admit equality do. -/
theorem compares_numbers (a b : Number) : ∃ verdict : BinaryOp → Bool,
    (∀ (m : Machine) op, m.comparison? = some (op, a, b) →
      m.failure? = none ∧ m.Yields m.step 2 (.bool (verdict op))) ∧
    (a.place? = none ∨ b.place? = none → ∀ op, op.compares = true → verdict op = false) ∧
    ∀ p q, a.place? = some p → b.place? = some q →
      (verdict .equals = true ↔ p = q) ∧
      (¬ Number.Blurred a b →
        (∃! op, op ∈ [.lessThan, .equals, .greaterThan] ∧ verdict op = true) ∧
        (verdict .lessThan = true ↔ p < q) ∧ (verdict .greaterThan = true ↔ q < p) ∧
        verdict .lessThanOrEqu = (verdict .lessThan || verdict .equals) ∧
        verdict .greaterThanOrEqu = (verdict .greaterThan || verdict .equals)) ∧
      (Number.Blurred a b →
        (∀ op ∈ [.lessThan, .equals, .greaterThan], verdict op = false) ∧
        verdict .lessThanOrEqu = true ∧ verdict .greaterThanOrEqu = true) := by
  refine ⟨Number.verdict a b, fun m op => yields_of_comparison, fun missing op =>
    Number.verdict_of_none missing, fun p q first second => ?_⟩
  have equal : Number.verdict a b .equals = true ↔ p = q := by
    rw [Number.verdict_equals, first, second]
    simp [eq_comm]
  refine ⟨equal, fun sharp => ?_, fun blurred => ?_⟩
  · obtain ⟨less, greater, atMost, atLeast⟩ :=
      Number.verdict_of_order (Number.order?_of_place first second sharp)
    have equal : Number.verdict a b .equals = (compare p q == .eq) := by
      rw [Bool.eq_iff_iff, equal, beq_iff_eq, compare_eq_iff_eq]
    refine ⟨BinaryOp.existsUnique_of_order less equal greater, ?_⟩
    rw [← compare_lt_iff_lt, ← compare_gt_iff_gt, atMost, atLeast, less, greater, equal]
    cases compare p q <;> decide
  · obtain ⟨differ, order⟩ := Number.blurred blurred first second
    obtain ⟨less, greater, atMost, atLeast⟩ := Number.verdict_of_order order
    have unequal : Number.verdict a b .equals = false :=
      Bool.eq_false_iff.2 fun same => differ (equal.1 same)
    refine ⟨?_, atMost, atLeast⟩
    simp only [List.mem_cons, List.not_mem_nil, or_false, forall_eq_or_imp, forall_eq]
    exact ⟨less, unequal, greater⟩

end Machine

/-- The machine of a host that calls a function with two numbers, where it compares them. -/
def comparisonMachine (op : BinaryOp) (a b : Number) : Machine :=
  operatorMachine op a.value b.value

/-- A word that no float equals. -/
def oddWord : Int64 := 9007199254740993

/-- The float that it becomes, which is less, and the float after it, which is greater. -/
def evenFloat : Binary64 := ⟨0x4340000000000000⟩
def nextFloat : Binary64 := ⟨0x4340000000000001⟩

/-- The word is less than the float after the one that it becomes. -/
theorem compares_numbers_sharp :
    let m := comparisonMachine .lessThan (.word oddWord) (.float nextFloat)
    m.failure? = none ∧ m.Yields m.step 2 (.bool true) := by
  intro m
  have next : m.comparison? = some (.lessThan, .word oddWord, .float nextFloat) := by
    decide +kernel
  have sharp : ¬ Blurs oddWord nextFloat := by decide +kernel
  have second : (Number.float nextFloat).place? = some nextFloat.place := by decide +kernel
  obtain ⟨verdict, yields, -, places⟩ :=
    Machine.compares_numbers (.word oddWord) (.float nextFloat)
  obtain ⟨-, less, -⟩ := (places _ _ rfl second).2.1 sharp
  rw [← less.2 (by decide +kernel)]
  exact yields m .lessThan next

/-- The word is neither less than the float that it becomes nor equal to it nor greater. -/
theorem compares_inconsistently :
    (Number.word oddWord).place? ≠ none ∧ (Number.float evenFloat).place? ≠ none ∧
    ∀ op ∈ [BinaryOp.lessThan, .equals, .greaterThan],
      let m := comparisonMachine op (.word oddWord) (.float evenFloat)
      m.comparison? = some (op, .word oddWord, .float evenFloat) ∧
        m.Yields m.step 2 (.bool false) := by
  refine ⟨nofun, by decide +kernel, fun op among => ?_⟩
  have next : (comparisonMachine op (.word oddWord) (.float evenFloat)).comparison?
      = some (op, .word oddWord, .float evenFloat) := by
    revert op
    decide +kernel
  have fails : Number.verdict (.word oddWord) (.float evenFloat) op = false := by
    revert op
    decide +kernel
  have yields := (Machine.yields_of_comparison next).2
  rw [fails] at yields
  exact ⟨next, yields⟩

end ScriptMachine
