import ScriptMachine.Proofs.Host.Operators

/-!
Shifts of words. A shift to the right halves as often as the count says and rounds down. A shift to
the left doubles as often, but keeps only what stays in the word: nothing is raised when digits or
the sign are lost. An overflow is raised for the count instead, from 64 places on, whatever the word
is. Counts that are negative or do not fit in 32 bits are refused as such.
-/

namespace ScriptMachine

open ScriptMachine.Action Operation

namespace Word

variable {a b : Int64}

/-- A count of less than 64 places is not reduced any further. -/
theorem toNat_smod_count (positive : 0 ≤ b.toInt) (small : b.toInt < 64) :
    (b.toBitVec.smod 64).toNat = b.toInt.toNat := by
  have whole : (b.toBitVec.smod 64).toInt = b.toInt := by
    rw [BitVec.toInt_smod]
    exact Int.fmod_eq_of_lt positive small
  have sign : (b.toBitVec.smod 64).msb = false := by
    rw [BitVec.msb_eq_toInt, whole]
    exact decide_eq_false (Int.not_lt.2 positive)
  rw [BitVec.toInt_eq_toNat_of_msb sign] at whole
  omega

/-- A shift to the left doubles, modulo the size of a word. -/
theorem toInt_shiftLeft (positive : 0 ≤ b.toInt) (small : b.toInt < 64) :
    (a <<< b).toInt = (a.toInt * 2 ^ b.toInt.toNat).bmod (2 ^ 64) := by
  change (a <<< b).toBitVec.toInt = _
  rw [Int64.toBitVec_shiftLeft, BitVec.shiftLeft_eq', toNat_smod_count positive small,
    BitVec.toInt_shiftLeft, Nat.shiftLeft_eq, Int.natCast_mul, Int.natCast_pow,
    ← Int.bmod_mul_bmod, ← BitVec.toInt_eq_toNat_bmod]
  rfl

/-- A shift to the right halves and rounds down. -/
theorem toInt_shiftRight (positive : 0 ≤ b.toInt) (small : b.toInt < 64) :
    (a >>> b).toInt = a.toInt / 2 ^ b.toInt.toNat := by
  change (a >>> b).toBitVec.toInt = _
  rw [Int64.toBitVec_shiftRight, BitVec.toInt_sshiftRight', toNat_smod_count positive small,
    Int.shiftRight_eq_div_pow, Int.natCast_pow]
  rfl

/-- Halving 64 times or more leaves only the sign. -/
theorem div_of_many {i : Int} (fits : Fits i) {n : Nat} (many : 64 ≤ n) :
    i / 2 ^ n = if i < 0 then -1 else 0 := by
  have large : 2 ^ 64 ≤ 2 ^ n := Nat.pow_le_pow_right Nat.two_pos many
  have power : (2 : Int) ^ n = (2 ^ n : Nat) := (Int.natCast_pow 2 n).symm
  unfold Fits least bound at fits
  rw [power]
  split
  · exact ((Int.ediv_emod_unique (r := i + (2 ^ n : Nat)) (by omega)).2 ⟨by omega, by omega, by omega⟩).1
  · exact Int.ediv_eq_zero_of_lt (by omega) (by omega)

end Word

/-- A shift of a word by a number of places. -/
inductive Shift where
  | left (a b : Int64)
  | right (a b : Int64)
deriving DecidableEq

namespace Shift

variable {s : Shift}

/-- The operator and its operands. -/
def operation : Shift → BinaryOp × Value × Value
  | left a b => (.leftShift, .int a, .int b)
  | right a b => (.rightShift, .int a, .int b)

/-- The shift that an operator stands for with these operands. -/
def ofOperation? : BinaryOp × Value × Value → Option Shift
  | (.leftShift, .int a, .int b) => some (left a b)
  | (.rightShift, .int a, .int b) => some (right a b)
  | _ => none

theorem operation_of_ofOperation? {o : BinaryOp × Value × Value} (is : ofOperation? o = some s) :
    o = s.operation := by
  unfold ofOperation? at is
  split at is <;> cases is <;> rfl

/-- The number of places. -/
def count : Shift → Int
  | left _ b => b.toInt
  | right _ b => b.toInt

/-- The result on the integers: the product with a power of two, or the quotient by it, rounded
down. -/
def result : Shift → Int
  | left a b => a.toInt * 2 ^ b.toInt.toNat
  | right a b => a.toInt / 2 ^ b.toInt.toNat

/-- The first number of places that is too many. -/
def limit : Shift → Int
  | left _ _ => 64
  | right _ _ => shiftBound

/-- What carrying out the shift gives. -/
def outcome : Shift → Except Fault Value
  | left a b => shiftLeft a b
  | right a b => shiftRight a b

theorem toInt_lt_zero {b : Int64} : b < 0 ↔ b.toInt < 0 :=
  Int64.lt_iff_toInt_lt

theorem le_toInt {b : Int64} : 64 ≤ b ↔ 64 ≤ b.toInt :=
  Int64.le_iff_toInt_le

/-- A count that is no number of places is refused. -/
theorem outcome_of_refused (refused : s.count < 0 ∨ shiftBound ≤ s.count) :
    s.outcome = .error .shiftCount := by
  cases s <;> exact if_pos (refused.imp_left toInt_lt_zero.2)

theorem outcome_of_limit (many : s.limit ≤ s.count) (few : s.count < shiftBound) :
    s.outcome = .error .overflow := by
  cases s with
  | left a b =>
      have many : 64 ≤ b.toInt := many
      have taken : ¬ (b < 0 ∨ shiftBound ≤ b.toInt) := by
        rw [toInt_lt_zero, not_or]
        exact ⟨by omega, Int.not_le.2 few⟩
      change shiftLeft a b = _
      rw [shiftLeft, if_neg taken, if_pos (le_toInt.2 many)]
  | right a b => exact absurd few (Int.not_lt.2 many)

/-- A quotient is a word. -/
theorem fits_right (a b : Int64) : Word.Fits (right a b).result := by
  have shrinks : (a.toInt / 2 ^ b.toInt.toNat).natAbs ≤ a.toInt.natAbs :=
    Int.natAbs_ediv_le_natAbs _ _
  have fits := Word.fits_toInt a
  have power : (0 : Int) < 2 ^ b.toInt.toNat := Int.pow_pos (by decide)
  have positive : 0 ≤ a.toInt → 0 ≤ a.toInt / 2 ^ b.toInt.toNat := fun positive =>
    Int.ediv_nonneg positive (Int.le_of_lt power)
  have negative : a.toInt < 0 → a.toInt / 2 ^ b.toInt.toNat < 0 := fun negative =>
    Int.ediv_neg_of_neg_of_pos negative power
  change Word.Fits (a.toInt / 2 ^ b.toInt.toNat)
  unfold Word.Fits Word.least Word.bound at *
  omega

/-- In all other cases there is a result, which is right modulo the size of a word. -/
theorem outcome_of_lt (positive : 0 ≤ s.count) (few : s.count < s.limit) :
    ∃ w : Int64, s.outcome = .ok (.int w) ∧ w.toInt = s.result.bmod (2 ^ 64) := by
  cases s with
  | left a b =>
      have positive : 0 ≤ b.toInt := positive
      have few : b.toInt < 64 := few
      have taken : ¬ (b < 0 ∨ shiftBound ≤ b.toInt) := by
        rw [toInt_lt_zero, not_or]
        exact ⟨Int.not_lt.2 positive, by unfold shiftBound; omega⟩
      refine ⟨a <<< b, ?_, Word.toInt_shiftLeft positive few⟩
      change shiftLeft a b = _
      rw [shiftLeft, if_neg taken, if_neg (mt le_toInt.1 (Int.not_le.2 few))]
  | right a b =>
      have positive : 0 ≤ b.toInt := positive
      have taken : ¬ (b < 0 ∨ shiftBound ≤ b.toInt) := by
        rw [toInt_lt_zero, not_or]
        exact ⟨Int.not_lt.2 positive, Int.not_le.2 few⟩
      have exact : (right a b).result.bmod (2 ^ 64) = (right a b).result := by
        have fits := fits_right a b
        unfold Word.Fits Word.least Word.bound at fits
        exact Int.bmod_eq_of_le (by omega) (by omega)
      rw [exact]
      change ∃ w : Int64, shiftRight a b = _ ∧ w.toInt = a.toInt / 2 ^ b.toInt.toNat
      rw [shiftRight, if_neg taken]
      by_cases many : 64 ≤ b.toInt
      · rw [if_pos (le_toInt.2 many), Word.div_of_many (Word.fits_toInt a) (by omega)]
        refine ⟨_, rfl, ?_⟩
        by_cases negative : a.toInt < 0
        · rw [if_pos (toInt_lt_zero.2 negative), if_pos negative]
          rfl
        · rw [if_neg (mt toInt_lt_zero.1 negative), if_neg negative]
          rfl
      · rw [if_neg (mt le_toInt.1 many)]
        exact ⟨a >>> b, rfl, Word.toInt_shiftRight positive (Int.not_le.1 many)⟩

end Shift

namespace Machine

variable {m : Machine} {s : Shift}

/-- The shift that comes next. -/
def shift? (m : Machine) : Option Shift :=
  m.operation?.bind Shift.ofOperation?

theorem operation?_of_shift? (next : m.shift? = some s) : m.operation? = some s.operation := by
  obtain ⟨o, found, is⟩ := Option.bind_eq_some_iff.1 next
  rw [found, Shift.operation_of_ofOperation? is]

theorem failure?_of_shift {cause : Fault} (next : m.shift? = some s)
    (failed : s.outcome = .error cause) : m.failure? = some cause.type := by
  have next := operation?_of_shift? next
  cases s with
  | left a b | right a b =>
      refine failure?_of_operation (h := m.heap) next (fun _ => nofun) ?_
      rw [← failed]
      exact Primitive.result_lift _ _

theorem yields_of_shift {v : Value} (next : m.shift? = some s) (given : s.outcome = .ok v) :
    m.failure? = none ∧ m.Yields m.step 2 v := by
  have next := operation?_of_shift? next
  cases s with
  | left a b | right a b =>
      refine yields_of_operation next (fun _ => nofun) ?_
      rw [← given]
      exact Primitive.result_lift _ _

/-- What becomes of a shift. A negative count raises a value error, and so does a count that does
not fit in 32 bits, and nothing else does. A shift to the left by a larger count than a word has
digits raises an overflow, and nothing else does. In all other cases the operands give way to the
result on the integers if it fits in a word, which that of a shift to the right always does, and
otherwise to what is left of it in a word. -/
theorem shifts_word (next : m.shift? = some s) :
    (m.failure? = some .valueError ↔ s.count < 0 ∨ shiftBound ≤ s.count) ∧
    (m.failure? = some .overflowError ↔ s.limit ≤ s.count ∧ s.count < shiftBound) ∧
    (∀ a b, s = .right a b → Word.Fits s.result) ∧
    (0 ≤ s.count → s.count < s.limit → m.failure? = none ∧ ∃ w : Int64,
      (Word.Fits s.result → w.toInt = s.result) ∧ w.toInt = s.result.bmod (2 ^ 64) ∧
      m.Yields m.step 2 (.int w)) := by
  have limited : 0 ≤ s.limit ∧ s.limit ≤ shiftBound := by
    cases s with
    | left a b => exact (by decide : (0 : Int) ≤ 64 ∧ (64 : Int) ≤ shiftBound)
    | right a b => exact (by decide : 0 ≤ shiftBound ∧ shiftBound ≤ shiftBound)
  have right : ∀ a b, s = .right a b → Word.Fits s.result := by
    rintro a b rfl
    exact Shift.fits_right a b
  by_cases refused : s.count < 0 ∨ shiftBound ≤ s.count
  · rw [failure?_of_shift next (Shift.outcome_of_refused refused)]
    exact ⟨⟨fun _ => refused, fun _ => rfl⟩, ⟨nofun, by omega⟩, right, by omega⟩
  by_cases many : s.limit ≤ s.count
  · rw [failure?_of_shift next (Shift.outcome_of_limit many (by omega))]
    exact ⟨⟨nofun, fun is => absurd is refused⟩, ⟨fun _ => ⟨many, by omega⟩, fun _ => rfl⟩, right,
      by omega⟩
  · obtain ⟨w, given, wrapped⟩ := Shift.outcome_of_lt (s := s) (by omega) (by omega)
    obtain ⟨fine, yields⟩ := yields_of_shift next given
    rw [fine]
    refine ⟨⟨nofun, fun is => absurd is refused⟩, ⟨nofun, by omega⟩, right, fun _ _ => ?_⟩
    refine ⟨rfl, w, fun fits => ?_, wrapped, yields⟩
    unfold Word.Fits Word.least Word.bound at fits
    rw [wrapped, Int.bmod_eq_of_le (by omega) (by omega)]

end Machine

/-- The machine of a host that calls a function with two words, where it shifts them. -/
def shiftMachine (op : BinaryOp) (a b : Int64) : Machine :=
  operatorMachine op (.int a) (.int b)

/-- The largest count that is taken leaves only the sign. -/
theorem shifts_word_negative : ∃ w : Int64, w.toInt = -1 ∧
    (shiftMachine .rightShift (-8) 4294967295).Yields
      (shiftMachine .rightShift (-8) 4294967295).step 2 (.int w) := by
  have next : (shiftMachine .rightShift (-8) 4294967295).shift?
      = some (.right (-8) 4294967295) := by decide +kernel
  have result : (Shift.right (-8) 4294967295).result = -1 :=
    Word.div_of_many (Word.fits_toInt _) (by decide)
  obtain ⟨-, -, fits, given⟩ := Machine.shifts_word next
  obtain ⟨-, w, exact, -, yields⟩ := given (by decide) (by decide)
  exact ⟨w, (exact (fits _ _ rfl)).trans result, yields⟩

/-- Doubling one 63 times gives the least word without complaint, doubling zero 64 times overflows,
and halving 2 ^ 32 times is refused as if the count were negative. -/
theorem shifts_inexactly :
    let doubling := shiftMachine .leftShift 1 63
    let keeping := shiftMachine .leftShift 0 64
    let halving := shiftMachine .rightShift 1 4294967296
    (doubling.shift? = some (.left 1 63) ∧ ¬ Word.Fits (Shift.left 1 63).result ∧
      doubling.failure? = none) ∧
    (keeping.shift? = some (.left 0 64) ∧ Word.Fits (Shift.left 0 64).result ∧
      keeping.failure? = some .overflowError) ∧
    (halving.shift? = some (.right 1 4294967296) ∧ 0 ≤ (Shift.right 1 4294967296).count ∧
      halving.failure? = some .valueError) := by
  decide +kernel

end ScriptMachine
