import Mathlib.Tactic.Ring
import ScriptMachine.Operation.Range
import ScriptMachine.Proofs.Value.Keys

/-!
Walks through built-in data. A walk moves an iterator on time after time, and it may find another
heap at each move, since programs go on between the moves. A progression visits its terms up to the
end and then answers no forever. The sum that its next move needs is taken exactly as long as
another term comes, so that a progression that runs into the last words neither wraps around nor
stops early.
-/

namespace ScriptMachine

namespace Iter

/-- The iterator after some moves, which find these heaps. -/
def after (heaps : Nat → Heap) (it : Iter) : Nat → Iter
  | 0 => it
  | n + 1 => ((it.after heaps n).moveNext (heaps n)).2

/-- What a walk answers at its move with this number. -/
def answer (heaps : Nat → Heap) (it : Iter) (n : Nat) : Bool :=
  ((it.after heaps n).moveNext (heaps n)).1

theorem after_succ (heaps : Nat → Heap) (it : Iter) (n : Nat) :
    it.after heaps (n + 1) = ((it.after heaps n).moveNext (heaps n)).2 :=
  rfl

theorem reset_moveNext (h : Heap) (it : Iter) : (it.moveNext h).2.reset = it.reset := by
  unfold moveNext
  split
  · split <;> rfl
  · split <;> rfl
  · split <;> rfl

/-- The start of a walk is never forgotten. -/
theorem reset_after (heaps : Nat → Heap) (it : Iter) (n : Nat) :
    (it.after heaps n).reset = it.reset := by
  induction n with
  | zero => rfl
  | succ n ih => rw [after_succ, reset_moveNext, ih]

end Iter

/-! ## Terms of a progression -/

namespace Progression

/-- A term of a progression, as an integer. -/
def term (first step : Int64) (k : Nat) : Int :=
  first.toInt + k * step.toInt

/-- An integer comes before the end in the direction of the step. -/
def Before (stop step : Int64) (i : Int) : Prop :=
  if 0 < step then i < stop.toInt else stop.toInt < i

instance (stop step : Int64) (i : Int) : Decidable (Before stop step i) :=
  inferInstanceAs (Decidable (if 0 < step then i < stop.toInt else stop.toInt < i))

/-- How far it is from the first term to the end in the direction of the step. -/
def distance (first stop step : Int64) : Int :=
  if 0 < step then stop.toInt - first.toInt else first.toInt - stop.toInt

/-- The number of terms before the end. -/
def count (first stop step : Int64) : Nat :=
  ((distance first stop step + (step.toInt.natAbs - 1)) / step.toInt.natAbs).toNat

variable {first stop step : Int64}

theorem toInt_pos : 0 < step ↔ 0 < step.toInt :=
  Int64.lt_iff_toInt_lt

theorem toInt_ne_zero (moves : step ≠ 0) : step.toInt ≠ 0 := fun zero =>
  moves (Int64.toInt_inj.1 zero)

theorem term_succ (first step : Int64) (k : Nat) :
    term first step (k + 1) = term first step k + step.toInt := by
  unfold term
  push_cast
  ring

theorem before_iff (k : Nat) :
    Before stop step (term first step k) ↔
      (k : Int) * step.toInt.natAbs < distance first stop step := by
  unfold Before distance term
  split_ifs with up
  · have positive := toInt_pos.1 up
    rw [Int.natAbs_of_nonneg positive.le]
    omega
  · have negative : step.toInt ≤ 0 := Int.not_lt.1 (mt toInt_pos.2 up)
    rw [Int.ofNat_natAbs_of_nonpos negative, Int.mul_neg]
    omega

/-- The terms before the end are the first ones, as many as are counted. -/
theorem lt_count_iff (moves : step ≠ 0) (k : Nat) :
    k < count first stop step ↔ Before stop step (term first step k) := by
  have size : (0 : Int) < step.toInt.natAbs :=
    Int.natCast_pos.2 (Int.natAbs_pos.2 (toInt_ne_zero moves))
  rw [before_iff, count, Int.lt_toNat, Int.lt_iff_add_one_le, Int.le_ediv_iff_mul_le size,
    Int.add_mul]
  omega

/-- A term before the end is a word, since the terms go from one word towards another. -/
theorem fits_of_before {k : Nat} (before : Before stop step (term first step k)) :
    Word.Fits (term first step k) := by
  have low := Word.fits_toInt first
  have high := Word.fits_toInt stop
  have progress : (0 : Int) ≤ k * step.toInt.natAbs := Int.natCast_nonneg (k * step.toInt.natAbs)
  unfold Before term at *
  unfold Word.Fits at *
  split_ifs at before with up
  · rw [Int.natAbs_of_nonneg (toInt_pos.1 up).le] at progress
    omega
  · have negative : step.toInt ≤ 0 := Int.not_lt.1 (mt toInt_pos.2 up)
    rw [Int.ofNat_natAbs_of_nonpos negative, Int.mul_neg] at progress
    omega

theorem inRange_iff {next : Int64} :
    Iter.inRange stop step next = true ↔ Before stop step next.toInt := by
  unfold Iter.inRange Before
  split_ifs <;> simp [Int64.lt_iff_toInt_lt]

/-- What a progression is to visit next after some moves: its next term, or the end if the next
term is no word. -/
def Awaits (first stop step : Int64) (k : Nat) (next : Int64) : Prop :=
  next.toInt = term first step k ∨ ¬ Word.Fits (term first step k) ∧ next = stop

theorem not_before_stop : ¬ Before stop step stop.toInt := by
  unfold Before
  split_ifs <;> exact Int.lt_irrefl _

theorem Awaits.inRange {k : Nat} {next : Int64} (awaits : Awaits first stop step k next) :
    Iter.inRange stop step next = true ↔ Before stop step (term first step k) := by
  rw [inRange_iff]
  rcases awaits with exact | ⟨beyond, rfl⟩
  · rw [exact]
  · exact ⟨fun before => absurd before not_before_stop,
      fun before => absurd (fits_of_before before) beyond⟩

theorem Awaits.exact {k : Nat} {next : Int64} (awaits : Awaits first stop step k next)
    (before : Before stop step (term first step k)) : next.toInt = term first step k :=
  awaits.resolve_right fun beyond => beyond.1 (fits_of_before before)

/-- The sum for the next move, or the end in its place. -/
theorem Awaits.succ {k : Nat} {next : Int64} (exact : next.toInt = term first step k) :
    Awaits first stop step (k + 1) ((Word.ofInt? (next.toInt + step.toInt)).getD stop) := by
  rw [exact, ← term_succ]
  cases sum : Word.ofInt? (term first step (k + 1)) with
  | some w => exact .inl (Word.toInt_of_ofInt? sum)
  | none => exact .inr ⟨Word.ofInt?_eq_none.1 sum, rfl⟩

/-- A move onto a term. -/
theorem Awaits.moves {k : Nat} {next : Int64} (awaits : Awaits first stop step k next)
    (before : Before stop step (term first step k)) (h : Heap) (item : Value) :
    ∃ later, Awaits first stop step (k + 1) later ∧
      (Iter.range first stop step next item).moveNext h =
        (true, .range first stop step later (.int next)) :=
  ⟨_, .succ (awaits.exact before), if_pos (awaits.inRange.2 before)⟩

/-- A move at the end changes nothing. -/
theorem Awaits.stays {k : Nat} {next : Int64} (awaits : Awaits first stop step k next)
    (done : ¬ Before stop step (term first step k)) (h : Heap) (item : Value) :
    (Iter.range first stop step next item).moveNext h =
      (false, .range first stop step next item) :=
  if_neg (mt awaits.inRange.1 done)

/-- What a walk shows when it has visited some terms: null, or the last of them. -/
def Shows (first step : Int64) (k : Nat) (item : Value) : Prop :=
  match k with
  | 0 => item = .null
  | k + 1 => ∃ w, w.toInt = term first step k ∧ item = .int w

/-- A walk that has visited some terms. -/
def Visited (first stop step : Int64) (k : Nat) (it : Iter) : Prop :=
  ∃ next item, it = .range first stop step next item ∧ Awaits first stop step k next ∧
    Shows first step k item

/-- A walk has visited as many terms as it made moves, and at most all of them. -/
theorem visited_after (moves : step ≠ 0) (heaps : Nat → Heap) (n : Nat) :
    Visited first stop step (min n (count first stop step))
      ((Iter.overRange first stop step).after heaps n) := by
  induction n with
  | zero =>
      refine ⟨first, .null, rfl, .inl ?_, ?_⟩
      · simp [term]
      · simp [Shows]
  | succ n ih =>
      obtain ⟨next, item, place, awaits, shows⟩ := ih
      rw [Iter.after_succ, place]
      by_cases more : n < count first stop step
      · rw [Nat.min_eq_left more.le] at awaits shows
        rw [Nat.min_eq_left more]
        have before := (lt_count_iff moves n).1 more
        obtain ⟨later, awaited, moved⟩ := awaits.moves before (heaps n) item
        exact ⟨later, .int next, by rw [moved], awaited, next, awaits.exact before, rfl⟩
      · rw [Nat.min_eq_right (by omega)] at awaits shows ⊢
        have done := mt (lt_count_iff moves _).2 (Nat.lt_irrefl (count first stop step))
        exact ⟨next, item, by rw [awaits.stays done], awaits, shows⟩

/-- A progression visits exactly its terms before the end, in order, whatever happens to the heap
meanwhile. Its moves onto a term answer yes and all later ones no. The next term is always found
exactly; only where no word holds it, and then no term is left, does the end stand in for it. The
iterator shows the term visited last, and a reset at any time starts the same walk. -/
theorem progression_visits_terms (first stop step : Int64) (moves : step ≠ 0) :
    ∃ it count, Operation.rangeOf [first, stop, step] = .ok it ∧
      (∀ k, k < count ↔ Before stop step (term first step k)) ∧
      ∀ heaps : Nat → Heap,
        (∀ n, it.answer heaps n = decide (n < count)) ∧
        (∀ n, ∃ next, Shows first step (min n count) (it.after heaps n).current ∧
          it.after heaps n = .range first stop step next (it.after heaps n).current ∧
          (next.toInt = term first step (min n count) ∨
            count ≤ n ∧ ¬ Word.Fits (term first step count) ∧ next = stop)) ∧
        ∀ n, (it.after heaps n).reset = it := by
  refine ⟨.overRange first stop step, count first stop step, if_neg moves, lt_count_iff moves, ?_⟩
  intro heaps
  refine ⟨fun n => ?_, fun n => ?_, fun n => Iter.reset_after heaps _ n⟩
  · obtain ⟨next, item, place, awaits, -⟩ := visited_after moves heaps n
    rw [Iter.answer, place]
    by_cases more : n < count first stop step
    · rw [Nat.min_eq_left more.le] at awaits
      obtain ⟨later, -, moved⟩ := awaits.moves ((lt_count_iff moves n).1 more) (heaps n) item
      rw [moved, decide_eq_true more]
    · rw [Nat.min_eq_right (by omega)] at awaits
      have done := mt (lt_count_iff moves _).2 (Nat.lt_irrefl (count first stop step))
      rw [awaits.stays done, decide_eq_false more]
  · obtain ⟨next, item, place, awaits, shows⟩ := visited_after moves heaps n
    rw [place]
    refine ⟨next, shows, rfl, ?_⟩
    rcases awaits with exact | ⟨beyond, ended⟩
    · exact .inl exact
    · -- a term that is no word is not before the end
      have done : count first stop step ≤ n := by
        by_contra more
        rw [Nat.min_eq_left (by omega)] at beyond
        exact beyond (fits_of_before ((lt_count_iff moves n).1 (Nat.not_le.1 more)))
      rw [Nat.min_eq_right done] at beyond
      exact .inr ⟨done, beyond, ended⟩

/-- By twos from 9223372036854775804, the fourth word from above, to 9223372036854775807, the
greatest word. The sum for a third term is too great for a word, and there is none. -/
theorem progression_visits_terms_greatest :
    ∃ it, Operation.rangeOf [9223372036854775804, 9223372036854775807, 2] = .ok it ∧
      ∀ heaps, it.answer heaps 0 = true ∧ it.answer heaps 1 = true ∧
        ∀ n, 2 ≤ n → it.answer heaps n = false := by
  obtain ⟨it, count, made, terms, walk⟩ :=
    progression_visits_terms 9223372036854775804 9223372036854775807 2 (by decide)
  have two : count = 2 := by
    have second := (terms 1).2 (by decide)
    have third := mt (terms 2).1 (by decide)
    omega
  subst two
  refine ⟨it, made, fun heaps => ?_⟩
  obtain ⟨answers, -, -⟩ := walk heaps
  exact ⟨answers 0, answers 1, fun n late => (answers n).trans (decide_eq_false (by omega))⟩

end Progression
end ScriptMachine
