import Mathlib.Algebra.Order.Field.Power
import Mathlib.Tactic.Linarith
import Mathlib.Tactic.NormNum
import Mathlib.Tactic.Positivity
import Mathlib.Tactic.Ring
import ScriptMachine.Number.Shortest
import ScriptMachine.Proofs.Value.Places

/-!
Shortest decimals. The digits that are chosen for a float stand for a number that rounds to it: the
search ends before its grids run out, since the finest one has more than one point in the interval
of the float. Intervals of different floats have no number in common, so the digits tell the float.
-/

namespace ScriptMachine.Decimal

/-! ## Values -/

/-- The number that a decimal stands for. -/
def Scaled.value (s : Scaled) : ℚ :=
  s.digits * 10 ^ s.exponent

/-- The number lies in an interval of a float with this exponent. -/
def Interval.Holds (i : Interval) (exponent : Int) (v : ℚ) : Prop :=
  if i.closed then i.low * 2 ^ (exponent - 2) ≤ v ∧ v ≤ i.high * 2 ^ (exponent - 2)
  else i.low * 2 ^ (exponent - 2) < v ∧ v < i.high * 2 ^ (exponent - 2)

theorem zpow_toNat (b : ℚ) (nonzero : b ≠ 0) (e : Int) :
    b ^ e * b ^ (-e).toNat = b ^ e.toNat := by
  rw [← zpow_natCast, ← zpow_natCast, ← zpow_add₀ nonzero]
  exact congrArg (b ^ ·) (by omega)

theorem den_pos (mantissa : Nat) (exponent place : Int) :
    0 < (ratioAt mantissa exponent place).den := by
  simp only [ratioAt, Nat.pow_eq]
  positivity

theorem num_eq (mantissa : Nat) (exponent place : Int) :
    ((ratioAt mantissa exponent place).num : ℚ) * 10 ^ place
      = mantissa * 2 ^ exponent * (ratioAt mantissa exponent place).den := by
  have two := zpow_toNat 2 (by norm_num) exponent
  have ten := zpow_toNat 10 (by norm_num) place
  simp only [ratioAt, Nat.pow_eq, Nat.cast_mul, Nat.cast_pow, Nat.cast_ofNat]
  rw [← two, ← ten]
  ring

/-- Comparing with a grid point is comparing with its value. -/
theorem num_le_iff {mantissa d : Nat} {exponent place : Int} :
    (ratioAt mantissa exponent place).num ≤ d * (ratioAt mantissa exponent place).den ↔
      mantissa * (2 : ℚ) ^ exponent ≤ d * 10 ^ place := by
  have den : (0 : ℚ) < (ratioAt mantissa exponent place).den :=
    Nat.cast_pos.2 (den_pos mantissa exponent place)
  have ten : (0 : ℚ) < 10 ^ place := by positivity
  rw [← mul_le_mul_iff_left₀ den, ← num_eq, mul_right_comm, mul_le_mul_iff_left₀ ten]
  exact_mod_cast Iff.rfl

theorem le_num_iff {mantissa d : Nat} {exponent place : Int} :
    d * (ratioAt mantissa exponent place).den ≤ (ratioAt mantissa exponent place).num ↔
      d * (10 : ℚ) ^ place ≤ mantissa * 2 ^ exponent := by
  have den : (0 : ℚ) < (ratioAt mantissa exponent place).den :=
    Nat.cast_pos.2 (den_pos mantissa exponent place)
  have ten : (0 : ℚ) < 10 ^ place := by positivity
  rw [← mul_le_mul_iff_left₀ den, ← num_eq, mul_right_comm, mul_le_mul_iff_left₀ ten]
  exact_mod_cast Iff.rfl

/-! ## Grid points -/

namespace Interval

variable {i : Interval} {exponent place : Int} {d : Nat}

/-- The test of the search, with one denominator for all three numbers. -/
theorem inside_iff : (if i.closed then
      decide ((ratioAt i.low (exponent - 2) place).num
        ≤ d * (ratioAt i.mid (exponent - 2) place).den) &&
      decide (d * (ratioAt i.mid (exponent - 2) place).den
        ≤ (ratioAt i.high (exponent - 2) place).num)
    else
      decide ((ratioAt i.low (exponent - 2) place).num
        < d * (ratioAt i.mid (exponent - 2) place).den) &&
      decide (d * (ratioAt i.mid (exponent - 2) place).den
        < (ratioAt i.high (exponent - 2) place).num)) = true ↔
    i.Holds exponent (d * 10 ^ place) := by
  unfold Holds
  split
  · rw [Bool.and_eq_true, decide_eq_true_eq, decide_eq_true_eq]
    exact and_congr (@num_le_iff i.low d _ _) (@le_num_iff i.high d _ _)
  · rw [Bool.and_eq_true, decide_eq_true_eq, decide_eq_true_eq, ← not_le, ← not_le, ← not_le,
      ← not_le]
    exact and_congr (not_congr (@le_num_iff i.low d _ _)) (not_congr (@num_le_iff i.high d _ _))

/-- A point that is found lies in the interval. If none is found, neither of the two around the
middle does. -/
theorem gridPoint?_cases (i : Interval) (exponent place : Int) :
    (∃ d, i.gridPoint? exponent place = some d ∧ i.Holds exponent (d * 10 ^ place)) ∨
      i.gridPoint? exponent place = none ∧ ∃ d : Nat,
        d * (10 : ℚ) ^ place ≤ i.mid * 2 ^ (exponent - 2) ∧
        i.mid * 2 ^ (exponent - 2) < (d + 1 : Nat) * (10 : ℚ) ^ place ∧
        ¬ i.Holds exponent (d * 10 ^ place) ∧
        ¬ i.Holds exponent ((d + 1 : Nat) * 10 ^ place) := by
  simp only [← inside_iff]
  unfold gridPoint?
  dsimp only
  split
  · next inside _ => exact .inl ⟨_, rfl, inside⟩
  · next _ inside => exact .inl ⟨_, rfl, inside⟩
  · next outside outside' =>
    refine .inr ⟨rfl, _, ?_, ?_, ne_true_of_eq_false outside, ne_true_of_eq_false outside'⟩
    · rw [← le_num_iff]
      exact Nat.div_mul_le_self _ _
    · rw [← not_le, ← le_num_iff, Nat.not_le]
      exact Nat.lt_mul_of_div_lt (Nat.lt_succ_self _) (den_pos _ _ _)
  · next inside inside' =>
    split
    · exact .inl ⟨_, rfl, inside⟩
    · split
      · exact .inl ⟨_, rfl, inside'⟩
      · split
        · exact .inl ⟨_, rfl, inside⟩
        · exact .inl ⟨_, rfl, inside'⟩

theorem gridPoint?_holds (found : i.gridPoint? exponent place = some d) :
    i.Holds exponent (d * 10 ^ place) := by
  obtain ⟨e, is, inside⟩ | ⟨is, -⟩ := i.gridPoint?_cases exponent place <;> rw [found] at is <;>
    cases is
  exact inside

/-- A grid that is finer than the interval is wide has a point in it next to the middle. -/
theorem exists_gridPoint (lower : i.low ≤ i.mid) (upper : i.mid < i.high)
    (fine : (10 : ℚ) ^ place < (i.high - i.low) * 2 ^ (exponent - 2)) :
    ∃ d, i.gridPoint? exponent place = some d := by
  obtain ⟨d, found, -⟩ | ⟨-, d, below, above, outside, outside'⟩ :=
    i.gridPoint?_cases exponent place
  · exact ⟨d, found⟩
  exfalso
  have low : (i.low : ℚ) * 2 ^ (exponent - 2) ≤ i.mid * 2 ^ (exponent - 2) := by gcongr
  have high : (i.mid : ℚ) * 2 ^ (exponent - 2) < i.high * 2 ^ (exponent - 2) := by gcongr
  rw [Nat.cast_succ, add_one_mul] at above outside'
  rw [sub_mul] at fine
  -- the points are beyond the ends of the interval, each on its side of the middle
  unfold Holds at outside outside'
  split at outside
  · rw [if_pos (by assumption)] at outside'
    have before : ¬ i.low * (2 : ℚ) ^ (exponent - 2) ≤ d * 10 ^ place := fun inside =>
      outside ⟨inside, by linarith⟩
    have beyond : ¬ (d * 10 ^ place + 10 ^ place : ℚ) ≤ i.high * 2 ^ (exponent - 2) := fun inside =>
      outside' ⟨by linarith, inside⟩
    linarith
  · rw [if_neg (by assumption)] at outside'
    have before : ¬ i.low * (2 : ℚ) ^ (exponent - 2) < d * 10 ^ place := fun inside =>
      outside ⟨inside, by linarith⟩
    have beyond : ¬ (d * 10 ^ place + 10 ^ place : ℚ) < i.high * 2 ^ (exponent - 2) := fun inside =>
      outside' ⟨by linarith, inside⟩
    linarith

/-- The search stops at the first grid with a point in the interval. -/
theorem coarsest_holds (i : Interval) (exponent : Int) {steps : Nat} (fuel : Nat) (place : Int)
    (soon : steps < fuel) (found : ∃ d, i.gridPoint? exponent (place - steps) = some d) :
    i.Holds exponent (i.coarsest exponent fuel place).value := by
  induction fuel generalizing steps place with
  | zero => exact absurd soon (Nat.not_lt_zero steps)
  | succ fuel ih =>
      rw [coarsest]
      split
      · next d found => exact gridPoint?_holds found
      · next missing =>
        cases steps with
        | zero =>
            rw [Int.natCast_zero, sub_zero, missing] at found
            obtain ⟨_, ⟨⟩⟩ := found
        | succ steps =>
            refine ih (place - 1) (Nat.lt_of_succ_lt_succ soon) ?_
            rwa [sub_sub, add_comm, ← Int.natCast_succ]

end Interval

theorem value_trim (fuel : Nat) (s : Scaled) : (s.trim fuel).value = s.value := by
  induction fuel generalizing s with
  | zero => rfl
  | succ fuel ih =>
      rw [Scaled.trim]
      split
      · next zeros =>
        have digits : s.digits = s.digits / 10 * 10 := by omega
        rw [ih, Scaled.value, Scaled.value, zpow_add_one₀ (by norm_num)]
        conv_rhs => rw [digits]
        push_cast
        ring
      · rfl

/-! ## The leading place -/

/-- A power of ten that is estimated from a power of two, less one place, does not exceed it. -/
theorem ten_zpow_le {k place : Int} (low : -1100 ≤ k) (high : k ≤ 1100)
    (estimate : place = (k * 30103).fdiv 100000 - 1) : (10 : ℚ) ^ place ≤ 2 ^ k := by
  rw [Int.fdiv_eq_ediv_of_nonneg _ (by decide)] at estimate
  obtain ⟨n, rfl | rfl⟩ := place.eq_nat_or_neg
  · obtain ⟨m, rfl⟩ := Int.eq_ofNat_of_zero_le (show 0 ≤ k by omega)
    have powers : (10 ^ n) ^ 31 ≤ (2 ^ m) ^ 31 := by
      calc (10 ^ n) ^ 31 = (10 ^ 31) ^ n := Nat.pow_right_comm 10 n 31
        _ ≤ (2 ^ 103) ^ n := Nat.pow_le_pow_left (by decide) n
        _ = 2 ^ (103 * n) := (Nat.pow_mul 2 103 n).symm
        _ ≤ 2 ^ (m * 31) := Nat.pow_le_pow_right (by decide) (by omega)
        _ = (2 ^ m) ^ 31 := Nat.pow_mul 2 m 31
    rw [zpow_natCast, zpow_natCast]
    exact_mod_cast (Nat.pow_le_pow_iff_left (by decide)).1 powers
  · obtain ⟨m, rfl | rfl⟩ := k.eq_nat_or_neg
    · exact (zpow_le_one_of_nonpos₀ (by norm_num) (by omega)).trans
        (one_le_zpow₀ (by norm_num) (by omega))
    · have powers : (2 ^ m) ^ 28 ≤ (10 ^ n) ^ 28 := by
        calc (2 ^ m) ^ 28 = 2 ^ (m * 28) := (Nat.pow_mul 2 m 28).symm
          _ ≤ 2 ^ (93 * n) := Nat.pow_le_pow_right (by decide) (by omega)
          _ = (2 ^ 93) ^ n := Nat.pow_mul 2 93 n
          _ ≤ (10 ^ 28) ^ n := Nat.pow_le_pow_left (by decide) n
          _ = (10 ^ n) ^ 28 := Nat.pow_right_comm 10 28 n
      rw [zpow_neg, zpow_neg, zpow_natCast, zpow_natCast]
      refine inv_anti₀ (by positivity) ?_
      exact_mod_cast (Nat.pow_le_pow_iff_left (by decide)).1 powers

/-- The leading digit is not taken too high. -/
theorem leadingPlace_le {mantissa : Nat} {exponent : Int} (positive : 0 < mantissa)
    (low : -1100 ≤ (mantissa.log2 : Int) + exponent)
    (high : (mantissa.log2 : Int) + exponent ≤ 1100) :
    (10 : ℚ) ^ leadingPlace mantissa exponent ≤ mantissa * 2 ^ exponent := by
  have reached {place : Int}
      (reaches : (ratioAt mantissa exponent place).den ≤ (ratioAt mantissa exponent place).num) :
      (10 : ℚ) ^ place ≤ mantissa * 2 ^ exponent := by
    rw [← Nat.one_mul (ratioAt mantissa exponent place).den, le_num_iff] at reaches
    rwa [Nat.cast_one, one_mul] at reaches
  unfold leadingPlace
  dsimp only
  split
  · next reaches => exact reached (of_decide_eq_true reaches)
  · split
    · next reaches => exact reached (of_decide_eq_true reaches)
    · refine (ten_zpow_le low high rfl).trans ?_
      rw [zpow_add₀ (by norm_num), zpow_natCast]
      gcongr
      exact_mod_cast Nat.log2_self_le (Nat.ne_of_gt positive)

theorem Interval.three_le_width {mantissa : Nat} (positive : 0 < mantissa) (exponent : Int) :
    let i := Interval.of mantissa exponent
    (3 : ℚ) ≤ i.high - i.low := by
  rw [Interval.of, le_sub_iff_add_le]
  norm_cast
  dsimp only
  split <;> omega

/-- The shortest digits stand for a number in the interval of the float. -/
theorem shortest_holds {mantissa : Nat} {exponent : Int} (positive : 0 < mantissa)
    (small : mantissa < 2 ^ 53) (low : -1074 ≤ exponent) (high : exponent ≤ 1000) :
    (Interval.of mantissa exponent).Holds exponent (shortest mantissa exponent).value := by
  have bits : mantissa.log2 < 53 := (Nat.log2_lt (Nat.ne_of_gt positive)).2 small
  have leading := @leadingPlace_le _ exponent positive (by omega) (by omega)
  rw [shortest, value_trim]
  refine @Interval.coarsest_holds _ _ 17 18 _ (by decide) ?_
  refine Interval.exists_gridPoint ?_ ?_ ?_
  · exact Nat.sub_le _ _
  · exact Nat.lt_add_of_pos_right (by decide)
  · have width := Interval.three_le_width positive exponent
    have unit : (0 : ℚ) < 2 ^ (exponent - 2) := by positivity
    have leading : (10 : ℚ) ^ leadingPlace mantissa exponent < 2 ^ 55 * 2 ^ (exponent - 2) := by
      refine leading.trans_lt ?_
      have split : (2 : ℚ) ^ exponent = 2 ^ 2 * 2 ^ (exponent - 2) := by
        rw [← zpow_natCast, ← zpow_add₀ (by norm_num)]
        exact congrArg _ (by omega)
      have below : (mantissa : ℚ) < 2 ^ 53 := by exact_mod_cast small
      rw [split]
      nlinarith only [below, unit]
    calc (10 : ℚ) ^ (leadingPlace mantissa exponent - (17 : Nat))
        = 10 ^ leadingPlace mantissa exponent / 10 ^ 17 := by
          rw [zpow_sub₀ (by norm_num), zpow_natCast]
      _ < 3 * 2 ^ (exponent - 2) := by
          rw [div_lt_iff₀ (by norm_num)]
          nlinarith only [leading, unit]
      _ ≤ _ := by gcongr

end ScriptMachine.Decimal

/-! ## Floats by their digits -/

namespace ScriptMachine.Binary64

open Decimal (Interval)

/-- The number is at least as near to the floats of a magnitude as to others, in quarters of the
least float. A number half way between two belongs to the one with an even mantissa. -/
def Rounds (magnitude : Nat) (v : ℚ) : Prop :=
  let low : ℚ := 2 * (distance (magnitude - 1) + distance magnitude : Nat)
  let high : ℚ := 2 * (distance magnitude + distance (magnitude + 1) : Nat)
  if magnitude % 2 = 0 then low ≤ v ∧ v ≤ high else low < v ∧ v < high

/-- A number rounds to one magnitude only. -/
theorem rounds_unique {m n : Nat} {v : ℚ} (first : Rounds m v) (second : Rounds n v) : m = n := by
  wlog less : m < n generalizing m n
  · rcases Nat.lt_trichotomy m n with before | same | after
    · exact absurd before less
    · exact same
    · exact (this second first after).symm
  exfalso
  have within : v ≤ 2 * (distance m + distance (m + 1) : Nat) := by
    unfold Rounds at first
    split at first
    · exact first.2
    · exact first.2.le
  have beyond : 2 * (distance (n - 1) + distance n : Nat) ≤ v := by
    unfold Rounds at second
    split at second
    · exact second.1
    · exact second.1.le
  have together : distance (n - 1) + distance n ≤ distance m + distance (m + 1) := by
    have bounds := beyond.trans within
    have cast : (distance (n - 1) + distance n : Nat) ≤ (distance m + distance (m + 1) : Nat) := by
      exact_mod_cast (mul_le_mul_iff_right₀ (by norm_num : (0 : ℚ) < 2)).1 bounds
    exact cast
  have next : n = m + 1 := by
    by_contra apart
    have first := distance_strictMono (show m < n - 1 by omega)
    have second := distance_strictMono (show m + 1 < n by omega)
    omega
  subst next
  -- of two neighbours, one has an odd mantissa and does not have the number half way
  rw [Nat.add_sub_cancel] at beyond
  unfold Rounds at first second
  rw [Nat.add_sub_cancel] at second
  rcases Nat.mod_two_eq_zero_or_one m with even | odd
  · rw [if_neg (by omega)] at second
    exact absurd second.1 (not_lt.2 within)
  · rw [if_neg (by omega)] at first
    exact absurd first.2 (not_lt.2 beyond)

theorem distance_eq {e m : Nat} (leading : 2 ^ 52 ≤ m ∨ e = 0) (small : m ≤ 2 ^ 53) :
    distance (e * 2 ^ 52 + m) = m * 2 ^ e := by
  by_cases normal : 2 ^ 52 ≤ m
  · exact distance_binade e normal small
  · obtain rfl := leading.resolve_left normal
    rw [Nat.zero_mul, Nat.zero_add, Nat.pow_zero, Nat.mul_one, distance_of_lt (by omega)]

/-- A finite float is taken apart into the last place and the mantissa of its magnitude. -/
theorem decode_magnitude {f : Binary64} (finite : f.magnitude < infiniteMagnitude) :
    ∃ mantissa e : Nat, f.decode = .finite f.isNegative mantissa ((e : Int) - digits) ∧
      f.magnitude = e * 2 ^ 52 + mantissa ∧ mantissa < 2 ^ 53 ∧ (2 ^ 52 ≤ mantissa ∨ e = 0) ∧
      e ≤ 2045 := by
  have infinite : infiniteMagnitude = 2047 * 2 ^ 52 := rfl
  unfold decode
  simp only [Nat.pow_eq]
  rw [if_neg (by omega)]
  by_cases tiny : f.magnitude / 2 ^ 52 = 0
  · rw [if_pos tiny]
    exact ⟨_, 0, congrArg _ (by unfold leastExponent digits; omega), by omega, by omega, .inr rfl,
      by omega⟩
  · rw [if_neg tiny]
    exact ⟨_, f.magnitude / 2 ^ 52 - 1, congrArg _ (by unfold digits; omega), by omega, by omega,
      .inl (by omega), by omega⟩

/-- The ends of the interval lie half way to the neighbours. -/
theorem interval_ends {magnitude e m : Nat} (is : magnitude = e * 2 ^ 52 + m) (positive : 0 < m)
    (leading : 2 ^ 52 ≤ m ∨ e = 0) (small : m < 2 ^ 53) :
    (Interval.of m ((e : Int) - digits)).low * 2 ^ e =
        2 * (distance (magnitude - 1) + distance magnitude) ∧
      (Interval.of m ((e : Int) - digits)).high * 2 ^ e =
        2 * (distance magnitude + distance (magnitude + 1)) := by
  have here := distance_eq leading small.le
  have above := distance_eq (leading.imp_left Nat.le_succ_of_le) (Nat.succ_le_of_lt small)
  rw [← is] at here
  rw [Nat.add_succ, ← is] at above
  refine ⟨?_, ?_⟩
  · by_cases first : m = 2 ^ 52 ∧ ((e : Int) - digits) ≠ -1074
    · -- the neighbour below has the greatest mantissa, at half the distance
      obtain ⟨rfl, inner⟩ := first
      obtain ⟨k, rfl⟩ : ∃ k, e = k + 1 := ⟨e - 1, by unfold digits at inner; omega⟩
      have below := @distance_eq k (2 ^ 53 - 1) (.inl (by decide)) (by decide)
      have previous : magnitude - 1 = k * 2 ^ 52 + (2 ^ 53 - 1) := by omega
      rw [previous, below, here, Interval.of, Nat.pow_eq, if_pos ⟨rfl, inner⟩, Nat.pow_succ]
      dsimp only
      omega
    · obtain ⟨n, rfl⟩ := Nat.exists_eq_add_of_le' positive
      have below := @distance_eq e n (by unfold digits at first; omega) (by omega)
      have previous : magnitude - 1 = e * 2 ^ 52 + n := by omega
      rw [previous, below, here, Interval.of, Nat.pow_eq, if_neg first]
      dsimp only
      rw [show 4 * (n + 1) - 2 = 2 * (n + (n + 1)) by omega]
      ring
  · rw [here, above, Interval.of, Nat.succ_eq_add_one]
    ring

/-- What lies in the interval of a mantissa rounds to its magnitude. -/
theorem rounds_of_holds {magnitude e m : Nat} {v : ℚ} (is : magnitude = e * 2 ^ 52 + m)
    (positive : 0 < m) (leading : 2 ^ 52 ≤ m ∨ e = 0) (small : m < 2 ^ 53)
    (inside : (Interval.of m ((e : Int) - digits)).Holds ((e : Int) - digits) v) :
    Rounds magnitude (v * 2 ^ 1076) := by
  obtain ⟨low, high⟩ := interval_ends is positive leading small
  have unit : (2 : ℚ) ^ ((e : Int) - digits - 2) * 2 ^ 1076 = 2 ^ e := by
    rw [← zpow_natCast, ← zpow_natCast, ← zpow_add₀ (by norm_num)]
    exact congrArg _ (by unfold digits; omega)
  have scaled {n k : Nat} (is : n * 2 ^ e = 2 * k) :
      2 * (k : ℚ) = n * 2 ^ ((e : Int) - digits - 2) * 2 ^ 1076 := by
    rw [mul_assoc, unit]
    exact_mod_cast is.symm
  have parity : magnitude % 2 = m % 2 := by omega
  unfold Interval.Holds at inside
  unfold Rounds
  rw [parity, scaled low, scaled high]
  by_cases even : m % 2 = 0
  · rw [if_pos (by rw [Interval.of, even]; rfl)] at inside
    rw [if_pos even]
    exact ⟨mul_le_mul_of_nonneg_right inside.1 (by positivity),
      mul_le_mul_of_nonneg_right inside.2 (by positivity)⟩
  · rw [if_neg (by rw [Interval.of]; simpa using even)] at inside
    rw [if_neg even]
    exact ⟨mul_lt_mul_of_pos_right inside.1 (by positivity),
      mul_lt_mul_of_pos_right inside.2 (by positivity)⟩

/-- Every float is not a number, infinite, or a mantissa with a last place. -/
theorem decode_cases (f : Binary64) :
    f.isNaN = true ∧ f.decode = .nan ∨
      f.magnitude = infiniteMagnitude ∧ f.decode = .infinite f.isNegative ∨
      ∃ mantissa e : Nat, f.decode = .finite f.isNegative mantissa ((e : Int) - digits) ∧
        f.magnitude = e * 2 ^ 52 + mantissa ∧ mantissa < 2 ^ 53 ∧ (2 ^ 52 ≤ mantissa ∨ e = 0) ∧
        e ≤ 2045 := by
  have infinite : infiniteMagnitude = 2047 * 2 ^ 52 := rfl
  have small : f.magnitude < 2 ^ 63 := Nat.mod_lt _ (Nat.two_pow_pos 63)
  rcases Nat.lt_or_ge f.magnitude infiniteMagnitude with finite | large
  · exact .inr (.inr (decode_magnitude finite))
  · unfold decode isNaN
    simp only [Nat.pow_eq]
    rw [if_pos (by omega)]
    by_cases number : f.magnitude % 2 ^ 52 = 0
    · rw [if_pos number]
      exact .inr (.inl ⟨by omega, rfl⟩)
    · rw [if_neg number]
      exact .inl ⟨decide_eq_true (by omega), rfl⟩

/-- The sign and the magnitude are all there is to a float. -/
theorem eq_of_magnitude {f g : Binary64} (sign : f.isNegative = g.isNegative)
    (magnitude : f.magnitude = g.magnitude) : f = g := by
  have first := f.bits.toNat_lt
  have second := g.bits.toNat_lt
  simp only [isNegative, Binary64.magnitude, Nat.pow_eq, decide_eq_decide] at sign magnitude
  exact congrArg Binary64.mk (UInt64.toNat_inj.1 (by omega))

theorem Rounds.pos {magnitude : Nat} {v : ℚ} (rounds : Rounds magnitude v)
    (positive : 0 < magnitude) : 0 < v := by
  have far : (0 : ℚ) < 2 * (distance (magnitude - 1) + distance magnitude : Nat) := by
    have here := distance_strictMono positive
    exact_mod_cast (show 0 < 2 * (distance (magnitude - 1) + distance magnitude) by omega)
  unfold Rounds at rounds
  split at rounds
  · exact far.trans_le rounds.1
  · exact far.trans rounds.1

/-- The number that the digits of a finite float stand for. -/
def shown (mantissa : Nat) (exponent : Int) : ℚ :=
  if mantissa = 0 then 0 else (Decimal.shortest mantissa exponent).value

/-- The digits of a float other than zero stand for a number that rounds to it. -/
theorem rounds_shown {f : Binary64} {s : Bool} {m : Nat} {e : Int}
    (decoded : f.decode = .finite s m e) :
    f.magnitude = 0 ∧ m = 0 ∨ 0 < f.magnitude ∧ Rounds f.magnitude (shown m e * 2 ^ 1076) := by
  obtain ⟨-, is⟩ | ⟨-, is⟩ | ⟨m, e, is, place, small, leading, high⟩ := f.decode_cases <;>
    rw [decoded] at is <;> cases is
  rcases Nat.eq_zero_or_pos m with rfl | positive
  · exact .inl ⟨by omega, rfl⟩
  · have inside := Decimal.shortest_holds positive small
      (show -1074 ≤ (e : Int) - digits by unfold digits; omega) (by unfold digits; omega)
    rw [shown, if_neg (Nat.ne_of_gt positive)]
    exact .inr ⟨by omega, rounds_of_holds place positive leading small inside⟩

/-- The digits tell the magnitude. -/
theorem magnitude_of_shown {f g : Binary64} {s t : Bool} {m n : Nat} {d e : Int}
    (first : f.decode = .finite s m d) (second : g.decode = .finite t n e)
    (same : shown m d = shown n e) : f.magnitude = g.magnitude := by
  have zero (e : Int) : shown 0 e * 2 ^ 1076 = 0 := by rw [shown, if_pos rfl, zero_mul]
  obtain ⟨none, rfl⟩ | ⟨positive, rounds⟩ := rounds_shown first <;>
    obtain ⟨none', rfl⟩ | ⟨positive', rounds'⟩ := rounds_shown second
  · rw [none, none']
  · have := rounds'.pos positive'
    rw [← same, zero] at this
    exact absurd this (lt_irrefl 0)
  · have := rounds.pos positive
    rw [same, zero] at this
    exact absurd this (lt_irrefl 0)
  · exact rounds_unique rounds (same ▸ rounds')

end ScriptMachine.Binary64
