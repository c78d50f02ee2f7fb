import Mathlib.Order.Monotone.Basic
import ScriptMachine.Proofs.Value.Keys

/-!
Places of numbers on the number line, counted in the smallest float there is, so that every word and
every float has a whole place. Floats are in the order of their places. A word that is turned into a
float may move, since floats leave gaps, but it never moves past a float.
-/

namespace ScriptMachine

/-! ## Rounding -/

/-- Rounding does not go below a natural number that the quotient reaches. -/
theorem le_roundDiv {q num den : Nat} (positive : 0 < den) (reached : q * den ≤ num) :
    q ≤ roundDiv num den := by
  have down : q ≤ num / den := (Nat.le_div_iff_mul_le positive).2 reached
  unfold roundDiv
  dsimp only
  split_ifs <;> omega

/-- Rounding does not go above a natural number that the quotient does not exceed. -/
theorem roundDiv_le {q num den : Nat} (positive : 0 < den) (covered : num ≤ q * den) :
    roundDiv num den ≤ q := by
  have parts := Nat.div_add_mod' num den
  have down : num / den ≤ q := Nat.div_le_of_le_mul (Nat.mul_comm q den ▸ covered)
  unfold roundDiv
  dsimp only
  rcases Nat.eq_or_lt_of_le down with exact | below
  · -- the quotient is this number, and nothing is left over
    rw [exact] at parts ⊢
    rw [if_pos (by omega)]
  · split_ifs <;> omega

theorem roundDiv_scale (num den : Nat) {c : Nat} (positive : 0 < c) :
    roundDiv (num * c) (den * c) = roundDiv num den := by
  unfold roundDiv
  simp only [Nat.mul_div_mul_right _ _ positive, Nat.mul_mod_mul_right, ← Nat.mul_assoc,
    Nat.mul_lt_mul_right positive]

theorem Word.ofInt?_eq_some {i : Int} {w : Int64} : ofInt? i = some w ↔ i = w.toInt := by
  refine ⟨fun fits => (toInt_of_ofInt? fits).symm, ?_⟩
  rintro rfl
  unfold ofInt?
  rw [if_pos ⟨Int64.le_toInt w, Int64.toInt_lt w⟩, Int64.ofInt_toInt]

namespace Binary64

/-! ## Magnitudes -/

/-- The distance from zero of the floats with a magnitude. -/
def distance (magnitude : Nat) : Nat :=
  if magnitude / 2 ^ 52 = 0 then magnitude
  else (2 ^ 52 + magnitude % 2 ^ 52) * 2 ^ (magnitude / 2 ^ 52 - 1)

theorem distance_of_lt {magnitude : Nat} (small : magnitude < 2 ^ 52) :
    distance magnitude = magnitude :=
  if_pos (Nat.div_eq_of_lt small)

/-- Floats whose mantissas have their leading digit at the same place are evenly spaced, up to the
next power of two. -/
theorem distance_binade (e : Nat) {m : Nat} (normal : 2 ^ 52 ≤ m) (small : m ≤ 2 ^ 53) :
    distance (e * 2 ^ 52 + m) = m * 2 ^ e := by
  unfold distance
  rcases Nat.lt_or_eq_of_le small with below | rfl
  · have quotient : (e * 2 ^ 52 + m) / 2 ^ 52 = e + 1 := by omega
    have rest : (e * 2 ^ 52 + m) % 2 ^ 52 = m - 2 ^ 52 := by omega
    rw [quotient, rest, if_neg (Nat.succ_ne_zero e), Nat.add_sub_cancel, Nat.add_sub_cancel' normal]
  · have quotient : (e * 2 ^ 52 + 2 ^ 53) / 2 ^ 52 = e + 2 := by omega
    have rest : (e * 2 ^ 52 + 2 ^ 53) % 2 ^ 52 = 0 := by omega
    rw [quotient, rest, if_neg (Nat.succ_ne_zero _), Nat.add_zero, ← Nat.pow_add, ← Nat.pow_add]
    exact congrArg (2 ^ ·) (by omega)

theorem exists_binade {magnitude : Nat} (normal : 2 ^ 52 ≤ magnitude) :
    ∃ e m, magnitude = e * 2 ^ 52 + m ∧ 2 ^ 52 ≤ m ∧ m < 2 ^ 53 :=
  ⟨magnitude / 2 ^ 52 - 1, magnitude - (magnitude / 2 ^ 52 - 1) * 2 ^ 52, by omega, by omega,
    by omega⟩

/-- Greater magnitudes are farther from zero. -/
theorem distance_strictMono : StrictMono distance := by
  refine strictMono_nat_of_lt_succ fun magnitude => ?_
  rcases Nat.lt_or_ge magnitude (2 ^ 52) with small | normal
  · rw [distance_of_lt small]
    rcases Nat.lt_or_eq_of_le (Nat.succ_le_of_lt small) with below | last
    · rw [distance_of_lt below]
      exact Nat.lt_succ_self magnitude
    · have next := distance_binade 0 (Nat.le_refl (2 ^ 52)) (by decide)
      rw [Nat.zero_mul, Nat.zero_add] at next
      rw [← Nat.succ_eq_add_one, last, next]
      omega
  · obtain ⟨e, m, rfl, leading, small⟩ := exists_binade normal
    rw [distance_binade e leading (Nat.le_of_lt small), Nat.add_assoc,
      distance_binade e (Nat.le_succ_of_le leading) small]
    exact Nat.mul_lt_mul_of_pos_right (Nat.lt_succ_self m) (Nat.two_pow_pos e)

@[simp] theorem distance_eq_zero {magnitude : Nat} : distance magnitude = 0 ↔ magnitude = 0 :=
  distance_strictMono.injective.eq_iff' rfl

/-! ## Places -/

/-- How many binary digits a float may have after the point. -/
def digits : Nat := 1074

/-- The place of one on the number line. -/
def one : Nat := 2 ^ digits

theorem one_pos : 0 < one := Nat.two_pow_pos digits

/-- The place of a float on the number line. An infinity stands where the next float would. -/
def place (f : Binary64) : Int :=
  signed f.isNegative (distance f.magnitude)

/-- The place of a word on the number line. -/
def wordPlace (w : Int64) : Int :=
  w.toInt * one

theorem signed_mul (s : Bool) (n c : Nat) : signed s (n * c) = signed s n * c := by
  cases s
  · exact Int.natCast_mul n c
  · change -((n * c : Nat) : Int) = -(n : Int) * c
    rw [Int.natCast_mul, Int.neg_mul]

theorem natAbs_signed (s : Bool) (n : Nat) : (signed s n).natAbs = n := by
  unfold signed
  split <;> omega

theorem wordPlace_eq (w : Int64) :
    wordPlace w = signed (decide (w < 0)) (w.toInt.natAbs * one) := by
  have sign : w < 0 ↔ w.toInt < 0 := Int64.lt_iff_toInt_lt
  have size : signed (decide (w < 0)) w.toInt.natAbs = w.toInt := by
    unfold signed
    simp only [decide_eq_true_eq, sign]
    split <;> omega
  rw [signed_mul, size, wordPlace]

theorem wordPlace_lt {v w : Int64} : wordPlace v < wordPlace w ↔ v.toInt < w.toInt :=
  Int.mul_lt_mul_right (Int.natCast_pos.2 one_pos)

theorem wordPlace_inj {v w : Int64} : wordPlace v = wordPlace w ↔ v = w := by
  unfold wordPlace
  rw [Int.mul_eq_mul_right_iff (Int.natCast_ne_zero.2 (Nat.ne_of_gt one_pos)), Int64.toInt_inj]

/-- What keeps the order of distances from zero keeps the order of places. -/
theorem signed_mono {s t : Bool} {x y u v : Nat} (up : x ≤ y → u ≤ v) (down : y ≤ x → v ≤ u)
    (first : x = 0 → u = 0) (second : y = 0 → v = 0) (below : signed s x ≤ signed t y) :
    signed s u ≤ signed t v := by
  unfold signed at *
  cases s <;> cases t <;> simp only [Bool.false_eq_true, if_true, if_false] at * <;> omega

/-- Floats are in the order of their places. -/
theorem rank_le {f g : Binary64} : f.rank ≤ g.rank ↔ f.place ≤ g.place :=
  ⟨signed_mono distance_strictMono.le_iff_le.2 distance_strictMono.le_iff_le.2
      distance_eq_zero.2 distance_eq_zero.2,
    signed_mono distance_strictMono.le_iff_le.1 distance_strictMono.le_iff_le.1
      distance_eq_zero.1 distance_eq_zero.1⟩

theorem rank_lt {f g : Binary64} : f.rank < g.rank ↔ f.place < g.place := by
  rw [← Int.not_le, ← Int.not_le, rank_le]

theorem rank_inj {f g : Binary64} : f.rank = g.rank ↔ f.place = g.place := by
  rw [Int.le_antisymm_iff, Int.le_antisymm_iff, rank_le, rank_le]

/-! ## Words as floats -/

theorem magnitude_ofMagnitude (s : Bool) {n : Nat} (small : n < 2 ^ 63) :
    (ofMagnitude s n).magnitude = n ∧ (ofMagnitude s n).isNegative = s := by
  have whole : (ofMagnitude s n).bits.toNat = (if s then 2 ^ 63 else 0) + n := by
    refine UInt64.toNat_ofNat_of_lt' ?_
    change (if s then 2 ^ 63 else 0) + n < 2 ^ 64
    split <;> omega
  unfold magnitude isNegative
  rw [whole]
  cases s <;> simp <;> omega

/-- Turning a number that is small enough into a float rounds it within the powers of two around
it. -/
theorem nearest_eq {n : Nat} (positive : 0 < n) (small : n < 2 ^ 64) (s : Bool) :
    ∃ e, 2 ^ 52 * 2 ^ e ≤ n * one ∧ n * one ≤ 2 ^ 53 * 2 ^ e ∧
      nearest s n 1 = ofMagnitude s (e * 2 ^ 52 + roundDiv (n * one) (2 ^ e)) ∧
      e * 2 ^ 52 + 2 ^ 53 < infiniteMagnitude := by
  have least : 2 ^ n.log2 ≤ n := Nat.log2_self_le (Nat.ne_of_gt positive)
  have large : n < 2 ^ (n.log2 + 1) := Nat.lt_log2_self
  have few : n.log2 < 64 := (Nat.log2_lt (Nat.ne_of_gt positive)).2 small
  have leading : leadingBit n 1 = n.log2 := by
    have zero : Nat.log2 1 = 0 := by decide
    unfold leadingBit
    simp only [zero, Nat.pow_eq]
    rw [if_pos (by simpa using least)]
    omega
  generalize n.log2 = k at *
  have lower : 2 ^ 52 * 2 ^ (k + 1022) = 2 ^ k * one := by
    rw [one, ← Nat.pow_add, ← Nat.pow_add]
    exact congrArg (2 ^ ·) (by unfold digits; omega)
  have upper : 2 ^ 53 * 2 ^ (k + 1022) = 2 ^ (k + 1) * one := by
    rw [one, ← Nat.pow_add, ← Nat.pow_add]
    exact congrArg (2 ^ ·) (by unfold digits; omega)
  have bounds : 2 ^ 52 * 2 ^ (k + 1022) ≤ n * one ∧ n * one ≤ 2 ^ 53 * 2 ^ (k + 1022) := by
    rw [lower, upper]
    exact ⟨Nat.mul_le_mul_right one least, Nat.mul_le_mul_right one (Nat.le_of_lt large)⟩
  have finite : (k + 1022) * 2 ^ 52 + 2 ^ 53 < infiniteMagnitude := by
    have infinite : infiniteMagnitude = 2047 * 2 ^ 52 := rfl
    omega
  have rounded := roundDiv_le (Nat.two_pow_pos _) bounds.2
  refine ⟨k + 1022, bounds.1, bounds.2, ?_, finite⟩
  -- the last place of the mantissa, and what both sides of its quotient are scaled by
  have last : ¬ ((k : Int) - 52 < leastExponent) := by
    unfold leastExponent
    omega
  have exponent : ((k : Int) - 52 - leastExponent).toNat = k + 1022 := by
    unfold leastExponent
    omega
  have mantissa : roundDiv (n * 2 ^ (-((k : Int) - 52)).toNat) (1 * 2 ^ ((k : Int) - 52).toNat)
      = roundDiv (n * one) (2 ^ (k + 1022)) := by
    have num : (-((k : Int) - 52)).toNat + (digits - (-((k : Int) - 52)).toNat) = digits := by
      unfold digits
      omega
    have den : ((k : Int) - 52).toNat + (digits - (-((k : Int) - 52)).toNat) = k + 1022 := by
      unfold digits
      omega
    rw [← roundDiv_scale _ _ (Nat.two_pow_pos (digits - (-((k : Int) - 52)).toNat)), Nat.one_mul,
      Nat.mul_assoc, ← Nat.pow_add, ← Nat.pow_add, num, den, one]
  unfold nearest
  simp only [Nat.pow_eq]
  rw [if_neg (Nat.ne_of_gt positive), leading, if_neg last, exponent, mantissa, if_pos (by omega)]

/-- A number that is turned into a float does not move past a float. -/
theorem nearest_between {n : Nat} (small : n < 2 ^ 64) (s : Bool) : ∃ magnitude,
    (nearest s n 1).magnitude = magnitude ∧ (nearest s n 1).isNegative = s ∧
    (n = 0 → magnitude = 0) ∧
    (∀ other, n * one ≤ distance other → magnitude ≤ other) ∧
    (∀ other, distance other ≤ n * one → other ≤ magnitude) := by
  rcases Nat.eq_zero_or_pos n with rfl | positive
  · obtain ⟨magnitude, sign⟩ := magnitude_ofMagnitude s (show 0 < 2 ^ 63 by decide)
    refine ⟨0, magnitude, sign, fun _ => rfl, fun _ _ => Nat.zero_le _, fun other below => ?_⟩
    rw [Nat.zero_mul, Nat.le_zero, distance_eq_zero] at below
    exact Nat.le_of_eq below
  obtain ⟨e, lower, upper, same, finite⟩ := nearest_eq positive small s
  have leading := le_roundDiv (Nat.two_pow_pos e) lower
  have covered := roundDiv_le (Nat.two_pow_pos e) upper
  have infinite : infiniteMagnitude < 2 ^ 63 := by decide
  obtain ⟨magnitude, sign⟩ := magnitude_ofMagnitude s
    (n := e * 2 ^ 52 + roundDiv (n * one) (2 ^ e)) (by omega)
  rw [← same] at magnitude sign
  refine ⟨_, magnitude, sign, fun zero => absurd zero (Nat.ne_of_gt positive), ?_, ?_⟩
  · intro other far
    by_contra! less
    -- what is as far out as the number has a mantissa that rounding does not exceed
    have normal : e * 2 ^ 52 + 2 ^ 52 ≤ other := by
      rw [← distance_strictMono.le_iff_le, distance_binade e (Nat.le_refl _) (by decide)]
      exact Nat.le_trans lower far
    obtain ⟨m, rfl⟩ := Nat.exists_eq_add_of_le (Nat.le_of_add_right_le normal)
    rw [distance_binade e (by omega) (by omega)] at far
    have := roundDiv_le (Nat.two_pow_pos e) far
    omega
  · intro other near
    by_contra! more
    have last : other ≤ e * 2 ^ 52 + 2 ^ 53 := by
      rw [← distance_strictMono.le_iff_le, distance_binade e (by decide) (Nat.le_refl _)]
      exact Nat.le_trans near upper
    obtain ⟨m, rfl⟩ := Nat.exists_eq_add_of_le (show e * 2 ^ 52 ≤ other by omega)
    rw [distance_binade e (by omega) (by omega)] at near
    have := le_roundDiv (Nat.two_pow_pos e) near
    omega

/-- Every word is nearer than the infinities. -/
theorem word_within (w : Int64) : w.toInt.natAbs * one < distance infiniteMagnitude := by
  have least := Int64.le_toInt w
  have bound := Int64.toInt_lt w
  have within : w.toInt.natAbs * one < 2 ^ 64 * one :=
    Nat.mul_lt_mul_of_pos_right (by omega) one_pos
  refine Nat.lt_of_lt_of_le within ?_
  obtain ⟨e, is⟩ : ∃ e, e = 2046 := ⟨_, rfl⟩
  have last : infiniteMagnitude = e * 2 ^ 52 + 2 ^ 52 := is ▸ rfl
  rw [last, distance_binade e (Nat.le_refl _) (by decide), one, ← Nat.pow_add, ← Nat.pow_add]
  exact Nat.pow_le_pow_right Nat.two_pos (by unfold digits; omega)

/-- A word that is turned into a float is a number and does not move past a float. -/
theorem ofWord_between (w : Int64) : (ofWord w).isNaN = false ∧ ∀ f : Binary64,
    (wordPlace w ≤ f.place → (ofWord w).place ≤ f.place) ∧
    (f.place ≤ wordPlace w → f.place ≤ (ofWord w).place) := by
  have least := Int64.le_toInt w
  have bound := Int64.toInt_lt w
  obtain ⟨magnitude, is, sign, zero, up, down⟩ :=
    nearest_between (n := w.toInt.natAbs) (by omega) (decide (w < 0))
  have zero : w.toInt.natAbs * one = 0 → magnitude = 0 := fun none =>
    zero ((Nat.mul_eq_zero.1 none).resolve_right (Nat.ne_of_gt one_pos))
  constructor
  · have finite := up infiniteMagnitude (Nat.le_of_lt (word_within w))
    unfold isNaN ofWord
    rw [is]
    exact decide_eq_false (Nat.not_lt.2 finite)
  · intro f
    rw [← rank_le, ← rank_le, wordPlace_eq]
    unfold rank ofWord place
    rw [is, sign]
    exact ⟨signed_mono (up _) (down _) zero distance_eq_zero.1,
      signed_mono (down _) (up _) distance_eq_zero.1 zero⟩

/-- The float is another number than the word, but the one that the word becomes as a float. -/
def Blurs (w : Int64) (f : Binary64) : Prop :=
  wordPlace w ≠ f.place ∧ (ofWord w).place = f.place

instance (w : Int64) (f : Binary64) : Decidable (Blurs w f) :=
  inferInstanceAs (Decidable (_ ∧ _))

/-- Any other float is on the same side of the word as of what the word becomes. -/
theorem rank_ofWord {w : Int64} {f : Binary64} (sharp : ¬ Blurs w f) :
    ((ofWord w).rank < f.rank ↔ wordPlace w < f.place) ∧
    (f.rank < (ofWord w).rank ↔ f.place < wordPlace w) := by
  obtain ⟨up, down⟩ := (ofWord_between w).2 f
  have apart : (ofWord w).place = f.place → wordPlace w = f.place := fun same =>
    Decidable.not_not.1 fun differ => sharp ⟨differ, same⟩
  rw [rank_lt, rank_lt]
  omega

/-! ## Floats as words -/

/-- A number without digits after the point is as many times as far out as one as its whole part
says. -/
theorem isWhole_iff {mantissa e n : Nat} :
    isWhole mantissa ((e : Int) - digits) = true ∧ wholePart mantissa ((e : Int) - digits) = n ↔
      mantissa * 2 ^ e = n * one := by
  unfold isWhole wholePart one
  simp only [Nat.pow_eq]
  by_cases large : 0 ≤ (e : Int) - digits
  · have exponent : e = ((e : Int) - digits).toNat + digits := by omega
    have scaled : mantissa * 2 ^ e = mantissa * 2 ^ ((e : Int) - digits).toNat * 2 ^ digits := by
      conv_lhs => rw [exponent]
      rw [Nat.pow_add, Nat.mul_assoc]
    rw [decide_eq_true large, Bool.true_or, if_pos large, scaled,
      Nat.mul_left_inj (Nat.ne_of_gt (Nat.two_pow_pos digits))]
    exact and_iff_right rfl
  · have exponent : digits = (-((e : Int) - digits)).toNat + e := by omega
    have scaled : n * 2 ^ digits = n * 2 ^ (-((e : Int) - digits)).toNat * 2 ^ e := by
      conv_lhs => rw [exponent]
      rw [Nat.pow_add, Nat.mul_assoc]
    have positive := Nat.two_pow_pos (-((e : Int) - digits)).toNat
    rw [decide_eq_false large, Bool.false_or, beq_iff_eq, if_neg large, scaled,
      Nat.mul_left_inj (Nat.ne_of_gt (Nat.two_pow_pos e))]
    constructor
    · rintro ⟨whole, rfl⟩
      exact (Nat.div_mul_cancel (Nat.dvd_of_mod_eq_zero whole)).symm
    · rintro rfl
      exact ⟨Nat.mul_mod_left _ _, Nat.mul_div_cancel _ positive⟩

/-- A finite float is its mantissa, as far out as its place. -/
theorem decode_eq {f : Binary64} (finite : f.magnitude < infiniteMagnitude) : ∃ mantissa e : Nat,
    f.decode = .finite f.isNegative mantissa ((e : Int) - digits) ∧
      distance f.magnitude = mantissa * 2 ^ e := by
  have infinite : infiniteMagnitude = 2047 * 2 ^ 52 := rfl
  have usual : f.magnitude / 2 ^ 52 ≠ 2047 := by omega
  unfold decode distance
  simp only [Nat.pow_eq]
  rw [if_neg usual]
  by_cases tiny : f.magnitude / 2 ^ 52 = 0
  · rw [if_pos tiny, if_pos tiny]
    refine ⟨_, 0, congrArg _ (by unfold leastExponent digits; omega), ?_⟩
    rw [Nat.pow_zero, Nat.mul_one]
    omega
  · rw [if_neg tiny, if_neg tiny]
    exact ⟨_, f.magnitude / 2 ^ 52 - 1, congrArg _ (by unfold digits; omega), rfl⟩

/-- Infinities and what is beyond them are farther out than any word. -/
theorem wordPlace_ne {f : Binary64} (infinite : infiniteMagnitude ≤ f.magnitude) (w : Int64) :
    f.place ≠ wordPlace w := by
  have within := word_within w
  have beyond := distance_strictMono.monotone infinite
  intro same
  have sizes := congrArg Int.natAbs same
  rw [place, natAbs_signed, wordPlace, Int.natAbs_mul, Int.natAbs_natCast] at sizes
  omega

/-- A float equals a word if they have the same place. -/
theorem toWord?_iff {f : Binary64} {w : Int64} :
    f.toWord? = some w ↔ f.place = wordPlace w := by
  rcases Nat.lt_or_ge f.magnitude infiniteMagnitude with finite | infinite
  · obtain ⟨mantissa, e, decoded, far⟩ := decode_eq finite
    unfold toWord? place wordPlace
    rw [decoded, far]
    dsimp only
    by_cases whole : isWhole mantissa ((e : Int) - digits) = true
    · rw [if_pos whole, isWhole_iff.1 ⟨whole, rfl⟩, signed_mul,
        Int.mul_eq_mul_right_iff (Int.natCast_ne_zero.2 (Nat.ne_of_gt one_pos))]
      exact Word.ofInt?_eq_some
    · rw [if_neg whole]
      refine ⟨nofun, fun same => absurd ?_ whole⟩
      have sizes := congrArg Int.natAbs same
      rw [natAbs_signed, Int.natAbs_mul, Int.natAbs_natCast] at sizes
      exact (isWhole_iff.2 sizes).1
  · have exponent : f.magnitude / 2 ^ 52 = 2047 := by
      have small : f.magnitude < 2 ^ 63 := Nat.mod_lt _ (Nat.two_pow_pos 63)
      have least : infiniteMagnitude = 2047 * 2 ^ 52 := rfl
      omega
    refine ⟨fun equal => ?_, fun same => absurd same (wordPlace_ne infinite w)⟩
    unfold toWord? decode at equal
    simp only [Nat.pow_eq] at equal
    rw [if_pos exponent] at equal
    split_ifs at equal

end Binary64
end ScriptMachine
