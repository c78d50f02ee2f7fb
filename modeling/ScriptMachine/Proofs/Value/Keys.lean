import Mathlib.Algebra.Group.Nat.Defs
import Mathlib.Data.List.Forall2
import Mathlib.Data.List.Pairwise
import ScriptMachine.Value.Table

/-!
Equality of keys. What is not looked into is compared by one thing, the number it is or itself, so
equality of such values is equality of that thing; two floats that equal the same word have the
same bits or are zeros. Tuples are compared item by item. Hence equality of keys is symmetric and
transitive at every depth, although not all keys are equal to themselves, and a table finds the
same entry under all keys that are equal.
-/

namespace ScriptMachine

theorem Word.toInt_of_ofInt? {i : Int} {w : Int64} (fits : ofInt? i = some w) : w.toInt = i := by
  unfold ofInt? at fits
  split at fits
  · next within =>
      obtain rfl := Option.some.inj fits
      exact Int64.toInt_ofInt_of_le within.1 within.2
  · cases fits

theorem Word.fits_toInt (w : Int64) : Fits w.toInt :=
  ⟨Int64.le_toInt w, Int64.toInt_lt w⟩

theorem Word.ofInt?_eq_none {i : Int} : ofInt? i = none ↔ ¬ Fits i := by
  unfold ofInt?
  split <;> simp [*]

namespace Binary64

/-- A mantissa with its leading bit set fits only one exponent. -/
theorem mantissa_unique {r s d e : Nat} (small : r < 2 ^ 52) (small' : s < 2 ^ 52)
    (same : (2 ^ 52 + r) * 2 ^ d = (2 ^ 52 + s) * 2 ^ e) : d = e ∧ r = s := by
  wlog order : d ≤ e generalizing r s d e
  · obtain ⟨exponents, mantissas⟩ := this small' small same.symm (Nat.le_of_not_le order)
    exact ⟨exponents.symm, mantissas.symm⟩
  obtain ⟨more, rfl⟩ := Nat.exists_eq_add_of_le order
  have equal : 2 ^ 52 + r = (2 ^ 52 + s) * 2 ^ more := by
    refine Nat.eq_of_mul_eq_mul_right (Nat.two_pow_pos d) ?_
    rw [same, Nat.pow_add, Nat.mul_assoc, Nat.mul_comm (2 ^ d)]
  cases more with
  | zero => omega
  | succ more =>
      have double : (2 ^ 52 + s) * 2 ≤ 2 ^ 52 + r := by
        rw [equal]
        exact Nat.mul_le_mul_left _ (Nat.le_self_pow (Nat.succ_ne_zero more) 2)
      omega

/-- What makes the exponent of every normal float a natural number. -/
def bias : Nat := 1075

theorem mod_of_isWhole {mantissa : Nat} {exponent : Int} (negative : ¬ 0 ≤ exponent)
    (whole : isWhole mantissa exponent = true) : mantissa % 2 ^ (-exponent).toNat = 0 := by
  rw [isWhole, decide_eq_false negative, Bool.false_or] at whole
  exact beq_iff_eq.1 whole

/-- A whole number `mantissa * 2 ^ exponent`, with the bias on both sides. -/
theorem wholePart_biased {mantissa e : Nat} (whole : isWhole mantissa ((e : Int) - bias) = true) :
    mantissa * 2 ^ e = wholePart mantissa ((e : Int) - bias) * 2 ^ bias := by
  unfold wholePart
  split
  · next positive =>
      have exponent : e = ((e : Int) - bias).toNat + bias := by omega
      rw [Nat.pow_eq, Nat.mul_assoc, ← Nat.pow_add, ← exponent]
  · next negative =>
      have exponent : bias = (-((e : Int) - bias)).toNat + e := by omega
      have parts := Nat.div_mul_cancel (Nat.dvd_of_mod_eq_zero (mod_of_isWhole negative whole))
      conv_rhs => rw [exponent]
      rw [Nat.pow_add, ← Nat.mul_assoc, Nat.pow_eq, ← exponent, parts]

/-- A float that equals a word is a zero, or its mantissa has the leading bit set and gives the
word together with its exponent. -/
theorem toWord?_eq_some {f : Binary64} {w : Int64} (equal : f.toWord? = some w) :
    ∃ n : Nat, w.toInt = signed f.isNegative n ∧
      ((n = 0 ∧ f.magnitude = 0) ∨ ∃ e r, r < 2 ^ 52 ∧ f.magnitude = e * 2 ^ 52 + r ∧
        e < 2047 ∧ (2 ^ 52 + r) * 2 ^ e = n * 2 ^ bias) := by
  have parts := Nat.div_add_mod f.magnitude (2 ^ 52)
  have small := Nat.mod_lt f.magnitude (Nat.two_pow_pos 52)
  have top : f.magnitude / 2 ^ 52 < 2048 := by
    refine Nat.div_lt_of_lt_mul ?_
    exact Nat.lt_of_lt_of_eq (Nat.mod_lt _ (Nat.two_pow_pos 63)) (by decide)
  unfold toWord? decode at equal
  simp only [Nat.pow_eq] at equal
  generalize f.magnitude / 2 ^ 52 = e, f.magnitude % 2 ^ 52 = r at parts small top equal
  by_cases special : e = 2047
  · by_cases infinite : r = 0 <;> simp [special, infinite] at equal
  by_cases tiny : e = 0
  · -- the least exponent leaves no whole number but zero
    simp only [tiny, if_neg (show ¬ (0 = 2047) by decide), if_true] at equal
    split at equal
    · next whole =>
        have far : 52 ≤ (-leastExponent).toNat := by decide
        have below := Nat.lt_of_lt_of_le small (Nat.pow_le_pow_right Nat.two_pos far)
        have zero : r = 0 := by
          rw [← Nat.mod_eq_of_lt below]
          exact mod_of_isWhole (by decide) whole
        refine ⟨0, ?_, .inl ⟨rfl, by omega⟩⟩
        rw [Word.toInt_of_ofInt? equal, zero]
        simp [wholePart]
    · cases equal
  · simp only [if_neg special, if_neg tiny] at equal
    split at equal
    · next whole =>
        refine ⟨_, Word.toInt_of_ofInt? equal, .inr ⟨e, r, small, by omega, by omega, ?_⟩⟩
        exact wholePart_biased whole
    · cases equal

theorem isNaN_of_toWord? {f : Binary64} {w : Int64} (equal : f.toWord? = some w) :
    f.isNaN = false := by
  have bound : infiniteMagnitude = 2047 * 2 ^ 52 := rfl
  obtain ⟨n, -, ⟨-, zero⟩ | ⟨e, r, small, magnitude, finite, -⟩⟩ := toWord?_eq_some equal
  · rw [isNaN, zero]
    rfl
  · rw [isNaN, decide_eq_false_iff_not]
    omega

/-- Floats that equal the same word are equal. -/
theorem equals_of_toWord? {a b : Binary64} {w : Int64} (first : a.toWord? = some w)
    (second : b.toWord? = some w) : a.equals b = true := by
  have rank : a.rank = b.rank := by
    obtain ⟨n, sign, number⟩ := toWord?_eq_some first
    obtain ⟨k, sign', number'⟩ := toWord?_eq_some second
    have same : signed a.isNegative n = signed b.isNegative k := sign.symm.trans sign'
    have sizes : n = k := by
      unfold signed at same
      split at same <;> split at same <;> omega
    subst sizes
    have positive {r e : Nat} (value : (2 ^ 52 + r) * 2 ^ e = n * 2 ^ bias) : n ≠ 0 := by
      rintro rfl
      have some := Nat.mul_pos (Nat.add_pos_left (Nat.two_pow_pos 52) r) (Nat.two_pow_pos e)
      omega
    unfold rank
    rcases number with ⟨zero, none⟩ | ⟨e, r, small, magnitude, -, value⟩ <;>
      rcases number' with ⟨zero', none'⟩ | ⟨d, s, small', magnitude', -, value'⟩
    · simp [none, none', signed]
    · exact absurd zero (positive value')
    · exact absurd zero' (positive value)
    · obtain ⟨rfl, rfl⟩ := mantissa_unique small small' (value.trans value'.symm)
      have number := positive value
      have signs : a.isNegative = b.isNegative := by
        unfold signed at same
        cases negative : a.isNegative <;> cases negative' : b.isNegative <;>
          rw [negative, negative'] at same
        · have opposite : (n : Int) = -n := same
          omega
        · have opposite : -(n : Int) = n := same
          omega
      rw [magnitude, magnitude', signs]
  simp [equals, isNaN_of_toWord? first, isNaN_of_toWord? second, rank]

/-- The number that a float is, as a value: a word if it equals one, else itself. -/
def number (f : Binary64) : Value :=
  match f.toWord? with
  | some w => .int w
  | none => .float f

theorem number_eq_int {f : Binary64} {w : Int64} :
    f.number = .int w ↔ f.toWord? = some w := by
  unfold number
  split <;> simp_all

/-- A float is a number of its own, or the word that it equals. -/
theorem number_kind (f : Binary64) : f.number = .float f ∨ ∃ w, f.number = .int w := by
  unfold number
  split
  · next w _ => exact .inr ⟨w, rfl⟩
  · exact .inl rfl

/-- Floats are equal if they are numbers, and the same. -/
theorem equals_iff {a b : Binary64} :
    a.equals b = true ↔ a.isNaN = false ∧ b.isNaN = false ∧ a.number = b.number := by
  constructor
  · intro equal
    have words := Value.floatWords_eq_of_equals equal
    have numbers : a.isNaN = false ∧ b.isNaN = false := by
      simp only [equals, Bool.and_eq_true, Bool.not_eq_true'] at equal
      exact equal.1
    refine ⟨numbers.1, numbers.2, ?_⟩
    unfold Value.floatWords at words
    unfold number
    cases first : a.toWord? <;> cases second : b.toWord? <;> simp_all
    cases a
    cases b
    simp_all
  · rintro ⟨first, second, same⟩
    cases word : a.toWord? with
    | some w =>
        have equal : b.toWord? = some w := number_eq_int.1 (same ▸ number_eq_int.2 word)
        exact equals_of_toWord? word equal
    | none =>
        have itself : a = b := by
          unfold number at same
          cases other : b.toWord? <;> simp_all
        subst itself
        simp [equals, first]

end Binary64

namespace Value

/-- What a value is compared by that is not looked into: a number by the number it is, anything
else by itself. There is nothing for a tuple, which is looked into, and for a float that is not a
number. -/
def atom? : Value → Option Value
  | .tuple _ => none
  | .float f => if f.isNaN then none else some f.number
  | v => some v

/-- The values are compared by the same thing. -/
def Same (a b : Value) : Prop :=
  ∃ x, a.atom? = some x ∧ b.atom? = some x

/-- Of two values that are the same, each is the same as the other. -/
theorem Same.symm {a b : Value} : Same a b → Same b a
  | ⟨x, first, second⟩ => ⟨x, second, first⟩

theorem Same.trans {a b c : Value} : Same a b → Same b c → Same a c
  | ⟨x, first, second⟩, ⟨y, third, fourth⟩ => by
      obtain rfl : x = y := Option.some.inj (second.symm.trans third)
      exact ⟨x, first, fourth⟩

/-- Comparing values that are not taken apart decides whether they are the same. -/
theorem atomEquals_iff {a b : Value} :
    atomEquals a b = true ↔ Same a b := by
  cases a <;> cases b <;> simp [atomEquals, Same, atom?]
  case int.float w f =>
    rw [Binary64.number_eq_int]
    exact ⟨fun word => ⟨Binary64.isNaN_of_toWord? word, word⟩, And.right⟩
  case float.int f w =>
    rw [Binary64.number_eq_int]
    exact ⟨fun word => ⟨Binary64.isNaN_of_toWord? word, word⟩, And.right⟩
  case float.float f g =>
    rw [Binary64.equals_iff]
    tauto
  all_goals grind [Binary64.number_kind]

/-! What is looked into, and what has an identity, is the same as nothing else. -/

@[simp] theorem not_same_tuple {v : Value} {xs : List Value} : ¬ Same v (.tuple xs) :=
  fun ⟨_, _, impossible⟩ => nomatch impossible

/-- A list is the same as itself only. -/
@[simp] theorem same_list {v : Value} {i : ListId} : Same v (.list i) ↔ v = .list i := by
  cases v with
  | float f => rcases f.number_kind with float | ⟨w, word⟩ <;> simp [Same, atom?, *]
  | _ => simp [Same, atom?, eq_comm]

@[simp] theorem same_map {v : Value} {i : MapId} : Same v (.map i) ↔ v = .map i := by
  cases v with
  | float f => rcases f.number_kind with float | ⟨w, word⟩ <;> simp [Same, atom?, *]
  | _ => simp [Same, atom?, eq_comm]

/-! ## Layers -/

/-- Equality that looks into values as deep as it is told to: values are equal that are the same,
or whose parts are equal one layer further in. -/
def Layered (equal : Nat → Value → Value → Prop)
    (Parts : (Value → Value → Prop) → Value → Value → Prop) : Prop :=
  ∀ n a b, equal n a b ↔ Same a b ∨
    match n with
    | 0 => False
    | less + 1 => Parts (equal less) a b

namespace Layered

variable {equal : Nat → Value → Value → Prop}
  {Parts : (Value → Value → Prop) → Value → Value → Prop} (layers : Layered equal Parts)
include layers

theorem symm
    (parts : ∀ {R : Value → Value → Prop}, (∀ ⦃a b⦄, R a b → R b a) →
      ∀ ⦃a b⦄, Parts R a b → Parts R b a)
    (n : Nat) ⦃a b : Value⦄ (holds : equal n a b) : equal n b a := by
  induction n generalizing a b with
  | zero =>
      obtain same | impossible := (layers 0 a b).1 holds
      · exact (layers 0 b a).2 (.inl same.symm)
      · cases impossible
  | succ n ih =>
      obtain same | further := (layers (n + 1) a b).1 holds
      · exact (layers (n + 1) b a).2 (.inl same.symm)
      · exact (layers (n + 1) b a).2 (.inr (parts ih further))

/-- Sameness has to carry over to parts: a value that is the same as one with parts has these
parts itself. -/
theorem trans
    (parts : ∀ {R : Value → Value → Prop}, (∀ ⦃a b c⦄, R a b → R b c → R a c) →
      ∀ ⦃a b c⦄, Parts R a b → Parts R b c → Parts R a c)
    (left : ∀ {R : Value → Value → Prop} {a b c}, Same a b → Parts R b c → Parts R a c)
    (right : ∀ {R : Value → Value → Prop} {a b c}, Parts R a b → Same b c → Parts R a c)
    (n : Nat) ⦃a b c : Value⦄ (first : equal n a b) (second : equal n b c) : equal n a c := by
  induction n generalizing a b c with
  | zero =>
      obtain same | impossible := (layers 0 a b).1 first
      · obtain same' | impossible := (layers 0 b c).1 second
        · exact (layers 0 a c).2 (.inl (same.trans same'))
        · cases impossible
      · cases impossible
  | succ n ih =>
      refine (layers (n + 1) a c).2 ?_
      obtain same | further := (layers (n + 1) a b).1 first <;>
        obtain same' | further' := (layers (n + 1) b c).1 second
      · exact .inl (same.trans same')
      · exact .inr (left same further')
      · exact .inr (right further same')
      · exact .inr (parts ih further further')

end Layered

/-! ## Tuples -/

/-- Sequences of one length are equal if their items are, in order. -/
theorem pairwise_iff {compare : Value → Value → Option Bool} {xs ys : List Value} :
    xs.length = ys.length ∧ pairwise compare xs ys = some true ↔
      List.Forall₂ (fun x y => compare x y = some true) xs ys := by
  induction xs generalizing ys with
  | nil => cases ys <;> simp [pairwise]
  | cons x xs ih =>
      cases ys with
      | nil => simp
      | cons y ys =>
          rw [List.forall₂_cons, ← ih, pairwise, List.length_cons, List.length_cons]
          split <;> simp_all

theorem forall₂_symm {R : Value → Value → Prop} (symm : ∀ ⦃x y⦄, R x y → R y x)
    {xs ys : List Value} (related : List.Forall₂ R xs ys) : List.Forall₂ R ys xs :=
  (related.imp fun _ _ here => symm here).flip

theorem forall₂_trans {R : Value → Value → Prop} (trans : ∀ ⦃x y z⦄, R x y → R y z → R x z)
    {xs ys zs : List Value} (first : List.Forall₂ R xs ys) (second : List.Forall₂ R ys zs) :
    List.Forall₂ R xs zs := by
  induction first generalizing zs with
  | nil => exact second
  | cons here _ ih =>
      cases second with
      | cons next rest => exact .cons (trans here next) (ih rest)

/-- Tuples of one length whose items are related in order. -/
inductive Itemwise (R : Value → Value → Prop) : Value → Value → Prop
  | tuple {xs ys : List Value} : List.Forall₂ R xs ys → Itemwise R (.tuple xs) (.tuple ys)

/-- Tuples are compared item by item. -/
theorem itemwise_tuple {R : Value → Value → Prop} {xs ys : List Value} :
    Itemwise R (.tuple xs) (.tuple ys) ↔ List.Forall₂ R xs ys :=
  ⟨fun | .tuple items => items, .tuple⟩

/-- Keys are equal that are the same, or that are tuples of equal keys. -/
theorem keyEqualsWithin_layered :
    Layered (fun budget a b => keyEqualsWithin budget a b = some true) Itemwise := by
  intro budget a b
  change keyEqualsWithin budget a b = some true ↔ _
  conv_lhs => unfold keyEqualsWithin
  split
  · next xs ys =>
      by_cases sizes : xs.length = ys.length <;> cases budget <;>
        simp [itemwise_tuple, ← pairwise_iff, sizes]
  · next others =>
      rw [← atomEquals_iff, Option.some.injEq]
      refine ⟨.inl, ?_⟩
      rintro (equal | further)
      · exact equal
      · cases budget with
        | zero => cases further
        | succ less =>
            cases further with
            | tuple => exact absurd rfl (others _ _ rfl)

theorem keyEqualsWithin_symm {budget : Nat} {a b : Value}
    (equal : keyEqualsWithin budget a b = some true) : keyEqualsWithin budget b a = some true :=
  keyEqualsWithin_layered.symm (fun symm _ _ ⟨items⟩ => ⟨forall₂_symm symm items⟩) budget equal

/-- Keys that are found equal within a budget are so with any third one. -/
theorem keyEqualsWithin_trans {budget : Nat} {a b c : Value}
    (first : keyEqualsWithin budget a b = some true)
    (second : keyEqualsWithin budget b c = some true) : keyEqualsWithin budget a c = some true := by
  refine keyEqualsWithin_layered.trans ?_ ?_ ?_ budget first second
  · rintro R trans _ _ _ ⟨items⟩ ⟨items'⟩
    exact .tuple (forall₂_trans trans items items')
  · rintro R _ _ _ same ⟨_⟩
    exact absurd same not_same_tuple
  · rintro R _ _ _ ⟨_⟩ same
    exact absurd same.symm not_same_tuple

/-- Keys are compared within the budget for nesting. -/
theorem keyEquals_iff {a b : Value} :
    keyEquals a b = true ↔ keyEqualsWithin maxNesting a b = some true := by
  unfold keyEquals
  cases keyEqualsWithin maxNesting a b <;> simp

theorem keyEquals_symm {a b : Value} (equal : keyEquals a b = true) : keyEquals b a = true :=
  keyEquals_iff.2 (keyEqualsWithin_symm (keyEquals_iff.1 equal))

theorem keyEquals_trans {a b c : Value} (first : keyEquals a b = true)
    (second : keyEquals b c = true) : keyEquals a c = true :=
  keyEquals_iff.2 (keyEqualsWithin_trans (keyEquals_iff.1 first) (keyEquals_iff.1 second))

theorem keyEquals_comm (a b : Value) : keyEquals a b = keyEquals b a :=
  Bool.eq_iff_iff.2 ⟨keyEquals_symm, keyEquals_symm⟩

/-- Equal keys are equal to the same keys. -/
theorem keyEquals_congr {a b : Value} (equal : keyEquals a b = true) : keyEquals a = keyEquals b := by
  funext c
  exact Bool.eq_iff_iff.2 ⟨keyEquals_trans (keyEquals_symm equal), keyEquals_trans equal⟩

end Value

/-! ## Tables -/

namespace Table

/-- Entries with equal keys are one entry. -/
theorem eq_of_keyEquals {t : Table} {e f : Value × Value} (first : e ∈ t.toList)
    (second : f ∈ t.toList) (equal : Value.keyEquals e.1 f.1 = true) : e = f := by
  let Apart (e f : Value × Value) : Prop := Value.keyEquals f.1 e.1 = false
  have apart : t.toList.Pairwise Apart := List.pairwise_map.1 t.distinct
  have : Std.Symm Apart := ⟨fun e f unequal => (Value.keyEquals_comm e.1 f.1).trans unequal⟩
  by_contra differ
  have unequal : Value.keyEquals e.1 f.1 = false := apart.forall second first (Ne.symm differ)
  rw [equal] at unequal
  cases unequal

/-- What is found under a key is the value of the entry whose key equals it. -/
theorem find?_eq_some {t : Table} {key value : Value} :
    t.find? key = some value ↔ ∃ k, (k, value) ∈ t.toList ∧ Value.keyEquals key k = true := by
  have found : t.find? key = (List.find? (Value.keyEquals key ·.1) t.toList).map Prod.snd := by
    rw [find?_eq]
    induction t.toList with
    | nil => rfl
    | cons e rest ih =>
        rw [Entries.find?, ih, List.find?_cons]
        cases Value.keyEquals key e.1 <;> rfl
  rw [found, Option.map_eq_some_iff]
  constructor
  · rintro ⟨⟨k, _⟩, here, rfl⟩
    have chosen := List.find?_some here
    exact ⟨k, List.mem_of_find?_eq_some here, chosen⟩
  · rintro ⟨k, member, equal⟩
    cases here : List.find? (Value.keyEquals key ·.1) t.toList with
    | none => exact absurd equal (List.find?_eq_none.1 here _ member)
    | some e =>
        have chosen := List.find?_some here
        have one : e = (k, value) := eq_of_keyEquals (List.mem_of_find?_eq_some here) member
          (Value.keyEquals_trans (Value.keyEquals_symm chosen) equal)
        exact ⟨e, rfl, congrArg Prod.snd one⟩

theorem position?_of_keyEquals {a b : Value} (equal : Value.keyEquals a b = true) (t : Table) :
    t.position? a = t.position? b := by
  have slots : Slot.holds a = Slot.holds b := by
    funext slot
    rw [Slot.holds, Slot.holds, Value.keyEquals_congr equal]
  rw [position?_eq, position?_eq, slots]

theorem find?_of_keyEquals {a b : Value} (equal : Value.keyEquals a b = true) (t : Table) :
    t.find? a = t.find? b := by
  rw [find?, find?, position?_of_keyEquals equal]

/-- What is stored under a key is found under every key that equals it. -/
theorem find?_insert_of_keyEquals {a b : Value} (equal : Value.keyEquals a b = true) (t : Table)
    (value : Value) : (t.insert a value).find? b = some value := by
  have itself := Value.keyEquals_trans equal (Value.keyEquals_symm equal)
  rw [← find?_of_keyEquals equal, find?_eq, toList_insert, Entries.find?_insert_self _ itself]

end Table
end ScriptMachine
