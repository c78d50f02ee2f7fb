import ScriptMachine.Proofs.Number.Shortest
import ScriptMachine.Number.FloatText

/-!
Texts of floats. Wherever a layout puts the decimal point and whether it needs an exponent, the text
spells the number that the digits stand for. So floats with one text are the same float, or neither
is a number.
-/

namespace ScriptMachine

namespace FloatText

/-! ## Reading a text -/

/-- The integer that digits with an optional minus sign spell. -/
def spelledInt : List Char → Int
  | '-' :: digits => -(Nat.ofDigitChars 10 digits 0 : Nat)
  | digits => (Nat.ofDigitChars 10 digits 0 : Nat)

/-- The number that a text without a sign spells: digits, perhaps a point and further digits, and
perhaps an exponent. -/
def spelled (text : List Char) : ℚ :=
  let mantissa := text.takeWhile (· != 'e')
  let power := spelledInt ((text.dropWhile (· != 'e')).drop 1)
  let fraction := (mantissa.dropWhile (· != '.')).drop 1
  Nat.ofDigitChars 10 (mantissa.takeWhile (· != '.') ++ fraction) 0
    * 10 ^ (power - fraction.length)

theorem spelledInt_digits {digits : List Char} (all : ∀ c ∈ digits, c.isDigit = true) :
    spelledInt digits = (Nat.ofDigitChars 10 digits 0 : Nat) := by
  unfold spelledInt
  split
  · exact absurd (all '-' List.mem_cons_self) (by decide)
  · rfl

theorem toList_toString (i : Int) :
    (toString i).toList = (if i < 0 then ['-'] else []) ++ Nat.toDigits 10 i.natAbs := by
  cases i with
  | ofNat n =>
      rw [Int.ofNat_eq_natCast, if_neg (Int.not_lt.2 (Int.natCast_nonneg n))]
      exact Nat.toList_repr
  | negSucc n =>
      rw [if_pos (Int.negSucc_lt_zero n)]
      change ("-" ++ (n + 1).repr).toList = _
      rw [String.toList_append, Nat.toList_repr]
      rfl

theorem spelledInt_toString (i : Int) : spelledInt (toString i).toList = i := by
  have digits : ∀ c ∈ Nat.toDigits 10 i.natAbs, c.isDigit = true := fun c =>
    Nat.isDigit_of_mem_toDigits (by decide) (by decide)
  rw [toList_toString]
  split
  · rw [List.singleton_append, spelledInt, Nat.ofDigitChars_ten_toDigits]
    omega
  · rw [List.nil_append, spelledInt_digits digits, Nat.ofDigitChars_ten_toDigits]
    omega

/-- The point and the digits behind it. Without digits there need not be a point. -/
inductive Pointed : List Char → List Char → Prop
  | point (fraction : List Char) : Pointed fraction ('.' :: fraction)
  | none : Pointed [] []

/-- The exponent behind its mark. Without a mark it is zero. -/
inductive Marked : Int → List Char → Prop
  | mark (power : Int) : Marked power ('e' :: (toString power).toList)
  | none : Marked 0 []

theorem digit_ne {c d : Char} (digit : c.isDigit = true) (other : d.isDigit = false) :
    (c != d) = true := by
  rw [bne_iff_ne]
  rintro rfl
  exact absurd (digit.symm.trans other) (by decide)

/-- A text of digits with a point or an exponent, and the number it spells. -/
inductive Laid (v : ℚ) : List Char → Prop
  | parts {whole fraction point exponent : List Char} {power : Int} :
      (∀ c ∈ whole ++ fraction, c.isDigit = true) → Pointed fraction point →
      Marked power exponent → whole ≠ [] → point ++ exponent ≠ [] →
      (Nat.ofDigitChars 10 (whole ++ fraction) 0 : ℚ) * 10 ^ (power - fraction.length) = v →
      Laid v (whole ++ point ++ exponent)

theorem Laid.spelled_eq {v : ℚ} {text : List Char} (laid : Laid v text) : spelled text = v := by
  obtain @⟨whole, fraction, point, exponent, power, digits, pointed, marked, -, -, rfl⟩ := laid
  have noMark : ∀ c ∈ whole ++ point, (c != 'e') = true := by
    intro c member
    rcases List.mem_append.1 member with inside | inside
    · exact digit_ne (digits c (List.mem_append_left _ inside)) rfl
    · cases pointed with
      | none => cases inside
      | point =>
          rcases List.mem_cons.1 inside with rfl | inside
          · rfl
          · exact digit_ne (digits c (List.mem_append_right _ inside)) rfl
  have noPoint : ∀ c ∈ whole, (c != '.') = true := fun c inside =>
    digit_ne (digits c (List.mem_append_left _ inside)) rfl
  have mantissa : (whole ++ point ++ exponent).takeWhile (· != 'e') = whole ++ point := by
    rw [List.takeWhile_append_of_pos noMark]
    cases marked <;> simp
  have rest : (whole ++ point ++ exponent).dropWhile (· != 'e') = exponent := by
    rw [List.dropWhile_append_of_pos noMark]
    cases marked <;> simp
  have powers : spelledInt (exponent.drop 1) = power := by
    cases marked with
    | mark => exact spelledInt_toString power
    | none => rfl
  have before : (whole ++ point).takeWhile (· != '.') = whole := by
    rw [List.takeWhile_append_of_pos noPoint]
    cases pointed <;> simp
  have after : ((whole ++ point).dropWhile (· != '.')).drop 1 = fraction := by
    rw [List.dropWhile_append_of_pos noPoint]
    cases pointed <;> simp
  simp only [spelled, mantissa, rest, powers, before, after]

end FloatText

namespace FloatStyle

open FloatText

section

variable {ds : List Char} (digits : ∀ c ∈ ds, c.isDigit = true)

include digits

/-- All digits before the point, with zeros between them and the point. -/
theorem laid_whole (filled : ds ≠ []) (n : Nat) :
    Laid (Nat.ofDigitChars 10 ds 0 * 10 ^ (n : Int))
      (ds ++ List.replicate n '0' ++ ['.', '0']) := by
  rw [← List.append_nil (_ ++ ['.', '0'])]
  refine .parts ?_ (.point ['0']) .none (by simp [filled]) (by simp) ?_
  · intro c member
    simp only [List.mem_append, List.mem_replicate, List.mem_singleton] at member
    rcases member with (inside | ⟨-, rfl⟩) | rfl
    · exact digits c inside
    · rfl
    · rfl
  · rw [List.append_assoc, ← List.replicate_succ', Nat.ofDigitChars_append,
      Nat.ofDigitChars_replicate_zero, List.length_singleton]
    push_cast
    rw [zpow_neg_one, zpow_natCast]
    ring

/-- The point among the digits. -/
theorem laid_inner {point : Nat} (positive : 0 < point) (inside : point ≤ ds.length) :
    Laid (Nat.ofDigitChars 10 ds 0 * 10 ^ ((point : Int) - ds.length))
      (ds.take point ++ '.' :: ds.drop point) := by
  rw [← List.append_nil (_ ++ '.' :: ds.drop point)]
  have filled : ds.take point ≠ [] := by
    rw [← List.length_pos_iff, List.length_take]
    omega
  refine .parts ?_ (.point _) .none filled (by simp) ?_
  · rwa [List.take_append_drop]
  · rw [List.take_append_drop, List.length_drop]
    exact congrArg _ (congrArg _ (by omega))

/-- Zeros between the point and the digits. -/
theorem laid_small (n : Nat) :
    Laid (Nat.ofDigitChars 10 ds 0 * 10 ^ (-(n : Int) - ds.length))
      (['0'] ++ '.' :: (List.replicate n '0' ++ ds)) := by
  rw [← List.append_nil (['0'] ++ _)]
  refine .parts ?_ (.point _) .none (by simp) (by simp) ?_
  · intro c member
    simp only [List.mem_append, List.mem_replicate, List.mem_singleton] at member
    rcases member with rfl | ⟨-, rfl⟩ | inside
    · rfl
    · rfl
    · exact digits c inside
  · rw [← List.append_assoc, ← List.replicate_one, List.replicate_append_replicate,
      Nat.ofDigitChars_append, Nat.ofDigitChars_replicate_zero, Nat.mul_zero, List.length_append,
      List.length_replicate]
    exact congrArg _ (congrArg _ (by omega))

/-- One digit before the point, and an exponent. -/
theorem laid_marked (filled : ds ≠ []) (power : Int) :
    Laid (Nat.ofDigitChars 10 ds 0 * 10 ^ (power - (ds.length - 1)))
      (ds.take 1 ++ (if ds.length ≤ 1 then [] else '.' :: ds.drop 1)
        ++ 'e' :: (toString power).toList) := by
  have count : 0 < ds.length := List.length_pos_iff.2 filled
  have pointed : Pointed (ds.drop 1) (if ds.length ≤ 1 then [] else '.' :: ds.drop 1) := by
    split
    · next few =>
      rw [List.drop_eq_nil_of_le few]
      exact .none
    · exact .point _
  refine .parts ?_ pointed (.mark power) (by simp [filled]) (by simp) ?_
  · rwa [List.take_append_drop]
  · rw [List.take_append_drop, List.length_drop]
    exact congrArg _ (congrArg _ (by omega))

end

/-- Every layout without a plus sign spells the number that the digits stand for. -/
theorem laid_layOut {style : FloatStyle} (bare : style.positiveExponent = "")
    (s : Decimal.Scaled) : Laid s.value (style.layOut s).toList := by
  have digits : ∀ c ∈ Nat.toDigits 10 s.digits, c.isDigit = true := fun c =>
    Nat.isDigit_of_mem_toDigits (by decide) (by decide)
  have number : Nat.ofDigitChars 10 (Nat.toDigits 10 s.digits) 0 = s.digits :=
    Nat.ofDigitChars_ten_toDigits
  have filled : Nat.toDigits 10 s.digits ≠ [] := Nat.toDigits_ne_nil
  have zeros (n : Int) : (zeros n).toList = List.replicate n.toNat '0' := String.toList_ofList
  have zeroPoint : ("0." : String).toList = ['0', '.'] := by decide
  have pointZero : (".0" : String).toList = ['.', '0'] := by decide
  have point : ("." : String).toList = ['.'] := by decide
  have exponentMark : ("e" : String).toList = ['e'] := by decide
  unfold layOut Decimal.Scaled.value
  generalize Nat.toDigits 10 s.digits = ds at *
  have count : 0 < ds.length := List.length_pos_iff.2 filled
  rw [← number]
  dsimp only
  split
  · next whole =>
    have laid := laid_whole digits filled s.exponent.toNat
    rw [Int.toNat_of_nonneg whole.1] at laid
    simpa [zeros, pointZero] using laid
  · split
    · next outside inner =>
      have laid := laid_inner digits (show 0 < (ds.length + s.exponent).toNat by omega) (by omega)
      rw [Int.toNat_of_nonneg inner.1.le, add_sub_cancel_left] at laid
      simpa [point] using laid
    · split
      · next small =>
        have laid := laid_small digits (-(ds.length + s.exponent)).toNat
        rw [Int.toNat_of_nonneg (by omega), neg_neg, add_sub_cancel_left] at laid
        simpa [zeros, zeroPoint] using laid
      · have laid := laid_marked digits filled (ds.length + s.exponent - 1)
        have mark : (if 0 ≤ (ds.length : Int) + s.exponent - 1 then "e" ++ style.positiveExponent
            else "e") = "e" := by
          rw [bare]
          split <;> rfl
        rw [show (ds.length : Int) + s.exponent - 1 - (ds.length - 1) = s.exponent by omega] at laid
        rw [mark]
        simpa [exponentMark] using laid

/-- The text of a finite float is a sign and a layout. -/
theorem laid_finite {style : FloatStyle} (bare : style.positiveExponent = "") (negative : Bool)
    (mantissa : Nat) (exponent : Int) : ∃ text,
      (style.finite negative mantissa exponent).toList = (if negative then ['-'] else []) ++ text ∧
      Laid (Binary64.shown mantissa exponent) text := by
  have minus : ("-" : String).toList = ['-'] := by decide
  have zeroText : ("0.0" : String).toList = ['0'] ++ ['.', '0'] ++ [] := by decide
  have sign : (if negative then "-" else "").toList = if negative then ['-'] else [] := by
    split
    · exact minus
    · rfl
  rw [finite, String.toList_append, sign]
  refine ⟨_, rfl, ?_⟩
  unfold Binary64.shown
  split
  · rw [zeroText]
    have number : Nat.ofDigitChars 10 (['0'] ++ ['0']) 0 = 0 := by decide
    exact .parts (List.all_eq_true.1 rfl) (.point ['0']) .none (by simp) (by simp)
      (by rw [number]; norm_num)
  · exact laid_layOut bare _

end FloatStyle

namespace FloatText

open Binary64

/-- A layout begins with a digit. -/
theorem Laid.begins {v : ℚ} {text : List Char} (laid : Laid v text) :
    ∃ c s, text = c :: s ∧ c.isDigit = true := by
  obtain @⟨whole, fraction, point, exponent, power, digits, -, -, filled, -, -⟩ := laid
  obtain ⟨c, s, rfl⟩ := List.exists_cons_of_ne_nil filled
  exact ⟨c, _, rfl, digits c (List.mem_append_left _ List.mem_cons_self)⟩

/-- The text of a number without its sign. -/
inductive Unsigned (f : Binary64) : List Char → Prop
  | infinite : f.magnitude = infiniteMagnitude → Unsigned f ['i', 'n', 'f']
  | finite {mantissa : Nat} {exponent : Int} {digits : List Char} :
      f.decode = .finite f.isNegative mantissa exponent → Laid (shown mantissa exponent) digits →
      Unsigned f digits

/-- Every number shows its sign and then its text without one. -/
theorem text_cases (f : Binary64) :
    f.isNaN = true ∧ (text f).toList = ['n', 'a', 'n'] ∨
      ∃ cs, (text f).toList = (if f.isNegative then ['-'] else []) ++ cs ∧ Unsigned f cs := by
  unfold text
  obtain ⟨number, is⟩ | ⟨magnitude, is⟩ | ⟨mantissa, e, is, -⟩ := f.decode_cases <;> rw [is]
  · exact .inl ⟨number, by decide⟩
  · refine .inr ⟨_, ?_, .infinite magnitude⟩
    cases f.isNegative <;> decide
  · obtain ⟨cs, text, laid⟩ := @FloatStyle.laid_finite .script rfl f.isNegative mantissa
      ((e : Int) - Binary64.digits)
    exact .inr ⟨cs, text, .finite is laid⟩

theorem Unsigned.begins {f : Binary64} {cs : List Char} (unsigned : Unsigned f cs) :
    ∃ c s, cs = c :: s ∧ (c = 'i' ∨ c.isDigit = true) := by
  cases unsigned with
  | infinite => exact ⟨'i', _, rfl, .inl rfl⟩
  | finite _ laid =>
      obtain ⟨c, s, is, digit⟩ := laid.begins
      exact ⟨c, s, is, .inr digit⟩

/-- The text of a number without a sign tells its magnitude. -/
theorem Unsigned.magnitude_eq {f g : Binary64} {cs : List Char} (first : Unsigned f cs)
    (second : Unsigned g cs) : f.magnitude = g.magnitude := by
  cases first with
  | infinite here =>
      cases second with
      | infinite there => exact here.trans there.symm
      | finite _ laid =>
          obtain ⟨c, s, is, digit⟩ := laid.begins
          cases is
          cases digit
  | finite decoded laid =>
      cases second with
      | infinite =>
          obtain ⟨c, s, is, digit⟩ := laid.begins
          cases is
          cases digit
      | finite decoded' laid' =>
          exact magnitude_of_shown decoded decoded' (laid.spelled_eq.symm.trans laid'.spelled_eq)

/-- Floats with the same text are the same float, if they are numbers. -/
theorem text_inj {f g : Binary64} (same : text f = text g) :
    f = g ∨ f.isNaN = true ∧ g.isNaN = true := by
  have same := congrArg String.toList same
  have begins (f : Binary64) (cs : List Char) (unsigned : Unsigned f cs) :
      ∃ c s, cs = c :: s ∧ c ≠ '-' ∧ c ≠ 'n' := by
    obtain ⟨c, s, is, rfl | digit⟩ := unsigned.begins
    · exact ⟨_, s, is, by decide, by decide⟩
    · refine ⟨c, s, is, fun minus => ?_, fun letter => ?_⟩
      · rw [minus] at digit
        cases digit
      · rw [letter] at digit
        cases digit
  obtain ⟨nan, is⟩ | ⟨cs, is, unsigned⟩ := text_cases f <;>
    obtain ⟨nan', is'⟩ | ⟨cs', is', unsigned'⟩ := text_cases g <;> rw [is, is'] at same
  · exact .inr ⟨nan, nan'⟩
  · obtain ⟨c, s, rfl, -, other⟩ := begins g cs' unsigned'
    cases sign : g.isNegative <;> rw [sign] at same <;> cases same
    exact absurd rfl other
  · obtain ⟨c, s, rfl, -, other⟩ := begins f cs unsigned
    cases sign : f.isNegative <;> rw [sign] at same <;> cases same
    exact absurd rfl other
  · obtain ⟨c, s, rfl, plain, -⟩ := begins f cs unsigned
    obtain ⟨c', s', rfl, plain', -⟩ := begins g cs' unsigned'
    have both : f.isNegative = g.isNegative ∧ c :: s = c' :: s' := by
      cases sign : f.isNegative <;> cases sign' : g.isNegative <;> rw [sign, sign'] at same
      · exact ⟨rfl, same⟩
      · exact absurd (List.cons.inj same).1 plain
      · exact absurd (List.cons.inj same).1.symm plain'
      · exact ⟨rfl, (List.cons.inj same).2⟩
    rw [← both.2] at unsigned'
    exact .inl (eq_of_magnitude both.1 (unsigned.magnitude_eq unsigned'))

/-! ## Characters -/

/-- The characters of a layout: digits, and those of a point and an exponent. -/
theorem Laid.mem {v : ℚ} {text : List Char} (laid : Laid v text) {c : Char} (member : c ∈ text) :
    c.isDigit = true ∨ c ∈ ['-', '.', 'e'] := by
  obtain @⟨whole, fraction, point, exponent, power, digits, pointed, marked, -, -, -⟩ := laid
  rw [List.append_assoc, List.mem_append, List.mem_append] at member
  rcases member with inside | inside | inside
  · exact .inl (digits c (List.mem_append_left _ inside))
  · cases pointed with
    | none => cases inside
    | point =>
        rcases List.mem_cons.1 inside with rfl | inside
        · exact .inr (by decide)
        · exact .inl (digits c (List.mem_append_right _ inside))
  · cases marked with
    | none => cases inside
    | mark =>
        rw [toList_toString, List.mem_cons, List.mem_append] at inside
        rcases inside with rfl | inside | inside
        · exact .inr (by decide)
        · split at inside
          · exact .inr (List.mem_cons.2 (.inl (List.mem_singleton.1 inside)))
          · cases inside
        · exact .inl (Nat.isDigit_of_mem_toDigits (by decide) (by decide) inside)

/-- A layout has a point or an exponent. -/
theorem Laid.exists_mem {v : ℚ} {text : List Char} (laid : Laid v text) :
    ∃ c ∈ text, c ∈ ['.', 'e'] := by
  obtain @⟨whole, fraction, point, exponent, power, -, pointed, marked, -, shows, -⟩ := laid
  cases pointed with
  | point => exact ⟨'.', by simp, by decide⟩
  | none =>
      cases marked with
      | mark => exact ⟨'e', by simp, by decide⟩
      | none => exact absurd rfl shows

/-- The characters of a text: digits, and those of signs, points, exponents and words. -/
theorem mem_text {f : Binary64} {c : Char} (member : c ∈ (text f).toList) :
    c.isDigit = true ∨ c ∈ ['-', '.', 'e', 'n', 'a', 'i', 'f'] := by
  have sign : ∀ c ∈ (if f.isNegative then ['-'] else []), c = '-' := by
    cases f.isNegative <;> simp
  have marks : ['-', '.', 'e'] ⊆ ['-', '.', 'e', 'n', 'a', 'i', 'f'] := by decide
  have nan : ['n', 'a', 'n'] ⊆ ['-', '.', 'e', 'n', 'a', 'i', 'f'] := by decide
  have infinity : ['i', 'n', 'f'] ⊆ ['-', '.', 'e', 'n', 'a', 'i', 'f'] := by decide
  obtain ⟨-, is⟩ | ⟨cs, is, unsigned⟩ := text_cases f <;> rw [is] at member
  · exact .inr (nan member)
  rcases List.mem_append.1 member with inside | inside
  · exact .inr (sign c inside ▸ List.mem_cons_self)
  · cases unsigned with
    | infinite => exact .inr (infinity inside)
    | finite _ laid =>
        exact (laid.mem inside).imp_right fun mark => marks mark

/-- A text has a character that is in no text of an integer. -/
theorem exists_mem_text (f : Binary64) : ∃ c ∈ (text f).toList, c ∈ ['.', 'e', 'n'] := by
  have marks : ['.', 'e'] ⊆ ['.', 'e', 'n'] := by decide
  obtain ⟨-, is⟩ | ⟨cs, is, unsigned⟩ := text_cases f <;> rw [is]
  · exact ⟨'n', by decide, by decide⟩
  · cases unsigned with
    | infinite => exact ⟨'n', List.mem_append_right _ (by decide), by decide⟩
    | finite _ laid =>
        obtain ⟨c, member, mark⟩ := laid.exists_mem
        exact ⟨c, List.mem_append_right _ member, marks mark⟩

end FloatText
end ScriptMachine
