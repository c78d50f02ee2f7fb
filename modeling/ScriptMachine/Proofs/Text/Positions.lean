import Mathlib.Order.Bounds.Basic
import ScriptMachine.Operation.TextMethods
import ScriptMachine.Proofs.Text.Occurrences

/-!
Positions in texts as words. What is cut out of a text between two positions is another text if this
occurs at the first and the second is the one behind it. So the index of a text is the least
position from which it can be cut out. Parts of a text are texts, which are joined by texts.
-/

namespace ScriptMachine

namespace Word

theorem toInt_ofNat {n limit : Nat} (fits : Fits limit) (small : n ≤ limit) :
    (Int64.ofNat n).toInt = n := by
  have bound : bound = 2 ^ 63 := rfl
  have less := fits.2
  exact Int64.toInt_ofNat_of_lt (by omega)

theorem nonneg_iff {w : Int64} : 0 ≤ w ↔ 0 ≤ w.toInt :=
  Int64.le_iff_toInt_le

end Word

namespace Text

variable {s t : String}

/-- What stands in a text from one position up to another, if both are in it and in order. -/
def between? (s : String) (first stop : Int64) : Option String :=
  if first < 0 ∨ (s.length : Int) < stop.toInt ∨ stop < first then none
  else some (slice s first.toInt.toNat (stop.toInt - first.toInt).toNat)

/-- A text stands from a position up to the one behind all its characters if it occurs there. -/
theorem between?_eq_some {first stop : Int64} (positive : 0 ≤ first)
    (size : stop.toInt = first.toInt + t.length) : between? s first stop = some t ↔
      OccursAt t.toList s.toList first.toInt.toNat ∧ first.toInt + t.length ≤ s.length := by
  have zero := Word.nonneg_iff.1 positive
  have notBelow : ¬ first < 0 := by
    rw [Int64.lt_iff_toInt_lt]
    exact Int.not_lt.2 zero
  have inOrder : ¬ stop < first := by
    rw [Int64.lt_iff_toInt_lt]
    omega
  have count : (stop.toInt - first.toInt).toNat = t.toList.length := by
    rw [String.length_toList]
    omega
  unfold between?
  by_cases outside : (s.length : Int) < stop.toInt
  · rw [if_pos (.inr (.inl outside))]
    refine ⟨nofun, fun ⟨_, inside⟩ => ?_⟩
    omega
  · rw [if_neg (by simp [notBelow, inOrder, outside]), Option.some_inj, ← String.toList_inj,
      toList_slice, count, OccursAt, List.prefix_iff_eq_take, eq_comm]
    exact ⟨fun same => ⟨same, by omega⟩, And.left⟩

/-- The positions such that what is cut out from there on, as long as a text, is this text. -/
def Positions (cut : Int64 → Int64 → Option String) (t : String) (length : Int64) : Set Int64 :=
  {first | 0 ≤ first ∧ ∃ stop : Int64, stop.toInt = first.toInt + length.toInt ∧
    cut first stop = some t}

theorem mem_positions (fits : Word.Fits s.length) (fits' : Word.Fits t.length) {first : Int64} :
    first ∈ Positions (between? s) t (Int64.ofNat t.length) ↔ 0 ≤ first ∧
      OccursAt t.toList s.toList first.toInt.toNat ∧ first.toInt + t.length ≤ s.length := by
  have size : (Int64.ofNat t.length).toInt = t.length := Word.toInt_ofNat fits' (Nat.le_refl _)
  constructor
  · rintro ⟨positive, stop, behind, cut⟩
    rw [size] at behind
    exact ⟨positive, (between?_eq_some positive behind).1 cut⟩
  · rintro ⟨positive, occurs, inside⟩
    have zero := Word.nonneg_iff.1 positive
    have behind : (Int64.ofNat (first.toInt.toNat + t.length)).toInt = first.toInt + t.length := by
      rw [Word.toInt_ofNat fits (by omega)]
      omega
    exact ⟨positive, _, size ▸ behind, (between?_eq_some positive behind).2 ⟨occurs, inside⟩⟩

/-- A text that is not found can be cut out nowhere. -/
theorem positions_eq_empty (fits : Word.Fits s.length) (fits' : Word.Fits t.length)
    (missing : find? t.toList s.toList = none) :
    Positions (between? s) t (Int64.ofNat t.length) = ∅ := by
  refine Set.eq_empty_of_forall_notMem fun first member => ?_
  exact find?_eq_none missing _ ((mem_positions fits fits').1 member).2.1

/-- The place where a text is found is the first where it can be cut out. -/
theorem isLeast_positions (fits : Word.Fits s.length) (fits' : Word.Fits t.length) {k : Nat}
    (found : find? t.toList s.toList = some k) : (Int64.ofNat k).toInt = k ∧
      IsLeast (Positions (between? s) t (Int64.ofNat t.length)) (Int64.ofNat k) := by
  obtain ⟨occurs, inside, earliest⟩ := find?_eq_some found
  rw [String.length_toList, String.length_toList] at inside
  have index : (Int64.ofNat k).toInt = k := Word.toInt_ofNat fits (by omega)
  refine ⟨index, (mem_positions fits fits').2 ⟨?_, ?_, ?_⟩, fun other member => ?_⟩
  · rw [Word.nonneg_iff, index]
    exact Int.natCast_nonneg k
  · rwa [index, Int.toNat_natCast]
  · rw [index]
    omega
  · obtain ⟨positive, occurs', -⟩ := (mem_positions fits fits').1 member
    have zero := Word.nonneg_iff.1 positive
    rw [Int64.le_iff_toInt_le, index]
    by_contra before
    exact earliest other.toInt.toNat (by omega) occurs'

/-- The index of a text is the least position at which it can be cut out of the other, or -1. -/
theorem exists_index (fits : Word.Fits s.length) (fits' : Word.Fits t.length) : ∃ index : Int64,
    Operation.indexValue (find? t.toList s.toList) = .int index ∧
    (index = -1 ↔ contains t.toList s.toList = false) ∧
    s.startsWith t = (index == 0) ∧
    (index = -1 → Positions (between? s) t (Int64.ofNat t.length) = ∅) ∧
    (index ≠ -1 → IsLeast (Positions (between? s) t (Int64.ofNat t.length)) index) := by
  rw [contains_eq_isSome_find?]
  have startsWith {index : Int64} (start : OccursAt t.toList s.toList 0 ↔ index = 0) :
      s.startsWith t = (index == 0) := by
    rw [Bool.eq_iff_iff, String.startsWith_string_iff, beq_iff_eq]
    exact start
  cases found : find? t.toList s.toList with
  | none =>
      exact ⟨-1, rfl, by simp, startsWith (iff_of_false (find?_eq_none found 0) (by decide)),
        fun _ => positions_eq_empty fits fits' found, absurd rfl⟩
  | some k =>
      obtain ⟨occurs, -, earliest⟩ := find?_eq_some found
      obtain ⟨index, least⟩ := isLeast_positions fits fits' found
      have is : Int64.ofNat k ≠ -1 := fun none => absurd (none ▸ least.1.1) (by decide)
      refine ⟨Int64.ofNat k, rfl, iff_of_false is nofun, startsWith ?_, fun none => absurd none is,
        fun _ => least⟩
      rw [← Int64.toInt_inj, index]
      constructor
      · intro start
        by_contra later
        exact earliest 0 (Nat.pos_of_ne_zero fun zero => later (congrArg Nat.cast zero)) start
      · intro zero
        obtain rfl : k = 0 := Int.ofNat.inj zero
        exact occurs

/-! ## Parts -/

theorem intercalate_ofList (r : String) (pieces : List (List Char)) :
    r.intercalate (pieces.map String.ofList) = String.ofList (r.toList.intercalate pieces) := by
  rw [← String.toList_inj, String.toList_intercalate, List.map_map]
  simp [Function.comp_def]

/-- A text is joined again by what it was split at. -/
theorem intercalate_parts (s t : String) :
    t.intercalate ((split t.toList s.toList).map String.ofList) = s := by
  rw [intercalate_ofList, intercalate_split, String.ofList_toList]

/-- Parts joined by another text are the text with this put in the place of what it was split at. -/
theorem intercalate_parts_other (s r : String) (nonempty : t.toList ≠ []) :
    r.intercalate ((split t.toList s.toList).map String.ofList) =
      String.ofList (replace t.toList r.toList s.toList) := by
  rw [intercalate_ofList, replace_of_ne_nil nonempty]

end Text

end ScriptMachine
