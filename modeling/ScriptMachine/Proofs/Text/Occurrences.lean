import ScriptMachine.Text.Search

/-!
Occurrences of a text. A search finds the first place where a text occurs, and there is none if it
finds nothing. Cut at its occurrences, a text comes apart into pieces in which none is left, and
these give the text when they are put together again.
-/

namespace ScriptMachine.Text

variable {t s before after piece : List Char} {k : Nat}

/-- A text occurs in another at a place. -/
def OccursAt (t s : List Char) (k : Nat) : Prop :=
  t <+: s.drop k

/-! ## Searching -/

/-- A text is cut at the first occurrence. -/
theorem cut?_eq_some (found : cut? t s = some (before, after)) :
    s = before ++ (t ++ after) ∧ ∀ k < before.length, ¬ OccursAt t s k := by
  induction s generalizing before with
  | nil =>
      by_cases nonempty : t = []
      · subst nonempty
        cases found
        exact ⟨rfl, fun _ => nofun⟩
      · rw [cut?_nil nonempty] at found
        cases found
  | cons c s ih =>
      by_cases here : t <+: c :: s
      · rw [cut?_of_isPrefix here] at found
        cases found
        exact ⟨List.prefix_iff_eq_append.1 here |>.symm, fun _ => nofun⟩
      · rw [cut?_cons here, Option.map_eq_some_iff] at found
        obtain ⟨⟨front, back⟩, found, same⟩ := found
        cases same
        obtain ⟨parts, none⟩ := ih found
        refine ⟨congrArg (c :: ·) parts, fun k less => ?_⟩
        cases k with
        | zero => exact here
        | succ k => exact none k (Nat.lt_of_succ_lt_succ less)

/-- A text is not cut if nothing occurs in it. -/
theorem cut?_eq_none (missing : cut? t s = none) (k : Nat) : ¬ OccursAt t s k := by
  have notHere : ¬ t <+: s := by
    intro here
    rw [cut?_of_isPrefix here] at missing
    cases missing
  induction s generalizing k with
  | nil =>
      rw [OccursAt, List.drop_nil]
      exact notHere
  | cons c s ih =>
      cases k with
      | zero => exact notHere
      | succ k =>
          rw [cut?_cons notHere, Option.map_eq_none_iff] at missing
          refine ih missing k fun here => ?_
          rw [cut?_of_isPrefix here] at missing
          cases missing

/-- A search finds the first place where a text occurs, and the whole of it. -/
theorem find?_eq_some (found : find? t s = some k) :
    OccursAt t s k ∧ k + t.length ≤ s.length ∧ ∀ j < k, ¬ OccursAt t s j := by
  obtain ⟨⟨before, after⟩, cut, rfl⟩ := Option.map_eq_some_iff.1 found
  obtain ⟨rfl, none⟩ := cut?_eq_some cut
  refine ⟨?_, ?_, none⟩
  · rw [OccursAt, List.drop_left]
    exact List.prefix_append t after
  · change before.length + t.length ≤ _
    rw [List.length_append, List.length_append]
    omega

theorem find?_eq_none (missing : find? t s = none) (k : Nat) : ¬ OccursAt t s k :=
  cut?_eq_none (Option.map_eq_none_iff.1 missing) k

/-- To contain is to be found somewhere. -/
theorem contains_eq_isSome_find? : contains t s = (find? t s).isSome := by
  rw [contains, find?, Option.isSome_map]

theorem contains_eq_false (none : ∀ k, ¬ OccursAt t s k) : contains t s = false := by
  rw [contains_eq_isSome_find?, Option.isSome_eq_false_iff, Option.isNone_iff_eq_none]
  refine Option.eq_none_iff_forall_not_mem.2 fun k found => ?_
  exact none k (find?_eq_some found).1

/-- What occurs lies within the text. -/
theorem OccursAt.inside (nonempty : t ≠ []) (occurs : OccursAt t s k) :
    k + t.length ≤ s.length := by
  have short := List.IsPrefix.length_le occurs
  rw [List.length_drop] at short
  have positive := List.length_pos_iff.2 nonempty
  omega

/-! ## Cutting -/

/-- In front of its first occurrence a text does not occur. -/
theorem contains_before (nonempty : t ≠ []) (cut : cut? t s = some (before, after)) :
    contains t before = false := by
  obtain ⟨rfl, none⟩ := cut?_eq_some cut
  refine contains_eq_false fun k occurs => ?_
  have inside := OccursAt.inside nonempty occurs
  have positive := List.length_pos_iff.2 nonempty
  refine none k (by omega) ?_
  rw [OccursAt, List.drop_append_of_le_length (by omega)]
  exact occurs.trans (List.prefix_append _ _)

theorem splitWithin_ne_nil (t : List Char) (limit : Nat) (s : List Char) :
    splitWithin t limit s ≠ [] := by
  cases limit with
  | zero => exact List.cons_ne_nil _ _
  | succ limit =>
      rw [splitWithin]
      split <;> exact List.cons_ne_nil _ _

/-- The pieces give the text again, however many occurrences are cut. -/
theorem intercalate_splitWithin (t : List Char) (limit : Nat) (s : List Char) :
    t.intercalate (splitWithin t limit s) = s := by
  induction limit generalizing s with
  | zero => exact List.intercalate_singleton
  | succ limit ih =>
      rw [splitWithin]
      split
      · next before after cut =>
          obtain ⟨parts, -⟩ := cut?_eq_some cut
          obtain ⟨piece, rest, pieces⟩ :=
            List.exists_cons_of_ne_nil (splitWithin_ne_nil t limit after)
          rw [pieces, List.intercalate_cons_cons, ← pieces, ih, parts, List.append_assoc]
      · exact List.intercalate_singleton

/-- With enough cuts no occurrence is left: each takes at least a character away. -/
theorem contains_of_mem_splitWithin (nonempty : t ≠ []) {limit : Nat} (enough : s.length ≤ limit)
    (member : piece ∈ splitWithin t limit s) : contains t piece = false := by
  induction limit generalizing s with
  | zero =>
      obtain rfl := List.mem_singleton.1 member
      rw [List.length_eq_zero_iff.1 (Nat.le_zero.1 enough), contains, cut?_nil nonempty]
      rfl
  | succ limit ih =>
      rw [splitWithin] at member
      split at member
      · next before after cut =>
          rcases List.mem_cons.1 member with rfl | later
          · exact contains_before nonempty cut
          · obtain ⟨rfl, -⟩ := cut?_eq_some cut
            have positive := List.length_pos_iff.2 nonempty
            rw [List.length_append, List.length_append] at enough
            exact ih (by omega) later
      · next missing =>
          obtain rfl := List.mem_singleton.1 member
          exact contains_eq_false (cut?_eq_none missing)

/-- Splitting is undone by joining. -/
theorem intercalate_split (t s : List Char) : t.intercalate (split t s) = s :=
  intercalate_splitWithin t s.length s

/-- No piece has the separator in it. -/
theorem contains_of_mem_split (nonempty : t ≠ []) (member : piece ∈ split t s) :
    contains t piece = false :=
  contains_of_mem_splitWithin nonempty (Nat.le_refl _) member

/-- To replace is to split and to join with something else. -/
theorem replace_of_ne_nil (nonempty : t ≠ []) (r s : List Char) :
    replace t r s = r.intercalate (split t s) := by
  rw [replace, if_neg]
  rwa [List.isEmpty_iff]

end ScriptMachine.Text
