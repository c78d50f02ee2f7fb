/-!
The first occurrence of a text in another one. A place is looked at closely only if the
characters there have the same digest as the text that is looked for, and the digest at
one place follows from the digest at the place before it. So the time of a search grows
with the size of the two texts together, not with their product.
-/

namespace ScriptMachine.Text

/-- The factor by which the places of a digest differ. -/
def radix : UInt64 := 6364136223846793005

/-- The digest of a text: the word that its characters spell as digits. -/
def digest (cs : List Char) : UInt64 :=
  cs.foldl (fun n c => n * radix + c.val.toUInt64) 0

/-- What a digit counts when as many others follow it as there are in `cs`. -/
def weight (cs : List Char) : UInt64 :=
  cs.foldl (fun n _ => n * radix) 1

/-- Looks for `t`, whose digest is `target`, at the front of `s` and farther on. The window
is made of the first characters of `s`, as many as `t` has: `current` is its digest and
`ahead` is what follows it. `before` holds the characters passed, latest first. -/
def cutFrom (t : List Char) (target factor : UInt64) (before : List Char) (current : UInt64) :
    (s ahead : List Char) → Option (List Char × List Char)
  | s, ahead =>
      if current == target && t.isPrefixOf s then some (before.reverse, s.drop t.length)
      else
        match s, ahead with
        | c :: s, d :: ahead =>
            cutFrom t target factor (c :: before)
              (current * radix + d.val.toUInt64 - c.val.toUInt64 * factor) s ahead
        | _, _ => none

/-- The parts of a text before and after the first occurrence of `t`. -/
def cut? (t s : List Char) : Option (List Char × List Char) :=
  cutFrom t (digest t) (weight t) [] (digest (s.take t.length)) s (s.drop t.length)

/-! ## The digest of a window -/

theorem foldl_weight (cs : List Char) (n : UInt64) :
    cs.foldl (fun n _ => n * radix) n = n * weight cs := by
  induction cs generalizing n with
  | nil => simp [weight]
  | cons c cs ih =>
      have step : weight (c :: cs) = 1 * radix * weight cs := ih (1 * radix)
      rw [List.foldl_cons, ih, step]
      generalize radix = r
      grind

/-- A digest goes on from the digest of what came before. -/
theorem foldl_digest (cs : List Char) (n : UInt64) :
    cs.foldl (fun n c => n * radix + c.val.toUInt64) n = n * weight cs + digest cs := by
  induction cs generalizing n with
  | nil => simp [weight, digest]
  | cons c cs ih =>
      have step : weight (c :: cs) = 1 * radix * weight cs := foldl_weight cs (1 * radix)
      have first : digest (c :: cs) = (0 * radix + c.val.toUInt64) * weight cs + digest cs := ih _
      rw [List.foldl_cons, ih, step, first]
      generalize radix = r
      grind

theorem weight_cons (c : Char) (cs : List Char) : weight (c :: cs) = radix * weight cs := by
  rw [weight, List.foldl_cons, foldl_weight, UInt64.one_mul]

theorem digest_cons (c : Char) (cs : List Char) :
    digest (c :: cs) = c.val.toUInt64 * weight cs + digest cs := by
  rw [digest, List.foldl_cons, foldl_digest, UInt64.zero_mul, UInt64.zero_add]

theorem digest_concat (cs : List Char) (d : Char) :
    digest (cs ++ [d]) = digest cs * radix + d.val.toUInt64 := by
  simp [digest]

/-- The weight depends on the number of characters only. -/
theorem weight_congr {cs ds : List Char} (same : cs.length = ds.length) :
    weight cs = weight ds := by
  induction cs generalizing ds with
  | nil => rw [List.length_eq_zero_iff.1 same.symm]
  | cons c cs ih =>
      cases ds with
      | nil => simp at same
      | cons d ds => rw [weight_cons, weight_cons, ih (by simpa using same)]

/-- The digest of a window follows from that of the window one character earlier. -/
theorem digest_take_tail {n : Nat} {c d : Char} {s ahead : List Char}
    (split : (c :: s).drop n = d :: ahead) (t : List Char) (size : t.length = n) :
    digest (s.take n) =
      digest ((c :: s).take n) * radix + d.val.toUInt64 - c.val.toUInt64 * weight t := by
  cases n with
  | zero =>
      simp only [List.drop_zero, List.cons.injEq] at split
      simp only [List.length_eq_zero_iff] at size
      simp [split.1, size, weight, digest]
  | succ n =>
      have last : s[n]? = some d := by
        have := congrArg List.head? split
        simpa [List.head?_drop] using this
      have same : weight t = radix * weight (s.take n) := by
        rw [← weight_cons c]
        have : n < s.length := (List.getElem?_eq_some_iff.1 last).1
        exact weight_congr (by simp [size]; omega)
      rw [List.take_add_one, last, Option.toList_some, digest_concat, List.take_succ_cons,
        digest_cons, same]
      generalize radix = r
      generalize weight (List.take n s) = w
      generalize digest (List.take n s) = e
      grind

/-! ## The first occurrence -/

/-- What was passed already stays in front of the part before the occurrence. -/
theorem cutFrom_before (t : List Char) (target factor : UInt64) (before : List Char)
    (current : UInt64) (s ahead : List Char) :
    cutFrom t target factor before current s ahead =
      (cutFrom t target factor [] current s ahead).map fun p => (before.reverse ++ p.1, p.2) := by
  induction ahead generalizing before current s with
  | nil => unfold cutFrom; split <;> simp
  | cons d ahead ih =>
      unfold cutFrom
      split
      · simp
      · cases s with
        | nil => simp
        | cons c s =>
            simp only
            rw [ih (c :: before), ih [c], Option.map_map]
            congr 1
            funext p
            simp

/-- A text at the very front is found at once. -/
theorem cut?_of_isPrefix {t s : List Char} (found : t <+: s) :
    cut? t s = some ([], s.drop t.length) := by
  obtain ⟨rest, rfl⟩ := found
  unfold cut? cutFrom
  simp

/-- Unless it is at the very front, a text is searched for behind the first character. -/
theorem cut?_cons {t s : List Char} {c : Char} (notHere : ¬ t <+: c :: s) :
    cut? t (c :: s) = (cut? t s).map fun p => (c :: p.1, p.2) := by
  have no : t.isPrefixOf (c :: s) = false := by
    simpa [← List.isPrefixOf_iff_prefix] using notHere
  rw [cut?]
  cases rest : (c :: s).drop t.length with
  | nil =>
      have short : s.length < t.length := by
        have := congrArg List.length rest
        simp at this
        cases t with
        | nil => simp at notHere
        | cons => simp at *; omega
      have nothing : t.isPrefixOf s = false := by
        rw [Bool.eq_false_iff, Ne, List.isPrefixOf_iff_prefix]
        intro h
        exact absurd h.length_le (by omega)
      have ahead : s.drop t.length = [] := by simp; omega
      rw [cut?, ahead]
      unfold cutFrom
      simp [no, nothing]
  | cons d ahead =>
      have next : ahead = s.drop t.length := by
        have := congrArg List.tail rest
        simpa using this.symm
      unfold cutFrom
      simp only [no, Bool.and_false, Bool.false_eq_true, if_false]
      rw [cutFrom_before, ← digest_take_tail rest t rfl, next]
      rfl

/-- Nothing but the empty text occurs in the empty text. -/
theorem cut?_nil {t : List Char} (nonempty : t ≠ []) : cut? t [] = none := by
  cases t with
  | nil => exact absurd rfl nonempty
  | cons => simp [cut?, cutFrom]

end ScriptMachine.Text
