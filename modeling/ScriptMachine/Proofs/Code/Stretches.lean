import ScriptMachine.Proofs.Code.Certificate

/-!
Stretches of code, seen from inside. The body of a loop is typed by itself: on an empty stack, and
inside regions of which it knows only how many there are. In its method it stands above the
operands of the loop and inside regions that others have opened. Control flow does not see the
difference. As long as it stays in the stretch and closes no region around it, the layouts are those
of the stretch, raised by the operands below.
-/

namespace ScriptMachine

/-! ## Layouts on top of others -/

/-- The region on top of so many more operands. -/
def Region.raised (low : Nat) (r : Region) : Region :=
  { r with height := r.height + low }

/-- How a layout of a stretch stands in the method: on top of `low` operands, and inside the regions
`outer`, which the stretch knows as `around`. -/
structure Rests (low : Nat) (around outer : List Region) (inner whole : Layout) : Prop where
  alike : around.length = outer.length
  depth : whole.depth = inner.depth + low
  regions : ∃ own, inner.regions = own ++ around ∧ whole.regions = own.map (·.raised low) ++ outer

namespace Rests

variable {low : Nat} {around outer : List Region} {inner whole whole' : Layout} {i : Instruction}
  {ip ip' : Nat}

/-- The operands that are left and those that take the place of the others. -/
theorem falls (rests : Rests low around outer inner whole) (operands : i.pops ≤ inner.depth) :
    Rests low around outer { inner with depth := i.fallDepth inner.depth }
      { whole with depth := i.fallDepth whole.depth } where
  alike := rests.alike
  depth := by
    have depth := rests.depth
    simp only [Instruction.fallDepth]
    omega
  regions := rests.regions

theorem opens (rests : Rests low around outer inner whole) (target : Nat) :
    Rests low around outer
      { inner with regions := ⟨target, inner.depth⟩ :: inner.regions }
      { whole with regions := ⟨target, whole.depth⟩ :: whole.regions } := by
  obtain ⟨own, known, opened⟩ := rests.regions
  refine ⟨rests.alike, rests.depth, ⟨target, inner.depth⟩ :: own, ?_, ?_⟩
  · rw [known]
    rfl
  · rw [opened, rests.depth]
    rfl

/-- A region that is closed is one of the stretch, or else one around it is closed. -/
theorem closes (rests : Rests low around outer inner whole)
    (still : outer.length ≤ whole.regions.tail.length) :
    Rests low around outer { inner with regions := inner.regions.tail }
      { whole with regions := whole.regions.tail } := by
  obtain ⟨own, known, opened⟩ := rests.regions
  cases own with
  | cons r own =>
      refine ⟨rests.alike, rests.depth, own, ?_, ?_⟩
      · rw [known]
        rfl
      · rw [opened]
        rfl
  | nil =>
      have alike := rests.alike
      rw [opened, List.map_nil, List.nil_append, List.length_tail] at still
      have none : outer = [] := List.length_eq_zero_iff.1 (by omega)
      subst none
      obtain rfl := List.length_eq_zero_iff.1 alike
      refine ⟨rfl, rests.depth, [], ?_, ?_⟩
      · rw [known]
        rfl
      · rw [opened]
        rfl

/-- Control goes the same way in the stretch and in the method. -/
theorem next (rests : Rests low around outer inner whole) (operands : i.pops ≤ inner.depth)
    (goes : (ip', whole') ∈ i.successors ip whole)
    (still : outer.length ≤ whole'.regions.length) :
    ∃ inner', (ip', inner') ∈ i.successors ip inner ∧ Rests low around outer inner' whole' := by
  have below := rests.falls operands
  obtain ⟨op, arg, loc⟩ := i
  cases op with
  | ret => cases goes
  | raise => cases goes
  | jump =>
      cases List.mem_singleton.1 goes
      exact ⟨_, List.mem_singleton.2 rfl, rests⟩
  | pushExceptionHandler =>
      cases List.mem_singleton.1 goes
      exact ⟨_, List.mem_singleton.2 rfl, rests.opens arg⟩
  | popExceptionHandler =>
      cases List.mem_singleton.1 goes
      exact ⟨_, List.mem_singleton.2 rfl, rests.closes still⟩
  | jumpIfTrue | jumpIfFalse =>
      rcases List.mem_cons.1 goes with same | other
      · cases same
        exact ⟨_, List.mem_cons_self, below⟩
      · cases List.mem_singleton.1 other
        exact ⟨_, List.mem_cons_of_mem _ (List.mem_singleton.2 rfl), below⟩
  | nullCoalesce =>
      rcases List.mem_cons.1 goes with same | other
      · cases same
        exact ⟨_, List.mem_cons_self, below⟩
      · cases List.mem_singleton.1 other
        exact ⟨_, List.mem_cons_of_mem _ (List.mem_singleton.2 rfl), rests⟩
  | _ =>
      cases List.mem_singleton.1 goes
      exact ⟨_, List.mem_singleton.2 rfl, below⟩

/-- The innermost region, which may not be one of those around the stretch. -/
theorem innermost (rests : Rests low around outer inner whole) {r : Region} {others : List Region}
    (opened : whole.regions = r :: others) (still : outer.length ≤ others.length) :
    ∃ height rest, inner.regions = ⟨r.target, height⟩ :: rest ∧
      Rests low around outer ⟨height, rest⟩ ⟨r.height, others⟩ := by
  obtain ⟨own, known, whole⟩ := rests.regions
  rw [opened] at whole
  cases own with
  | nil =>
      have length := congrArg List.length whole
      rw [List.map_nil, List.nil_append, List.length_cons] at length
      omega
  | cons first own =>
      obtain ⟨rfl, rfl⟩ := List.cons.inj whole
      exact ⟨first.height, own ++ around, known, rests.alike, rfl, own, rfl, rfl⟩

end Rests

/-! ## Stretches -/

/-- The sketch fits all code from one instruction to another. -/
def Covers (pool : Array Constant) (body : Array Instruction) (sketch : Sketch)
    (first last : Nat) : Prop :=
  ∀ ip, first ≤ ip → ip ≤ last → ∃ i v, body[ip]? = some i ∧ i.Fits pool sketch ip v

/-- The layout at an instruction is what the sketch has there, seen from the method. -/
def Known (sketch : Sketch) (low : Nat) (around outer : List Region) (ip : Nat) (l : Layout) :
    Prop :=
  ∃ inner top, sketch ip = some ⟨inner, top⟩ ∧ Rests low around outer inner l

namespace Covers

variable {pool : Array Constant} {body : Array Instruction} {sketch : Sketch}
  {first last ip ip' low : Nat} {around outer : List Region} {l l' : Layout} {i : Instruction}

theorem fits_at (covers : Covers pool body sketch first last) (inside : first ≤ ip ∧ ip ≤ last)
    (found : body[ip]? = some i) {v : View} (here : sketch ip = some v) :
    i.Fits pool sketch ip v := by
  obtain ⟨j, w, same, fits⟩ := covers ip inside.1 inside.2
  obtain rfl := Option.some.inj (found.symm.trans same)
  obtain rfl := Option.some.inj (here.symm.trans fits.here)
  exact fits

theorem next (covers : Covers pool body sketch first last) (inside : first ≤ ip ∧ ip ≤ last)
    (known : Known sketch low around outer ip l) (found : body[ip]? = some i)
    (goes : (ip', l') ∈ i.successors ip l) (still : outer.length ≤ l'.regions.length) :
    Known sketch low around outer ip' l' := by
  obtain ⟨inner, top, here, rests⟩ := known
  have fits := covers.fits_at inside found here
  obtain ⟨inner', goes', rests'⟩ := rests.next fits.operands goes still
  obtain ⟨top', there, _⟩ := fits.next _ goes'
  exact ⟨inner', top', there, rests'⟩

theorem recovers (covers : Covers pool body sketch first last) (inside : first ≤ ip ∧ ip ≤ last)
    (known : Known sketch low around outer ip l) {r : Region} {others : List Region}
    (opened : l.regions = r :: others) (still : outer.length ≤ others.length) :
    Known sketch low around outer r.target ⟨r.height, others⟩ := by
  obtain ⟨inner, top, here, rests⟩ := known
  obtain ⟨i, _, found, _⟩ := covers ip inside.1 inside.2
  have fits := covers.fits_at inside found here
  obtain ⟨height, rest, known, rests'⟩ := rests.innermost opened still
  exact ⟨_, .any, fits.guarded ⟨r.target, height⟩ rest ⟨[], known.symm⟩, rests'⟩

/-- An instruction of a stretch finds its operands above those that are not its own. -/
theorem operands (covers : Covers pool body sketch first last) (inside : first ≤ ip ∧ ip ≤ last)
    (known : Known sketch low around outer ip l) (found : body[ip]? = some i) :
    low + i.pops ≤ l.depth := by
  obtain ⟨inner, top, here, rests⟩ := known
  have enough := (covers.fits_at inside found here).operands
  have depth := rests.depth
  change i.pops ≤ inner.depth at enough
  omega

end Covers

theorem Known.low_le {sketch : Sketch} {low ip : Nat} {around outer : List Region} {l : Layout}
    (known : Known sketch low around outer ip l) : low ≤ l.depth := by
  obtain ⟨inner, top, _, rests⟩ := known
  rw [rests.depth]
  exact Nat.le_add_left low inner.depth

/-- So many regions of which nothing is known. Their handlers stand one behind the other. -/
def fence (start : Nat) : Nat → List Region
  | 0 => []
  | count + 1 => ⟨start + count, 0⟩ :: fence start count

theorem length_fence (start count : Nat) : (fence start count).length = count := by
  induction count with
  | zero => rfl
  | succ count ih => rw [fence, List.length_cons, ih]

theorem level_fence (start count : Nat) : Level 0 (fence start count) := by
  induction count with
  | zero => exact level_nil 0
  | succ count ih => exact List.forall_mem_cons.2 ⟨Nat.le_refl 0, ih⟩

theorem suffix_fence {start count : Nat} {r : Region} {rest : List Region}
    (suffix : r :: rest <:+ fence start count) :
    ∃ k, r = ⟨start + k, 0⟩ ∧ rest = fence start k := by
  induction count with
  | zero => exact absurd (List.suffix_nil.1 suffix) (List.cons_ne_nil r rest)
  | succ count ih =>
      rcases List.suffix_cons_iff.1 suffix with same | shorter
      · obtain ⟨rfl, rfl⟩ := List.cons.inj same
        exact ⟨count, rfl, rfl⟩
      · exact ih shorter

/-- Code that is typed inside unknown regions, and that leaves an empty stack, is covered. The view
behind it is that in front of it. -/
theorem Typed.covered {pool : Array Constant} {code : Fragment} {first depth : Nat} (count : Nat)
    (typed : ∀ around, Level 0 around → around.length = count →
      Typed pool none (fun sketch => Guarded around sketch ∧ (∀ ip < first,
          sketch ip = some (view 0 around)) ∧ sketch (first + code.length) = some (view 0 around))
        code first (view depth around) (view 0 around))
    {body : Array Instruction} (placed : ∀ k i, code[k]? = some (Slot.fixed i) →
      body[first + k]? = some i) {last : Nat} (length : code.length = last + 1 - first)
    (inside : first ≤ last) :
    ∃ sketch around, around.length = count ∧ Covers pool body sketch first last ∧
      sketch first = some (view depth around) := by
  let around := fence (first + code.length + 1) count
  have size : around.length = count := length_fence _ count
  obtain ⟨views, same, head, fits⟩ := typed around (level_fence _ count) size
  let sketch : Sketch := fun ip =>
    if ip < first then some (view 0 around)
    else if ip ≤ first + code.length then (views ++ [view 0 around])[ip - first]?
    else some (view 0 (fence (first + code.length + 1) (ip - (first + code.length + 1))))
  have shown : sketch.Shows first (views ++ [view 0 around]) := by
    intro k v found
    have within := (List.getElem?_eq_some_iff.1 found).1
    rw [List.length_append, List.length_singleton, same] at within
    dsimp only [sketch]
    rw [if_neg (by omega), if_pos (by omega), Nat.add_sub_cancel_left]
    exact found
  have guarded : Guarded around sketch := by
    intro r rest suffix
    obtain ⟨k, rfl, rfl⟩ := suffix_fence suffix
    dsimp only [sketch]
    rw [if_neg (by omega), if_neg (by omega), Nat.add_sub_cancel_left]
  have front (ip : Nat) (before : ip < first) : sketch ip = some (view 0 around) :=
    if_pos before
  have behind : sketch (first + code.length) = some (view 0 around) := by
    have last : (views ++ [view 0 around])[views.length]? = some (view 0 around) :=
      List.getElem?_concat_length
    rw [← same]
    exact shown _ _ last
  have fine := fits sketch shown ⟨guarded, front, behind⟩
  refine ⟨sketch, around, size, fun ip above below => ?_, shown.head head⟩
  obtain ⟨k, rfl⟩ := Nat.exists_eq_add_of_le above
  have within : k < code.length := by omega
  have found := List.getElem?_eq_getElem within
  obtain ⟨fixed, v, fit⟩ := Slot.fits_none (fine k _ found)
  exact ⟨_, v, placed k _ (found.trans (congrArg some fixed)), fit⟩

namespace Linked

/-- A round of a loop that stores what is on top, runs the body and jumps back. -/
def roundCode (ref : Ref) (loc : Location) (nest : Nest) (body : Stmt) (top start : Nat) :
    Fragment :=
  let round := body.code nest.inLoop (start + 1)
  ref.store loc :: Fragment.close round top (start + 1 + round.length + 1)
    ++ [.of body.stamp .jump top]

theorem length_roundCode (ref : Ref) (loc : Location) (nest : Nest) (body : Stmt)
    (top start : Nat) :
    (roundCode ref loc nest body top start).length
      = (body.code nest.inLoop (start + 1)).length + 2 := by
  simp only [roundCode, List.cons_append, List.length_cons, List.length_append,
    Fragment.length_close, List.length_nil]

/-- A round of a loop is covered, with one value on top at its beginning. -/
theorem Stmt.covered {ctx : Context} {slots : Nat} {body : Stmt}
    (valid : body.Valid ctx true slots true) (ref : Ref) (loc : Location) (nest : Nest)
    {top start : Nat} (before : top < start) {code : Array Instruction}
    (placed : ∀ k i, (roundCode ref loc nest body top start)[k]? = some (Slot.fixed i) →
      code[start + k]? = some i) :
    ∃ sketch around, around.length = nest.regions ∧
      Covers ctx.pool code sketch start
        (start + 1 + (body.code nest.inLoop (start + 1)).length) ∧
      sketch start = some (view 1 around) := by
  have size := length_roundCode ref loc nest body top start
  have typed (around : List Region) (level : Level 0 around)
      (count : around.length = nest.regions) :
      Typed ctx.pool none (fun sketch => Guarded around sketch ∧
          (∀ ip < start, sketch ip = some (view 0 around)) ∧
          sketch (start + (roundCode ref loc nest body top start).length) = some (view 0 around))
        (roundCode ref loc nest body top start) start (view 1 around) (view 0 around) := by
    have inside : Matches nest.inLoop true (some ⟨0, around⟩) ⟨0, around⟩ :=
      ⟨count.symm, fun _ => ⟨_, rfl, rfl, List.suffix_rfl, congrArg some count.symm⟩⟩
    refine .append (v := view 0 around) (.cons (v := view 0 around) ?_ ?_)
      (.jump level fun sketch holds => ⟨holds.1, holds.2.1 top before⟩)
    · exact .weaken (ref.store_typed level) fun sketch holds => holds.1
    · refine (body.typed valid inside level).close fun sketch ⟨guarded, front, behind⟩ =>
        ⟨guarded, front top before, ?_⟩
      rw [size] at behind
      rwa [show start + 1 + (body.code nest.inLoop (start + 1)).length + 1
        = start + ((body.code nest.inLoop (start + 1)).length + 2) by omega]
  have length : (roundCode ref loc nest body top start).length
      = start + 1 + (body.code nest.inLoop (start + 1)).length + 1 - start := by omega
  exact Typed.covered nest.regions typed placed length (by omega)

end Linked
end ScriptMachine
