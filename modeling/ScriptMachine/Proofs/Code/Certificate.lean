import ScriptMachine.Proofs.Code.EmissionTyping

/-!
From typed code to well-formed methods. A sketch that fits every instruction of a body is a
certificate: every path through the body keeps to it.
-/

namespace ScriptMachine

/-- A sketch that fits every instruction of a body, with an empty stack before the first.
Handlers start inside the body. -/
structure Charted (pool : Array Constant) (body : Array Instruction) (sketch : Sketch) :
    Prop where
  start : sketch 0 = some (view 0 [])
  fits : ∀ ip (i : Instruction), body[ip]? = some i → ∃ v, i.Fits pool sketch ip v
  handlers : ∀ (ip : Nat) (i : Instruction), body[ip]? = some i → i.op = .pushExceptionHandler →
    i.arg < body.size

/-- A sketch that fits a whole body, with an empty stack before it and one value behind it. -/
structure Certificate (pool : Array Constant) (body : Array Instruction) (sketch : Sketch) :
    Prop extends Charted pool body sketch where
  stop : ∀ ip v, body[ip]? = none → sketch ip = some v → ip = body.size ∧ v = view 1 []

/-- A body with a certificate. -/
def Certified (pool : Array Constant) (body : Array Instruction) : Prop :=
  ∃ sketch, Certificate pool body sketch

section

variable {pool : Array Constant} {body : Array Instruction} {sketch : Sketch}

/-- What the sketch says of an instruction whose view is known. -/
theorem Charted.fits_at (charted : Charted pool body sketch) {ip : Nat} {i : Instruction}
    {v : View} (here : sketch ip = some v) (found : body[ip]? = some i) :
    i.Fits pool sketch ip v := by
  obtain ⟨w, fits⟩ := charted.fits ip i found
  have same : v = w := Option.some.inj (here.symm.trans fits.here)
  exact same ▸ fits

/-- Every path keeps to the sketch. -/
theorem Charted.follows (charted : Charted pool body sketch) {ip : Nat} {l : Layout}
    (flow : Flow body ip l) : ∃ top, sketch ip = some ⟨l, top⟩ := by
  induction flow with
  | start => exact ⟨.any, charted.start⟩
  | step _ found next ih =>
      obtain ⟨top, here⟩ := ih
      obtain ⟨top', there, _⟩ := (charted.fits_at here found).next _ next
      exact ⟨top', there⟩
  | raise _ found opened ih =>
      obtain ⟨top, here⟩ := ih
      exact ⟨.any, (charted.fits_at here found).guarded _ _ ⟨[], opened.symm⟩⟩

theorem Certificate.wellFormed {m : Method} (certified : Certificate pool m.body sketch) : m.WellFormed where
  assignment := by
    refine ⟨fun ip => ((sketch ip).map View.layout).getD {}, fun ip l flow => ?_⟩
    obtain ⟨top, here⟩ := certified.follows flow
    simp only [here, Option.map_some, Option.getD_some]
  operands ip l i flow found := by
    obtain ⟨top, here⟩ := certified.follows flow
    have fits := certified.fits_at here found
    exact ⟨fits.operands, fits.above⟩
  closing ip l i flow found closes := by
    obtain ⟨top, here⟩ := certified.follows flow
    have demands := (certified.fits_at here found).demands
    rw [closes] at demands
    exact demands
  returning ip l i flow found returns := by
    obtain ⟨top, here⟩ := certified.follows flow
    have fits := certified.fits_at here found
    have demands := fits.demands
    have operands := fits.operands
    rw [returns] at demands
    simp only [Instruction.pops, returns] at operands
    exact ⟨demands, operands⟩
  ending ip l flow missing := by
    obtain ⟨top, here⟩ := certified.follows flow
    obtain ⟨last, same⟩ := certified.stop ip _ missing here
    exact ⟨last, congrArg View.layout same⟩

end

theorem Fragment.getElem?_body (code : Fragment) (ip : Nat) :
    code.body[ip]? = (code[ip]?).map Slot.instruction := by
  rw [Fragment.body, List.getElem?_toArray, List.getElem?_map]

/-- Outside loops no jump of typed code is open. -/
theorem Slot.fits_none {pool : Array Constant} {sketch : Sketch} {ip : Nat} {slot : Slot}
    (fits : slot.Fits pool none sketch ip) :
    slot = .fixed slot.instruction ∧ ∃ v, slot.instruction.Fits pool sketch ip v := by
  cases slot with
  | fixed i => exact ⟨rfl, fits⟩
  | leaveLoop loc | nextRound loc =>
      obtain ⟨l, open_, _⟩ := fits
      cases open_

/-- The views of a fragment that is typed from an empty stack outside all regions. -/
theorem Typed.sketched {pool : Array Constant} {code : Fragment} {w : View}
    (typed : Typed pool none (Guarded []) code 0 (view 0 []) w) :
    ∃ views : List View, views.length = code.length ∧ (views ++ [w])[0]? = some (view 0 []) ∧
      ∀ (ip : Nat) (i : Instruction), code.body[ip]? = some i →
        ∃ v, i.Fits pool (fun ip => (views ++ [w])[ip]?) ip v := by
  obtain ⟨views, length, head, fits⟩ := typed
  let sketch : Sketch := fun ip => (views ++ [w])[ip]?
  have shown : sketch.Shows 0 (views ++ [w]) := by
    intro k v found
    rw [Nat.zero_add]
    exact found
  have unguarded : Guarded [] sketch := fun r rest suffix =>
    absurd (List.suffix_nil.1 suffix) (List.cons_ne_nil r rest)
  refine ⟨views, length, shown.head head, fun ip i found => ?_⟩
  rw [Fragment.getElem?_body] at found
  obtain ⟨slot, there, rfl⟩ := Option.map_eq_some_iff.1 found
  have fit := fits sketch shown unguarded ip slot there
  rw [Nat.zero_add] at fit
  exact (Slot.fits_none fit).2

/-- Handlers of typed code start inside it or right behind it. The sketch that ends with the code
fits it, so nothing it refers to lies further on. -/
theorem Typed.handlers_le {pool : Array Constant} {code : Fragment}
    (typed : Typed pool none (Guarded []) code 0 (view 0 []) (view 0 [])) {ip : Nat}
    {i : Instruction} (found : code.body[ip]? = some i) (opens : i.op = .pushExceptionHandler) :
    i.arg ≤ code.length := by
  obtain ⟨views, length, _, fits⟩ := typed.sketched
  have last : (views ++ [view 0 []]).length = code.length + 1 := by
    rw [List.length_append, length]
    rfl
  obtain ⟨v, here⟩ := fits ip i found
  obtain ⟨top, behind, _⟩ := here.next
    (ip + 1, { v.layout with regions := ⟨i.arg, v.layout.depth⟩ :: v.layout.regions })
    (by simp only [Instruction.successors, opens, List.mem_singleton])
  have inside : ip + 1 < code.length + 1 := last ▸ (List.getElem?_eq_some_iff.1 behind).1
  have next : ip + 1 < code.length := by
    -- behind the code no region is open
    rcases Nat.lt_or_ge (ip + 1) code.length with next | atEnd
    · exact next
    · have same : ip + 1 = views.length := by omega
      have shown : (views ++ [view 0 []])[views.length]? = some (view 0 []) :=
        List.getElem?_concat_length
      rw [same] at behind
      have closed := congrArg (fun w : View => w.layout.regions)
        (Option.some.inj (behind.symm.trans shown))
      exact absurd closed (List.cons_ne_nil _ _)
  have size : code.body.size = code.length := by
    rw [Fragment.body, List.size_toArray, List.length_map]
  obtain ⟨w, there⟩ := fits (ip + 1) code.body[ip + 1] (Array.getElem?_eq_getElem (size ▸ next))
  have layout := congrArg View.layout (Option.some.inj (there.here.symm.trans behind))
  have regions : w.layout.regions = ⟨i.arg, v.layout.depth⟩ :: v.layout.regions :=
    congrArg Layout.regions layout
  have handler := there.guarded ⟨i.arg, v.layout.depth⟩ v.layout.regions ⟨[], regions.symm⟩
  have bound := (List.getElem?_eq_some_iff.1 handler).1
  rw [last] at bound
  exact Nat.le_of_lt_succ bound

/-- A whole body has a certificate. -/
theorem TypedBody.certified {pool : Array Constant} {code : Fragment} (whole : TypedBody pool code) :
    Certified pool code.body := by
  obtain ⟨views, length, head, fits⟩ := whole.typed.sketched
  obtain ⟨front, loc, same, typed⟩ := whole
  have size : code.body.size = views.length := by
    rw [length, Fragment.body, List.size_toArray, List.length_map]
  refine ⟨_, ⟨head, fits, fun ip i found opens => ?_⟩, fun ip v missing there => ?_⟩
  · have front_length : code.length = front.length + 1 := by
      rw [same, List.length_append]
      rfl
    have inside : i.arg ≤ front.length := by
      rw [Fragment.getElem?_body, same, List.getElem?_append] at found
      split at found
      · rw [← Fragment.getElem?_body] at found
        exact typed.handlers_le found opens
      · obtain ⟨slot, there, rfl⟩ := Option.map_eq_some_iff.1 found
        have slot_eq := List.eq_of_mem_singleton (List.mem_of_getElem? there)
        rw [slot_eq] at opens
        cases opens
    rw [size, length, front_length]
    exact Nat.lt_succ_of_le inside
  · rw [Array.getElem?_eq_none_iff, size] at missing
    have inside := (List.getElem?_eq_some_iff.1 there).1
    rw [List.length_append, List.length_singleton] at inside
    have last : ip = views.length := by omega
    subst last
    have found := List.getElem?_concat_length.symm.trans there
    exact ⟨size.symm, (Option.some.inj found).symm⟩

end ScriptMachine
