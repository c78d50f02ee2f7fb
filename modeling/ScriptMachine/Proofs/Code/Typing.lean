import ScriptMachine.Proofs.Code.Flow
import ScriptMachine.Proofs.Code.Validity

/-!
Typing of code fragments. A sketch assigns to instruction indices what is known there: the
layout, and whether the topmost value is a method or a tuple of names that a constant put
there. A fragment is typed from one view to another when its instructions can be given views
such that every sketch with these views fits them. Quantifying over sketches lets fragments be
put together: what one of them assumes about the index it jumps to, the views of another say.
-/

namespace ScriptMachine

/-- What the topmost value is known to be. -/
inductive Top where
  | any
  /-- The method with this number in the unit. -/
  | method (index : Nat)
  /-- A tuple of names. -/
  | names
deriving DecidableEq

/-- What is known at an instruction. -/
structure View where
  layout : Layout
  top : Top

/-- A view that knows nothing of the topmost value. -/
def view (depth : Nat) (regions : List Region) : View :=
  ⟨⟨depth, regions⟩, .any⟩

/-- Views by instruction index. -/
abbrev Sketch := Nat → Option View

/-- The constant is what the topmost value is known to be. -/
def Top.Holds (pool : Array Constant) (const : Nat) : Top → Prop
  | .any => True
  | .method index => pool[const]? = some (.method index)
  | .names => ∃ items, pool[const]? = some (.names items)

/-- Every open region's handler is sketched with the layout it will find. -/
def Guarded (regions : List Region) (sketch : Sketch) : Prop :=
  ∀ r rest, r :: rest <:+ regions → sketch r.target = some (view r.height rest)

/-- No region was opened at a greater depth. -/
def Level (depth : Nat) (regions : List Region) : Prop :=
  ∀ r ∈ regions, r.height ≤ depth

theorem Guarded.suffix {regions shorter : List Region} {sketch : Sketch}
    (guarded : Guarded regions sketch) (suffix : shorter <:+ regions) :
    Guarded shorter sketch :=
  fun r rest tail => guarded r rest (tail.trans suffix)

theorem Level.suffix {depth : Nat} {regions shorter : List Region} (level : Level depth regions)
    (suffix : shorter <:+ regions) : Level depth shorter :=
  fun r member => level r (suffix.subset member)

theorem Level.mono {depth deeper : Nat} {regions : List Region} (level : Level depth regions)
    (deep : depth ≤ deeper) : Level deeper regions :=
  fun r member => Nat.le_trans (level r member) deep

/-- What an instruction needs besides the number of its operands. -/
def Opcode.Demands (op : Opcode) (regions : List Region) (top : Top) : Prop :=
  match op with
  | .popExceptionHandler => regions ≠ []
  | .ret => regions = []
  | .buildClosure => ∃ index, top = .method index
  | .importFrom => top = .names
  | _ => True

/-- The sketch gives the instruction at `ip` what it needs and agrees with where control goes
from it. -/
structure Instruction.Fits (pool : Array Constant) (sketch : Sketch) (ip : Nat)
    (i : Instruction) (v : View) : Prop where
  here : sketch ip = some v
  operands : i.pops ≤ v.layout.depth
  above : ∀ r ∈ v.layout.regions, r.height + i.pops ≤ v.layout.depth
  demands : i.op.Demands v.layout.regions v.top
  next : ∀ p ∈ i.successors ip v.layout, ∃ top, sketch p.1 = some ⟨p.2, top⟩ ∧
    (top ≠ .any → i.op = .loadConst ∧ top.Holds pool i.arg)
  guarded : Guarded v.layout.regions sketch

section

variable (pool : Array Constant) (loop : Option Layout)

/-- The sketch fits a slot. A jump that is still open leads to where the loop around it says. -/
def Slot.Fits (sketch : Sketch) (ip : Nat) : Slot → Prop
  | .fixed i => ∃ v, i.Fits pool sketch ip v
  | .leaveLoop _ | .nextRound _ =>
      ∃ l, loop = some l ∧ sketch ip = some ⟨l, .any⟩ ∧ Level l.depth l.regions ∧
        Guarded l.regions sketch

/-- The sketch fits a fragment that starts at `start`. -/
def Fragment.Fits (sketch : Sketch) (start : Nat) (code : Fragment) : Prop :=
  ∀ k (slot : Slot), code[k]? = some slot → slot.Fits pool loop sketch (start + k)

/-- The sketch has these views from `start` on. -/
def Sketch.Shows (sketch : Sketch) (start : Nat) (views : List View) : Prop :=
  ∀ k v, views[k]? = some v → sketch (start + k) = some v

/-- A fragment goes from view `v` to view `w`: its instructions can be given views, `v` first,
such that every sketch that shows them, and then `w`, and that meets `H`, fits the fragment. -/
def Typed (H : Sketch → Prop) (code : Fragment) (start : Nat) (v w : View) : Prop :=
  ∃ views : List View, views.length = code.length ∧ (views ++ [w]).head? = some v ∧
    ∀ sketch : Sketch, sketch.Shows start (views ++ [w]) → H sketch →
      Fragment.Fits pool loop sketch start code

end

variable {pool : Array Constant} {loop : Option Layout} {H G : Sketch → Prop}

theorem Sketch.shows_append {sketch : Sketch} {start : Nat} {first second : List View} :
    sketch.Shows start (first ++ second) ↔
      sketch.Shows start first ∧ sketch.Shows (start + first.length) second := by
  constructor
  · intro shows_
    refine ⟨fun k v found => shows_ k v ?_, fun k v found => ?_⟩
    · rw [List.getElem?_append_left (List.getElem?_eq_some_iff.1 found).1]
      exact found
    · rw [Nat.add_assoc]
      refine shows_ _ v ?_
      rw [List.getElem?_append_right (Nat.le_add_right _ _), Nat.add_sub_cancel_left]
      exact found
  · rintro ⟨left, right⟩ k v found
    rw [List.getElem?_append] at found
    split at found
    · exact left k v found
    · next long =>
      have shown := right _ v found
      rwa [show start + first.length + (k - first.length) = start + k by omega] at shown

theorem Sketch.shows_cons {sketch : Sketch} {start : Nat} {v : View} {rest : List View} :
    sketch.Shows start (v :: rest) ↔
      sketch start = some v ∧ sketch.Shows (start + 1) rest := by
  rw [← List.singleton_append, Sketch.shows_append]
  refine and_congr_left' ⟨fun shown => shown 0 v rfl, fun here k w found => ?_⟩
  cases k with
  | zero => simpa using here.trans (by simpa using found)
  | succ k => simp at found

/-- Views that begin with `v` show it at `start`. -/
theorem Sketch.Shows.head {sketch : Sketch} {start : Nat} {views : List View} {v : View}
    (shows_ : sketch.Shows start views) (head : views.head? = some v) :
    sketch start = some v := by
  cases views with
  | nil => simp at head
  | cons first rest =>
      simp only [List.head?_cons, Option.some.injEq] at head
      exact head ▸ (Sketch.shows_cons.1 shows_).1

theorem Fragment.fits_append {sketch : Sketch} {start : Nat} {first second : Fragment} :
    Fragment.Fits pool loop sketch start (first ++ second) ↔
      Fragment.Fits pool loop sketch start first ∧
        Fragment.Fits pool loop sketch (start + first.length) second := by
  constructor
  · intro fits
    refine ⟨fun k slot found => fits k slot ?_, fun k slot found => ?_⟩
    · rw [List.getElem?_append_left (List.getElem?_eq_some_iff.1 found).1]
      exact found
    · rw [Nat.add_assoc]
      refine fits _ slot ?_
      rw [List.getElem?_append_right (Nat.le_add_right _ _), Nat.add_sub_cancel_left]
      exact found
  · rintro ⟨left, right⟩ k slot found
    rw [List.getElem?_append] at found
    split at found
    · exact left k slot found
    · next long =>
      have fit := right _ slot found
      rwa [show start + first.length + (k - first.length) = start + k by omega] at fit

/-! ## Putting fragments together -/

theorem Typed.nil {start : Nat} {v : View} : Typed pool loop H [] start v v :=
  ⟨[], rfl, rfl, fun _ _ _ k slot found => by simp at found⟩

theorem Typed.weaken {code : Fragment} {start : Nat} {v w : View}
    (typed : Typed pool loop H code start v w) (weaker : ∀ sketch, G sketch → H sketch) :
    Typed pool loop G code start v w := by
  obtain ⟨views, length, head, fits⟩ := typed
  exact ⟨views, length, head, fun sketch shown holds => fits sketch shown (weaker sketch holds)⟩

/-- One slot is typed if every sketch that shows its view and the one behind it fits it. -/
theorem Typed.single {slot : Slot} {start : Nat} {v w : View}
    (fits : ∀ sketch : Sketch, sketch start = some v → sketch (start + 1) = some w → H sketch →
      slot.Fits pool loop sketch start) :
    Typed pool loop H [slot] start v w := by
  refine ⟨[v], rfl, rfl, fun sketch shown holds k s found => ?_⟩
  rw [List.singleton_append, Sketch.shows_cons, Sketch.shows_cons] at shown
  cases k with
  | zero =>
      simp only [List.getElem?_cons_zero, Option.some.injEq] at found
      exact found ▸ fits sketch shown.1 shown.2.1 holds
  | succ k => simp at found

/-- The view before a row of blocks, each of which comes with the view before it. -/
def entry : List (Fragment × View) → View → View
  | [], w => w
  | (_, v) :: _, _ => v

/-- The sketch shows the view before every block of a row, and `w` behind the last. -/
def Borders (start : Nat) : List (Fragment × View) → View → Sketch → Prop
  | [], w, sketch => sketch start = some w
  | (code, v) :: rest, w, sketch =>
      sketch start = some v ∧ Borders (start + code.length) rest w sketch

/-- Every block of a row is typed from its view to the next. -/
def TypedRow (pool : Array Constant) (loop : Option Layout) (H : Sketch → Prop) (start : Nat) :
    List (Fragment × View) → View → Prop
  | [], _ => True
  | (code, v) :: rest, w =>
      Typed pool loop H code start v (entry rest w) ∧
        TypedRow pool loop H (start + code.length) rest w

theorem TypedRow.views {row : List (Fragment × View)} {start : Nat} {w : View}
    (typed : TypedRow pool loop H start row w) :
    ∃ views : List View, views.length = (row.flatMap Prod.fst).length ∧
      (views ++ [w]).head? = some (entry row w) ∧
      ∀ sketch : Sketch, sketch.Shows start (views ++ [w]) →
        Borders start row w sketch ∧
          (H sketch → Fragment.Fits pool loop sketch start (row.flatMap Prod.fst)) := by
  induction row generalizing start with
  | nil =>
      refine ⟨[], rfl, rfl, fun sketch shown => ⟨shown.head rfl, fun _ k slot found => ?_⟩⟩
      simp at found
  | cons block rest ih =>
      obtain ⟨code, v⟩ := block
      obtain ⟨⟨first, length, head, fits⟩, others⟩ := typed
      obtain ⟨second, length', head', both⟩ := ih others
      refine ⟨first ++ second, by simp [length, length'], ?_, fun sketch shown => ?_⟩
      · cases first with
        | nil =>
            rw [List.nil_append, List.head?_cons, Option.some.injEq] at head
            rw [List.nil_append, head', head]
            rfl
        | cons u us => simpa [entry] using head
      · rw [List.append_assoc, Sketch.shows_append] at shown
        obtain ⟨shownFirst, shownSecond⟩ := shown
        rw [length] at shownSecond
        obtain ⟨borders, fitsRest⟩ := both sketch shownSecond
        have shownBlock : sketch.Shows start (first ++ [entry rest w]) := by
          rw [Sketch.shows_append, Sketch.shows_cons, length]
          exact ⟨shownFirst, shownSecond.head head', fun k u found => by simp at found⟩
        refine ⟨⟨shownBlock.head head, borders⟩, fun holds => ?_⟩
        rw [List.flatMap_cons, Fragment.fits_append]
        exact ⟨fits sketch shownBlock holds, fitsRest holds⟩

/-- The code of a row of blocks, put together from the left. -/
def joined (row : List (Fragment × View)) : Fragment :=
  row.foldl (fun before block => before ++ block.1) []

theorem joined_eq (row : List (Fragment × View)) : joined row = row.flatMap Prod.fst := by
  have general : ∀ before : Fragment,
      row.foldl (fun before block => before ++ block.1) before
        = before ++ row.flatMap Prod.fst := by
    induction row with
    | nil => simp
    | cons block rest ih => simp [ih]
  exact general []

/-- Blocks in a row are typed if each of them is, where all of them may rely on the views
before all of them. -/
theorem Typed.row (row : List (Fragment × View)) {code : Fragment} {start : Nat} {w : View}
    (same : joined row = code)
    (typed : TypedRow pool loop (fun sketch => H sketch ∧ Borders start row w sketch) start row w) :
    Typed pool loop H code start (entry row w) w := by
  rw [joined_eq] at same
  subst same
  obtain ⟨views, length, head, both⟩ := typed.views
  refine ⟨views, length, head, fun sketch shown holds => ?_⟩
  obtain ⟨borders, fits⟩ := both sketch shown
  exact fits ⟨holds, borders⟩

theorem Typed.append {first second : Fragment} {start : Nat} {u v w : View}
    (left : Typed pool loop H first start u v)
    (right : Typed pool loop H second (start + first.length) v w) :
    Typed pool loop H (first ++ second) start u w :=
  .row [(first, u), (second, v)] rfl
    ⟨left.weaken fun _ holds => holds.1, right.weaken fun _ holds => holds.1, trivial⟩

theorem Typed.cons {slot : Slot} {rest : Fragment} {start : Nat} {u v w : View}
    (first : Typed pool loop H [slot] start u v)
    (others : Typed pool loop H rest (start + 1) v w) :
    Typed pool loop H (slot :: rest) start u w :=
  first.append others

/-! ## Single instructions -/

/-- The instruction falls through, neither opens nor closes a region, and takes any operands. -/
def Opcode.isPlain : Opcode → Bool
  | .ret | .raise | .jump | .jumpIfTrue | .jumpIfFalse | .nullCoalesce | .pushExceptionHandler
  | .popExceptionHandler | .buildClosure | .importFrom => false
  | _ => true

theorem Instruction.successors_plain {i : Instruction} (plain : i.op.isPlain = true) (ip : Nat)
    (l : Layout) : i.successors ip l = [(ip + 1, { l with depth := i.fallDepth l.depth })] := by
  obtain ⟨op, arg, loc⟩ := i
  cases op <;> first | rfl | exact Bool.noConfusion plain

theorem Opcode.demands_plain {op : Opcode} (plain : op.isPlain = true) (regions : List Region)
    (top : Top) : op.Demands regions top := by
  cases op <;> trivial

/-- An instruction fits where its operands are there, its successors are sketched, and the
handlers around it are. -/
theorem Slot.fits_of {i : Instruction} {sketch : Sketch} {ip depth : Nat} (extra : Nat)
    {regions : List Region} {top : Top} (here : sketch ip = some ⟨⟨depth + extra, regions⟩, top⟩)
    (level : Level depth regions) (enough : i.pops ≤ extra) (guarded : Guarded regions sketch)
    (demands : i.op.Demands regions top)
    (next : ∀ p ∈ i.successors ip ⟨depth + extra, regions⟩, sketch p.1 = some ⟨p.2, .any⟩) :
    Slot.Fits pool loop sketch ip (.fixed i) := by
  refine ⟨_, here, ?_, fun r member => ?_, demands, fun p member => ?_, guarded⟩
  · exact Nat.le_trans enough (Nat.le_add_left _ _)
  · exact Nat.add_le_add (level r member) enough
  · exact ⟨.any, next p member, fun known => absurd rfl known⟩

/-- An instruction that falls through, with `extra` values above those it leaves alone. -/
theorem Typed.plain {loc : Location} {op : Opcode} {arg start depth depth' : Nat} (extra : Nat)
    {regions : List Region} (level : Level depth regions) (plain : op.isPlain = true := by rfl)
    (enough : Instruction.pops ⟨op, arg, loc⟩ ≤ extra := by simp [Instruction.pops])
    (after : Instruction.fallDepth ⟨op, arg, loc⟩ (depth + extra) = depth' := by
      simp [Instruction.fallDepth, Instruction.pops, Instruction.pushes]) :
    Typed pool loop (Guarded regions) [.of loc op arg] start (view (depth + extra) regions)
      (view depth' regions) := by
  refine .single fun sketch here next guarded => ?_
  refine Slot.fits_of extra here level enough guarded (Opcode.demands_plain plain _ _)
    fun p member => ?_
  rw [Instruction.successors_plain plain, List.mem_singleton] at member
  subst member after
  exact next

/-- A constant that the instruction behind it relies on. -/
theorem Typed.known {loc : Location} {const start depth : Nat} {regions : List Region} {top : Top}
    (level : Level depth regions) (holds : top.Holds pool const) :
    Typed pool loop (Guarded regions) [.of loc .loadConst const] start (view depth regions)
      ⟨⟨depth + 1, regions⟩, top⟩ := by
  refine .single fun sketch here next guarded => ⟨_, here, Nat.zero_le _, level, trivial, ?_, guarded⟩
  intro p member
  rw [Instruction.successors_plain rfl, List.mem_singleton] at member
  subst member
  exact ⟨top, next, fun _ => ⟨rfl, holds⟩⟩

/-- A method on top becomes a closure. -/
theorem Typed.closure {loc : Location} {start depth index : Nat} {regions : List Region}
    (level : Level depth regions) :
    Typed pool loop (Guarded regions) [.of loc .buildClosure] start
      ⟨⟨depth + 1, regions⟩, .method index⟩ (view (depth + 1) regions) := by
  refine .single fun sketch here next guarded => ?_
  refine Slot.fits_of 1 here level (Nat.le_refl 1) guarded ⟨index, rfl⟩ fun p member => ?_
  rw [List.mem_singleton.1 member]
  exact next

/-- Names on top are taken from a module. -/
theorem Typed.importing {loc : Location} {const start depth : Nat} {regions : List Region}
    (level : Level depth regions) :
    Typed pool loop (Guarded regions) [.of loc .importFrom const] start
      ⟨⟨depth + 1, regions⟩, .names⟩ (view depth regions) := by
  refine .single fun sketch here next guarded => ?_
  refine Slot.fits_of 1 here level (Nat.le_refl 1) guarded rfl fun p member => ?_
  rw [List.mem_singleton.1 member]
  exact next

/-- A jump to where the sketch shows the view before it. -/
theorem Typed.jump {loc : Location} {target start depth : Nat} {regions : List Region} {w : View}
    (level : Level depth regions)
    (known : ∀ sketch, H sketch →
      Guarded regions sketch ∧ sketch target = some (view depth regions)) :
    Typed pool loop H [.of loc .jump target] start (view depth regions) w := by
  refine .single fun sketch here _ holds => ?_
  obtain ⟨guarded, there⟩ := known sketch holds
  refine Slot.fits_of 0 here level (Nat.le_refl 0) guarded trivial fun p member => ?_
  rw [List.mem_singleton.1 member]
  exact there

/-- A jump that takes a condition off the stack. -/
theorem Typed.branch {loc : Location} {op : Opcode} {target start depth : Nat}
    {regions : List Region} (level : Level depth regions)
    (conditional : op = .jumpIfTrue ∨ op = .jumpIfFalse)
    (known : ∀ sketch, H sketch →
      Guarded regions sketch ∧ sketch target = some (view depth regions)) :
    Typed pool loop H [.of loc op target] start (view (depth + 1) regions)
      (view depth regions) := by
  refine .single fun sketch here next holds => ?_
  obtain ⟨guarded, there⟩ := known sketch holds
  rcases conditional with rfl | rfl
  all_goals
    refine Slot.fits_of 1 here level (Nat.le_refl 1) guarded trivial fun p member => ?_
    rcases List.mem_cons.1 member with rfl | member
    · exact next
    · rw [List.mem_singleton.1 member]
      exact there

/-- A jump that keeps a value other than null. -/
theorem Typed.coalesce {loc : Location} {target start depth : Nat} {regions : List Region}
    (level : Level depth regions)
    (known : ∀ sketch, H sketch →
      Guarded regions sketch ∧ sketch target = some (view (depth + 1) regions)) :
    Typed pool loop H [.of loc .nullCoalesce target] start (view (depth + 1) regions)
      (view depth regions) := by
  refine .single fun sketch here next holds => ?_
  obtain ⟨guarded, there⟩ := known sketch holds
  refine Slot.fits_of 1 here level (Nat.le_refl 1) guarded trivial fun p member => ?_
  rcases List.mem_cons.1 member with rfl | member
  · exact next
  · rw [List.mem_singleton.1 member]
    exact there

/-- Control does not fall through an instruction that raises. -/
theorem Typed.raising {loc : Location} {start depth : Nat} {regions : List Region} {w : View}
    (level : Level depth regions) :
    Typed pool loop (Guarded regions) [.of loc .raise] start (view (depth + 1) regions) w := by
  refine .single fun sketch here _ guarded => ?_
  refine Slot.fits_of 1 here level (Nat.le_refl 1) guarded trivial fun p member => ?_
  exact absurd member List.not_mem_nil

/-- A method returns from outside all regions, and control does not fall through. -/
theorem Typed.returning {loc : Location} {start depth : Nat} {w : View} :
    Typed pool loop H [.of loc .ret] start (view (depth + 1) []) w := by
  refine .single fun sketch here _ _ => ?_
  refine Slot.fits_of 1 here (fun r member => ?_) (Nat.le_refl 1) (fun r rest tail => ?_) rfl
    fun p member => ?_
  · exact absurd member List.not_mem_nil
  · exact absurd (List.suffix_nil.1 tail) (List.cons_ne_nil r rest)
  · exact absurd member List.not_mem_nil

/-- Opening a region. -/
theorem Typed.opening {loc : Location} {target start depth : Nat} {regions : List Region}
    (level : Level depth regions) :
    Typed pool loop (Guarded regions) [.of loc .pushExceptionHandler target] start
      (view depth regions) (view depth (⟨target, depth⟩ :: regions)) := by
  refine .single fun sketch here next guarded => ?_
  refine Slot.fits_of 0 here level (Nat.le_refl 0) guarded trivial fun p member => ?_
  rw [List.mem_singleton.1 member]
  exact next

/-- Closing the innermost region. -/
theorem Typed.closing {loc : Location} {start depth : Nat} {r : Region} {regions : List Region}
    (level : Level depth (r :: regions)) :
    Typed pool loop (Guarded (r :: regions)) [.of loc .popExceptionHandler] start
      (view depth (r :: regions)) (view depth regions) := by
  refine .single fun sketch here next guarded => ?_
  refine Slot.fits_of 0 here level (Nat.le_refl 0) guarded
    (List.cons_ne_nil r regions) fun p member => ?_
  rw [List.mem_singleton.1 member]
  exact next

/-! ## Loops -/

/-- A jump to the end or to the next round of the loop, left open. -/
theorem Typed.looping {slot : Slot} {loc : Location} {start : Nat} {l : Layout} {w : View}
    (still : slot = .leaveLoop loc ∨ slot = .nextRound loc) (level : Level l.depth l.regions) :
    Typed pool (some l) (Guarded l.regions) [slot] start ⟨l, .any⟩ w := by
  refine .single fun sketch here _ guarded => ?_
  rcases still with rfl | rfl
  all_goals exact ⟨l, rfl, here, level, guarded⟩

@[simp] theorem Fragment.length_close (code : Fragment) (roundStart loopEnd : Nat) :
    (code.close roundStart loopEnd).length = code.length :=
  List.length_map _

/-- A loop completes the jumps in its body once both places they lead to are sketched. -/
theorem Typed.close {code : Fragment} {start roundStart loopEnd : Nat} {l : Layout} {v w : View}
    (typed : Typed pool (some l) H code start v w)
    (known : ∀ sketch, G sketch →
      H sketch ∧ sketch roundStart = some ⟨l, .any⟩ ∧ sketch loopEnd = some ⟨l, .any⟩) :
    Typed pool loop G (code.close roundStart loopEnd) start v w := by
  obtain ⟨views, length, head, fits⟩ := typed
  refine ⟨views, length.trans (code.length_close _ _).symm, head, fun sketch shown holds => ?_⟩
  obtain ⟨inner, next, stop⟩ := known sketch holds
  intro k slot found
  obtain ⟨before, there, rfl⟩ := Option.map_eq_some_iff.1 (List.getElem?_map.symm.trans found)
  have fit := fits sketch shown inner k before there
  have jumps : ∀ {loc : Location} {target : Nat}, sketch target = some ⟨l, .any⟩ →
      (∃ l', some l = some l' ∧ sketch (start + k) = some ⟨l', .any⟩ ∧
        Level l'.depth l'.regions ∧ Guarded l'.regions sketch) →
      Slot.Fits pool loop sketch (start + k) (.of loc .jump target) := by
    rintro loc target landing ⟨l', same, here, level, guarded⟩
    cases same
    refine Slot.fits_of 0 here level (Nat.le_refl 0) guarded trivial fun p member => ?_
    rw [List.mem_singleton.1 member]
    exact landing
  cases before with
  | fixed i => exact fit
  | leaveLoop loc => exact jumps stop fit
  | nextRound loc => exact jumps next fit

/-- Closing several regions at once. -/
theorem Typed.closings {loc : Location} {start depth : Nat} (inner : List Region)
    {regions : List Region} (level : Level depth (inner ++ regions)) :
    Typed pool loop (Guarded (inner ++ regions))
      (List.replicate inner.length (.of loc .popExceptionHandler)) start
      (view depth (inner ++ regions)) (view depth regions) := by
  induction inner generalizing start with
  | nil => exact .nil
  | cons r inner ih =>
      have shorter : inner ++ regions <:+ r :: inner ++ regions := List.suffix_cons _ _
      exact .cons (.closing level)
        ((ih (level.suffix shorter)).weaken fun _ guarded => guarded.suffix shorter)

/-- Opening a region whose handler is sketched guards what is inside it. -/
theorem Guarded.cons {sketch : Sketch} {target depth : Nat} {regions : List Region}
    (guarded : Guarded regions sketch) (handler : sketch target = some (view depth regions)) :
    Guarded (⟨target, depth⟩ :: regions) sketch := by
  intro r rest suffix
  rcases List.suffix_cons_iff.1 suffix with same | suffix
  · cases same
    exact handler
  · exact guarded r rest suffix

/-! ## Whole bodies -/

theorem level_nil (depth : Nat) : Level depth [] :=
  List.forall_mem_nil _

/-- The code of a whole body: it leaves nothing on the stack, and then loads null, the result. -/
def TypedBody (pool : Array Constant) (code : Fragment) : Prop :=
  ∃ (front : Fragment) (loc : Location), code = front ++ [.of loc .loadNull] ∧
    Typed pool none (Guarded []) front 0 (view 0 []) (view 0 [])

/-- A whole body goes from an empty stack to one value. -/
theorem TypedBody.typed {code : Fragment} (body : TypedBody pool code) :
    Typed pool none (Guarded []) code 0 (view 0 []) (view 1 []) := by
  obtain ⟨front, loc, rfl, typed⟩ := body
  exact .append typed (.plain 0 (level_nil 0))

end ScriptMachine
