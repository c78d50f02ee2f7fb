import Mathlib.Data.List.Zip
import ScriptMachine.Proofs.Heap.Equality
import ScriptMachine.Proofs.Host.Texts

/-!
What a comparison may come to. A comparison of containers visits their parts and stops at the first
that decides: it is unequal, or nested too deep to tell. The parts of sequences have an order that
both operands share. The entries of a map are visited in the order of the operand on the left, which
may decide between the two. With the orders of the entries left open a comparison may come to the
same in both directions. It may come to one thing only if one of the operands holds no map or none
of its containers is nested too deep; and whether values are equal is a matter of no order.
-/

namespace ScriptMachine

/-! ## Visits -/

/-- What visiting parts in this order may come to: the first answer that is not true, and true if
there is none. -/
inductive Visits {α : Type} (May : α → Option Bool → Prop) : List α → Option Bool → Prop where
  | done : Visits May [] (some true)
  | stops {x : α} {rest : List α} {answer : Option Bool} :
      May x answer → answer ≠ some true → Visits May (x :: rest) answer
  | passes {x : α} {rest : List α} {answer : Option Bool} :
      May x (some true) → Visits May rest answer → Visits May (x :: rest) answer

namespace Visits

variable {α β : Type} {May : α → Option Bool → Prop} {May' : β → Option Bool → Prop} {xs : List α}
  {x : α} {answer : Option Bool}

theorem true_iff : Visits May xs (some true) ↔ ∀ x ∈ xs, May x (some true) := by
  constructor
  · intro visits
    generalize agreed : some true = answer at visits
    induction visits with
    | done => nofun
    | stops _ other => exact absurd agreed.symm other
    | passes here _ ih => exact List.forall_mem_cons.2 ⟨agreed ▸ here, ih agreed⟩
  · intro each
    induction xs with
    | nil => exact .done
    | cons x rest ih =>
        obtain ⟨here, later⟩ := List.forall_mem_cons.1 each
        exact .passes here (ih later)

/-- An answer that is not true comes from a part. -/
theorem exists_stop (visits : Visits May xs answer) (other : answer ≠ some true) :
    ∃ x ∈ xs, May x answer := by
  induction visits with
  | done => exact absurd rfl other
  | stops here _ => exact ⟨_, List.mem_cons_self, here⟩
  | passes _ _ ih =>
      obtain ⟨x, member, here⟩ := ih other
      exact ⟨x, List.mem_cons_of_mem _ member, here⟩

/-- Any part may be the first. -/
theorem exists_perm (member : x ∈ xs) (here : May x answer) (other : answer ≠ some true) :
    ∃ order, order.Perm xs ∧ Visits May order answer := by
  obtain ⟨before, after, rfl⟩ := List.append_of_mem member
  exact ⟨x :: (before ++ after), List.perm_middle.symm, .stops here other⟩

theorem map {f : α → β} (carries : ∀ x ∈ xs, ∀ answer, May x answer → May' (f x) answer)
    (visits : Visits May xs answer) : Visits May' (xs.map f) answer := by
  induction visits with
  | done => exact .done
  | stops here other => exact .stops (carries _ List.mem_cons_self _ here) other
  | passes here _ ih =>
      exact .passes (carries _ List.mem_cons_self _ here)
        (ih fun x member => carries x (List.mem_cons_of_mem _ member))

end Visits

theorem Value.atomEquals_comm (a b : Value) : atomEquals a b = atomEquals b a :=
  Bool.eq_iff_iff.2 (atomEquals_iff.trans (Iff.trans ⟨.symm, .symm⟩ atomEquals_iff.symm))

/-- The pairs of a sequence are visited in order. -/
theorem Value.visits_pairwise {May : Value × Value → Option Bool → Prop}
    {compare : Value → Value → Option Bool} {xs ys : List Value}
    (may : ∀ x ∈ xs, ∀ y ∈ ys, May (x, y) (compare x y)) :
    Visits May (xs.zip ys) (pairwise compare xs ys) := by
  induction xs generalizing ys with
  | nil => exact .done
  | cons x xs ih =>
      cases ys with
      | nil => exact .done
      | cons y ys =>
          have here := may x List.mem_cons_self y List.mem_cons_self
          have later := ih fun x member y member' =>
            may x (List.mem_cons_of_mem _ member) y (List.mem_cons_of_mem _ member')
          rw [List.zip_cons_cons, pairwise]
          split
          · next agreed => exact .passes (agreed ▸ here) later
          · next other => exact .stops here other

/-- Where the parts may come to one thing only, so may the sequence. -/
theorem Value.eq_pairwise {May : Value × Value → Option Bool → Prop}
    {compare : Value → Value → Option Bool} {xs ys : List Value} {answer : Option Bool}
    (must : ∀ x ∈ xs, ∀ y, ∀ answer, May (x, y) answer → answer = compare x y)
    (visits : Visits May (xs.zip ys) answer) : answer = pairwise compare xs ys := by
  induction xs generalizing ys with
  | nil =>
      cases visits
      rfl
  | cons x xs ih =>
      obtain ⟨here, later⟩ := List.forall_mem_cons.1 must
      cases ys with
      | nil =>
          cases visits
          rfl
      | cons y ys =>
          rw [List.zip_cons_cons] at visits
          cases visits with
          | stops first other =>
              rw [pairwise, ← here y _ first]
              split
              · exact absurd rfl other
              · rfl
          | passes first visits =>
              rw [pairwise, ← here y _ first]
              exact ih later visits

namespace Heap

/-! ## Outcomes in any order -/

/-- What a comparison tells without looking into parts. Containers of one kind are looked into,
unless they are one object or of different sizes. -/
def atOnce? (h : Heap) : Value → Value → Option Bool
  | .tuple xs, .tuple ys => if xs.length = ys.length then none else some false
  | .list i, .list j =>
      if i = j then some true else if (h.list i).size = (h.list j).size then none else some false
  | .map i, .map j =>
      if i = j then some true else if (h.map i).size = (h.map j).size then none else some false
  | a, b => some (Value.atomEquals a b)

/-- What an entry may come to against another map: there has to be one under an equal key. -/
def EntryMay (May : Value → Value → Option Bool → Prop) (other : Table) (e : Value × Value)
    (answer : Option Bool) : Prop :=
  (∃ f ∈ other.toList, Value.keyEquals e.1 f.1 = true ∧ May e.2 f.2 answer) ∨
    (∀ f ∈ other.toList, Value.keyEquals e.1 f.1 = false) ∧ answer = some false

/-- What visiting the parts of containers may come to: sequences are visited in order, maps in any
order of their entries. -/
def PartsMay (h : Heap) (May : Value → Value → Option Bool → Prop) (a b : Value)
    (answer : Option Bool) : Prop :=
  match a, b with
  | .tuple xs, .tuple ys => Visits (fun p => May p.1 p.2) (xs.zip ys) answer
  | .list i, .list j =>
      Visits (fun p => May p.1 p.2) ((h.list i).toList.zip (h.list j).toList) answer
  | .map i, .map j =>
      ∃ order, order.Perm (h.map i).toList ∧ Visits (EntryMay May (h.map j)) order answer
  | _, _ => False

/-- What comparing values may come to, if containers are nested at most `budget` deep and the
entries of maps are visited in any order. -/
def MayAnswer (h : Heap) (budget : Nat) (a b : Value) (answer : Option Bool) : Prop :=
  match h.atOnce? a b with
  | some decided => answer = some decided
  | none =>
      match budget with
      | 0 => answer = none
      | budget + 1 => h.PartsMay (fun x y => MayAnswer h budget x y) a b answer

/-- The comparison comes to the same thing, whatever order entries are visited in. -/
def Settled (h : Heap) (a b : Value) : Prop :=
  ∀ answer answer', h.MayAnswer Value.maxNesting a b answer →
    h.MayAnswer Value.maxNesting a b answer' → answer = answer'

/-- The value is no map, and none is in it. -/
def Mapless (h : Heap) (v : Value) : Prop :=
  ∀ id, ¬ h.Contains v (.map id)

variable {h : Heap} {budget : Nat} {a b : Value} {decided : Bool} {answer answer' : Option Bool}
  {May : Value → Value → Option Bool → Prop}

theorem Mapless.member {v w : Value} (mapless : h.Mapless v) (member : w ∈ h.members v) :
    h.Mapless w := fun id inside =>
  mapless id (inside.head member)

theorem atOnce?_comm (h : Heap) (a b : Value) : h.atOnce? a b = h.atOnce? b a := by
  cases a <;> cases b
  case tuple.tuple | list.list | map.map => grind [atOnce?]
  all_goals exact congrArg some (Value.atomEquals_comm _ _)

/-! ## Comparisons as they are made -/

theorem equalsWithin_of_atOnce (here : h.atOnce? a b = some decided) (budget : Nat) :
    h.equalsWithin budget a b = some decided := by
  unfold equalsWithin
  cases a <;> cases b <;> grind [atOnce?]

theorem equalsWithin_zero (parts : h.atOnce? a b = none) : h.equalsWithin 0 a b = none := by
  unfold equalsWithin
  cases a <;> cases b <;> grind [atOnce?]

theorem visits_entriesAgree {compare : Value → Value → Option Bool}
    (may : ∀ x y, May x y (compare x y)) (t : Table) (entries : Entries Value Value) :
    Visits (EntryMay May t) entries (entriesAgree compare t entries) := by
  induction entries with
  | nil => exact .done
  | cons e rest ih =>
      rw [entriesAgree]
      cases found : t.find? e.1 with
      | none =>
          have alone : ∀ f ∈ t.toList, Value.keyEquals e.1 f.1 = false := by
            refine fun f member => Bool.eq_false_iff.2 fun equal => ?_
            rw [Table.find?_eq_some.2 ⟨f.1, member, equal⟩] at found
            cases found
          exact .stops (.inr ⟨alone, rfl⟩) (by simp)
      | some partner =>
          obtain ⟨k, member, equal⟩ := Table.find?_eq_some.1 found
          have entry : EntryMay May t e (compare e.2 partner) :=
            .inl ⟨(k, partner), member, equal, may e.2 partner⟩
          dsimp only
          split
          · next agreed => exact .passes (agreed ▸ entry) ih
          · next other => exact .stops entry other

section

variable {xs ys : List Value} {i j : ListId} {k l : MapId}

theorem equalsWithin_tuple (parts : h.atOnce? (.tuple xs) (.tuple ys) = none) :
    h.equalsWithin (budget + 1) (.tuple xs) (.tuple ys) =
      Value.pairwise (fun x y => h.equalsWithin budget x y) xs ys := by
  grind [atOnce?, equalsWithin]

theorem equalsWithin_list (parts : h.atOnce? (.list i) (.list j) = none) :
    h.equalsWithin (budget + 1) (.list i) (.list j) = Value.pairwise
      (fun x y => h.equalsWithin budget x y) (h.list i).toList (h.list j).toList := by
  grind [atOnce?, equalsWithin]

theorem equalsWithin_map (parts : h.atOnce? (.map k) (.map l) = none) :
    h.equalsWithin (budget + 1) (.map k) (.map l) =
      entriesAgree (fun x y => h.equalsWithin budget x y) (h.map l) (h.map k).toList := by
  grind [atOnce?, equalsWithin]

end

/-- The entries of the operand on the left have one of the orders. -/
theorem partsMay_equalsWithin (parts : h.atOnce? a b = none)
    (may : ∀ x y, May x y (h.equalsWithin budget x y)) :
    h.PartsMay May a b (h.equalsWithin (budget + 1) a b) := by
  cases a <;> cases b
  case tuple.tuple =>
    rw [equalsWithin_tuple parts]
    exact Value.visits_pairwise fun x _ y _ => may x y
  case list.list =>
    rw [equalsWithin_list parts]
    exact Value.visits_pairwise fun x _ y _ => may x y
  case map.map =>
    rw [equalsWithin_map parts]
    exact ⟨_, .refl _, visits_entriesAgree may _ _⟩
  all_goals cases parts

theorem mayAnswer_of_atOnce (here : h.atOnce? a b = some decided) :
    h.MayAnswer budget a b answer ↔ answer = some decided := by
  unfold MayAnswer
  rw [here]

theorem mayAnswer_zero (parts : h.atOnce? a b = none) :
    h.MayAnswer 0 a b answer ↔ answer = none := by
  unfold MayAnswer
  rw [parts]

theorem mayAnswer_succ (parts : h.atOnce? a b = none) : h.MayAnswer (budget + 1) a b answer ↔
    h.PartsMay (fun x y => h.MayAnswer budget x y) a b answer := by
  conv_lhs => unfold MayAnswer
  rw [parts]

/-- A comparison as it is made is one of those in any order. -/
theorem mayAnswer_equalsWithin (h : Heap) (budget : Nat) (a b : Value) :
    h.MayAnswer budget a b (h.equalsWithin budget a b) := by
  induction budget generalizing a b with
  | zero =>
      cases here : h.atOnce? a b with
      | some decided => exact (mayAnswer_of_atOnce here).2 (equalsWithin_of_atOnce here 0)
      | none => exact (mayAnswer_zero here).2 (equalsWithin_zero here)
  | succ budget ih =>
      cases here : h.atOnce? a b with
      | some decided => exact (mayAnswer_of_atOnce here).2 (equalsWithin_of_atOnce here _)
      | none => exact (mayAnswer_succ here).2 (partsMay_equalsWithin here ih)

theorem PartsMay.imp {May' : Value → Value → Option Bool → Prop} (may : h.PartsMay May a b answer)
    (implies : ∀ x y answer, May x y answer → May' x y answer) : h.PartsMay May' a b answer := by
  have items {pairs : List (Value × Value)} (visits : Visits (fun p => May p.1 p.2) pairs answer) :
      Visits (fun p => May' p.1 p.2) pairs answer := by
    rw [← List.map_id pairs]
    exact visits.map fun p _ => implies p.1 p.2
  have entry (t : Table) (e : Value × Value) (answer : Option Bool)
      (may : EntryMay May t e answer) : EntryMay May' t e answer :=
    may.imp_left fun ⟨f, there, equal, may⟩ => ⟨f, there, equal, implies _ _ _ may⟩
  cases a <;> cases b
  case tuple.tuple => exact items may
  case list.list => exact items may
  case map.map i j =>
    obtain ⟨order, all, visits⟩ := may
    refine ⟨order, all, ?_⟩
    rw [← List.map_id order]
    exact visits.map fun e _ => entry _ e
  all_goals cases may

/-- A comparison in some order is decided at once, or gives up where containers are nested too deep,
or visits parts. -/
theorem MayAnswer.induction {motive : Nat → Value → Value → Option Bool → Prop}
    (atOnce : ∀ budget a b decided, h.atOnce? a b = some decided → motive budget a b (some decided))
    (deep : ∀ a b, h.atOnce? a b = none → motive 0 a b none)
    (parts : ∀ budget a b answer, h.atOnce? a b = none → h.PartsMay (motive budget) a b answer →
      motive (budget + 1) a b answer) (may : h.MayAnswer budget a b answer) :
    motive budget a b answer := by
  induction budget generalizing a b answer with
  | zero =>
      cases here : h.atOnce? a b with
      | some decided => exact (mayAnswer_of_atOnce here).1 may ▸ atOnce 0 a b decided here
      | none => exact (mayAnswer_zero here).1 may ▸ deep a b here
  | succ budget ih =>
      cases here : h.atOnce? a b with
      | some decided => exact (mayAnswer_of_atOnce here).1 may ▸ atOnce _ a b decided here
      | none =>
          exact parts budget a b answer here (((mayAnswer_succ here).1 may).imp fun _ _ _ => ih)

/-! ## Both directions -/

theorem sizes_of_atOnce? {i j : MapId} (parts : h.atOnce? (.map i) (.map j) = none) :
    (h.map i).size = (h.map j).size := by
  grind [atOnce?]

/-- Maps agree if all entries may be found to. -/
theorem matches_iff {s t : Table} : (∀ e ∈ s.toList, EntryMay May t e (some true)) ↔
    ∀ e ∈ s.toList, ∃ f ∈ t.toList, Value.keyEquals e.1 f.1 = true ∧ May e.2 f.2 (some true) := by
  simp [EntryMay]

/-- If some key of one map is missing from another of the same size, so is one of the other from the
first. -/
theorem exists_missing {s t : Table} (sizes : s.size = t.size) {e : Value × Value}
    (member : e ∈ s.toList) (alone : ∀ f ∈ t.toList, Value.keyEquals e.1 f.1 = false) :
    ∃ f ∈ t.toList, ∀ e ∈ s.toList, Value.keyEquals f.1 e.1 = false := by
  by_contra none
  push Not at none
  have all : t.Matches (fun _ _ => True) s := by
    refine ⟨sizes.symm, fun f member => ?_⟩
    obtain ⟨e, there, equal⟩ := none f member
    exact ⟨e, there, Bool.not_eq_false _ ▸ equal, trivial⟩
  obtain ⟨f, there, equal, -⟩ := (all.symm fun _ _ _ => trivial).2 e member
  rw [alone f there] at equal
  cases equal

/-- What an entry may come to, some entry of the other map may. -/
theorem exists_entryMay {s t : Table} (sizes : s.size = t.size) {e : Value × Value}
    (member : e ∈ s.toList) (may : EntryMay (fun x y => May y x) t e answer) :
    ∃ f ∈ t.toList, EntryMay May s f answer := by
  obtain ⟨f, there, equal, may⟩ | ⟨alone, rfl⟩ := may
  · exact ⟨f, there, .inl ⟨e, member, Value.keyEquals_symm equal, may⟩⟩
  · obtain ⟨f, there, alone⟩ := exists_missing sizes member alone
    exact ⟨f, there, .inr ⟨alone, rfl⟩⟩

theorem PartsMay.flip (may : h.PartsMay (fun x y => May y x) a b answer)
    (parts : h.atOnce? a b = none) : h.PartsMay May b a answer := by
  have items {xs ys : List Value} (visits : Visits (fun p => May p.2 p.1) (xs.zip ys) answer) :
      Visits (fun p => May p.1 p.2) (ys.zip xs) answer := by
    rw [← List.zip_swap]
    exact visits.map fun _ _ _ => id
  cases a <;> cases b
  case tuple.tuple => exact items may
  case list.list => exact items may
  case map.map i j =>
    have sizes := sizes_of_atOnce? parts
    obtain ⟨order, all, visits⟩ := may
    by_cases agree : answer = some true
    · subst agree
      have first : (h.map i).Matches (fun x y => May y x (some true)) (h.map j) :=
        ⟨sizes, matches_iff.1 fun e member => Visits.true_iff.1 visits e (all.mem_iff.2 member)⟩
      exact ⟨_, .refl _, Visits.true_iff.2 (matches_iff.2 first.flip.2)⟩
    · obtain ⟨e, member, entry⟩ := visits.exists_stop agree
      obtain ⟨f, there, entry⟩ := exists_entryMay sizes (all.mem_iff.1 member) entry
      exact Visits.exists_perm there entry agree
  all_goals cases may

/-- With the orders of entries left open, a comparison may come to the same in both directions. -/
theorem MayAnswer.symm (may : h.MayAnswer budget a b answer) : h.MayAnswer budget b a answer := by
  refine may.induction (motive := fun budget a b answer => h.MayAnswer budget b a answer)
    ?atOnce ?deep ?parts
  case atOnce =>
    intro budget a b decided here
    exact (mayAnswer_of_atOnce ((h.atOnce?_comm b a).trans here)).2 rfl
  case deep =>
    intro a b here
    exact (mayAnswer_zero ((h.atOnce?_comm b a).trans here)).2 rfl
  case parts =>
    intro budget a b answer here may
    exact (mayAnswer_succ ((h.atOnce?_comm b a).trans here)).2 (may.flip here)

/-! ## What depends on no order -/

/-- Containers stop a comparison with an answer that is not true because a key is missing, or
because of parts. The parts have to be visited before containers are found equal. -/
theorem PartsMay.exists_stop (may : h.PartsMay May a b answer) (other : answer ≠ some true) :
    (answer = some false ∧ ∀ May', ¬ h.PartsMay May' a b (some true)) ∨
      ∃ x ∈ h.members a, ∃ y, May x y answer ∧
        ∀ May', h.PartsMay May' a b (some true) → May' x y (some true) := by
  cases a <;> cases b
  case tuple.tuple | list.list =>
    obtain ⟨p, member, here⟩ := Visits.exists_stop may other
    exact .inr ⟨p.1, (List.of_mem_zip member).1, p.2, here, fun _ agree =>
      Visits.true_iff.1 agree p member⟩
  case map.map i j =>
    obtain ⟨order, all, visits⟩ := may
    obtain ⟨e, member, entry⟩ := visits.exists_stop other
    have among := all.mem_iff.1 member
    have agrees (May' : Value → Value → Option Bool → Prop)
        (agree : h.PartsMay May' (.map i) (.map j) (some true)) : ∃ f ∈ (h.map j).toList,
          Value.keyEquals e.1 f.1 = true ∧ May' e.2 f.2 (some true) := by
      obtain ⟨order, all, visits⟩ := agree
      have each := Visits.true_iff.1 visits
      exact matches_iff.1 (fun e member => each e (all.mem_iff.2 member)) e among
    obtain ⟨f, there, equal, here⟩ | ⟨alone, rfl⟩ := entry
    · refine .inr ⟨e.2, value_mem_members among, f.2, here, fun May' agree => ?_⟩
      obtain ⟨g, there', equal', agree⟩ := agrees May' agree
      rw [Table.eq_of_keyEquals there there'
        (Value.keyEquals_trans (Value.keyEquals_symm equal) equal')]
      exact agree
    · refine .inl ⟨rfl, fun May' agree => ?_⟩
      obtain ⟨f, there, equal, -⟩ := agrees May' agree
      rw [alone f there] at equal
      cases equal
  all_goals cases may

/-- Values that are found equal in one order are found equal in all. -/
theorem MayAnswer.eq_true (may : h.MayAnswer budget a b answer)
    (agree : h.MayAnswer budget a b (some true)) : answer = some true := by
  refine may.induction
    (motive := fun budget a b answer => h.MayAnswer budget a b (some true) → answer = some true)
    ?atOnce ?deep ?parts agree
  case atOnce =>
    intro budget a b decided here agree
    exact ((mayAnswer_of_atOnce here).1 agree).symm
  case deep =>
    intro a b here agree
    exact ((mayAnswer_zero here).1 agree).symm
  case parts =>
    intro budget a b answer here may agree
    have agree := (mayAnswer_succ here).1 agree
    by_contra other
    obtain ⟨-, differ⟩ | ⟨x, -, y, part, agrees⟩ := may.exists_stop other
    · exact differ _ agree
    · exact other (part (agrees _ agree))

/-- Where one operand is not nested too deep a comparison is never left without an answer. -/
theorem MayAnswer.ne_none (may : h.MayAnswer budget a b answer)
    (nests : h.nestsWithin budget a = true) : answer ≠ none := by
  refine may.induction
    (motive := fun budget a _ answer => h.nestsWithin budget a = true → answer ≠ none)
    ?atOnce ?deep ?parts nests
  case atOnce =>
    intro _ _ _ decided _ _
    exact Option.some_ne_none decided
  case deep =>
    intro a b here nests
    cases a <;> first | (cases b <;> cases here) | cases nests
  case parts =>
    rintro budget a b _ here may nests rfl
    obtain ⟨impossible, -⟩ | ⟨x, member, y, part, -⟩ := may.exists_stop nofun
    · cases impossible
    · exact part (nestsWithin_member nests member) rfl

/-- Where one operand has no map in it, there is no order to choose. -/
theorem MayAnswer.eq_equalsWithin (may : h.MayAnswer budget a b answer) (mapless : h.Mapless a) :
    answer = h.equalsWithin budget a b := by
  refine may.induction
    (motive := fun budget a b answer => h.Mapless a → answer = h.equalsWithin budget a b)
    ?atOnce ?deep ?parts mapless
  case atOnce =>
    intro budget a b decided here _
    exact (equalsWithin_of_atOnce here budget).symm
  case deep =>
    intro a b here _
    exact (equalsWithin_zero here).symm
  case parts =>
    intro budget a b answer here may mapless
    have must : ∀ x ∈ h.members a, h.Mapless x := fun x => mapless.member
    cases a <;> cases b
    case tuple.tuple =>
      rw [equalsWithin_tuple here]
      exact Value.eq_pairwise (fun x member y answer part => part (must x member)) may
    case list.list =>
      rw [equalsWithin_list here]
      exact Value.eq_pairwise (fun x member y answer part => part (must x member)) may
    case map.map i j => exact absurd .refl (mapless i)
    all_goals cases may

theorem Settled.symm (settled : h.Settled a b) : h.Settled b a := fun answer answer' may may' =>
  settled answer answer' may.symm may'.symm

theorem settled_of_mapless (mapless : h.Mapless a) : h.Settled a b := fun _ _ may may' =>
  (may.eq_equalsWithin mapless).trans (may'.eq_equalsWithin mapless).symm

/-- If there always is an answer, it is true in all orders or in none. -/
theorem settled_of_nestsWithin (nests : h.nestsWithin Value.maxNesting a = true) :
    h.Settled a b := by
  rintro (_ | _ | _) (_ | _ | _) may may'
  case none.none | some.false.some.false | some.true.some.true => rfl
  case none.some.false | none.some.true => exact absurd rfl (may.ne_none nests)
  case some.false.none | some.true.none => exact absurd rfl (may'.ne_none nests)
  case some.false.some.true => exact may.eq_true may'
  case some.true.some.false => exact (may'.eq_true may).symm

end Heap
end ScriptMachine
