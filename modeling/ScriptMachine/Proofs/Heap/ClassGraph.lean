import Mathlib.Data.Finset.Card
import Mathlib.Logic.Relation
import ScriptMachine.Heap.Classes
import ScriptMachine.Heap.Loading

/-!
The class graph has no cycles. A base is linked only if it does not derive from the class, so a
path that returned would have been one already; and only linking changes the graph. Hence a walk
along bases meets fewer and fewer classes that lie ahead, and what is asked on the way depends on
no bound: it is answered by the class or else by its bases in order.
-/

namespace ScriptMachine.Heap

/-- The class has been linked to the base. -/
def HasBase (h : Heap) (c base : ClassId) : Prop :=
  base ∈ (h.cls c).bases

/-- The class is the other or derives from it, along linked bases. -/
abbrev Derives (h : Heap) : ClassId → ClassId → Prop :=
  Relation.ReflTransGen h.HasBase

/-- No class derives from itself through a base, and none has a base twice. -/
structure Orderly (h : Heap) : Prop where
  acyclic : ∀ c, ¬ Relation.TransGen h.HasBase c c
  nodup : ∀ c, (h.cls c).bases.Nodup

theorem lt_of_hasBase {h : Heap} {c base : ClassId} (linked : h.HasBase c base) :
    c < h.classes.size := by
  by_contra unknown
  have empty : (h.cls c).bases = [] := by
    rw [cls, Array.getD_eq_getD_getElem?, Array.getElem?_eq_none (Nat.le_of_not_lt unknown)]
    rfl
  rw [HasBase, empty] at linked
  cases linked

/-! ## Walks -/

open Classical in
/-- The classes that a walk from a class can come to. -/
noncomputable def ahead (h : Heap) (c : ClassId) : Finset ClassId :=
  (Finset.range h.classes.size).filter (h.Derives c)

open Classical in
theorem mem_ahead {h : Heap} {c d : ClassId} :
    d ∈ h.ahead c ↔ d < h.classes.size ∧ h.Derives c d := by
  rw [ahead, Finset.mem_filter, Finset.mem_range]

open Classical in
theorem card_ahead_le (h : Heap) (c : ClassId) : (h.ahead c).card ≤ h.classes.size := by
  have within := Finset.card_filter_le (Finset.range h.classes.size) (h.Derives c)
  rwa [Finset.card_range] at within

/-- An answer comes from a class that the walk leads to. -/
theorem derives_of_searchUp {α : Type} {h : Heap} {ask : ClassId → Option α} {fuel : Nat}
    {c : ClassId} {answer : α} (found : h.searchUp ask fuel c = some answer) :
    ∃ d, h.Derives c d ∧ ask d = some answer := by
  induction fuel generalizing c with
  | zero => cases found
  | succ fuel ih =>
      rw [searchUp] at found
      split at found
      · next here => exact ⟨c, .refl, here.trans found⟩
      · obtain ⟨base, linked, further⟩ := List.exists_of_findSome?_eq_some found
        obtain ⟨d, derives, there⟩ := ih further
        exact ⟨d, .head linked derives, there⟩

theorem derives_of_isSubclass {h : Heap} {c other : ClassId}
    (found : h.isSubclass c other = true) : h.Derives c other := by
  obtain ⟨answer, found⟩ := Option.isSome_iff_exists.1 found
  obtain ⟨d, derives, there⟩ := derives_of_searchUp found
  split at there
  · next same => exact same ▸ derives
  · cases there

theorem findSome?_bases {α : Type} {f g : ClassId → Option α} {bases : List ClassId}
    (same : ∀ b ∈ bases, f b = g b) : bases.findSome? f = bases.findSome? g := by
  induction bases with
  | nil => rfl
  | cons base rest ih =>
      obtain ⟨here, later⟩ := List.forall_mem_cons.1 same
      rw [List.findSome?_cons, List.findSome?_cons, here, ih later]

namespace Orderly

variable {h : Heap} (orderly : h.Orderly)
include orderly

/-- Going on to a base leaves the class behind for good. -/
theorem card_ahead_lt {c base : ClassId} (linked : h.HasBase c base) :
    (h.ahead base).card < (h.ahead c).card := by
  apply Finset.card_lt_card
  refine ⟨fun d found => ?_, fun all => ?_⟩
  · obtain ⟨known, derives⟩ := mem_ahead.1 found
    exact mem_ahead.2 ⟨known, .head linked derives⟩
  · have itself := all (mem_ahead.2 ⟨lt_of_hasBase linked, .refl⟩)
    exact orderly.acyclic c (.head' linked (mem_ahead.1 itself).2)

/-- Every walk along bases ends. -/
theorem wellFounded : WellFounded fun base c => h.HasBase c base :=
  Subrelation.wf orderly.card_ahead_lt (measure fun c => (h.ahead c).card).wf

/-- Paths longer than all classes ahead are not needed. -/
theorem searchUp_enough {α : Type} {ask : ClassId → Option α} {fuel fuel' : Nat} {c : ClassId}
    (enough : (h.ahead c).card < fuel) (enough' : (h.ahead c).card < fuel') :
    h.searchUp ask fuel c = h.searchUp ask fuel' c := by
  induction fuel generalizing fuel' c with
  | zero => omega
  | succ fuel ih =>
      cases fuel' with
      | zero => omega
      | succ fuel' =>
          rw [searchUp, searchUp]
          cases ask c with
          | some answer => rfl
          | none =>
              apply findSome?_bases
              intro base linked
              have less := orderly.card_ahead_lt linked
              apply ih <;> omega

/-- The class answers, or else its bases in order. -/
theorem search_eq {α : Type} (ask : ClassId → Option α) (c : ClassId) :
    h.search ask c = (ask c).or ((h.cls c).bases.findSome? (h.search ask)) := by
  have within := h.card_ahead_le c
  rw [search, searchUp]
  cases ask c with
  | some answer => rfl
  | none =>
      apply findSome?_bases
      intro base linked
      have less := orderly.card_ahead_lt linked
      apply orderly.searchUp_enough <;> omega

theorem findMember?_eq (c : ClassId) (name : String) :
    h.findMember? c name =
      (h.ownMember? name c).or ((h.cls c).bases.findSome? (h.findMember? · name)) :=
  orderly.search_eq _ c

theorem exceptionBase?_eq (c : ClassId) :
    h.exceptionBase? c = (h.cls c).exceptionBase.or ((h.cls c).bases.findSome? h.exceptionBase?) :=
  orderly.search_eq _ c

theorem isSubclass_eq (c other : ClassId) :
    h.isSubclass c other = (c == other || (h.cls c).bases.any (h.isSubclass · other)) := by
  rw [isSubclass, orderly.search_eq]
  by_cases same : c = other
  · simp [same]
  · have differ : (c == other) = false := by simpa using same
    rw [if_neg same, Option.none_or, differ, Bool.false_or, Bool.eq_iff_iff,
      List.findSome?_isSome_iff, List.any_eq_true]
    rfl

/-- A class counts as a subclass of exactly those that its linked bases lead to. -/
theorem isSubclass_iff {c other : ClassId} : h.isSubclass c other = true ↔ h.Derives c other := by
  refine ⟨derives_of_isSubclass, fun derives => ?_⟩
  induction derives using Relation.ReflTransGen.head_induction_on with
  | refl => simp [orderly.isSubclass_eq other other]
  | head linked _ ih =>
      rw [orderly.isSubclass_eq, Bool.or_eq_true, List.any_eq_true]
      exact .inr ⟨_, linked, ih⟩

end Orderly

/-! ## Linking -/

/-- Linking leaves every class as it is, except that one may get a new base, which does not derive
from it. -/
theorem bases_linkBase (h : Heap) (c base a : ClassId) :
    ((h.linkBase c base).cls a).bases = (h.cls a).bases ∨
      (a = c ∧ h.isSubclass base c = false ∧ base ∉ (h.cls a).bases ∧
        ((h.linkBase c base).cls a).bases = (h.cls a).bases ++ [base]) := by
  unfold linkBase
  split
  · exact .inl rfl
  · next unrelated =>
      by_cases known : a < h.classes.size
      · by_cases here : c = a
        · by_cases linked : (h.cls a).bases.contains base = true
          · left
            simp_all [cls, modifyClass, Array.getElem_modify]
          · right
            simp_all [cls, modifyClass, Array.getElem_modify]
        · left
          simp [cls, modifyClass, Array.getElem_modify, known, here]
      · left
        simp [cls, modifyClass, known]

theorem hasBase_linkBase {h : Heap} {c base a b : ClassId} (linked : h.HasBase a b) :
    (h.linkBase c base).HasBase a b := by
  rcases h.bases_linkBase c base a with same | ⟨_, _, _, added⟩
  · rwa [HasBase, same]
  · rw [HasBase, added]
    exact List.mem_append_left _ linked

namespace Orderly

variable {h : Heap} (orderly : h.Orderly)
include orderly

/-- The only link that can be new leads to a base that does not derive from the class. -/
theorem of_hasBase_linkBase {c base a b : ClassId} (linked : (h.linkBase c base).HasBase a b) :
    h.HasBase a b ∨ (a = c ∧ b = base ∧ ¬ h.Derives base c) := by
  rcases h.bases_linkBase c base a with same | ⟨here, unrelated, _, added⟩
  · rw [HasBase, same] at linked
    exact .inl linked
  · rw [HasBase, added, List.mem_append, List.mem_singleton] at linked
    rcases linked with old | last
    · exact .inl old
    · rw [← orderly.isSubclass_iff, unrelated]
      exact .inr ⟨here, last, Bool.false_ne_true⟩

/-- A path after linking was there before, or it passes the new link once: it would come to the
link again only if the base derived from the class. -/
theorem of_transGen_linkBase {c base a b : ClassId}
    (path : Relation.TransGen (h.linkBase c base).HasBase a b) :
    Relation.TransGen h.HasBase a b ∨
      (h.Derives a c ∧ h.Derives base b ∧ ¬ h.Derives base c) := by
  induction path with
  | single linked =>
      rcases orderly.of_hasBase_linkBase linked with old | ⟨here, last, apart⟩
      · exact .inl (.single old)
      · rw [here, last]
        exact .inr ⟨.refl, .refl, apart⟩
  | tail _ linked ih =>
      rcases orderly.of_hasBase_linkBase linked with old | ⟨here, last, apart⟩
      · rcases ih with path | ⟨first, second, apart⟩
        · exact .inl (path.tail old)
        · exact .inr ⟨first, second.tail old, apart⟩
      · rw [here] at ih
        rw [last]
        rcases ih with path | ⟨_, returns, _⟩
        · exact .inr ⟨path.to_reflTransGen, .refl, apart⟩
        · exact absurd returns apart

theorem linkBase (c base : ClassId) : (h.linkBase c base).Orderly where
  acyclic a path := by
    rcases orderly.of_transGen_linkBase path with old | ⟨first, second, apart⟩
    · exact orderly.acyclic a old
    · exact apart (second.trans first)
  nodup a := by
    rcases h.bases_linkBase c base a with same | ⟨_, _, new, added⟩
    · rw [same]
      exact orderly.nodup a
    · rw [added, ← List.concat_eq_append]
      exact (orderly.nodup a).concat new

end Orderly

/-- Whatever becomes of an orderly class graph, it stays orderly. -/
theorem Links.orderly {h h' : Heap} (links : h.Links h') (orderly : h.Orderly) : h'.Orderly := by
  induction links with
  | @same h h' bases =>
      have graph : h'.HasBase = h.HasBase := by
        funext c base
        rw [HasBase, HasBase, bases]
      refine ⟨?_, fun c => ?_⟩
      · rw [graph]
        exact orderly.acyclic
      · rw [bases]
        exact orderly.nodup c
  | link h c base => exact orderly.linkBase c base
  | trans _ _ first second => exact second (first orderly)

/-- What is linked stays linked. -/
theorem Links.hasBase {h h' : Heap} (links : h.Links h') {c base : ClassId}
    (linked : h.HasBase c base) : h'.HasBase c base := by
  induction links with
  | same bases => rwa [HasBase, bases]
  | link h c base => exact hasBase_linkBase linked
  | trans _ _ first second => exact second (first linked)

theorem Links.derives {h h' : Heap} (links : h.Links h') {c d : ClassId} (derives : h.Derives c d) :
    h'.Derives c d :=
  Relation.ReflTransGen.mono (fun _ _ => links.hasBase) c d derives

theorem orderly_empty : Orderly {} where
  acyclic c path := by
    have unlinked (a b : ClassId) : ¬ HasBase {} a b := fun linked =>
      absurd (lt_of_hasBase linked) (Nat.not_lt_zero a)
    cases path with
    | single linked => exact unlinked _ _ linked
    | tail _ linked => exact unlinked _ _ linked
  nodup _ := List.nodup_nil

/-- The classes of a unit come without bases. -/
theorem links_load (h : Heap) (u : CompiledUnit) : h.Links (h.load u).2 := by
  apply Links.same
  intro c
  have classes : (h.load u).2.classes.toList
      = h.classes.toList ++ u.classes.toList.map h.offsets.cls := Array.toList_appendList
  have new (k : Nat) :
      ClassObject.bases ((u.classes.toList.map h.offsets.cls)[k]?.getD default) = [] := by
    rw [List.getElem?_map]
    cases u.classes.toList[k]? <;> rfl
  simp only [cls, Array.getD_eq_getD_getElem?, ← Array.getElem?_toList]
  rw [classes]
  rcases Nat.lt_or_ge c h.classes.toList.length with known | unknown
  · rw [List.getElem?_append_left known]
  · rw [List.getElem?_append_right unknown, new, List.getElem?_eq_none unknown]
    rfl

end ScriptMachine.Heap
