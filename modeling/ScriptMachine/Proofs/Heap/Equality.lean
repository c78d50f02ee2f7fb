import Mathlib.Data.List.Perm.Subperm
import ScriptMachine.Heap.Equality
import ScriptMachine.Proofs.Value.Keys

/-!
Equality of values over a heap. Containers are equal part by part: sequences item by item, maps
entry by entry. A comparison of maps looks only at the entries of the first, but no two of them
have equal keys, so that none is left over in the second if there are as many. Equality is therefore
symmetric and transitive on every heap, whatever lists and maps contain each other, and what is not
equal to itself is so because of its tuples. On keys it is the equality that tables use.
-/

namespace ScriptMachine

/-! ## Maps -/

namespace Table

/-- The tables have as many entries, and each entry of the first has a partner in the second with
an equal key and a related value. -/
def Matches (R : Value → Value → Prop) (s t : Table) : Prop :=
  s.size = t.size ∧
    ∀ e ∈ s.toList, ∃ f ∈ t.toList, Value.keyEquals e.1 f.1 = true ∧ R e.2 f.2

/-- Entries can be given a partner each. -/
theorem exists_partners {Partner : Value × Value → Value × Value → Prop}
    {xs ys : Entries Value Value} (each : ∀ e ∈ xs, ∃ f ∈ ys, Partner e f) :
    ∃ partners, List.Forall₂ Partner xs partners ∧ partners ⊆ ys := by
  induction xs with
  | nil => exact ⟨[], .nil, List.nil_subset _⟩
  | cons e rest ih =>
      obtain ⟨f, member, partner⟩ := each e List.mem_cons_self
      obtain ⟨partners, chosen, among⟩ := ih fun e later => each e (List.mem_cons_of_mem _ later)
      exact ⟨f :: partners, .cons partner chosen, List.cons_subset.2 ⟨member, among⟩⟩

/-- A partner is the partner of some entry. -/
theorem exists_of_mem_partners {Partner : Value × Value → Value × Value → Prop}
    {xs partners : Entries Value Value} (chosen : List.Forall₂ Partner xs partners)
    {f : Value × Value} (member : f ∈ partners) : ∃ e ∈ xs, Partner e f := by
  induction chosen with
  | nil => cases member
  | cons partner _ ih =>
      rcases List.mem_cons.1 member with rfl | later
      · exact ⟨_, List.mem_cons_self, partner⟩
      · obtain ⟨e, among, partner⟩ := ih later
        exact ⟨e, List.mem_cons_of_mem _ among, partner⟩

/-- Entries without equal keys have different partners. -/
theorem nodup_partners {Partner : Value × Value → Value × Value → Prop}
    (keys : ∀ {e f}, Partner e f → Value.keyEquals e.1 f.1 = true)
    {xs partners : Entries Value Value} (distinct : Distinct (Entries.keys xs))
    (chosen : List.Forall₂ Partner xs partners) : partners.Nodup := by
  induction chosen with
  | nil => exact List.nodup_nil
  | cons partner chosen ih =>
      obtain ⟨first, later⟩ := List.pairwise_cons.1 distinct
      apply List.nodup_cons.2
      constructor
      · intro again
        obtain ⟨e, member, partner'⟩ := exists_of_mem_partners chosen again
        have equal := Value.keyEquals_trans (keys partner') (Value.keyEquals_symm (keys partner))
        rw [first e.1 (List.mem_map_of_mem member)] at equal
        cases equal
      · exact ih later

/-- The partners of all entries are as many as there are entries in the second table, and no two of
them are one, so every entry of the second table is a partner. -/
theorem Matches.flip {R : Value → Value → Prop} {s t : Table} (holds : s.Matches R t) :
    t.Matches (fun x y => R y x) s := by
  obtain ⟨sizes, each⟩ := holds
  obtain ⟨partners, chosen, among⟩ := exists_partners each
  have all : partners.Perm t.toList := by
    have different := nodup_partners And.left s.distinct chosen
    have length := chosen.length_eq
    apply (different.subperm among).perm_of_length_le
    rw [length_toList] at length ⊢
    omega
  refine ⟨sizes.symm, ?_⟩
  intro f member
  obtain ⟨e, entry, equal, related⟩ := exists_of_mem_partners chosen (all.mem_iff.2 member)
  exact ⟨e, entry, Value.keyEquals_symm equal, related⟩

theorem Matches.symm {R : Value → Value → Prop} (symm : ∀ ⦃a b⦄, R a b → R b a) {s t : Table}
    (holds : s.Matches R t) : t.Matches R s := by
  refine ⟨holds.1.symm, fun f member => ?_⟩
  obtain ⟨e, entry, equal, related⟩ := holds.flip.2 f member
  exact ⟨e, entry, equal, symm related⟩

theorem Matches.trans {R : Value → Value → Prop} (trans : ∀ ⦃a b c⦄, R a b → R b c → R a c)
    {s t u : Table} (first : s.Matches R t) (second : t.Matches R u) : s.Matches R u := by
  refine ⟨first.1.trans second.1, ?_⟩
  intro e member
  obtain ⟨f, entry, equal, related⟩ := first.2 e member
  obtain ⟨g, entry', equal', related'⟩ := second.2 f entry
  exact ⟨g, entry', Value.keyEquals_trans equal equal', trans related related'⟩

end Table

namespace Heap

/-- Maps agree if each entry of the first is matched by what the second has under its key. -/
theorem entriesAgree_iff {compare : Value → Value → Option Bool} {s t : Table} :
    s.size = t.size ∧ entriesAgree compare t s.toList = some true ↔
      s.Matches (fun x y => compare x y = some true) t := by
  have each (entries : Entries Value Value) : entriesAgree compare t entries = some true ↔
      ∀ e ∈ entries, ∃ partner, t.find? e.1 = some partner ∧ compare e.2 partner = some true := by
    induction entries with
    | nil => simp [entriesAgree]
    | cons e rest ih =>
        rw [List.forall_mem_cons, ← ih, entriesAgree]
        cases t.find? e.1 with
        | none => simp
        | some partner => cases compare e.2 partner <;> grind
  rw [each, Table.Matches]
  simp only [Table.find?_eq_some]
  grind

/-! ## Parts -/

/-- Containers of one kind whose parts are related: sequences item by item, maps entry by entry. -/
inductive Partwise (h : Heap) (R : Value → Value → Prop) : Value → Value → Prop
  | tuple {xs ys : List Value} : List.Forall₂ R xs ys → Partwise h R (.tuple xs) (.tuple ys)
  | list {i j : ListId} :
      List.Forall₂ R (h.list i).toList (h.list j).toList → Partwise h R (.list i) (.list j)
  | map {i j : MapId} : (h.map i).Matches R (h.map j) → Partwise h R (.map i) (.map j)

namespace Partwise

variable {h : Heap} {R : Value → Value → Prop} {a b c : Value}

theorem symm (symm : ∀ ⦃a b⦄, R a b → R b a) (parts : h.Partwise R a b) : h.Partwise R b a := by
  cases parts with
  | tuple items => exact .tuple (Value.forall₂_symm symm items)
  | list items => exact .list (Value.forall₂_symm symm items)
  | map entries => exact .map (entries.symm symm)

theorem trans (trans : ∀ ⦃a b c⦄, R a b → R b c → R a c) (first : h.Partwise R a b)
    (second : h.Partwise R b c) : h.Partwise R a c := by
  cases first with
  | tuple items =>
      cases second with
      | tuple items' => exact .tuple (Value.forall₂_trans trans items items')
  | list items =>
      cases second with
      | list items' => exact .list (Value.forall₂_trans trans items items')
  | map entries =>
      cases second with
      | map entries' => exact .map (entries.trans trans entries')

theorem of_same (same : Value.Same a b) (parts : h.Partwise R b c) : h.Partwise R a c := by
  cases parts with
  | tuple => exact absurd same Value.not_same_tuple
  | list items =>
      rw [Value.same_list.1 same]
      exact .list items
  | map entries =>
      rw [Value.same_map.1 same]
      exact .map entries

theorem and_same (parts : h.Partwise R a b) (same : Value.Same b c) : h.Partwise R a c := by
  cases parts with
  | tuple => exact absurd same.symm Value.not_same_tuple
  | list items =>
      rw [Value.same_list.1 same.symm]
      exact .list items
  | map entries =>
      rw [Value.same_map.1 same.symm]
      exact .map entries

theorem tuple_iff {xs ys : List Value} :
    h.Partwise R (.tuple xs) (.tuple ys) ↔ List.Forall₂ R xs ys :=
  ⟨fun | .tuple items => items, .tuple⟩

theorem list_iff {i j : ListId} : h.Partwise R (.list i) (.list j) ↔
    List.Forall₂ R (h.list i).toList (h.list j).toList :=
  ⟨fun | .list items => items, .list⟩

theorem map_iff {i j : MapId} :
    h.Partwise R (.map i) (.map j) ↔ (h.map i).Matches R (h.map j) :=
  ⟨fun | .map entries => entries, .map⟩

end Partwise

/-- Values are equal that are the same, or containers of one kind with equal parts. -/
theorem equalsWithin_layered (h : Heap) :
    Value.Layered (fun budget a b => h.equalsWithin budget a b = some true) h.Partwise := by
  intro budget a b
  change h.equalsWithin budget a b = some true ↔ _
  conv_lhs => unfold equalsWithin
  split
  · next xs ys =>
      by_cases sizes : xs.length = ys.length <;> cases budget <;>
        simp [Partwise.tuple_iff, ← Value.pairwise_iff, sizes]
  · next i j =>
      by_cases here : i = j
      · simp [here]
      · by_cases sizes : (h.list i).size = (h.list j).size <;> cases budget <;>
          simp [Partwise.list_iff, ← Value.pairwise_iff, sizes, here]
  · next i j =>
      by_cases here : i = j
      · simp [here]
      · by_cases sizes : (h.map i).size = (h.map j).size <;> cases budget <;>
          simp [Partwise.map_iff, ← entriesAgree_iff, sizes, here]
  · next tuples lists maps =>
      rw [← Value.atomEquals_iff, Option.some.injEq]
      refine ⟨.inl, ?_⟩
      rintro (equal | further)
      · exact equal
      · cases budget with
        | zero => cases further
        | succ less =>
            cases further with
            | tuple => exact absurd rfl (tuples _ _ rfl)
            | list => exact absurd rfl (lists _ _ rfl)
            | map => exact absurd rfl (maps _ _ rfl)

theorem equalsWithin_symm {h : Heap} {budget : Nat} {a b : Value}
    (equal : h.equalsWithin budget a b = some true) : h.equalsWithin budget b a = some true :=
  h.equalsWithin_layered.symm (fun symm _ _ parts => parts.symm symm) budget equal

theorem equalsWithin_trans {h : Heap} {budget : Nat} {a b c : Value}
    (first : h.equalsWithin budget a b = some true)
    (second : h.equalsWithin budget b c = some true) : h.equalsWithin budget a c = some true :=
  h.equalsWithin_layered.trans (fun trans _ _ _ first second => first.trans trans second)
    .of_same .and_same budget first second

theorem equals_iff {h : Heap} {a b : Value} :
    h.equals a b = true ↔ h.equalsWithin Value.maxNesting a b = some true := by
  unfold equals equals?
  cases h.equalsWithin Value.maxNesting a b <;> simp

end Heap

/-! ## What equals itself -/

namespace Value

mutual

/-- How deep tuples are nested in a value, itself included. -/
def tupleDepth : Value → Nat
  | .tuple items => tupleDepthOf items + 1
  | _ => 0

/-- How deep tuples are nested in the items of one. -/
def tupleDepthOf : List Value → Nat
  | [] => 0
  | item :: rest => max (tupleDepth item) (tupleDepthOf rest)

end

mutual

/-- The value is not a number, or a tuple that holds such a float, perhaps in another tuple. -/
def holdsNaN : Value → Bool
  | .float f => f.isNaN
  | .tuple items => holdNaN items
  | _ => false

/-- Some item of a tuple is or holds what is not a number. -/
def holdNaN : List Value → Bool
  | [] => false
  | item :: rest => holdsNaN item || holdNaN rest

end

theorem tupleDepthOf_le {n : Nat} {items : List Value} :
    tupleDepthOf items ≤ n ↔ ∀ v ∈ items, v.tupleDepth ≤ n := by
  induction items with
  | nil => simp [tupleDepthOf]
  | cons item rest ih => rw [tupleDepthOf, Nat.max_le, ih, List.forall_mem_cons]

theorem holdNaN_eq_false {items : List Value} :
    holdNaN items = false ↔ ∀ v ∈ items, v.holdsNaN = false := by
  induction items with
  | nil => simp [holdNaN]
  | cons item rest ih => rw [holdNaN, Bool.or_eq_false_iff, ih, List.forall_mem_cons]

end Value

namespace Heap

/-- A value equals itself if its tuples are not nested too deep and it is or holds only numbers.
Lists and maps are equal to themselves whatever they contain. -/
theorem equalsWithin_self {h : Heap} {budget : Nat} {v : Value} :
    h.equalsWithin budget v v = some true ↔ v.tupleDepth ≤ budget ∧ v.holdsNaN = false := by
  induction budget generalizing v with
  | zero =>
      cases v <;> simp [equalsWithin, Value.atomEquals, Value.tupleDepth, Value.holdsNaN,
        Binary64.equals]
  | succ budget ih =>
      cases v with
      | tuple items =>
          rw [Value.tupleDepth, Value.holdsNaN, Nat.add_le_add_iff_right, Value.tupleDepthOf_le,
            Value.holdNaN_eq_false, ← forall₂_and]
          apply (h.equalsWithin_layered _ _ _).trans
          simp [Partwise.tuple_iff, List.forall₂_same, ih]
      | _ => simp [equalsWithin, Value.atomEquals, Value.tupleDepth, Value.holdsNaN,
          Binary64.equals]

/-- Equality is symmetric and transitive on every heap, and a value equals itself exactly if its
tuples are nested no deeper than a comparison looks and lead to no float that is not a number. -/
theorem equals_partial_equivalence (h : Heap) :
    (∀ a b, h.equals a b = true → h.equals b a = true) ∧
      (∀ a b c, h.equals a b = true → h.equals b c = true → h.equals a c = true) ∧
      ∀ a, h.equals a a = true ↔ a.tupleDepth ≤ Value.maxNesting ∧ a.holdsNaN = false := by
  simp only [equals_iff]
  exact ⟨fun _ _ => equalsWithin_symm, fun _ _ _ => equalsWithin_trans, fun _ => equalsWithin_self⟩

/-- A list that contains itself stands in two others, beside a zero and beside the zero with the
other sign. -/
def knottedHeap : Heap where
  lists := #[#[.list 0], #[.int 0, .list 0], #[.float (.zero true), .list 0]]

theorem equals_partial_equivalence_knottedHeap :
    knottedHeap.equals (.list 2) (.list 1) = true ∧
      knottedHeap.equals (.tuple [.list 0]) (.tuple [.list 0]) = true := by
  obtain ⟨symm, -, self⟩ := equals_partial_equivalence knottedHeap
  exact ⟨symm _ _ (by decide +kernel), (self _).2 (by decide)⟩

end Heap

/-! ## Keys -/

theorem Value.isHashable_tuple {items : List Value} :
    (tuple items).isHashable = true ↔ ∀ v ∈ items, v.isHashable = true := by
  unfold isHashable
  rw [unhashable?]
  induction items with
  | nil => simp [unhashableItem?]
  | cons item rest ih =>
      rw [List.forall_mem_cons, ← ih, unhashableItem?]
      cases unhashable? item <;> simp

theorem Value.pairwise_congr {f g : Value → Value → Option Bool} {xs : List Value}
    (same : ∀ x ∈ xs, ∀ y, f x y = g x y) (ys : List Value) :
    pairwise f xs ys = pairwise g xs ys := by
  induction xs generalizing ys with
  | nil => cases ys <;> rfl
  | cons x xs ih =>
      obtain ⟨here, later⟩ := List.forall_mem_cons.1 same
      cases ys with
      | nil => rfl
      | cons y ys => rw [pairwise, pairwise, here, ih later]

namespace Heap

/-- Keys are compared without a heap: no list or map is reached from a key. -/
theorem equalsWithin_eq_key {h : Heap} {budget : Nat} {a b : Value}
    (hashable : a.isHashable = true) :
    h.equalsWithin budget a b = Value.keyEqualsWithin budget a b := by
  induction budget generalizing a b with
  | zero =>
      cases a with
      | list | map => cases hashable
      | tuple => cases b <;> simp [equalsWithin, Value.keyEqualsWithin]
      | _ => simp [equalsWithin, Value.keyEqualsWithin]
  | succ budget ih =>
      cases a with
      | list | map => cases hashable
      | tuple xs =>
          have items : ∀ x ∈ xs, ∀ y, h.equalsWithin budget x y = Value.keyEqualsWithin budget x y :=
            fun x member y => ih (Value.isHashable_tuple.1 hashable x member)
          cases b <;> simp [equalsWithin, Value.keyEqualsWithin, Value.pairwise_congr items]
      | _ => simp [equalsWithin, Value.keyEqualsWithin]

theorem equals_eq_key {h : Heap} {a b : Value} (hashable : a.isHashable = true) :
    h.equals a b = Value.keyEquals a b := by
  rw [equals, equals?, equalsWithin_eq_key hashable, Value.keyEquals]

/-- Equal keys feed the same words into a hash, however deep it looks, so that they have one hash
and are one key in every table. Bound methods are those that looking up a method makes. -/
theorem hash_agrees_with_equality {h : Heap} {a b : Value} (key : a.isHashable = true)
    (equal : h.equals a b = true) :
    (∀ budget, Value.hashWords budget a = Value.hashWords budget b) ∧ a.hash = b.hash ∧
      ∀ t : Table, t.position? a = t.position? b ∧ t.find? a = t.find? b ∧
        ∀ value, (t.insert a value).find? b = some value := by
  rw [equals_eq_key key] at equal
  have words := Value.hashWords_eq_of_keyEqualsWithin (Value.keyEquals_iff.1 equal)
  refine ⟨words, Value.hash_eq_of_keyEquals equal, ?_⟩
  intro t
  exact ⟨t.position?_of_keyEquals equal, t.find?_of_keyEquals equal,
    t.find?_insert_of_keyEquals equal⟩

/-- The zeros of both signs are one key, also inside a tuple. -/
example : (Value.tuple [.int 0]).hash = (Value.tuple [.float (.zero true)]).hash := by
  decide +kernel

end Heap
end ScriptMachine
