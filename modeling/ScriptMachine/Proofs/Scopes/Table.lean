import Mathlib.Data.List.Find
import Mathlib.Data.List.Nodup
import ScriptMachine.Source.Scope

/-!
The scope tree. `Tree` holds of every table the first pass builds: parents have smaller
numbers than their children, a function boundary hangs below the root, every other scope lies
inside a function, and a number is one the boundary handed out, to no other name of the scope.
`Grows` says how a table may change while the pass goes on: nothing that has been recorded is
ever changed.
-/

namespace ScriptMachine

/-- A scope keeps its place in the tree; names and nested scopes are added at the end. -/
structure Scope.Grows (s t : Scope) : Prop where
  parent : t.parent = s.parent
  boundary : t.isBoundary = s.isBoundary
  children : s.children <+: t.children
  slots : s.slotCount ≤ t.slotCount
  symbols : s.symbols <+: t.symbols

theorem Scope.Grows.refl (s : Scope) : s.Grows s :=
  ⟨rfl, rfl, List.prefix_refl _, Nat.le_refl _, List.prefix_refl _⟩

/-- What has grown twice has grown. -/
theorem Scope.Grows.trans {s t u : Scope} (first : s.Grows t) (second : t.Grows u) : s.Grows u :=
  ⟨second.parent.trans first.parent, second.boundary.trans first.boundary,
    first.children.trans second.children, Nat.le_trans first.slots second.slots,
    first.symbols.trans second.symbols⟩

/-- A name keeps the symbol it was declared with. -/
theorem Scope.Grows.find? {s t : Scope} (grows : s.Grows t) {name : String} {symbol : Symbol}
    (declared : s.find? name = some symbol) : t.find? name = some symbol :=
  grows.symbols.find?_eq_some declared

namespace ScopeTable

/-! ## Changing scopes -/

@[simp] theorem size_update (t : ScopeTable) (id : Nat) (change : Scope → Scope) :
    (t.update id change).scopes.size = t.scopes.size :=
  Array.size_modify

@[simp] theorem current_update (t : ScopeTable) (id : Nat) (change : Scope → Scope) :
    (t.update id change).current = t.current :=
  rfl

/-- A change of one scope is seen at that scope only. -/
theorem scope_update (t : ScopeTable) (id : Nat) (change : Scope → Scope) (j : Nat) :
    (t.update id change).scope j
      = if id = j ∧ j < t.scopes.size then change (t.scope j) else t.scope j := by
  simp only [scope, update, Array.getD_eq_getD_getElem?, Array.getElem?_modify]
  by_cases same : id = j
  · subst same
    by_cases inside : id < t.scopes.size
    · simp [inside]
    · simp [inside]
  · simp [same]

/-- Beyond the table there are only empty scopes. -/
theorem scope_of_size_le {t : ScopeTable} {j : Nat} (outside : t.scopes.size ≤ j) :
    t.scope j = { parent := none, isBoundary := true } := by
  simp [scope, Array.getD_eq_getD_getElem?, outside]

@[simp] theorem symbols_update_children (t : ScopeTable) (id : Nat) (f : Scope → List Nat)
    (j : Nat) :
    ((t.update id fun s => { s with children := f s }).scope j).symbols = (t.scope j).symbols := by
  rw [scope_update]
  split <;> rfl

@[simp] theorem symbols_update_slotCount (t : ScopeTable) (id : Nat) (f : Scope → Nat) (j : Nat) :
    ((t.update id fun s => { s with slotCount := f s }).scope j).symbols = (t.scope j).symbols := by
  rw [scope_update]
  split <;> rfl

@[simp] theorem slotCount_update_symbols (t : ScopeTable) (id : Nat) (f : Scope → List Symbol)
    (j : Nat) :
    ((t.update id fun s => { s with symbols := f s }).scope j).slotCount = (t.scope j).slotCount := by
  rw [scope_update]
  split <;> rfl

@[simp] theorem size_beginScope (t : ScopeTable) (isBoundary : Bool) :
    (t.beginScope isBoundary).scopes.size = t.scopes.size + 1 := by
  simp [beginScope]

@[simp] theorem current_beginScope (t : ScopeTable) (isBoundary : Bool) :
    (t.beginScope isBoundary).current = t.scopes.size :=
  rfl

/-- A new scope is the last one, and the one around it has one child more. -/
theorem scope_beginScope (t : ScopeTable) (isBoundary : Bool) (j : Nat) :
    (t.beginScope isBoundary).scope j =
      if j = t.scopes.size then { parent := some t.current, isBoundary }
      else (t.update t.current fun s => { s with children := s.children ++ [t.scopes.size] }).scope j := by
  have size := size_update t t.current fun s => { s with children := s.children ++ [t.scopes.size] }
  simp only [scope, beginScope, Array.getD_eq_getD_getElem?, Array.getElem?_push, size]
  split <;> rfl

/-- Opening a scope declares nothing. -/
theorem symbols_beginScope (t : ScopeTable) (isBoundary : Bool) (j : Nat) :
    ((t.beginScope isBoundary).scope j).symbols = (t.scope j).symbols := by
  rw [scope_beginScope]
  split
  · next last => rw [scope_of_size_le (Nat.le_of_eq last.symm)]
  · exact symbols_update_children _ _ _ _

/-- Opening a scope takes no slot. -/
theorem slotCount_beginScope (t : ScopeTable) (isBoundary : Bool) (j : Nat) :
    ((t.beginScope isBoundary).scope j).slotCount = (t.scope j).slotCount := by
  rw [scope_beginScope]
  split
  · next last => rw [scope_of_size_le (Nat.le_of_eq last.symm)]
  · rw [scope_update]
    split <;> rfl

@[simp] theorem scopes_endScope (t : ScopeTable) : t.endScope.scopes = t.scopes :=
  rfl

@[simp] theorem scope_endScope (t : ScopeTable) (j : Nat) : t.endScope.scope j = t.scope j :=
  rfl

@[simp] theorem size_addSymbol (t : ScopeTable) (name : String) :
    (t.addSymbol name).2.scopes.size = t.scopes.size := by
  unfold addSymbol
  split <;> simp

@[simp] theorem current_addSymbol (t : ScopeTable) (name : String) :
    (t.addSymbol name).2.current = t.current := by
  unfold addSymbol
  split <;> rfl

@[simp] theorem children_addSymbol (t : ScopeTable) (name : String) (j : Nat) :
    ((t.addSymbol name).2.scope j).children = (t.scope j).children := by
  unfold addSymbol
  split
  · rfl
  · simp only [scope_update]
    split <;> split <;> rfl

section

variable {t : ScopeTable} {name : String} {symbol : Symbol}

/-- A scope that declares something is in the table. -/
theorem inside_of_mem {j : Nat} (member : symbol ∈ (t.scope j).symbols) : j < t.scopes.size := by
  refine Nat.lt_of_not_le fun outside => ?_
  rw [scope_of_size_le outside] at member
  cases member

/-- The symbol that the next new name of the current scope gets. -/
def nextSymbol (t : ScopeTable) (name : String) : Symbol where
  name := name
  index := (t.scope (t.boundaryOf t.current)).slotCount
  kind := if t.boundaryOf t.current = root then .global else .slot

/-- A name that is there keeps its symbol. -/
theorem addSymbol_of_some (found : (t.scope t.current).find? name = some symbol) :
    t.addSymbol name = (symbol, t) := by
  rw [addSymbol, found]

/-- A new name gets the symbol that is next. -/
theorem addSymbol_of_none (new : (t.scope t.current).find? name = none) :
    (t.addSymbol name).1 = t.nextSymbol name := by
  rw [addSymbol, new]
  rfl

/-- A new symbol is added to the current scope, behind the others. -/
theorem symbols_addSymbol_of_none (new : (t.scope t.current).find? name = none)
    (current : t.current < t.scopes.size) (j : Nat) :
    ((t.addSymbol name).2.scope j).symbols = (t.scope j).symbols ++
      if j = t.current then [t.nextSymbol name] else [] := by
  rw [addSymbol, new]
  dsimp only
  rw [scope_update]
  split
  · next here =>
    rw [if_pos here.1.symm, symbols_update_slotCount]
    rfl
  · next other =>
    have differ : j ≠ t.current := by
      rintro rfl
      exact other ⟨rfl, by simpa using current⟩
    rw [if_neg differ, symbols_update_slotCount, List.append_nil]

/-- A new symbol takes a slot of the boundary, be it the current scope or one around it. -/
theorem slotCount_addSymbol_of_none (new : (t.scope t.current).find? name = none)
    (inside : t.boundaryOf t.current < t.scopes.size) (j : Nat) :
    ((t.addSymbol name).2.scope j).slotCount = (t.scope j).slotCount +
      if j = t.boundaryOf t.current then 1 else 0 := by
  rw [addSymbol, new]
  dsimp only
  rw [slotCount_update_symbols, scope_update]
  split
  · next here => rw [if_pos here.1.symm]
  · next other =>
    have differ : j ≠ t.boundaryOf t.current := by
      rintro rfl
      exact other ⟨rfl, inside⟩
    rw [if_neg differ, Nat.add_zero]

/-- The symbol that is given for a name is the one that the current scope has for it then. -/
theorem find?_addSymbol (current : t.current < t.scopes.size) (name : String) :
    ((t.addSymbol name).2.scope t.current).find? name = some (t.addSymbol name).1 := by
  cases found : (t.scope t.current).find? name with
  | some symbol =>
      rw [addSymbol_of_some found]
      exact found
  | none =>
      rw [addSymbol_of_none found, Scope.find?, symbols_addSymbol_of_none found current, if_pos rfl,
        List.find?_append, ← Scope.find?, found]
      simp [nextSymbol]

/-- A symbol was there before or is the new one. -/
theorem mem_symbols_addSymbol (new : (t.scope t.current).find? name = none)
    (current : t.current < t.scopes.size) {j : Nat}
    (member : symbol ∈ ((t.addSymbol name).2.scope j).symbols) :
    symbol ∈ (t.scope j).symbols ∨ j = t.current ∧ symbol = t.nextSymbol name := by
  rw [symbols_addSymbol_of_none new current, List.mem_append] at member
  refine member.imp_right fun last => ?_
  split at last
  · next here => exact ⟨here, List.mem_singleton.1 last⟩
  · cases last

end

/-! ## Growing tables -/

/-- A table keeps its scopes and may get more. -/
structure Grows (s t : ScopeTable) : Prop where
  size : s.scopes.size ≤ t.scopes.size
  scopes : ∀ j < s.scopes.size, (s.scope j).Grows (t.scope j)

theorem Grows.refl (t : ScopeTable) : t.Grows t :=
  ⟨Nat.le_refl _, fun _ _ => .refl _⟩

/-- A table that has grown twice has grown. -/
theorem Grows.trans {s t u : ScopeTable} (first : s.Grows t) (second : t.Grows u) : s.Grows u :=
  ⟨Nat.le_trans first.size second.size, fun j inside =>
    (first.scopes j inside).trans (second.scopes j (Nat.lt_of_lt_of_le inside first.size))⟩

/-- A table grows if one of its scopes does. -/
theorem grows_update {t : ScopeTable} {id : Nat} {change : Scope → Scope}
    (grows : ∀ s : Scope, s.Grows (change s)) : t.Grows (t.update id change) := by
  refine ⟨by simp, fun j _ => ?_⟩
  rw [scope_update]
  split
  · exact grows _
  · exact .refl _

theorem grows_beginScope (t : ScopeTable) (isBoundary : Bool) :
    t.Grows (t.beginScope isBoundary) := by
  refine ⟨by simp, fun j inside => ?_⟩
  rw [scope_beginScope, if_neg (Nat.ne_of_lt inside)]
  refine (grows_update fun s => ?_).scopes j inside
  exact ⟨rfl, rfl, List.prefix_append _ _, Nat.le_refl _, List.prefix_refl _⟩

theorem grows_endScope (t : ScopeTable) : t.Grows t.endScope :=
  ⟨Nat.le_refl _, fun _ _ => .refl _⟩

theorem grows_addSymbol (t : ScopeTable) (name : String) : t.Grows (t.addSymbol name).2 := by
  unfold addSymbol
  split
  · exact .refl _
  · refine (grows_update fun s => ?_).trans (grows_update fun s => ?_)
    · exact ⟨rfl, rfl, List.prefix_refl _, Nat.le_succ _, List.prefix_refl _⟩
    · exact ⟨rfl, rfl, List.prefix_refl _, Nat.le_refl _, List.prefix_append _ _⟩

/-! ## Enclosing scopes -/

/-- Scopes are numbered from the root down: the root has no parent, and any other scope has one
with a smaller number. -/
structure Nested (t : ScopeTable) : Prop where
  root : (t.scope 0).parent = none ∧ (t.scope 0).isBoundary = true
  inner : ∀ j, 0 < j → j < t.scopes.size → ∃ p < j, (t.scope j).parent = some p

/-- Scopes are numbered from the root down: the root has no parent, boundaries hang below the
root, and all other scopes are inside a function. -/
structure Rooted (t : ScopeTable) : Prop where
  root : (t.scope 0).parent = none ∧ (t.scope 0).isBoundary = true
  inner : ∀ j, 0 < j → j < t.scopes.size →
    ∃ p < j, (t.scope j).parent = some p ∧ ((t.scope j).isBoundary = true ↔ p = 0)

variable {s t : ScopeTable}

/-- A rooted table is nested. It only says more about boundaries. -/
theorem Rooted.nested (rooted : t.Rooted) : t.Nested where
  root := rooted.root
  inner j below inside := by
    obtain ⟨p, smaller, parent, -⟩ := rooted.inner j below inside
    exact ⟨p, smaller, parent⟩

/-- Parents come before their children, so the number of a scope bounds the way up. -/
theorem Nested.pathUp_enough (nested : t.Nested) {j : Nat} (inside : j < t.scopes.size)
    {steps : Nat} (enough : j < steps) : t.pathUp steps j = t.enclosing j := by
  induction j using Nat.strongRecOn generalizing steps with
  | ind j ih =>
      obtain ⟨more, rfl⟩ : ∃ more, steps = more + 1 := ⟨steps - 1, by omega⟩
      rcases Nat.eq_zero_or_pos j with rfl | below
      · simp only [enclosing, pathUp, nested.root.1]
      · obtain ⟨p, smaller, parent⟩ := nested.inner j below inside
        simp only [enclosing, pathUp, parent]
        rw [ih p smaller (by omega) (by omega), ih p smaller (by omega) smaller]

theorem Nested.enclosing_root (nested : t.Nested) : t.enclosing 0 = [0] := by
  simp only [enclosing, pathUp, nested.root.1]

/-- The scopes around a scope are itself and those around its parent. -/
theorem Nested.enclosing_inner (nested : t.Nested) {j p : Nat} (below : 0 < j)
    (inside : j < t.scopes.size) (parent : (t.scope j).parent = some p) :
    t.enclosing j = j :: t.enclosing p := by
  obtain ⟨q, smaller, same⟩ := nested.inner j below inside
  cases parent.symm.trans same
  rw [enclosing, pathUp, parent]
  simp only [nested.pathUp_enough (Nat.lt_trans smaller inside) smaller]

/-- A boundary is its own. -/
theorem Nested.boundaryOf_boundary (nested : t.Nested) {j : Nat} (inside : j < t.scopes.size)
    (boundary : (t.scope j).isBoundary = true) : t.boundaryOf j = j := by
  rcases Nat.eq_zero_or_pos j with rfl | below
  · simp [boundaryOf, nested.enclosing_root, boundary]
  · obtain ⟨p, _, parent⟩ := nested.inner j below inside
    simp [boundaryOf, nested.enclosing_inner below inside parent, boundary]

theorem Nested.boundaryOf_root (nested : t.Nested) : t.boundaryOf 0 = 0 := by
  simp [boundaryOf, nested.enclosing_root, nested.root.2]

/-- A scope that is no boundary has that of its parent. -/
theorem Nested.boundaryOf_inner (nested : t.Nested) {j p : Nat} (below : 0 < j)
    (inside : j < t.scopes.size) (parent : (t.scope j).parent = some p)
    (plain : (t.scope j).isBoundary = false) : t.boundaryOf j = t.boundaryOf p := by
  simp only [boundaryOf, nested.enclosing_inner below inside parent]
  rw [List.find?_cons_of_neg (by simp [plain])]

/-- Going up from a scope, all scopes before the root belong to the same boundary. -/
theorem Rooted.boundaryOf_enclosing (rooted : t.Rooted) {i j : Nat} (inside : j < t.scopes.size)
    (above : i ∈ t.enclosing j) : i = 0 ∨ t.boundaryOf i = t.boundaryOf j := by
  induction j using Nat.strongRecOn with
  | ind j ih =>
      rcases Nat.eq_zero_or_pos j with rfl | below
      · rw [rooted.nested.enclosing_root, List.mem_singleton] at above
        exact .inl above
      · obtain ⟨p, smaller, parent, hung⟩ := rooted.inner j below inside
        rw [rooted.nested.enclosing_inner below inside parent] at above
        rcases List.mem_cons.1 above with rfl | above
        · exact .inr rfl
        · cases nested : (t.scope j).isBoundary with
          | true =>
              rw [hung.1 nested, rooted.nested.enclosing_root, List.mem_singleton] at above
              exact .inl above
          | false =>
              rw [rooted.nested.boundaryOf_inner below inside parent nested]
              exact ih p smaller (Nat.lt_trans smaller inside) above

theorem Nested.boundaryOf_lt (nested : t.Nested) {j : Nat} (inside : j < t.scopes.size) :
    t.boundaryOf j < t.scopes.size := by
  induction j using Nat.strongRecOn with
  | ind j ih =>
      cases plain : (t.scope j).isBoundary with
      | true => exact (nested.boundaryOf_boundary inside plain).symm ▸ inside
      | false =>
          rcases Nat.eq_zero_or_pos j with rfl | below
          · exact nested.boundaryOf_root.symm ▸ inside
          · obtain ⟨p, smaller, parent⟩ := nested.inner j below inside
            rw [nested.boundaryOf_inner below inside parent plain]
            exact ih p smaller (Nat.lt_trans smaller inside)

/-- Closing a scope leads to one that is there. -/
theorem Nested.current_endScope (nested : t.Nested) (inside : t.current < t.scopes.size) :
    t.endScope.current < t.scopes.size := by
  rcases Nat.eq_zero_or_pos t.current with zero | below
  · simp only [endScope, zero, nested.root.1, Option.getD_none]
    exact zero ▸ inside
  · obtain ⟨p, smaller, parent⟩ := nested.inner t.current below inside
    simp only [endScope, parent, Option.getD_some]
    exact Nat.lt_trans smaller inside

/-- Two tables that agree on parents have the same enclosing scopes. -/
theorem Nested.enclosing_congr (nested : s.Nested) (other : t.Nested)
    (size : s.scopes.size ≤ t.scopes.size)
    (parents : ∀ j < s.scopes.size, (t.scope j).parent = (s.scope j).parent) {j : Nat}
    (inside : j < s.scopes.size) : t.enclosing j = s.enclosing j := by
  induction j using Nat.strongRecOn with
  | ind j ih =>
      rcases Nat.eq_zero_or_pos j with rfl | below
      · rw [nested.enclosing_root, other.enclosing_root]
      · obtain ⟨p, smaller, parent⟩ := nested.inner j below inside
        rw [nested.enclosing_inner below inside parent,
          other.enclosing_inner below (Nat.lt_of_lt_of_le inside size)
            ((parents j inside).trans parent),
          ih p smaller (Nat.lt_trans smaller inside)]

/-- The scopes around one are in the table. -/
theorem Nested.enclosing_lt (nested : t.Nested) {i j : Nat} (inside : j < t.scopes.size)
    (above : i ∈ t.enclosing j) : i < t.scopes.size := by
  induction j using Nat.strongRecOn with
  | ind j ih =>
      rcases Nat.eq_zero_or_pos j with rfl | below
      · rw [nested.enclosing_root, List.mem_singleton] at above
        exact above ▸ inside
      · obtain ⟨p, smaller, parent⟩ := nested.inner j below inside
        rw [nested.enclosing_inner below inside parent] at above
        rcases List.mem_cons.1 above with rfl | above
        · exact inside
        · exact ih p smaller (Nat.lt_trans smaller inside) above

/-- Boundaries stay as a table grows. -/
theorem Grows.boundaryOf (grows : s.Grows t) (nested : s.Nested) (other : t.Nested) {j : Nat}
    (inside : j < s.scopes.size) : t.boundaryOf j = s.boundaryOf j := by
  have same := nested.enclosing_congr other grows.size
    (fun i inner => (grows.scopes i inner).parent) inside
  rw [ScopeTable.boundaryOf, ScopeTable.boundaryOf, same]
  rw [List.find?_congr fun i above =>
    (grows.scopes i (nested.enclosing_lt inside above)).boundary]

/-! ## The invariant of the first pass -/

/-- A rooted table in which every number was handed out by the boundary of its scope, no number of a
scope twice. -/
structure Tree (t : ScopeTable) : Prop extends Rooted t where
  current : t.current < t.scopes.size
  inner_slot : ∀ j < t.scopes.size, ∀ symbol ∈ (t.scope j).symbols, symbol.kind = .slot → 0 < j
  handed : ∀ j < t.scopes.size, ∀ symbol ∈ (t.scope j).symbols,
    symbol.index < (t.scope (t.boundaryOf j)).slotCount
  ordered : ∀ j < t.scopes.size, (t.scope j).symbols.Pairwise (·.index < ·.index)

theorem tree_empty : Tree {} where
  root := ⟨rfl, rfl⟩
  inner j below inside := absurd inside (Nat.not_lt.2 below)
  current := Nat.one_pos
  inner_slot j inside symbol member := by
    cases Nat.lt_one_iff.1 inside
    cases member
  handed j inside symbol member := by
    cases Nat.lt_one_iff.1 inside
    cases member
  ordered j inside := by
    cases Nat.lt_one_iff.1 inside
    exact .nil

/-- `u` has the scopes of `t`, of which it has walked some again. -/
structure Revisits (t u : ScopeTable) (visited : Nat → Nat) : Prop where
  size : u.scopes.size = t.scopes.size
  scopes : ∀ j, u.scope j = { t.scope j with visited := visited j }

/-- The second pass finds the same scopes around each one. -/
theorem Revisits.enclosing {u : ScopeTable} {visited : Nat → Nat} (again : Revisits t u visited)
    (j : Nat) : u.enclosing j = t.enclosing j := by
  have paths : ∀ steps j, u.pathUp steps j = t.pathUp steps j := by
    intro steps
    induction steps with
    | zero => exact fun _ => rfl
    | succ steps ih =>
        intro j
        simp only [pathUp, again.scopes, ih]
  exact paths _ _

theorem Revisits.boundaryOf {u : ScopeTable} {visited : Nat → Nat} (again : Revisits t u visited)
    (j : Nat) : u.boundaryOf j = t.boundaryOf j := by
  simp only [ScopeTable.boundaryOf, again.enclosing, again.scopes]

/-- The second pass goes through a tree as well. -/
theorem Revisits.tree {u : ScopeTable} {visited : Nat → Nat} (again : Revisits t u visited)
    (tree : t.Tree) (inside : u.current < t.scopes.size) : u.Tree where
  root := by
    simp only [again.scopes]
    exact tree.root
  inner j below inner := by
    simp only [again.scopes]
    exact tree.inner j below (again.size ▸ inner)
  current := again.size.symm ▸ inside
  inner_slot j inner symbol member := by
    rw [again.scopes] at member
    exact tree.inner_slot j (again.size ▸ inner) symbol member
  handed j inner symbol member := by
    rw [again.scopes] at member
    rw [again.boundaryOf, again.scopes]
    exact tree.handed j (again.size ▸ inner) symbol member
  ordered j inner := by
    rw [again.scopes]
    exact tree.ordered j (again.size ▸ inner)

/-- At first the second pass has visited nothing. -/
theorem revisits_reset (t : ScopeTable) : Revisits t t.reset fun _ => 0 where
  size := Array.size_map
  scopes j := by
    simp only [scope, reset, Array.getD_eq_getD_getElem?, Array.getElem?_map]
    cases t.scopes[j]? <;> rfl

/-- Growing keeps the old scopes where they are, so only the new ones have to be looked at. -/
theorem Rooted.of_grows (rooted : s.Rooted) (grows : s.Grows t) (filled : 0 < s.scopes.size)
    (inner : ∀ j, s.scopes.size ≤ j → j < t.scopes.size →
      ∃ p < j, (t.scope j).parent = some p ∧ ((t.scope j).isBoundary = true ↔ p = 0)) :
    t.Rooted := by
  have kept := grows.scopes 0 filled
  refine ⟨⟨kept.parent.trans rooted.root.1, kept.boundary.trans rooted.root.2⟩,
    fun j below inside => ?_⟩
  by_cases old : j < s.scopes.size
  · obtain ⟨p, smaller, parent, hung⟩ := rooted.inner j below old
    have kept := grows.scopes j old
    exact ⟨p, smaller, kept.parent.trans parent, kept.boundary ▸ hung⟩
  · exact inner j (Nat.le_of_not_lt old) inside

/-- A boundary hangs below the root, and any other scope below another one. -/
theorem Tree.beginScope (tree : t.Tree) {isBoundary : Bool}
    (hung : isBoundary = true ↔ t.current = 0) : (t.beginScope isBoundary).Tree := by
  have filled : 0 < t.scopes.size := Nat.lt_of_le_of_lt (Nat.zero_le _) tree.current
  have grows := grows_beginScope t isBoundary
  have rooted : (t.beginScope isBoundary).Rooted := by
    refine tree.toRooted.of_grows grows filled fun j new inside => ?_
    have last : j = t.scopes.size := by
      rw [size_beginScope] at inside
      omega
    rw [scope_beginScope, if_pos last]
    exact ⟨t.current, last ▸ tree.current, rfl, hung⟩
  refine ⟨rooted, by simp, fun j inside symbol member slot => ?_,
    fun j inside symbol member => ?_, fun j inside => ?_⟩ <;>
    rw [symbols_beginScope] at *
  · exact tree.inner_slot j (inside_of_mem member) symbol member slot
  · have before := inside_of_mem member
    rw [grows.boundaryOf tree.nested rooted.nested before, slotCount_beginScope]
    exact tree.handed j before symbol member
  · rw [size_beginScope] at inside
    rcases Nat.lt_succ_iff_lt_or_eq.1 inside with before | last
    · exact tree.ordered j before
    · rw [scope_of_size_le (Nat.le_of_eq last.symm)]
      exact .nil

theorem Tree.endScope (tree : t.Tree) : t.endScope.Tree := by
  have again : Revisits t t.endScope fun j => (t.scope j).visited := ⟨rfl, fun _ => rfl⟩
  exact again.tree tree (tree.nested.current_endScope tree.current)

/-- A new symbol has a number and a slot that no other one has. -/
theorem Tree.addSymbol (tree : t.Tree) (name : String) : (t.addSymbol name).2.Tree := by
  cases found : (t.scope t.current).find? name with
  | some symbol =>
      rw [addSymbol_of_some found]
      exact tree
  | none =>
      have grows := grows_addSymbol t name
      have filled : 0 < t.scopes.size := Nat.lt_of_le_of_lt (Nat.zero_le _) tree.current
      have rooted : (t.addSymbol name).2.Rooted := by
        refine tree.toRooted.of_grows grows filled fun j new inside => ?_
        rw [size_addSymbol] at inside
        omega
      have boundary {j : Nat} (inside : j < t.scopes.size) :=
        grows.boundaryOf tree.nested rooted.nested inside
      have owned := tree.nested.boundaryOf_lt tree.current
      have slots := slotCount_addSymbol_of_none found owned
      refine ⟨rooted, by simpa using tree.current, fun j inside symbol member slot => ?_,
        fun j inside symbol member => ?_, fun j inside => ?_⟩ <;> rw [size_addSymbol] at inside
      · rcases mem_symbols_addSymbol found tree.current member with old | ⟨rfl, rfl⟩
        · exact tree.inner_slot j inside symbol old slot
        · refine Nat.pos_of_ne_zero fun zero => ?_
          rw [nextSymbol, zero, tree.nested.boundaryOf_root] at slot
          cases slot
      · rw [boundary inside, slots]
        rcases mem_symbols_addSymbol found tree.current member with old | ⟨rfl, rfl⟩
        · exact Nat.lt_add_right _ (tree.handed j inside symbol old)
        · rw [if_pos rfl]
          exact Nat.lt_succ_self _
      · rw [symbols_addSymbol_of_none found tree.current, List.pairwise_append]
        refine ⟨tree.ordered j inside, by split <;> simp, fun symbol old last is => ?_⟩
        split at is
        · next here =>
          rw [List.mem_singleton.1 is, nextSymbol, ← here]
          exact tree.handed j inside symbol old
        · cases is

/-- A name kept in a slot is kept in one that the boundary of the current scope handed out, and
not at module level. -/
theorem Tree.lookup_slot (tree : t.Tree) {name : String} {symbol : Symbol}
    (found : t.lookup name = some symbol) (slot : symbol.kind = .slot) :
    t.current ≠ 0 ∧ symbol.index < t.localCount := by
  obtain ⟨j, above, declared⟩ := List.exists_of_findSome?_eq_some found
  have member : symbol ∈ (t.scope j).symbols := List.mem_of_find?_eq_some declared
  have inside := tree.nested.enclosing_lt tree.current above
  have below := tree.inner_slot j inside symbol member slot
  constructor
  · intro zero
    rw [zero, tree.nested.enclosing_root, List.mem_singleton] at above
    omega
  · rcases tree.boundaryOf_enclosing tree.current above with zero | same
    · exact absurd zero (Nat.ne_of_gt below)
    · rw [localCount, ← same]
      exact tree.handed j inside symbol member

/-- Names of one scope that have the same number are the same. -/
theorem Tree.index_inj (tree : t.Tree) {j : Nat} (inside : j < t.scopes.size)
    {first second : String} {symbol other : Symbol} (found : (t.scope j).find? first = some symbol)
    (found' : (t.scope j).find? second = some other) (same : symbol.index = other.index) :
    first = second := by
  have distinct : ((t.scope j).symbols.map Symbol.index).Nodup :=
    List.pairwise_map.2 ((tree.ordered j inside).imp Nat.ne_of_lt)
  have alike : symbol = other := List.inj_on_of_nodup_map distinct
    (List.mem_of_find?_eq_some found) (List.mem_of_find?_eq_some found') same
  have named := List.find?_some found
  have named' := List.find?_some found'
  rw [← alike] at named'
  rw [← beq_iff_eq.1 named, ← beq_iff_eq.1 named']

end ScopeTable
end ScriptMachine
