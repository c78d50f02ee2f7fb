import Mathlib.Data.List.Nodup
import ScriptMachine.Proofs.Scopes.Table

/-!
The numbering of names. Scopes are opened and closed and names declared in any order, functions
inside functions included. The counter stands on a boundary and the names in the scopes below it,
but the names of one boundary are numbered without gaps in the order of their first declaration,
whatever other boundaries declare meanwhile. `Numbered` compares a table with what has been declared
so far; every call preserves it, whether or not calls match.
-/

namespace ScriptMachine.ScopeTable

/-! ## Calls -/

/-- What is asked of a table while the tree is built. -/
inductive Call where
  | opens (isBoundary : Bool)
  /-- Whichever way the scope was opened. -/
  | closes
  | declares (name : String)
deriving Repr, DecidableEq, Inhabited

/-- The table after a call. -/
def perform (t : ScopeTable) : Call → ScopeTable
  | .opens isBoundary => t.beginScope isBoundary
  | .closes => t.endScope
  | .declares name => (t.addSymbol name).2

/-- The table after calls in order. -/
def run (t : ScopeTable) (calls : List Call) : ScopeTable :=
  calls.foldl perform t

/-- A name and the scope that declares it. -/
structure Declaration where
  scope : Nat
  name : String
deriving Repr, DecidableEq, Inhabited

/-- What a call declares. -/
def declared (t : ScopeTable) : Call → List Declaration
  | .opens _ => []
  | .closes => []
  | .declares name => [⟨t.current, name⟩]

/-- What calls declare in order, with what they declare again. -/
def declarations (t : ScopeTable) : List Call → List Declaration
  | [] => []
  | call :: rest => t.declared call ++ (t.perform call).declarations rest

/-- The number that a declared name has. -/
def number? (t : ScopeTable) (d : Declaration) : Option Nat :=
  ((t.scope d.scope).find? d.name).map Symbol.index

/-- The declarations that a boundary numbers. -/
def numbered (t : ScopeTable) (boundary : Nat) (log : List Declaration) : List Declaration :=
  log.filter fun d => t.boundaryOf d.scope == boundary

/-! ## Where names belong -/

/-- The scope is the boundary, or is no boundary and its parent belongs to this one. -/
inductive BelongsTo (t : ScopeTable) (boundary : Nat) : Nat → Prop
  | self : boundary < t.scopes.size → (t.scope boundary).isBoundary = true →
      BelongsTo t boundary boundary
  | inner {scope parent : Nat} : scope < t.scopes.size → (t.scope scope).isBoundary = false →
      (t.scope scope).parent = some parent → BelongsTo t boundary parent →
      BelongsTo t boundary scope

/-- On the way from the first scope to the root, the second is the first to declare the name. -/
inductive Nearest (t : ScopeTable) (name : String) : Nat → Nat → Symbol → Prop
  | here {scope : Nat} {symbol : Symbol} : (t.scope scope).find? name = some symbol →
      Nearest t name scope scope symbol
  | outside {scope parent declaring : Nat} {symbol : Symbol} :
      (t.scope scope).find? name = none → (t.scope scope).parent = some parent →
      Nearest t name parent declaring symbol → Nearest t name scope declaring symbol

variable {s t : ScopeTable} {log : List Declaration} {name : String} {symbol : Symbol}

theorem Nested.pos_of_plain (nested : t.Nested) {j : Nat}
    (plain : (t.scope j).isBoundary = false) : 0 < j := by
  refine Nat.pos_of_ne_zero fun zero => ?_
  rw [zero, nested.root.2] at plain
  cases plain

theorem Nested.belongsTo_iff (nested : t.Nested) {boundary j : Nat} :
    t.BelongsTo boundary j ↔ j < t.scopes.size ∧ t.boundaryOf j = boundary := by
  constructor
  · intro belongs
    induction belongs with
    | self inside isBoundary => exact ⟨inside, nested.boundaryOf_boundary inside isBoundary⟩
    | inner inside plain above _ ih =>
        have below := nested.pos_of_plain plain
        exact ⟨inside, (nested.boundaryOf_inner below inside above plain).trans ih.2⟩
  · rintro ⟨inside, rfl⟩
    induction j using Nat.strongRecOn with
    | ind j ih =>
        cases plain : (t.scope j).isBoundary with
        | true =>
            rw [nested.boundaryOf_boundary inside plain]
            exact .self inside plain
        | false =>
            have below := nested.pos_of_plain plain
            obtain ⟨p, smaller, above⟩ := nested.inner j below inside
            rw [nested.boundaryOf_inner below inside above plain]
            exact .inner inside plain above (ih p smaller (Nat.lt_trans smaller inside))

theorem BelongsTo.boundary {b j : Nat} (belongs : t.BelongsTo b j) : t.BelongsTo b b := by
  induction belongs with
  | self inside isBoundary => exact .self inside isBoundary
  | inner _ _ _ _ ih => exact ih

theorem Nearest.find? {i j : Nat} (nearest : t.Nearest name i j symbol) :
    (t.scope j).find? name = some symbol := by
  induction nearest with
  | here found => exact found
  | outside _ _ _ ih => exact ih

/-- The scopes around a scope are asked one after the other. -/
theorem Nested.findSome?_enclosing (nested : t.Nested) {i : Nat} (inside : i < t.scopes.size) :
    (t.enclosing i).findSome? (fun id => (t.scope id).find? name) = some symbol ↔
      ∃ j, t.Nearest name i j symbol := by
  induction i using Nat.strongRecOn with
  | ind i ih =>
      rcases Nat.eq_zero_or_pos i with rfl | below
      · rw [nested.enclosing_root, List.findSome?_singleton]
        refine ⟨fun found => ⟨0, .here found⟩, ?_⟩
        rintro ⟨j, found | ⟨-, above, -⟩⟩
        · exact found
        · cases nested.root.1.symm.trans above
      · obtain ⟨p, smaller, above⟩ := nested.inner i below inside
        have outer := ih p smaller (Nat.lt_trans smaller inside)
        rw [nested.enclosing_inner below inside above, List.findSome?_cons]
        split
        · next own found =>
          refine ⟨fun same => ⟨i, .here (found.trans same)⟩, ?_⟩
          rintro ⟨j, here | ⟨none, -, -⟩⟩
          · exact found.symm.trans here
          · cases found.symm.trans none
        · next none =>
          refine outer.trans ⟨fun ⟨j, nearest⟩ => ⟨j, .outside none above nearest⟩, ?_⟩
          rintro ⟨j, here | ⟨-, above', nearest⟩⟩
          · cases none.symm.trans here
          · cases above.symm.trans above'
            exact ⟨j, nearest⟩

/-! ## What calls change -/

theorem Nested.of_grows (nested : s.Nested) (grows : s.Grows t) (filled : 0 < s.scopes.size)
    (inner : ∀ j, s.scopes.size ≤ j → j < t.scopes.size → ∃ p < j, (t.scope j).parent = some p) :
    t.Nested := by
  have kept := grows.scopes 0 filled
  refine ⟨⟨kept.parent.trans nested.root.1, kept.boundary.trans nested.root.2⟩,
    fun j below inside => ?_⟩
  by_cases old : j < s.scopes.size
  · obtain ⟨p, smaller, parent⟩ := nested.inner j below old
    exact ⟨p, smaller, (grows.scopes j old).parent.trans parent⟩
  · exact inner j (Nat.le_of_not_lt old) inside

theorem Nested.beginScope (nested : t.Nested) (current : t.current < t.scopes.size)
    (isBoundary : Bool) : (t.beginScope isBoundary).Nested := by
  refine nested.of_grows (t.grows_beginScope isBoundary) (Nat.zero_lt_of_lt current)
    fun j new inside => ?_
  have last : j = t.scopes.size := by
    rw [size_beginScope] at inside
    omega
  rw [scope_beginScope, if_pos last]
  exact ⟨t.current, last ▸ current, rfl⟩

theorem Nested.addSymbol (nested : t.Nested) (current : t.current < t.scopes.size)
    (name : String) : (t.addSymbol name).2.Nested := by
  refine nested.of_grows (t.grows_addSymbol name) (Nat.zero_lt_of_lt current)
    fun j new inside => ?_
  rw [size_addSymbol] at inside
  exact absurd inside (Nat.not_lt.2 new)

theorem grows_perform (t : ScopeTable) (call : Call) : t.Grows (t.perform call) :=
  match call with
  | .opens isBoundary => t.grows_beginScope isBoundary
  | .closes => t.grows_endScope
  | .declares name => t.grows_addSymbol name

theorem grows_run (t : ScopeTable) (calls : List Call) : t.Grows (t.run calls) := by
  induction calls generalizing t with
  | nil => exact .refl t
  | cons call rest ih => exact (t.grows_perform call).trans (ih (t.perform call))

/-! ## The invariant -/

/-- A table against the names declared so far, each of them once: which names a scope has, that a
boundary numbers its names in order, and that only those of the root are global. -/
structure Numbered (t : ScopeTable) (log : List Declaration) : Prop where
  nested : t.Nested
  current : t.current < t.scopes.size
  names : ∀ j, (t.scope j).symbols.map Symbol.name =
    (log.filter fun d => d.scope == j).map Declaration.name
  numbers : ∀ b, (t.numbered b log).map t.number? =
    (List.range (t.scope b).slotCount).map some
  kinds : ∀ j, ∀ symbol ∈ (t.scope j).symbols, symbol.kind = .global ↔ t.boundaryOf j = root

theorem numbered_empty : Numbered {} [] where
  nested := tree_empty.nested
  current := Nat.one_pos
  names j := by
    cases j <;> rfl
  numbers b := by
    cases b <;> rfl
  kinds j symbol member := by
    cases j <;> cases member

/-- A scope declares just what the record says. -/
theorem Numbered.find?_eq_none (numbered : t.Numbered log) {j : Nat} :
    (t.scope j).find? name = none ↔ ⟨j, name⟩ ∉ log := by
  have names : name ∈ (t.scope j).symbols.map Symbol.name ↔ ⟨j, name⟩ ∈ log := by
    rw [numbered.names]
    constructor
    · intro member
      obtain ⟨d, kept, rfl⟩ := List.mem_map.1 member
      obtain ⟨member, same⟩ := List.mem_filter.1 kept
      exact beq_iff_eq.1 same ▸ member
    · exact fun member => List.mem_map.2 ⟨_, List.mem_filter.2 ⟨member, beq_self_eq_true j⟩, rfl⟩
  rw [← names, Scope.find?, List.find?_eq_none, List.mem_map]
  simp

theorem Numbered.found (numbered : t.Numbered log) {d : Declaration} (member : d ∈ log) :
    ∃ symbol, (t.scope d.scope).find? d.name = some symbol := by
  cases found : (t.scope d.scope).find? d.name with
  | some symbol => exact ⟨symbol, rfl⟩
  | none => exact absurd member (numbered.find?_eq_none.1 found)

theorem Numbered.inside (numbered : t.Numbered log) {d : Declaration} (member : d ∈ log) :
    d.scope < t.scopes.size := by
  obtain ⟨symbol, found⟩ := numbered.found member
  exact inside_of_mem (List.mem_of_find?_eq_some found)

/-- What is declared keeps its number while the table grows. -/
theorem Numbered.number?_of_grows (numbered : s.Numbered log) (grows : s.Grows t) {d : Declaration}
    (member : d ∈ log) : t.number? d = s.number? d := by
  obtain ⟨symbol, found⟩ := numbered.found member
  have kept := (grows.scopes d.scope (numbered.inside member)).find? found
  rw [number?, number?, found, kept]

/-- The record is split among the boundaries as before while the table grows. -/
theorem Numbered.numbered_of_grows (numbered : s.Numbered log) (grows : s.Grows t)
    (nested : t.Nested) (b : Nat) : t.numbered b log = s.numbered b log := by
  refine List.filter_congr fun d member => ?_
  rw [grows.boundaryOf numbered.nested nested (numbered.inside member)]

/-- Growing without new names leaves the numbering as it is. -/
theorem Numbered.of_grows (numbered : s.Numbered log) (grows : s.Grows t) (nested : t.Nested)
    (current : t.current < t.scopes.size)
    (symbols : ∀ j, (t.scope j).symbols = (s.scope j).symbols)
    (slots : ∀ j, (t.scope j).slotCount = (s.scope j).slotCount) : t.Numbered log where
  nested := nested
  current := current
  names j := symbols j ▸ numbered.names j
  numbers b := by
    rw [numbered.numbered_of_grows grows nested, slots, ← numbered.numbers]
    exact List.map_congr_left fun d member =>
      numbered.number?_of_grows grows (List.mem_filter.1 member).1
  kinds j symbol member := by
    rw [symbols] at member
    rw [grows.boundaryOf numbered.nested nested (inside_of_mem member)]
    exact numbered.kinds j symbol member

theorem Numbered.beginScope (numbered : t.Numbered log) (isBoundary : Bool) :
    (t.beginScope isBoundary).Numbered log :=
  numbered.of_grows (t.grows_beginScope isBoundary)
    (numbered.nested.beginScope numbered.current isBoundary) (by simp)
    (t.symbols_beginScope isBoundary) (t.slotCount_beginScope isBoundary)

theorem Numbered.endScope (numbered : t.Numbered log) : t.endScope.Numbered log := by
  have nested : t.endScope.Nested := ⟨numbered.nested.root, numbered.nested.inner⟩
  exact numbered.of_grows t.grows_endScope nested
    (numbered.nested.current_endScope numbered.current) (fun _ => rfl) (fun _ => rfl)

/-- A new name comes last in its scope and gets the next number of its boundary. -/
theorem Numbered.addSymbol (numbered : t.Numbered log) (new : ⟨t.current, name⟩ ∉ log) :
    (t.addSymbol name).2.Numbered (log ++ [⟨t.current, name⟩]) := by
  have grows := t.grows_addSymbol name
  have nested := numbered.nested.addSymbol numbered.current name
  have fresh := numbered.find?_eq_none.2 new
  have owned := numbered.nested.boundaryOf_lt numbered.current
  have symbols := symbols_addSymbol_of_none fresh numbered.current
  have slots := slotCount_addSymbol_of_none fresh owned
  have boundary {j : Nat} (inside : j < t.scopes.size) :=
    grows.boundaryOf numbered.nested nested inside
  refine ⟨nested, by simpa using numbered.current, fun j => ?_, fun b => ?_,
    fun j symbol member => ?_⟩
  · rw [symbols, List.map_append, List.filter_append, List.map_append, numbered.names]
    by_cases here : j = t.current
    · simp [here, nextSymbol]
    · simp [here, Ne.symm here]
  · -- the old numbers stay, and only the boundary of the current scope gives another one
    have old : (t.numbered b log).map (t.addSymbol name).2.number? =
        (List.range (t.scope b).slotCount).map some :=
      (List.map_congr_left fun d member => numbered.number?_of_grows grows
        (List.mem_filter.1 member).1).trans (numbered.numbers b)
    rw [ScopeTable.numbered, List.filter_append, ← ScopeTable.numbered, ← ScopeTable.numbered,
      numbered.numbered_of_grows grows nested, List.map_append, old, slots]
    by_cases here : b = t.boundaryOf t.current
    · have last : (t.addSymbol name).2.numbered b [⟨t.current, name⟩] = [⟨t.current, name⟩] := by
        simp [ScopeTable.numbered, boundary numbered.current, here]
      have number : (t.addSymbol name).2.number? ⟨t.current, name⟩ =
          some (t.scope b).slotCount := by
        rw [number?, find?_addSymbol numbered.current, addSymbol_of_none fresh, here]
        rfl
      rw [last, if_pos here, List.range_succ, List.map_append, List.map_singleton, number]
      rfl
    · have none : (t.addSymbol name).2.numbered b [⟨t.current, name⟩] = [] := by
        simp [ScopeTable.numbered, boundary numbered.current, Ne.symm here]
      rw [none, if_neg here, List.map_nil, List.append_nil, Nat.add_zero]
  · rcases mem_symbols_addSymbol fresh numbered.current member with old | ⟨rfl, rfl⟩
    · rw [boundary (inside_of_mem old)]
      exact numbered.kinds j symbol old
    · rw [boundary numbered.current]
      simp [nextSymbol]

/-- A call records what it declares for the first time. -/
theorem Numbered.perform {past : List Declaration} (numbered : t.Numbered past.eraseDups)
    (call : Call) : (t.perform call).Numbered (past ++ t.declared call).eraseDups := by
  cases call with
  | opens isBoundary =>
      rw [declared, List.append_nil]
      exact numbered.beginScope isBoundary
  | closes =>
      rw [declared, List.append_nil]
      exact numbered.endScope
  | declares name =>
      rw [declared, List.eraseDups_append]
      by_cases again : ⟨t.current, name⟩ ∈ past
      · obtain ⟨symbol, found⟩ := numbered.found (List.mem_eraseDups.2 again)
        rw [ScopeTable.perform, addSymbol_of_some found]
        simpa [List.removeAll, again] using numbered
      · have added := numbered.addSymbol (mt List.mem_eraseDups.1 again)
        simpa [List.removeAll, again, List.eraseDups_cons, ScopeTable.perform] using added

theorem Numbered.run {past : List Declaration} (numbered : t.Numbered past.eraseDups)
    (calls : List Call) : (t.run calls).Numbered (past ++ t.declarations calls).eraseDups := by
  induction calls generalizing t past with
  | nil =>
      rw [declarations, List.append_nil]
      exact numbered
  | cons call rest ih =>
      rw [declarations, ← List.append_assoc]
      exact ih (numbered.perform call)

theorem numbered_run (calls : List Call) :
    (run {} calls).Numbered (declarations {} calls).eraseDups :=
  @Numbered.run {} [] numbered_empty calls

/-! ## Results -/

/-- Names of one boundary that have one number are one name of one scope. -/
theorem Numbered.eq_of_index (numbered : t.Numbered log) {j k : Nat} {other : String}
    {symbol' : Symbol} (found : (t.scope j).find? name = some symbol)
    (found' : (t.scope k).find? other = some symbol') (shared : t.boundaryOf j = t.boundaryOf k)
    (same : symbol.index = symbol'.index) : j = k ∧ name = other := by
  have recorded {j : Nat} {name : String} {symbol : Symbol}
      (found : (t.scope j).find? name = some symbol) : ⟨j, name⟩ ∈ log := by
    by_contra new
    cases found.symm.trans (numbered.find?_eq_none.2 new)
  have distinct : ((t.numbered (t.boundaryOf k) log).map t.number?).Nodup := by
    rw [numbered.numbers]
    exact List.nodup_range.map fun _ _ => Option.some.inj
  have numbers : t.number? ⟨j, name⟩ = t.number? ⟨k, other⟩ := by
    rw [number?, number?, found, found', Option.map_some, Option.map_some, same]
  have one := List.inj_on_of_nodup_map distinct
    (List.mem_filter.2 ⟨recorded found, beq_iff_eq.2 shared⟩)
    (List.mem_filter.2 ⟨recorded found', beq_self_eq_true _⟩) numbers
  exact ⟨congrArg Declaration.scope one, congrArg Declaration.name one⟩

/-- A name that is declared again later in the same scope keeps its symbol. -/
theorem addSymbol_again (current : t.current < t.scopes.size) (later : List Call)
    (back : ((t.addSymbol name).2.run later).current = t.current) :
    ((t.addSymbol name).2.run later).addSymbol name =
      ((t.addSymbol name).1, (t.addSymbol name).2.run later) := by
  have grows := (t.addSymbol name).2.grows_run later
  have inside : t.current < (t.addSymbol name).2.scopes.size := by simpa using current
  refine addSymbol_of_some ?_
  rw [back]
  exact (grows.scopes t.current inside).find? (find?_addSymbol current name)

/-- What a call does to the names and the count of a scope shows only in the boundary that is being
worked on. -/
theorem Numbered.perform_elsewhere (numbered : t.Numbered log) (call : Call) {j : Nat}
    (elsewhere : ¬ t.BelongsTo (t.boundaryOf t.current) j) :
    ((t.perform call).scope j).symbols = (t.scope j).symbols ∧
      ((t.perform call).scope j).slotCount = (t.scope j).slotCount := by
  cases call with
  | opens isBoundary =>
      exact ⟨t.symbols_beginScope isBoundary j, t.slotCount_beginScope isBoundary j⟩
  | closes => exact ⟨rfl, rfl⟩
  | declares name =>
      rw [ScopeTable.perform]
      cases found : (t.scope t.current).find? name with
      | some symbol =>
          rw [addSymbol_of_some found]
          exact ⟨rfl, rfl⟩
      | none =>
          have owned := numbered.nested.boundaryOf_lt numbered.current
          have other : j ≠ t.current := by
            rintro rfl
            exact elsewhere (numbered.nested.belongsTo_iff.2 ⟨numbered.current, rfl⟩)
          have other' : j ≠ t.boundaryOf t.current := by
            rintro rfl
            exact elsewhere (numbered.nested.belongsTo_iff.2 ⟨numbered.current, rfl⟩).boundary
          rw [symbols_addSymbol_of_none found numbered.current,
            slotCount_addSymbol_of_none found owned, if_neg other, if_neg other']
          exact ⟨List.append_nil _, Nat.add_zero _⟩

/-- Whatever calls build a table, functions inside functions included: the names of a scope are
those that were declared in it; the names of a boundary are numbered without gaps, in the order of
their first declaration; they are global just if the boundary is the root; a name that is declared
again keeps its symbol; what is declared elsewhere does not count; a name that is looked up is that
of the nearest scope; and two names of one boundary that can both be seen have different numbers. -/
theorem numbered_densely (calls : List Call) :
    let t := run {} calls
    let log := (declarations {} calls).eraseDups
    (∀ b j, t.BelongsTo b j ↔ j < t.scopes.size ∧ t.boundaryOf j = b) ∧
      (∀ j, (t.scope j).symbols.map Symbol.name =
        (log.filter fun d => d.scope == j).map Declaration.name) ∧
      (∀ b, (log.filter fun d => t.boundaryOf d.scope == b).map t.number? =
        (List.range (t.scope b).slotCount).map some) ∧
      (∀ j, ∀ symbol ∈ (t.scope j).symbols, symbol.kind = .global ↔ t.BelongsTo root j) ∧
      (∀ name later, ((t.addSymbol name).2.run later).current = t.current →
        ((t.addSymbol name).2.run later).addSymbol name =
          ((t.addSymbol name).1, (t.addSymbol name).2.run later)) ∧
      (∀ call j, ¬ t.BelongsTo (t.boundaryOf t.current) j →
        ((t.perform call).scope j).symbols = (t.scope j).symbols ∧
          ((t.perform call).scope j).slotCount = (t.scope j).slotCount) ∧
      (∀ name symbol, t.lookup name = some symbol ↔ ∃ j, t.Nearest name t.current j symbol) ∧
      ∀ b first second j k symbol symbol', first ≠ second →
        t.Nearest first t.current j symbol → t.Nearest second t.current k symbol' →
        t.BelongsTo b j → t.BelongsTo b k → symbol.index ≠ symbol'.index := by
  have numbered := numbered_run calls
  have nested := numbered.nested
  refine ⟨fun _ _ => nested.belongsTo_iff, numbered.names, numbered.numbers, ?_,
    fun _ later => addSymbol_again numbered.current later,
    fun call _ => numbered.perform_elsewhere call,
    fun _ _ => nested.findSome?_enclosing numbered.current, ?_⟩
  · intro j symbol member
    rw [nested.belongsTo_iff, numbered.kinds j symbol member]
    exact (and_iff_right (inside_of_mem member)).symm
  · intro b first second j k symbol symbol' differ nearest nearest' belongs belongs' same
    have shared := (nested.belongsTo_iff.1 belongs).2.trans (nested.belongsTo_iff.1 belongs').2.symm
    exact differ (numbered.eq_of_index nearest.find? nearest'.find? shared same).2

/-- A function with a block, and another function and a block opened and closed in that block. -/
def nestedCalls : List Call :=
  [.declares "g", .opens true, .declares "a", .opens false, .declares "b", .opens true,
    .declares "a", .opens false, .declares "c", .closes, .closes, .declares "b", .opens false,
    .declares "d"]

/-- The inner function numbers its own names; the outer one goes on where it was. -/
theorem numbered_densely_nestedCalls :
    let t := run {} nestedCalls
    t.numbered 1 (declarations {} nestedCalls).eraseDups = [⟨1, "a"⟩, ⟨2, "b"⟩, ⟨5, "d"⟩] ∧
      t.numbered 3 (declarations {} nestedCalls).eraseDups = [⟨3, "a"⟩, ⟨4, "c"⟩] ∧
      (t.scope 1).slotCount = 3 ∧
      ∃ a d, t.lookup "a" = some a ∧ t.lookup "d" = some d ∧ a.index ≠ d.index := by
  obtain ⟨belongs, -, -, -, -, -, found, apart⟩ := numbered_densely nestedCalls
  have nearest : Nearest (run {} nestedCalls) "a" 5 1 ⟨"a", 0, .slot⟩ :=
    .outside (by decide) rfl (.outside (by decide) rfl (.here (by decide)))
  have nearest' : Nearest (run {} nestedCalls) "d" 5 5 ⟨"d", 2, .slot⟩ := .here (by decide)
  refine ⟨by decide, by decide, by decide, _, _, (found _ _).2 ⟨_, nearest⟩,
    (found _ _).2 ⟨_, nearest'⟩, ?_⟩
  exact apart 1 _ _ _ _ _ _ (by decide) nearest nearest' ((belongs _ _).2 (by decide))
    ((belongs _ _).2 (by decide))

end ScriptMachine.ScopeTable
