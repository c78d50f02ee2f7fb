import ScriptMachine.Code.Compilation
import ScriptMachine.Proofs.Code.ResolverReports
import ScriptMachine.Proofs.Code.Validity
import ScriptMachine.Proofs.Scopes.Parameters

/-!
The two passes side by side. `InStep T r g` relates what the first pass has built, `r`, to the
state `g` of the second pass at the same place of the unit, where `T` is the finished scope
tree: the second pass stands in the same scope, has walked into every scope that `r` knows and
into no other, and took each for what it belongs to.

`Paired` says of a step of either pass that they keep in step, and that what the second one
returns fits every unit in which the passes may end. Steps are put together by `Paired.bind`,
which hands the facts about one result on to the next step.
-/

namespace ScriptMachine

open Linked (Context NameConst Ref BasePath)
open Resolver (Resolve)
open Generator (Gen)

/-! ## Arrays that only get longer -/

/-- What `a` holds stays at its index in `b`. -/
def Kept {α : Type} (a b : Array α) : Prop :=
  ∀ (k : Nat) (x : α), a[k]? = some x → b[k]? = some x

namespace Kept

variable {α : Type} {a b c : Array α}

theorem refl (a : Array α) : Kept a a :=
  fun _ _ found => found

theorem trans (first : Kept a b) (second : Kept b c) : Kept a c :=
  fun k x found => second k x (first k x found)

theorem push (a : Array α) (x : α) : Kept a (a.push x) := by
  intro k y found
  obtain ⟨inside, _⟩ := Array.getElem?_eq_some_iff.1 found
  rw [Array.getElem?_push_lt inside]
  exact Array.getElem?_eq_getElem inside ▸ found

theorem mem (kept : Kept a b) {x : α} (member : x ∈ a) : x ∈ b := by
  obtain ⟨k, found⟩ := Array.mem_iff_getElem?.1 member
  exact Array.mem_iff_getElem?.2 ⟨k, kept k x found⟩

end Kept

/-! ## States -/

/-- Slots of the function that a scope belongs to. There are none at module level. -/
def ScopeTable.slotsOf (t : ScopeTable) (scope : Nat) : Nat :=
  if scope = 0 then 0 else (t.scope (t.boundaryOf scope)).slotCount

/-- The scopes of the first pass are numbered in the order in which they were opened. -/
structure Resolver.Sound (r : Resolver) : Prop where
  tree : r.scopes.Tree
  numbered : r.opened.toList.map Prod.snd = List.range' 1 (r.scopes.scopes.size - 1)

/-- The first pass stands at module level, or inside a function. -/
structure Resolver.Ready (inFunction : Bool) (r : Resolver) : Prop where
  sound : r.Sound
  place : inFunction = true ↔ r.scopes.current ≠ 0

/-- What a step of the first pass does to its state: it ends in the scope it began in. -/
structure Resolver.Advances (r r' : Resolver) : Prop where
  sound : r'.Sound
  grows : r.scopes.Grows r'.scopes
  current : r'.scopes.current = r.scopes.current
  errors : r'.errors = [] → r.errors = []
  opened : Kept r.opened r'.opened

/-- What a step of the second pass does to what it has collected. -/
structure Generator.Builds (g g' : Generator) : Prop where
  constants : Kept g.constants g'.constants
  functions : Kept g.functions g'.functions
  errors : g'.errors = [] → g.errors = []

/-- The second pass adds constants or complains, and nothing else. -/
structure Generator.Collects (g g' : Generator) : Prop where
  scopes : g'.scopes = g.scopes
  entered : g'.entered = g.entered
  functions : g'.functions = g.functions
  constants : Kept g.constants g'.constants
  nested : ∀ k, .method k ∈ g'.constants → .method k ∈ g.constants
  errors : g'.errors = [] → g.errors = []

/-- The second pass has walked the finished tree as far as the first one had built it. -/
structure InStep (T : ScopeTable) (r : Resolver) (g : Generator) : Prop where
  current : g.scopes.current = r.scopes.current
  again : T.Revisits g.scopes fun j => (r.scopes.scope j).children.length
  entered : g.entered = r.opened

/-- A unit in which the passes may end: what they have collected is part of it. -/
structure Completes (T : ScopeTable) (r : Resolver) (g : Generator) (ctx : Context)
    (accepted : Bool) : Prop where
  scopes : ctx.scopes = T
  pool : Kept g.constants ctx.pool
  functions : Kept g.functions ctx.functions
  opened : Kept r.opened ctx.opened
  clean : accepted = true → g.errors = []

/-- A method fits the unit, its scope was opened for something, and it has as many slots as the
boundary of its scope handed out. -/
structure Linked.Context.Fits (ctx : Context) (accepted : Bool) (f : Linked.Function) : Prop where
  valid : f.Valid ctx accepted
  counted : f.localCount = ctx.scopes.slotsOf f.scope
  owned : ∃ owner, (owner, f.scope) ∈ ctx.opened

/-- A method has the parameters of what its scope was opened for. -/
def Linked.Context.Seats (ctx : Context) (f : Linked.Function) : Prop :=
  ∃ owner, (owner, f.scope) ∈ ctx.opened ∧ f.method.Follows owner.signature

/-- What the second pass has collected fits the unit. -/
structure Linked.Context.Carries (ctx : Context) (accepted : Bool) (g : Generator) : Prop where
  functions : ∀ f ∈ g.functions, ctx.Fits accepted f
  nested : ∀ k, .method k ∈ g.constants → k < ctx.functions.size
  seated : ∀ f ∈ g.functions, ctx.Seats f

namespace Resolver

theorem Advances.refl {r : Resolver} (sound : r.Sound) : r.Advances r :=
  ⟨sound, .refl _, rfl, id, .refl _⟩

theorem Advances.trans {r s t : Resolver} (first : r.Advances s) (second : s.Advances t) :
    r.Advances t :=
  ⟨second.sound, first.grows.trans second.grows, second.current.trans first.current,
    fun clean => first.errors (second.errors clean), first.opened.trans second.opened⟩

theorem Advances.ready {r s : Resolver} {inFunction : Bool} (step : r.Advances s)
    (ready : r.Ready inFunction) : s.Ready inFunction :=
  ⟨step.sound, step.current.symm ▸ ready.place⟩

end Resolver

theorem Generator.Builds.refl (g : Generator) : g.Builds g :=
  ⟨.refl _, .refl _, id⟩

theorem Generator.Builds.trans {g h k : Generator} (first : g.Builds h) (second : h.Builds k) :
    g.Builds k :=
  ⟨first.constants.trans second.constants, first.functions.trans second.functions,
    fun clean => first.errors (second.errors clean)⟩

theorem Completes.earlier {T : ScopeTable} {r r' : Resolver} {g g' : Generator} {ctx : Context}
    {accepted : Bool} (complete : Completes T r' g' ctx accepted) (step : r.Advances r')
    (builds : g.Builds g') : Completes T r g ctx accepted where
  scopes := complete.scopes
  pool := builds.constants.trans complete.pool
  functions := builds.functions.trans complete.functions
  opened := step.opened.trans complete.opened
  clean fine := builds.errors (complete.clean fine)

/-- What the second pass can see of the scope it stands in. -/
structure Generator.StandsIn (g : Generator) (inFunction : Bool) (ctx : Context) (here : Nat) :
    Prop where
  current : g.scopes.current = here
  slots : inFunction = true → g.scopes.localCount = ctx.scopes.slotsOf here
  handed : ∀ name symbol, g.scopes.lookup name = some symbol → symbol.kind = .slot →
    symbol.index < ctx.scopes.slotsOf here
  declared : ∀ name symbol, (ctx.scopes.scope here).find? name = some symbol →
    g.scopes.lookup name = some symbol

theorem InStep.standsIn {T : ScopeTable} {r : Resolver} {g : Generator} {ctx : Context}
    {inFunction : Bool} (inStep : InStep T r g) (ready : r.Ready inFunction) (tree : T.Tree)
    (inside : r.scopes.current < T.scopes.size) (same : ctx.scopes = T) :
    g.StandsIn inFunction ctx r.scopes.current := by
  have walked := inStep.again.tree tree (inStep.current ▸ inside)
  have slots : r.scopes.current ≠ 0 → g.scopes.localCount = ctx.scopes.slotsOf r.scopes.current := by
    intro inner
    rw [ScopeTable.localCount, ScopeTable.slotsOf, if_neg inner, inStep.again.boundaryOf,
      inStep.again.scopes, inStep.current, same]
  refine ⟨inStep.current, fun function => slots (ready.place.1 function),
    fun name symbol found slot => ?_, fun name symbol declares => ?_⟩
  · obtain ⟨inner, handed⟩ := walked.lookup_slot found slot
    rw [inStep.current] at inner
    exact slots inner ▸ handed
  · refine ScriptMachine.ScopeTable.lookup_of_find? ?_
    rw [inStep.current, inStep.again.scopes, ← same]
    exact declares

/-- The first pass declares names or complains, and nothing else. -/
structure Resolver.Declares (r r' : Resolver) : Prop where
  tree : r.scopes.Tree → r'.scopes.Tree
  grows : r.scopes.Grows r'.scopes
  size : r'.scopes.scopes.size = r.scopes.scopes.size
  current : r'.scopes.current = r.scopes.current
  children : ∀ j, (r'.scopes.scope j).children = (r.scopes.scope j).children
  errors : r'.errors = [] → r.errors = []
  opened : r'.opened = r.opened

namespace Resolver

theorem Declares.refl (r : Resolver) : r.Declares r :=
  ⟨id, .refl _, rfl, rfl, fun _ => rfl, id, rfl⟩

theorem Declares.trans {r s t : Resolver} (first : r.Declares s) (second : s.Declares t) :
    r.Declares t :=
  ⟨fun tree => second.tree (first.tree tree), first.grows.trans second.grows,
    second.size.trans first.size, second.current.trans first.current,
    fun j => (second.children j).trans (first.children j),
    fun clean => first.errors (second.errors clean), second.opened.trans first.opened⟩

theorem declares_declare (name : String) (r : Resolver) : r.Declares ((declare name).run r).2 where
  tree tree := tree.addSymbol name
  grows := ScopeTable.grows_addSymbol _ _
  size := ScopeTable.size_addSymbol _ _
  current := ScopeTable.current_addSymbol _ _
  children := ScopeTable.children_addSymbol _ _
  errors := id
  opened := rfl

theorem declares_report (loc : Location) (kind : CompileErrorKind) (r : Resolver) :
    r.Declares ((report loc kind).run r).2 :=
  ⟨id, .refl _, rfl, rfl, fun _ => rfl, fun clean => (List.append_eq_nil_iff.1 clean).1, rfl⟩

theorem declares_declareIfNew (name : String) (r : Resolver) :
    r.Declares ((declareIfNew name).run r).2 := by
  show r.Declares ((if r.scopes.isDefined name then Pure.pure () else declare name : Resolve Unit) r).2
  cases r.scopes.isDefined name with
  | true => exact .refl r
  | false => exact declares_declare name r

theorem declares_parameters (loc : Location) (names seen : List String) (r : Resolver) :
    r.Declares ((parameters loc seen names).run r).2 := by
  induction names generalizing seen r with
  | nil => exact .refl r
  | cons name rest ih =>
      rw [parameters]
      cases seen.contains name with
      | false => exact (declares_declare name r).trans (ih (seen ++ [name]) _)
      | true =>
          exact (declares_report loc _ r).trans
            ((declares_declare name _).trans (ih (seen ++ [name]) _))

/-- The scope of a function declares its parameters. -/
theorem declared_parameters (loc : Location) (names seen : List String) {r : Resolver}
    (inside : r.scopes.current < r.scopes.scopes.size) : ∀ name ∈ names, ∃ symbol,
      (((parameters loc seen names).run r).2.scopes.scope r.scopes.current).find? name
        = some symbol := by
  induction names generalizing seen r with
  | nil => exact fun _ none => absurd none List.not_mem_nil
  | cons first rest ih =>
      have onward {s : Resolver} (same : s.scopes = r.scopes) : ∀ name ∈ first :: rest, ∃ symbol,
          (((parameters loc (seen ++ [first]) rest).run ((declare first).run s).2).2.scopes.scope
            r.scopes.current).find? name = some symbol := by
        have step := declares_declare first s
        have later := declares_parameters loc rest (seen ++ [first]) ((declare first).run s).2
        have current : ((declare first).run s).2.scopes.current = r.scopes.current := by
          rw [step.current, same]
        have inside' : r.scopes.current < ((declare first).run s).2.scopes.scopes.size := by
          rw [step.size, same]
          exact inside
        refine List.forall_mem_cons.2 ⟨?_, ?_⟩
        · obtain ⟨symbol, declared⟩ : ∃ symbol, _ = some symbol :=
            ⟨_, ScopeTable.find?_addSymbol inside first⟩
          rw [← same] at declared
          refine ⟨symbol, (later.grows.scopes _ inside').find? ?_⟩
          rw [← same]
          exact declared
        · have others := ih (seen ++ [first]) (current.symm ▸ inside')
          rw [current] at others
          exact others
      rw [parameters]
      cases seen.contains first with
      | false => exact onward rfl
      | true => exact onward (s := ((report loc _).run r).2) rfl

end Resolver

theorem Generator.Collects.refl (g : Generator) : g.Collects g :=
  ⟨rfl, rfl, rfl, .refl _, fun _ => id, id⟩

theorem Generator.Collects.text (g : Generator) (name : String) :
    g.Collects { g with constants := g.constants.push (.str name) } := by
  refine ⟨rfl, rfl, rfl, .push _ _, fun k held => ?_, id⟩
  rcases Array.mem_push.1 held with old | new
  · exact old
  · cases new

/-- A text is either among the constants already, or added to them. -/
theorem Generator.nameConstant_run (name : String) (g : Generator) :
    (∃ k, g.constants[k]? = some (.str name) ∧
        (Generator.nameConstant name).run g = (⟨name, k⟩, g)) ∨
      (Generator.nameConstant name).run g
        = (⟨name, g.constants.size⟩, { g with constants := g.constants.push (.str name) }) := by
  unfold Generator.nameConstant
  rw [StateT.run_bind, StateT.run_get, pure_bind]
  dsimp only
  cases found : g.constants.toList.findIdx? (Generator.isName name) with
  | none => exact .inr rfl
  | some k =>
      refine .inl ⟨k, ?_, rfl⟩
      obtain ⟨inside, named, _⟩ := List.findIdx?_eq_some_iff_getElem.1 found
      rw [← Array.getElem?_toList, List.getElem?_eq_getElem inside]
      revert named
      cases g.constants.toList[k] with
      | str s => simp [Generator.isName]
      | _ => exact fun absurd_ => Bool.noConfusion absurd_

/-- The scope `inner` was opened for `owner` inside the scope `here`. -/
structure Linked.Context.Opens (ctx : Context) (owner : ScopeOwner) (isBoundary : Bool)
    (here inner : Nat) : Prop where
  logged : (owner, inner) ∈ ctx.opened
  boundary : (ctx.scopes.scope inner).isBoundary = isBoundary
  shared : isBoundary = false → ctx.scopes.slotsOf inner = ctx.scopes.slotsOf here
  parent : (ctx.scopes.scope inner).parent = some here

theorem Resolver.Ready.beginScope {r : Resolver} {inFunction : Bool} (ready : r.Ready inFunction)
    (owner : ScopeOwner) {isBoundary : Bool} (hung : isBoundary = !inFunction) :
    ((Resolver.beginScope owner isBoundary).run r).2.Ready true := by
  have filled := ready.sound.tree.current
  have tree : (r.scopes.beginScope isBoundary).Tree := by
    refine ready.sound.tree.beginScope ?_
    have place := ready.place
    cases inFunction <;> simp_all
  refine ⟨⟨tree, ?_⟩, ?_⟩
  · show (r.opened.push (owner, r.scopes.scopes.size)).toList.map Prod.snd
      = List.range' 1 ((r.scopes.beginScope isBoundary).scopes.size - 1)
    rw [Array.toList_push, List.map_append, ready.sound.numbered, ScopeTable.size_beginScope,
      show r.scopes.scopes.size + 1 - 1 = r.scopes.scopes.size - 1 + 1 by omega,
      List.range'_concat]
    simp only [List.map_cons, List.map_nil, List.append_cancel_left_eq, List.cons.injEq, and_true]
    omega
  · show true = true ↔ r.scopes.scopes.size ≠ 0
    exact ⟨fun _ => by omega, fun _ => rfl⟩

/-- A scope that was opened is in its place in the finished tree. -/
theorem Resolver.Advances.opens {r r' : Resolver} {owner : ScopeOwner} {isBoundary inFunction : Bool}
    {ctx : Context} (step : ((Resolver.beginScope owner isBoundary).run r).2.Advances r')
    (ready : r.Ready inFunction) (hung : isBoundary = !inFunction) (tree : ctx.scopes.Tree)
    (grows : r'.scopes.Grows ctx.scopes) (kept : Kept r'.opened ctx.opened) :
    ctx.Opens owner isBoundary r.scopes.current r.scopes.scopes.size := by
  have filled := ready.sound.tree.current
  have fresh : r.scopes.scopes.size < (r.scopes.beginScope isBoundary).scopes.size := by simp
  have whole : (r.scopes.beginScope isBoundary).Grows ctx.scopes := step.grows.trans grows
  have final := whole.scopes _ fresh
  rw [ScopeTable.scope_beginScope, if_pos rfl] at final
  refine ⟨?_, final.boundary, fun nested => ?_, final.parent⟩
  · exact (step.opened.trans kept).mem (Array.mem_push.2 (.inr rfl))
  · have function : inFunction = true := by
      cases inFunction with
      | true => rfl
      | false => exact by cases hung.symm.trans nested
    rw [ScopeTable.slotsOf, ScopeTable.slotsOf, if_neg (by omega), if_neg (ready.place.1 function),
      tree.nested.boundaryOf_inner (by omega) (Nat.lt_of_lt_of_le fresh whole.size) final.parent
        (final.boundary.trans nested)]

/-- Both passes go into the same scope. -/
theorem InStep.enterScope {T : ScopeTable} {r : Resolver} {g : Generator} (inStep : InStep T r g)
    (sound : r.Sound) (owner : ScopeOwner) {isBoundary : Bool}
    (grows : (r.scopes.beginScope isBoundary).Grows T) :
    InStep T ((Resolver.beginScope owner isBoundary).run r).2
      ((Generator.enterScope owner).run g).2 := by
  have filled := sound.tree.current
  have kept := grows.scopes r.scopes.current (by rw [ScopeTable.size_beginScope]; omega)
  rw [ScopeTable.scope_beginScope, if_neg (Nat.ne_of_lt filled), ScopeTable.scope_update,
    if_pos ⟨rfl, filled⟩] at kept
  have next : (T.scope r.scopes.current).children[(r.scopes.scope r.scopes.current).children.length]?
      = some r.scopes.scopes.size := by
    obtain ⟨more, whole⟩ := kept.children
    rw [← whole]
    simp
  have entered : g.scopes.enterScope = { g.scopes.update g.scopes.current
      (fun s => { s with visited := s.visited + 1 }) with current := r.scopes.scopes.size } := by
    simp only [ScopeTable.enterScope, inStep.again.scopes, inStep.current, next]
  have current : g.scopes.enterScope.current = r.scopes.scopes.size := by rw [entered]
  refine ⟨current, ⟨?_, fun j => ?_⟩, ?_⟩
  · show g.scopes.enterScope.scopes.size = T.scopes.size
    rw [entered]
    exact (ScopeTable.size_update _ _ _).trans inStep.again.size
  · show g.scopes.enterScope.scope j
      = { T.scope j with visited := ((r.scopes.beginScope isBoundary).scope j).children.length }
    rw [entered, ScopeTable.scope_beginScope]
    show (g.scopes.update g.scopes.current fun s => { s with visited := s.visited + 1 }).scope j = _
    rw [ScopeTable.scope_update, ScopeTable.scope_update, inStep.again.scopes, inStep.again.size,
      inStep.current]
    by_cases last : j = r.scopes.scopes.size
    · rw [if_neg (by omega), if_pos last, ScopeTable.scope_of_size_le (Nat.le_of_eq last.symm)]
    · by_cases here : r.scopes.current = j
      · have inside : r.scopes.current < T.scopes.size := by
          have size := grows.size
          rw [ScopeTable.size_beginScope] at size
          omega
        subst here
        simp [last, inside, filled]
      · simp [last, here]
  · show g.entered.push (owner, g.scopes.enterScope.current)
      = r.opened.push (owner, r.scopes.scopes.size)
    rw [current, inStep.entered]

/-- Both passes go back to the same scope. -/
theorem InStep.exitScope {T : ScopeTable} {r : Resolver} {g : Generator} (inStep : InStep T r g)
    (sound : r.Sound) (grows : r.scopes.Grows T) :
    InStep T (Resolver.endScope.run r).2 (Generator.exitScope.run g).2 := by
  refine ⟨?_, ⟨inStep.again.size, inStep.again.scopes⟩, inStep.entered⟩
  show g.scopes.endScope.current = r.scopes.endScope.current
  simp only [ScopeTable.endScope, inStep.again.scopes, inStep.current,
    (grows.scopes _ sound.tree.current).parent]

/-! ## Steps -/

/-- Facts that may depend on the unit, on whether it is accepted, and on the current scope. -/
abbrev Facts := Context → Bool → Nat → Prop

/-- No facts. -/
def nothing : Facts := fun _ _ _ => True

/-- A step of the first pass and a step of the second keep in step. If the facts `P` hold, so
does `Q` of the result, and what is added fits the unit. -/
def Paired {β : Type} (inFunction : Bool) (P : Facts) (R : Resolve Unit) (G : Gen β)
    (Q : β → Facts) : Prop :=
  ∀ r : Resolver, r.Ready inFunction → r.Advances (R.run r).2 ∧
    ((R.run r).2.errors = [] → ∀ (T : ScopeTable) (g : Generator), T.Tree →
      (R.run r).2.scopes.Grows T → InStep T r g →
      InStep T (R.run r).2 (G.run g).2 ∧ g.Builds (G.run g).2 ∧
      ∀ ctx accepted, Completes T (R.run r).2 (G.run g).2 ctx accepted →
        P ctx accepted r.scopes.current →
        (ctx.Carries accepted g → ctx.Carries accepted (G.run g).2) ∧
        Q (G.run g).1 ctx accepted r.scopes.current)

/-- They keep in step, whatever holds. -/
def Together {β : Type} (inFunction : Bool) (R : Resolve Unit) (G : Gen β) : Prop :=
  ∀ r : Resolver, r.Ready inFunction → r.Advances (R.run r).2 ∧
    ((R.run r).2.errors = [] → ∀ (T : ScopeTable) (g : Generator), T.Tree →
      (R.run r).2.scopes.Grows T → InStep T r g →
      InStep T (R.run r).2 (G.run g).2 ∧ g.Builds (G.run g).2)

theorem Paired.together {β : Type} {inFunction : Bool} {P : Facts} {R : Resolve Unit} {G : Gen β}
    {Q : β → Facts} (paired : Paired inFunction P R G Q) : Together inFunction R G := by
  intro r ready
  obtain ⟨step, through⟩ := paired r ready
  refine ⟨step, fun clean T g tree grows inStep => ?_⟩
  obtain ⟨after, builds, _⟩ := through clean T g tree grows inStep
  exact ⟨after, builds⟩

/-- A part of the unit with a scope of its own: both passes go into the scope and out again. -/
theorem Together.scope {β : Type} {inFunction : Bool} {R : Resolve Unit} {G : Gen β}
    (inner : Together true R G) (owner : ScopeOwner) {isBoundary : Bool}
    (hung : isBoundary = !inFunction) : Together inFunction
      (Resolver.beginScope owner isBoundary >>= fun _ => R >>= fun _ => Resolver.endScope)
      (Generator.enterScope owner >>= fun _ => G >>= fun b => Generator.exitScope >>= fun _ =>
        Pure.pure b) := by
  intro r ready
  obtain ⟨step, through⟩ := inner _ (ready.beginScope owner hung)
  -- The state behind the inner step, and its current scope: the one just opened.
  generalize inside : (R.run ((Resolver.beginScope owner isBoundary).run r).2).2 = r' at step through
  have whole : ((Resolver.beginScope owner isBoundary >>= fun _ => R >>= fun _ =>
      Resolver.endScope).run r).2 = (Resolver.endScope.run r').2 := by
    rw [← inside]
    rfl
  have current : r'.scopes.current = r.scopes.scopes.size := step.current
  have fresh : r.scopes.scopes.size < (r.scopes.beginScope isBoundary).scopes.size := by simp
  have new : ((r.scopes.beginScope isBoundary).scope r.scopes.scopes.size)
      = { parent := some r.scopes.current, isBoundary } := by
    rw [ScopeTable.scope_beginScope, if_pos rfl]
  have placed := step.grows.scopes _ fresh
  have back : r'.scopes.endScope.current = r.scopes.current := by
    simp only [ScopeTable.endScope, current, placed.parent]
    rw [show ((Resolver.beginScope owner isBoundary).run r).2.scopes
      = r.scopes.beginScope isBoundary from rfl, new]
    rfl
  have left := ScopeTable.grows_endScope r'.scopes
  have grown := (ScopeTable.grows_beginScope r.scopes isBoundary).trans step.grows
  rw [whole]
  refine ⟨⟨⟨step.sound.tree.endScope, step.sound.numbered⟩, grown.trans left, back,
    step.errors, (Kept.push _ _).trans step.opened⟩, fun clean T g tree grows inStep => ?_⟩
  replace grows : r'.scopes.Grows T := left.trans grows
  obtain ⟨inStep', builds⟩ := through clean T _ tree grows
    (inStep.enterScope ready.sound owner (step.grows.trans grows))
  exact ⟨inStep'.exitScope step.sound grows, builds.constants, builds.functions, builds.errors⟩

namespace Paired

variable {β γ : Type} {inFunction : Bool} {P : Facts} {R R' : Resolve Unit} {G : Gen β}

theorem bindWith {G' : β → Gen γ} {Q : β → Facts} {S : γ → Facts}
    (first : Paired inFunction P R G Q)
    (second : ∀ b, Paired inFunction (fun ctx accepted here =>
      P ctx accepted here ∧ Q b ctx accepted here) R' (G' b) S) :
    Paired inFunction P (R >>= fun _ => R') (G >>= G') S := by
  intro r ready
  obtain ⟨step, inner⟩ := first r ready
  obtain ⟨step', _⟩ := second ((G.run default).1) _ (step.ready ready)
  refine ⟨step.trans step', fun clean T g tree grows inStep => ?_⟩
  obtain ⟨inStep, builds, facts⟩ :=
    inner (step'.errors clean) T g tree (step'.grows.trans grows) inStep
  obtain ⟨inStep', builds', facts'⟩ :=
    (second (G.run g).1 _ (step.ready ready)).2 clean T _ tree grows inStep
  refine ⟨inStep', builds.trans builds', fun ctx accepted complete given => ?_⟩
  obtain ⟨methods, known⟩ := facts ctx accepted (complete.earlier step' builds') given
  rw [step.current] at facts'
  obtain ⟨methods', known'⟩ := facts' ctx accepted complete ⟨given, known⟩
  exact ⟨fun carried => methods' (methods carried), known'⟩

theorem weaken {Q : β → Facts} (first : Paired inFunction nothing R G Q) :
    Paired inFunction P R G Q := by
  intro r ready
  obtain ⟨step, inner⟩ := first r ready
  refine ⟨step, fun clean T g tree grows inStep => ?_⟩
  obtain ⟨inStep, builds, facts⟩ := inner clean T g tree grows inStep
  exact ⟨inStep, builds, fun ctx accepted complete _ => facts ctx accepted complete trivial⟩

theorem bind {G' : β → Gen γ} {Q : β → Facts} {S : γ → Facts}
    (first : Paired inFunction nothing R G Q)
    (second : ∀ b, Paired inFunction (fun ctx accepted here =>
      P ctx accepted here ∧ Q b ctx accepted here) R' (G' b) S) :
    Paired inFunction P (R >>= fun _ => R') (G >>= G') S :=
  bindWith first.weaken second

/-- A result that needs neither pass. -/
theorem pure {b : β} {Q : β → Facts} (known : ∀ ctx accepted here, P ctx accepted here →
    Q b ctx accepted here) :
    Paired inFunction P (Pure.pure ()) (Pure.pure b) Q := by
  intro r ready
  refine ⟨.refl ready.sound, fun _ T g _ _ inStep => ⟨inStep, .refl g, ?_⟩⟩
  exact fun ctx accepted _ given => ⟨id, known ctx accepted _ given⟩

/-- What is known of a result follows from what was shown. -/
theorem imp {Q S : β → Facts} (first : Paired inFunction nothing R G Q)
    (known : ∀ b ctx accepted here, P ctx accepted here → Q b ctx accepted here →
      S b ctx accepted here) :
    Paired inFunction P R G S := by
  intro r ready
  obtain ⟨step, inner⟩ := first r ready
  refine ⟨step, fun clean T g tree grows inStep => ?_⟩
  obtain ⟨inStep, builds, facts⟩ := inner clean T g tree grows inStep
  refine ⟨inStep, builds, fun ctx accepted complete given => ?_⟩
  obtain ⟨methods, shown⟩ := facts ctx accepted complete trivial
  exact ⟨methods, known _ ctx accepted _ given shown⟩

/-- At module level the current scope is the root. -/
theorem atRoot {Q : β → Facts} (first : Paired false nothing R G Q) :
    Paired false nothing R G (fun b ctx accepted here => here = 0 ∧ Q b ctx accepted here) := by
  intro r ready
  have root : r.scopes.current = 0 := by
    by_contra inner
    exact Bool.noConfusion (ready.place.2 inner)
  obtain ⟨step, inner⟩ := first r ready
  refine ⟨step, fun clean T g tree grows inStep => ?_⟩
  obtain ⟨inStep, builds, facts⟩ := inner clean T g tree grows inStep
  refine ⟨inStep, builds, fun ctx accepted complete given => ?_⟩
  obtain ⟨methods, shown⟩ := facts ctx accepted complete given
  exact ⟨methods, root, shown⟩

/-- A step whose result is turned into another one. -/
theorem map {Q : β → Facts} {S : γ → Facts} {f : β → γ}
    (first : Paired inFunction nothing R G Q)
    (known : ∀ b ctx accepted here, P ctx accepted here → Q b ctx accepted here →
      S (f b) ctx accepted here) :
    Paired inFunction P R (G >>= fun b => Pure.pure (f b)) S :=
  bind first fun b => pure fun ctx accepted here given =>
    known b ctx accepted here given.1 given.2

/-- A step of the second pass alone, before a step of both. -/
theorem linkingWith {G' : β → Gen γ} {Q : β → Facts} {S : γ → Facts}
    (first : Paired inFunction P (Pure.pure ()) G Q)
    (second : ∀ b, Paired inFunction (fun ctx accepted here =>
      P ctx accepted here ∧ Q b ctx accepted here) R (G' b) S) :
    Paired inFunction P R (G >>= G') S :=
  bindWith first second

theorem linking {G' : β → Gen γ} {Q : β → Facts} {S : γ → Facts}
    (first : Paired inFunction nothing (Pure.pure ()) G Q)
    (second : ∀ b, Paired inFunction (fun ctx accepted here =>
      P ctx accepted here ∧ Q b ctx accepted here) R (G' b) S) :
    Paired inFunction P R (G >>= G') S :=
  linkingWith first.weaken second

/-- A step of the second pass alone, behind a step of both. -/
theorem followed {G' : β → Gen γ} {Q : β → Facts} {S : γ → Facts}
    (first : Paired inFunction nothing R G Q)
    (second : ∀ b, Paired inFunction (fun ctx accepted here =>
      P ctx accepted here ∧ Q b ctx accepted here) (Pure.pure ()) (G' b) S) :
    Paired inFunction P R (G >>= G') S :=
  bind first second

/-- A step of the first pass alone, before a step of both. -/
theorem declaring {Q : Unit → Facts} {S : β → Facts}
    (first : Paired inFunction nothing R (Pure.pure ()) Q)
    (second : Paired inFunction P R' G S) :
    Paired inFunction P (R >>= fun _ => R') G S := by
  show Paired inFunction P (R >>= fun _ => R') (Pure.pure () >>= fun _ => G) S
  refine bind first fun _ => ?_
  intro r ready
  obtain ⟨step, inner⟩ := second r ready
  refine ⟨step, fun clean T g tree grows inStep => ?_⟩
  obtain ⟨inStep, builds, facts⟩ := inner clean T g tree grows inStep
  exact ⟨inStep, builds, fun ctx accepted complete given => facts ctx accepted complete given.1⟩

/-- The first pass complains: the unit is rejected, whatever the second pass would do. -/
theorem rejected {Q : β → Facts} (loc : Location) (kind : CompileErrorKind) :
    Paired inFunction P (Resolver.report loc kind) G Q := by
  intro r ready
  have reported : ((Resolver.report loc kind).run r).2.errors ≠ [] :=
    List.append_ne_nil_of_right_ne_nil _ (List.cons_ne_nil _ _)
  refine ⟨⟨⟨ready.sound.tree, ready.sound.numbered⟩, .refl _, rfl, ?_, .refl _⟩, ?_⟩
  · exact fun clean => absurd clean reported
  · exact fun clean => absurd clean reported

/-- The first pass complains and goes on. -/
theorem rejecting {P' : Facts} {G' : Gen γ} {Q : β → Facts} {Q' : γ → Facts} (loc : Location)
    (kind : CompileErrorKind) (others : Paired inFunction P' R' G' Q') :
    Paired inFunction P (Resolver.report loc kind >>= fun _ => R') G Q := by
  intro r ready
  obtain ⟨step, _⟩ := rejected (P := nothing) (G := Pure.pure ()) (Q := fun _ => nothing) loc kind r ready
  have later := (others _ (step.ready ready)).1
  refine ⟨step.trans later, fun clean => absurd (later.errors clean) ?_⟩
  exact List.append_ne_nil_of_right_ne_nil _ (List.cons_ne_nil _ _)

/-! ### Steps of the second pass -/

theorem collecting {Q : β → Facts} (collects : ∀ g : Generator, g.Collects (G.run g).2)
    (known : ∀ T r g ctx accepted, r.Ready inFunction → T.Tree →
      r.scopes.current < T.scopes.size → InStep T r g → Completes T r (G.run g).2 ctx accepted → Q (G.run g).1 ctx accepted r.scopes.current) :
    Paired inFunction nothing (Pure.pure ()) G Q := by
  intro r ready
  refine ⟨.refl ready.sound, fun _ T g tree grows inStep => ?_⟩
  obtain ⟨scopes, entered, functions, constants, nested, errors⟩ := collects g
  refine ⟨⟨?_, ?_, entered.trans inStep.entered⟩, ⟨constants, ?_, errors⟩, ?_⟩
  · rw [scopes]
    exact inStep.current
  · rw [scopes]
    exact inStep.again
  · rw [functions]
    exact .refl _
  · intro ctx accepted complete _
    refine ⟨fun carried => ⟨?_, fun k held => carried.nested k (nested k held), ?_⟩, ?_⟩
    · rw [functions]
      exact carried.functions
    · rw [functions]
      exact carried.seated
    exact known T r g ctx accepted ready tree (Nat.lt_of_lt_of_le ready.sound.tree.current grows.size)
      inStep complete

theorem addConstant {c : Constant} (plain : ∀ k, c ≠ .method k) :
    Paired inFunction nothing (Pure.pure ()) (Generator.addConstant c)
      (fun k ctx _ _ => ctx.pool[k]? = some c) := by
  refine collecting (fun g => ⟨rfl, rfl, rfl, .push _ _, fun k held => ?_, id⟩)
    fun T r g ctx _ _ _ _ _ complete => complete.pool _ _ Array.getElem?_push_size
  rcases Array.mem_push.1 held with old | new
  · exact old
  · exact absurd new.symm (plain k)

/-- A constant that holds a method. -/
theorem addMethod {k : Nat}
    (added : ∀ ctx accepted here, P ctx accepted here → k < ctx.functions.size) :
    Paired inFunction P (Pure.pure ()) (Generator.addConstant (.method k))
      (fun const ctx _ _ => ctx.pool[const]? = some (.method k)) := by
  intro r ready
  refine ⟨.refl ready.sound, fun _ T g _ _ inStep => ?_⟩
  refine ⟨⟨inStep.current, inStep.again, inStep.entered⟩, ⟨.push _ _, .refl _, id⟩, ?_⟩
  intro ctx accepted complete given
  refine ⟨fun carried => ⟨carried.functions, fun j held => ?_, carried.seated⟩,
    complete.pool _ _ Array.getElem?_push_size⟩
  rcases Array.mem_push.1 held with old | new
  · exact carried.nested j old
  · cases new
    exact added ctx accepted _ given

theorem nameConstant (name : String) : Paired inFunction nothing (Pure.pure ())
    (Generator.nameConstant name) (fun n ctx _ _ => n.name = name ∧ n.In ctx.pool) := by
  refine collecting (fun g => ?_) fun T r g ctx _ _ _ _ _ complete => ?_
  · rcases Generator.nameConstant_run name g with ⟨k, _, run⟩ | run
    · rw [run]
      exact .refl g
    · rw [run]
      exact .text g name
  · rcases Generator.nameConstant_run name g with ⟨k, found, run⟩ | run
    · rw [run] at complete ⊢
      exact ⟨rfl, complete.pool _ _ found⟩
    · rw [run] at complete ⊢
      exact ⟨rfl, complete.pool _ _ Array.getElem?_push_size⟩

theorem nameConstants (names : List String) : Paired inFunction nothing (Pure.pure ())
    (Generator.nameConstants names)
    (fun found ctx _ _ => found.length = names.length ∧ ∀ n ∈ found, n.In ctx.pool) := by
  induction names with
  | nil => exact pure fun _ _ _ _ => ⟨rfl, List.forall_mem_nil _⟩
  | cons name rest ih =>
      refine linking (nameConstant name) fun first => map ih fun others ctx accepted here given found => ?_
      exact ⟨congrArg (· + 1) found.1, List.forall_mem_cons.2 ⟨given.2.2, found.2⟩⟩

theorem basePath (path : String) : Paired inFunction nothing (Pure.pure ())
    (Generator.basePath path) (fun found ctx _ _ => found.Valid ctx.pool) := by
  have named : (Text.pieces '.' path).length ≠ 0 := by
    unfold Text.pieces Text.split
    rw [List.length_map]
    cases path.toList.length with
    | zero => exact Nat.one_ne_zero
    | succ n =>
        rw [Text.splitWithin]
        split
        · exact Nat.succ_ne_zero _
        · exact Nat.one_ne_zero
  refine imp (nameConstants _) fun found ctx accepted here _ ⟨length, known⟩ => ?_
  exact ⟨fun empty => named (by rw [← length, empty]; rfl), known⟩

theorem basePaths (paths : List String) : Paired inFunction nothing (Pure.pure ())
    (Generator.basePaths paths) (fun found ctx _ _ => ∀ path ∈ found, path.Valid ctx.pool) := by
  induction paths with
  | nil => exact pure fun _ _ _ _ => List.forall_mem_nil _
  | cons path rest ih =>
      refine linking (basePath path) fun first => map ih fun others ctx accepted here given found => ?_
      exact List.forall_mem_cons.2 ⟨given.2, found⟩

theorem get : Paired inFunction nothing (Pure.pure ()) (MonadState.get : Gen Generator)
    (fun g ctx _ here => g.StandsIn inFunction ctx here) :=
  collecting .refl fun _ _ _ _ _ ready tree inside inStep complete =>
    inStep.standsIn ready tree inside complete.scopes

theorem refOf (name : String) : Paired inFunction nothing (Pure.pure ()) (Generator.refOf name)
    (fun ref ctx _ here => ref.Valid ctx.pool (ctx.scopes.slotsOf here) name) := by
  refine linking get fun g => ?_
  split
  · next index _ found =>
    exact pure fun ctx accepted here given => given.2.handed name _ found rfl
  · exact map (nameConstant name) fun n ctx accepted here _ named => by
      rw [← named.1]
      exact named.2

theorem bindingRef (binding : Option String) : Paired inFunction nothing (Pure.pure ())
    (Generator.bindingRef binding)
    (fun found ctx _ here => ∀ b ∈ found, b.2.Valid ctx.pool (ctx.scopes.slotsOf here) b.1) := by
  cases binding with
  | none => exact pure fun _ _ _ _ _ absent => nomatch absent
  | some name =>
      refine map (refOf name) fun ref ctx accepted here _ kept => ?_
      rintro _ ⟨⟩
      exact kept

theorem report (loc : Location) (kind : CompileErrorKind) : Paired inFunction nothing
    (Pure.pure ()) (Generator.report loc kind) (fun _ _ accepted _ => accepted = false) := by
  refine collecting (fun g => ⟨rfl, rfl, rfl, .refl _, fun _ => id, fun clean => (List.append_eq_nil_iff.1 clean).1⟩)
    fun T r g ctx accepted _ _ _ _ complete => ?_
  cases accepted with
  | false => rfl
  | true => exact absurd (complete.clean rfl) (List.append_ne_nil_of_right_ne_nil _ (List.cons_ne_nil _ _))

theorem checkLoop (place : Place) (loc : Location) (kind : CompileErrorKind) :
    Paired inFunction nothing (Pure.pure ()) (Generator.checkLoop place loc kind)
      (fun _ _ accepted _ => accepted = true → place.inLoop = true) := by
  unfold Generator.checkLoop
  cases place.inLoop with
  | true => exact pure fun _ _ _ _ _ => rfl
  | false =>
      refine imp (report loc kind) fun _ _ accepted _ _ rejected fine => ?_
      exact absurd (rejected.symm.trans fine) Bool.false_ne_true

theorem addFunction {f : Linked.Function} {Q : Nat → Facts}
    (fits : ∀ ctx accepted here, P ctx accepted here → ctx.Fits accepted f ∧ ctx.Seats f)
    (known : ∀ k ctx accepted here, P ctx accepted here → ctx.functions[k]? = some f →
      Q k ctx accepted here) :
    Paired inFunction P (Pure.pure ()) (Generator.addFunction f) Q := by
  intro r ready
  refine ⟨.refl ready.sound, fun _ T g _ _ inStep => ?_⟩
  refine ⟨⟨inStep.current, inStep.again, inStep.entered⟩, ⟨.refl _, .push _ _, id⟩, ?_⟩
  intro ctx accepted complete given
  obtain ⟨valid, seats⟩ := fits ctx accepted _ given
  refine ⟨fun carried => ⟨fun f' member => ?_, carried.nested, fun f' member => ?_⟩,
    known _ ctx accepted _ given (complete.functions _ _ Array.getElem?_push_size)⟩ <;>
    rcases Array.mem_push.1 member with old | rfl
  · exact carried.functions f' old
  · exact valid
  · exact carried.seated f' old
  · exact seats

/-! ### Steps of the first pass -/

theorem resolving (declares : ∀ r : Resolver, r.Declares (R.run r).2) :
    Paired inFunction nothing R (Pure.pure ()) fun _ => nothing := by
  intro r ready
  have step := declares r
  refine ⟨⟨⟨step.tree ready.sound.tree, ?_⟩, step.grows, step.current, step.errors, ?_⟩, ?_⟩
  · rw [step.opened, step.size]
    exact ready.sound.numbered
  · rw [step.opened]
    exact .refl _
  · intro _ T g _ _ inStep
    refine ⟨⟨inStep.current.trans step.current.symm, ?_, inStep.entered.trans step.opened.symm⟩,
      .refl _, fun _ _ _ _ => ⟨id, trivial⟩⟩
    simp only [step.children]
    exact inStep.again

/-- Both passes come to the parameters of a function. -/
theorem parameters (loc : Location) (names : List String) : Paired true nothing
    (Resolver.parameters loc [] names) (Generator.parameterSlots names)
    (fun found ctx _ here => found.map Prod.fst = names ∧ (found.map Prod.snd).Nodup ∧
      ∀ p ∈ found, p.2 < ctx.scopes.slotsOf here) := by
  intro r ready
  obtain ⟨step, inner⟩ := resolving (Resolver.declares_parameters loc names []) r ready
  refine ⟨step, fun clean T g tree grows inStep => ?_⟩
  obtain ⟨after, _⟩ := inner clean T g tree grows inStep
  refine ⟨after, .refl g, fun ctx accepted complete _ => ⟨id, ?_⟩⟩
  have inside := ready.sound.tree.current
  have inside' : r.scopes.current < ctx.scopes.scopes.size := by
    rw [complete.scopes]
    exact Nat.lt_of_lt_of_le inside (step.grows.trans grows).size
  have stands := after.standsIn (step.ready ready) tree
    (by rw [step.current, ← complete.scopes]; exact inside') complete.scopes
  rw [step.current] at stands
  have distinct : names.Nodup :=
    fresh_empty.1 ((Resolver.parameters_reports loc [] names r).1 clean).2
  have slots : ctx.scopes.slotsOf r.scopes.current
      = (ctx.scopes.scope (ctx.scopes.boundaryOf r.scopes.current)).slotCount :=
    if_neg (ready.place.1 rfl)
  rw [← complete.scopes] at tree grows
  dsimp only
  rw [slots]
  refine tree.distinct_numbers inside' distinct fun name listed => ?_
  obtain ⟨symbol, declared⟩ := Resolver.declared_parameters loc names [] inside name listed
  have final := (grows.scopes _ (Nat.lt_of_lt_of_le inside step.grows.size)).find? declared
  exact ⟨symbol, final, stands.declared name symbol final⟩

/-! ### Scopes -/

/-- A part of the unit with a scope of its own. -/
theorem scope (owner : ScopeOwner) {isBoundary : Bool} {Q S : β → Facts}
    (hung : isBoundary = !inFunction) (inner : Paired true nothing R G Q)
    (known : ∀ b ctx accepted here inside, P ctx accepted here →
      ctx.Opens owner isBoundary here inside → Q b ctx accepted inside → S b ctx accepted here) :
    Paired inFunction P
      (Resolver.beginScope owner isBoundary >>= fun _ => R >>= fun _ => Resolver.endScope)
      (Generator.enterScope owner >>= fun _ => G >>= fun b => Generator.exitScope >>= fun _ =>
        Pure.pure b) S := by
  intro r ready
  obtain ⟨whole, outside⟩ := inner.together.scope owner hung r ready
  obtain ⟨step, through⟩ := inner _ (ready.beginScope owner hung)
  refine ⟨whole, fun clean T g tree grows inStep => ?_⟩
  obtain ⟨inStep', builds⟩ := outside clean T g tree grows inStep
  replace grows := (ScopeTable.grows_endScope _).trans grows
  obtain ⟨_, _, facts⟩ := through clean T _ tree grows
    (inStep.enterScope ready.sound owner (step.grows.trans grows))
  refine ⟨inStep', builds, fun ctx accepted complete given => ?_⟩
  obtain ⟨methods, shown⟩ := facts ctx accepted
    ⟨complete.scopes, complete.pool, complete.functions, complete.opened, complete.clean⟩ trivial
  refine ⟨fun carried => ?_, known _ ctx accepted _ r.scopes.scopes.size given ?_ shown⟩
  · obtain ⟨functions, nested, seated⟩ :=
      methods ⟨carried.functions, carried.nested, carried.seated⟩
    exact ⟨functions, nested, seated⟩
  · rw [← complete.scopes] at tree grows
    exact step.opens ready hung tree grows complete.opened

/-- A method before it is added: it stands in its own scope. -/
def Drafted (owner : ScopeOwner) (f : Linked.Function) : Facts :=
  fun ctx accepted here => f.scope = here ∧ f.localCount = ctx.scopes.slotsOf here ∧
    f.Valid ctx accepted ∧ f.method.Follows owner.signature

/-- A part of the unit with a scope of its own from which a method is made. -/
theorem drafting {G : Gen Linked.Function} (owner : ScopeOwner) {isBoundary : Bool}
    (hung : isBoundary = !inFunction) (inner : Paired true nothing R G (Drafted owner)) :
    Paired inFunction nothing
      (Resolver.beginScope owner isBoundary >>= fun _ => R >>= fun _ => Resolver.endScope)
      (Generator.enterScope owner >>= fun _ => G >>= fun f => Generator.exitScope >>= fun _ =>
        Pure.pure f)
      (fun f ctx accepted here => (ctx.Fits accepted f ∧ ctx.Seats f) ∧
        (owner, f.scope) ∈ ctx.opened ∧ (ctx.scopes.scope f.scope).isBoundary = isBoundary ∧
        (isBoundary = false → f.localCount = ctx.scopes.slotsOf here)) := by
  refine scope owner hung inner ?_
  rintro f ctx accepted here inside _ opens ⟨rfl, counted, valid, follows⟩
  exact ⟨⟨⟨valid, counted, owner, opens.logged⟩, owner, opens.logged, follows⟩, opens.logged,
    opens.boundary, fun nested => counted.trans (opens.shared nested)⟩

/-- The method that a part of the unit became. -/
def Became (isBoundary : Bool) (owner : ScopeOwner) (method : Nat) : Facts :=
  fun ctx _ here => ∃ f, ctx.functions[method]? = some f ∧ (owner, f.scope) ∈ ctx.opened ∧
    (ctx.scopes.scope f.scope).isBoundary = isBoundary ∧
    (isBoundary = false → f.localCount = ctx.scopes.slotsOf here)

theorem Became.lt {isBoundary : Bool} {owner : ScopeOwner} {k : Nat} {ctx : Context}
    {accepted : Bool} {here : Nat} (became : Became isBoundary owner k ctx accepted here) :
    k < ctx.functions.size := by
  obtain ⟨f, found, _⟩ := became
  exact (Array.getElem?_eq_some_iff.1 found).1

/-- A part of the unit with a scope of its own that becomes a method. -/
theorem method {G : Gen Linked.Function} (owner : ScopeOwner) {isBoundary : Bool}
    (hung : isBoundary = !inFunction) (inner : Paired true nothing R G (Drafted owner)) :
    Paired inFunction nothing
      (Resolver.beginScope owner isBoundary >>= fun _ => R >>= fun _ => Resolver.endScope)
      (Generator.enterScope owner >>= fun _ => G >>= fun f => Generator.exitScope >>= fun _ =>
        Generator.addFunction f)
      (Became isBoundary owner) := by
  have whole := followed (P := nothing) (S := Became isBoundary owner)
    (drafting owner hung inner) fun f =>
      addFunction (fun ctx accepted here given => given.2.1)
        fun k ctx accepted here given found => ⟨f, found, given.2.2⟩
  exact whole

end Paired
end ScriptMachine
