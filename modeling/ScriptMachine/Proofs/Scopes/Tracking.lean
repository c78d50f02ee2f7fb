import ScriptMachine.Proofs.Scopes.Bindings
import ScriptMachine.Proofs.Scopes.Outcome

/-!
Following declarations through both passes. `Tracks` says of a step of both that what it links comes
from the tree it was made from, and that every function on the way has become a method. That the
passes keep in step is known; what is tracked needs it wherever one step follows another.
-/

namespace ScriptMachine

open Linked (Context BasePath)
open Resolver (Resolve)
open Generator (Gen)

/-! ## Steps of both passes -/

/-- Both passes take a step side by side, and may end in this unit. -/
structure Passage {β : Type} (inFunction : Bool) (R : Resolve Unit) (G : Gen β) (ctx : Context)
    (r : Resolver) (g : Generator) : Prop where
  ready : r.Ready inFunction
  clean : (R.run r).2.errors = []
  tree : ctx.scopes.Tree
  grows : (R.run r).2.scopes.Grows ctx.scopes
  inStep : InStep ctx.scopes r g
  complete : Completes ctx.scopes (R.run r).2 (G.run g).2 ctx false

/-- Facts about a unit and a scope of it. -/
abbrev Sight := Context → Nat → Prop

/-- If `P` holds where a step begins, `Q` holds of its result, and every function on the way has
become a method. -/
structure Tracks {β : Type} (inFunction : Bool) (P : Sight) (R : Resolve Unit) (G : Gen β)
    (Q : β → Sight) : Prop where
  together : Together inFunction R G
  result : ∀ {ctx r g}, Passage inFunction R G ctx r g → P ctx r.scopes.current →
    Q (G.run g).1 ctx r.scopes.current
  made : ∀ {ctx r g}, Passage inFunction R G ctx r g → P ctx r.scopes.current → ∀ {decl scope},
    (.function decl, scope) ∈ (R.run r).2.opened →
    (.function decl, scope) ∈ r.opened ∨ ctx.Makes decl scope

/-- No facts. -/
def anywhere : Sight := fun _ _ => True

theorem Together.bind {β γ : Type} {inFunction : Bool} {R R' : Resolve Unit} {G : Gen β}
    {G' : β → Gen γ} (first : Together inFunction R G)
    (second : ∀ b, Together inFunction R' (G' b)) :
    Together inFunction (R >>= fun _ => R') (G >>= G') := by
  intro r ready
  obtain ⟨step, through⟩ := first r ready
  obtain ⟨step', _⟩ := second (G.run default).1 _ (step.ready ready)
  refine ⟨step.trans step', fun clean T g tree grows inStep => ?_⟩
  obtain ⟨middle, builds⟩ := through (step'.errors clean) T g tree (step'.grows.trans grows) inStep
  obtain ⟨after, builds'⟩ :=
    (second (G.run g).1 _ (step.ready ready)).2 clean T _ tree grows middle
  exact ⟨after, builds.trans builds'⟩

namespace Passage

variable {β γ : Type} {inFunction : Bool} {R R' : Resolve Unit} {G : Gen β} {G' : β → Gen γ}
  {ctx : Context} {r : Resolver} {g : Generator}

/-- Two steps one after the other are two passages. -/
theorem split (passage : Passage inFunction (R >>= fun _ => R') (G >>= G') ctx r g)
    (first : Together inFunction R G) (second : ∀ b, Together inFunction R' (G' b)) :
    Passage inFunction R G ctx r g ∧
      Passage inFunction R' (G' (G.run g).1) ctx (R.run r).2 (G.run g).2 := by
  obtain ⟨ready, clean, tree, grows, inStep, complete⟩ := passage
  obtain ⟨step, through⟩ := first r ready
  obtain ⟨step', through'⟩ := second (G.run g).1 _ (step.ready ready)
  have early := step'.errors clean
  have grown := step'.grows.trans grows
  obtain ⟨middle, _⟩ := through early ctx.scopes g tree grown inStep
  obtain ⟨_, builds⟩ := through' clean ctx.scopes _ tree grows middle
  exact ⟨⟨ready, early, tree, grown, inStep, complete.earlier step' builds⟩,
    ⟨step.ready ready, clean, tree, grows, middle, complete⟩⟩

/-- A part with a scope of its own is a passage through it. -/
theorem inner {owner : ScopeOwner} {isBoundary : Bool}
    (passage : Passage inFunction
      (Resolver.beginScope owner isBoundary >>= fun _ => R >>= fun _ => Resolver.endScope)
      (Generator.enterScope owner >>= fun _ => G >>= fun b => Generator.exitScope >>= fun _ => G' b)
      ctx r g)
    (hung : isBoundary = !inFunction) (together : Together true R G)
    (builds : ∀ b (g : Generator), g.Builds ((G' b).run g).2) :
    Passage true R G ctx ((Resolver.beginScope owner isBoundary).run r).2
        ((Generator.enterScope owner).run g).2 ∧
      ctx.Opens owner isBoundary r.scopes.current r.scopes.scopes.size := by
  obtain ⟨ready, clean, tree, grows, inStep, complete⟩ := passage
  have opened := ready.beginScope owner hung
  obtain ⟨step, _⟩ := together _ opened
  have grown := (ScopeTable.grows_endScope _).trans grows
  have added := builds (G.run ((Generator.enterScope owner).run g).2).1
    (Generator.exitScope.run (G.run ((Generator.enterScope owner).run g).2).2).2
  refine ⟨⟨opened, clean, tree, grown, ?_, ?_⟩, ?_⟩
  · exact inStep.enterScope ready.sound owner (step.grows.trans grown)
  · exact ⟨rfl, added.constants.trans complete.pool, added.functions.trans complete.functions,
      complete.opened, nofun⟩
  · exact step.opens ready hung tree grown complete.opened

end Passage

/-- A step of the second pass alone that stays in its scope. -/
theorem Together.linking {β : Type} {inFunction : Bool} {G : Gen β}
    (scopes : ∀ g : Generator, (G.run g).2.scopes = g.scopes)
    (entered : ∀ g : Generator, (G.run g).2.entered = g.entered)
    (builds : ∀ g : Generator, g.Builds (G.run g).2) : Together inFunction (Pure.pure ()) G := by
  intro r ready
  refine ⟨.refl ready.sound, fun _ T g _ _ inStep => ⟨⟨?_, ?_, ?_⟩, builds g⟩⟩
  · rw [scopes]
    exact inStep.current
  · rw [scopes]
    exact inStep.again
  · exact (entered g).trans inStep.entered

namespace Tracks

variable {β γ : Type} {inFunction : Bool} {P : Sight} {R R' : Resolve Unit} {G : Gen β}

theorem imp {P' : Sight} {Q S : β → Sight} (first : Tracks inFunction P R G Q)
    (fewer : ∀ ctx here, P' ctx here → P ctx here)
    (known : ∀ b ctx here, P' ctx here → Q b ctx here → S b ctx here) :
    Tracks inFunction P' R G S where
  together := first.together
  result passage given := known _ _ _ given (first.result passage (fewer _ _ given))
  made passage given := first.made passage (fewer _ _ given)

theorem bindWith {G' : β → Gen γ} {Q : β → Sight} {S : γ → Sight}
    (first : Tracks inFunction P R G Q)
    (second : ∀ b, Tracks inFunction (fun ctx here => P ctx here ∧ Q b ctx here) R' (G' b) S) :
    Tracks inFunction P (R >>= fun _ => R') (G >>= G') S where
  together := first.together.bind fun b => (second b).together
  result {ctx r g} passage given := by
    obtain ⟨before, after⟩ := passage.split first.together fun b => (second b).together
    have current := (first.together r passage.ready).1.current
    rw [← current]
    refine (second _).result after ?_
    rw [current]
    exact ⟨given, first.result before given⟩
  made {ctx r g} passage given decl scope member := by
    obtain ⟨before, after⟩ := passage.split first.together fun b => (second b).together
    have current := (first.together r passage.ready).1.current
    have known := first.result before given
    rcases (second _).made after (current ▸ ⟨given, known⟩) member with old | new
    · exact first.made before given old
    · exact .inr new

theorem bind {G' : β → Gen γ} {Q : β → Sight} {S : γ → Sight}
    (first : Tracks inFunction anywhere R G Q)
    (second : ∀ b, Tracks inFunction (fun ctx here => P ctx here ∧ Q b ctx here) R' (G' b) S) :
    Tracks inFunction P (R >>= fun _ => R') (G >>= G') S :=
  bindWith (first.imp (fun _ _ _ => trivial) fun _ _ _ _ known => known) second

/-- What the first step relies on is known when the second has been taken. -/
theorem foreseen {G' : β → Gen γ} {C : Context → Prop} {Q : β → Sight} {S : γ → Sight}
    (first : Tracks inFunction (fun ctx _ => C ctx) R G Q)
    (second : ∀ b, Tracks inFunction anywhere R' (G' b) S)
    (known : ∀ b ctx here, S b ctx here → C ctx) :
    Tracks inFunction anywhere (R >>= fun _ => R') (G >>= G') S where
  together := first.together.bind fun b => (second b).together
  result {ctx r g} passage given := by
    obtain ⟨before, after⟩ := passage.split first.together fun b => (second b).together
    rw [← (first.together r passage.ready).1.current]
    exact (second _).result after trivial
  made {ctx r g} passage given decl scope member := by
    obtain ⟨before, after⟩ := passage.split first.together fun b => (second b).together
    rcases (second _).made after trivial member with old | new
    · exact first.made before (known _ ctx _ ((second _).result after trivial)) old
    · exact .inr new

/-- A step that opens no scope. -/
theorem still {Q : β → Facts} (paired : Paired inFunction nothing R G Q)
    (same : ∀ r : Resolver, (R.run r).2.opened = r.opened) :
    Tracks inFunction P R G (fun b ctx here => Q b ctx false here) where
  together := paired.together
  result {ctx r g} passage _ := by
    obtain ⟨_, through⟩ := paired r passage.ready
    obtain ⟨_, _, facts⟩ :=
      through passage.clean ctx.scopes g passage.tree passage.grows passage.inStep
    exact (facts ctx false passage.complete trivial).2
  made {ctx r g} _ _ decl scope member := .inl (same r ▸ member)

theorem pure {b : β} {Q : β → Sight} (known : ∀ ctx here, P ctx here → Q b ctx here) :
    Tracks inFunction P (Pure.pure ()) (Pure.pure b) Q where
  together := .linking (fun _ => rfl) (fun _ => rfl) .refl
  result _ given := known _ _ given
  made _ _ _ _ member := .inl member

/-- A step whose result is turned into another one. -/
theorem map {Q : β → Sight} {S : γ → Sight} {f : β → γ} (first : Tracks inFunction anywhere R G Q)
    (known : ∀ b ctx here, P ctx here → Q b ctx here → S (f b) ctx here) :
    Tracks inFunction P R (G >>= fun b => Pure.pure (f b)) S :=
  bind first fun b => pure fun ctx here given => known b ctx here given.1 given.2

/-- A step of the second pass alone, before a step of both. -/
theorem linking {G' : β → Gen γ} {Q : β → Sight} {S : γ → Sight}
    (first : Tracks inFunction anywhere (Pure.pure ()) G Q)
    (second : ∀ b, Tracks inFunction (fun ctx here => P ctx here ∧ Q b ctx here) R (G' b) S) :
    Tracks inFunction P R (G >>= G') S :=
  bind first second

/-- A step of the second pass alone, behind a step of both. -/
theorem followed {G' : β → Gen γ} {Q : β → Sight} {S : γ → Sight}
    (first : Tracks inFunction anywhere R G Q)
    (second : ∀ b, Tracks inFunction (fun ctx here => P ctx here ∧ Q b ctx here) (Pure.pure ())
      (G' b) S) :
    Tracks inFunction P R (G >>= G') S :=
  bind first second

/-- The first pass declares names before a step of both. -/
theorem declaring {Q : β → Sight} (declares : ∀ r : Resolver, r.Declares (R.run r).2)
    (second : Tracks inFunction P R' G Q) : Tracks inFunction P (R >>= fun _ => R') G Q := by
  have first : Tracks inFunction anywhere R (Pure.pure ()) fun _ => anywhere :=
    (still (.resolving declares) fun r => (declares r).opened).imp (fun _ _ given => given)
      fun _ _ _ _ _ => trivial
  exact bind first fun _ => second.imp (fun _ _ given => given.1) fun _ _ _ _ known => known

/-- The first pass complains, whatever the second does. -/
theorem rejected {Q : β → Sight} (loc : Location) (kind : CompileErrorKind) :
    Tracks inFunction P (Resolver.report loc kind) G Q := by
  have some (r : Resolver) : ((Resolver.report loc kind).run r).2.errors ≠ [] :=
    List.append_ne_nil_of_right_ne_nil _ (List.cons_ne_nil _ _)
  refine ⟨(Paired.rejected (P := nothing) (Q := fun _ => nothing) loc kind).together, ?_, ?_⟩
  · exact fun passage => absurd passage.clean (some _)
  · exact fun passage => absurd passage.clean (some _)

/-- The first pass complains and goes on. -/
theorem rejecting {P' : Sight} {G' : Gen γ} {Q : β → Sight} {Q' : γ → Sight} (loc : Location)
    (kind : CompileErrorKind) (others : Tracks inFunction P' R' G' Q') :
    Tracks inFunction P (Resolver.report loc kind >>= fun _ => R') G Q := by
  have first : Tracks inFunction anywhere (Resolver.report loc kind) (Pure.pure ())
      fun _ => anywhere :=
    rejected loc kind
  have never (r : Resolver) (ready : r.Ready inFunction)
      (clean : ((Resolver.report loc kind >>= fun _ => R').run r).2.errors = []) : False := by
    obtain ⟨step, _⟩ := first.together r ready
    have before := (others.together _ (step.ready ready)).1.errors clean
    exact List.append_ne_nil_of_right_ne_nil _ (List.cons_ne_nil _ _) before
  refine ⟨fun r ready => ?_, ?_, ?_⟩
  · obtain ⟨step, _⟩ := first.together r ready
    exact ⟨step.trans (others.together _ (step.ready ready)).1,
      fun clean => (never r ready clean).elim⟩
  · exact fun passage => (never _ passage.ready passage.clean).elim
  · exact fun passage => (never _ passage.ready passage.clean).elim

/-! ### Links -/

theorem addConstant (c : Constant) :
    Tracks inFunction P (Pure.pure ()) (Generator.addConstant c) fun _ => anywhere where
  together := .linking (fun _ => rfl) (fun _ => rfl) fun _ => ⟨.push _ _, .refl _, id⟩
  result _ _ := trivial
  made _ _ _ _ member := .inl member

theorem addFunction (f : Linked.Function) :
    Tracks inFunction P (Pure.pure ()) (Generator.addFunction f) fun _ => anywhere where
  together := .linking (fun _ => rfl) (fun _ => rfl) fun _ => ⟨.refl _, .push _ _, id⟩
  result _ _ := trivial
  made _ _ _ _ member := .inl member

theorem nameConstant (name : String) :
    Tracks inFunction P (Pure.pure ()) (Generator.nameConstant name) fun n _ _ => n.name = name :=
  (still (.nameConstant name) fun _ => rfl).imp (fun _ _ given => given)
    fun _ _ _ _ known => known.1

theorem nameConstants (names : List String) : Tracks inFunction P (Pure.pure ())
    (Generator.nameConstants names) fun found _ _ => found.map (·.name) = names := by
  induction names generalizing P with
  | nil => exact pure fun _ _ _ => rfl
  | cons name rest ih =>
      refine linking (nameConstant name) fun first => map ih fun others ctx here given found => ?_
      rw [List.map_cons, given.2, found]

theorem basePaths (paths : List String) : Tracks inFunction P (Pure.pure ())
    (Generator.basePaths paths) fun found _ _ =>
      found.map BasePath.names = paths.map (Text.pieces '.') := by
  induction paths generalizing P with
  | nil => exact pure fun _ _ _ => rfl
  | cons path rest ih =>
      refine linking (nameConstants _) fun first => map ih fun others ctx here given found => ?_
      rw [List.map_cons, List.map_cons, found]
      exact congrArg (· :: _) given.2

theorem get : Tracks inFunction P (Pure.pure ()) (MonadState.get : Gen Generator) fun g ctx here =>
    g.scopes.current = here ∧ ∀ name, g.scopes.lookup name = ctx.scopes.lookupFrom here name where
  together := .linking (fun _ => rfl) (fun _ => rfl) .refl
  result {ctx r g} passage _ := by
    refine ⟨passage.inStep.current, fun name => ?_⟩
    rw [← passage.inStep.current]
    exact passage.inStep.again.lookup name
  made _ _ _ _ member := .inl member

theorem refOf (name : String) : Tracks inFunction P (Pure.pure ()) (Generator.refOf name)
    fun ref ctx here => ref.slot? = ctx.scopes.slotOf? here name := by
  refine linking get fun g => ?_
  split
  · next index _ found =>
    refine pure fun ctx here given => ?_
    rw [ScopeTable.slotOf?, ← given.2.2 name, found]
    rfl
  · next other =>
    refine map (nameConstant name) fun n ctx here given _ => ?_
    rw [ScopeTable.slotOf?, ← given.2.2 name]
    split
    · next index found => exact absurd found (other _ _)
    · rfl

theorem bindingRef (binding : Option String) : Tracks inFunction P (Pure.pure ())
    (Generator.bindingRef binding) fun found ctx here =>
      found.map Prod.fst = binding ∧ ∀ b ∈ found, b.2.slot? = ctx.scopes.slotOf? here b.1 := by
  cases binding with
  | none => exact pure fun _ _ _ => ⟨rfl, fun _ absent => nomatch absent⟩
  | some name =>
      refine map (refOf name) fun ref ctx here _ kept => ⟨rfl, ?_⟩
      rintro _ ⟨⟩
      exact kept

/-! ### Scopes -/

/-- A part of the unit, other than a function, with a scope of its own. -/
theorem scope {owner : ScopeOwner} {isBoundary : Bool} {Q S : β → Sight}
    (inner : Tracks true anywhere R G Q) (plain : ∀ decl, owner ≠ .function decl)
    (hung : isBoundary = !inFunction)
    (known : ∀ b ctx here inside, P ctx here → ctx.Opens owner isBoundary here inside →
      Q b ctx inside → S b ctx here) :
    Tracks inFunction P
      (Resolver.beginScope owner isBoundary >>= fun _ => R >>= fun _ => Resolver.endScope)
      (Generator.enterScope owner >>= fun _ => G >>= fun b => Generator.exitScope >>= fun _ =>
        Pure.pure b) S where
  together := inner.together.scope owner hung
  result passage given := by
    obtain ⟨through, opens⟩ := passage.inner hung inner.together fun _ g => .refl g
    exact known _ _ _ _ given opens (inner.result through trivial)
  made passage given decl scope member := by
    obtain ⟨through, opens⟩ := passage.inner hung inner.together fun _ g => .refl g
    rcases inner.made through trivial member with old | new
    · rcases Array.mem_push.1 old with old | this
      · exact .inl old
      · exact absurd (Prod.mk.inj this).1.symm (plain decl)
    · exact .inr new

/-- A function becomes a method. -/
theorem method {G : Gen Linked.Function} {decl : FuncDecl} {isBoundary : Bool}
    {bases : Option (List String)}
    (inner : Tracks true anywhere R G fun f ctx here => f.scope = here ∧ f.MadeFrom ctx bases decl)
    (hung : isBoundary = !inFunction) :
    Tracks inFunction (fun ctx _ => ctx.Chains bases decl)
      (Resolver.beginScope (.function decl) isBoundary >>= fun _ => R >>= fun _ =>
        Resolver.endScope)
      (Generator.enterScope (.function decl) >>= fun _ => G >>= fun f => Generator.exitScope >>=
        fun _ => Generator.addFunction f)
      (fun k ctx here => ctx.Becomes here decl k isBoundary) where
  together := by
    have whole := (inner.together.scope (.function decl) hung).bind
      fun f => (addFunction (P := anywhere) f).together
    exact whole
  result {ctx r g} passage _ := by
    obtain ⟨through, opens⟩ := passage.inner hung inner.together fun _ g => ⟨.refl _, .push _ _, id⟩
    obtain ⟨scope, _⟩ := inner.result through trivial
    exact ⟨_, passage.complete.functions _ _ Array.getElem?_push_size, scope ▸ opens⟩
  made {ctx r g} passage given decl' scope member := by
    obtain ⟨through, opens⟩ := passage.inner hung inner.together fun _ g => ⟨.refl _, .push _ _, id⟩
    obtain ⟨place, from_⟩ := inner.result through trivial
    rcases inner.made through trivial member with old | new
    · rcases Array.mem_push.1 old with old | this
      · exact .inl old
      · obtain ⟨same, rfl⟩ := Prod.mk.inj this
        cases same
        have added := passage.complete.functions _ _ Array.getElem?_push_size
        exact .inr ⟨bases, _, _, added, place, from_, given⟩
    · exact .inr new

/-- A function that is no constructor has no bases. -/
theorem unchained {Q : β → Sight} {decl : FuncDecl}
    (first : Tracks inFunction (fun ctx _ => ctx.Chains none decl) R G Q) :
    Tracks inFunction anywhere R G Q :=
  first.imp (fun _ _ _ _ absent => nomatch absent) fun _ _ _ _ known => known

end Tracks

end ScriptMachine
