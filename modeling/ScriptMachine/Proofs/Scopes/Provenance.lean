import ScriptMachine.Proofs.Scopes.Tracking

/-!
What methods were made from. Every function that a unit declares becomes a method whose linked
body is the declared one, with every name tied to the slot that the finished scope tree gives it:
one case for every form of expression, statement and declaration.
-/

namespace ScriptMachine

open Linked (sourceExprs sourceKeywords sourcePairs sourceOption sourceStmts sourceCases)

namespace Provenance

/-- The linked expression was made from this one, and its names are bound. -/
def MadeExpr (bases : Option (List String)) (e : Expr) (l : Linked.Expr) : Sight :=
  fun ctx here => l.source = e ∧ l.Bound ctx bases here

mutual

/-- What comes out for an expression was made of it, and refers to what is nearest. The induction is
on the expression. -/
theorem expr {place : Place} {inFunction : Bool} (inside : place.inFunction = inFunction) :
    (e : Expr) → Tracks inFunction anywhere (Resolver.expr inFunction e) (Generator.expr place e)
      (MadeExpr place.bases e)
  | .null _ => .pure fun _ _ _ => ⟨rfl, trivial⟩
  | .bool _ _ => .pure fun _ _ _ => ⟨rfl, trivial⟩
  | .int _ _ => .map (.addConstant _) fun _ _ _ _ _ => ⟨rfl, trivial⟩
  | .float _ _ => .map (.addConstant _) fun _ _ _ _ _ => ⟨rfl, trivial⟩
  | .str _ _ => .map (.nameConstant _) fun _ _ _ _ named => ⟨congrArg _ named, trivial⟩
  | .name _ _ => .map (.refOf _) fun _ _ _ _ kept => ⟨rfl, kept⟩
  | .self _ => .pure fun _ _ _ => ⟨rfl, trivial⟩
  | .attr _ object _ => by
      refine .followed (expr inside object) fun _ => .map (.nameConstant _) ?_
      rintro _ ctx here ⟨_, rfl, bound⟩ rfl
      exact ⟨rfl, bound⟩
  | .index _ object index => by
      refine .bind (expr inside object) fun _ => .map (expr inside index) ?_
      rintro _ ctx here ⟨_, rfl, bound⟩ ⟨rfl, bound'⟩
      exact ⟨rfl, bound, bound'⟩
  | .call _ callee args keywords => by
      refine .bind (exprs inside args) fun _ => .bind (namedExprs inside keywords) fun _ =>
        .map (expr inside callee) ?_
      rintro _ ctx here ⟨⟨_, rfl, first⟩, rfl, second⟩ ⟨rfl, third⟩
      exact ⟨rfl, first, second, third⟩
  | .superCall loc args => by
      refine .followed (exprs inside args) fun _ => ?_
      split
      · next base _ chained =>
        refine .map (.nameConstants _) ?_
        rintro path ctx here ⟨_, rfl, bound⟩ named
        refine ⟨rfl, bound, ?_⟩
        rintro _ ⟨⟩
        exact ⟨base, by rw [chained]; rfl, named⟩
      · refine .map (.still (.report _ _) fun _ => rfl) ?_
        rintro _ ctx here ⟨_, rfl, bound⟩ _
        exact ⟨rfl, bound, nofun⟩
  | .binary _ _ left right => by
      refine .bind (expr inside left) fun _ => .map (expr inside right) ?_
      rintro _ ctx here ⟨_, rfl, bound⟩ ⟨rfl, bound'⟩
      exact ⟨rfl, bound, bound'⟩
  | .unary _ _ operand => by
      refine .map (expr inside operand) ?_
      rintro _ ctx here _ ⟨rfl, bound⟩
      exact ⟨rfl, bound⟩
  | .assign _ object none value => by
      refine .bind (expr inside value) fun _ => .map (target inside object) ?_
      rintro _ ctx here ⟨_, rfl, bound⟩ ⟨rfl, bound'⟩
      exact ⟨rfl, bound, bound'⟩
  | .assign _ object (some _) value => by
      refine .bind (oldValue inside object) fun _ => .bind (expr inside value) fun _ =>
        .map (target inside object) ?_
      rintro _ ctx here ⟨⟨_, same, first⟩, rfl, second⟩ ⟨rfl, third⟩
      exact ⟨rfl, same, first, second, third⟩
  | .list _ items => by
      refine .map (exprs inside items) ?_
      rintro _ ctx here _ ⟨rfl, bound⟩
      exact ⟨rfl, bound⟩
  | .tuple _ items => by
      refine .map (exprs inside items) ?_
      rintro _ ctx here _ ⟨rfl, bound⟩
      exact ⟨rfl, bound⟩
  | .hash _ pairs => by
      refine .map (exprPairs inside pairs) ?_
      rintro _ ctx here _ ⟨rfl, bound⟩
      exact ⟨rfl, bound⟩
  | .lambda _ decl => by
      refine .followed ((function _ _ none rfl decl).unchained) fun _ => .map (.addConstant _) ?_
      rintro _ ctx here ⟨_, became⟩ _
      exact ⟨rfl, inside ▸ became⟩
  | .isType _ value type => by
      refine .bind (expr inside value) fun _ => .map (expr inside type) ?_
      rintro _ ctx here ⟨_, rfl, bound⟩ ⟨rfl, bound'⟩
      exact ⟨rfl, bound, bound'⟩
  | .asType _ value type => by
      refine .bind (expr inside value) fun _ => .map (expr inside type) ?_
      rintro _ ctx here ⟨_, rfl, bound⟩ ⟨rfl, bound'⟩
      exact ⟨rfl, bound, bound'⟩
  | .coalesce _ left right => by
      refine .bind (expr inside left) fun _ => .map (expr inside right) ?_
      rintro _ ctx here ⟨_, rfl, bound⟩ ⟨rfl, bound'⟩
      exact ⟨rfl, bound, bound'⟩
  | .ternary _ condition thenValue elseValue => by
      refine .bind (expr inside condition) fun _ => .bind (expr inside thenValue) fun _ =>
        .map (expr inside elseValue) ?_
      rintro _ ctx here ⟨⟨_, rfl, first⟩, rfl, second⟩ ⟨rfl, third⟩
      exact ⟨rfl, first, second, third⟩

theorem target {place : Place} {inFunction : Bool} (inside : place.inFunction = inFunction) :
    (e : Expr) → Tracks inFunction anywhere (Resolver.target inFunction e)
      (Generator.target place e)
      (fun t ctx here => t.source = e ∧ t.Bound ctx place.bases here)
  | .name _ ident =>
      .declaring (Resolver.declares_declareIfNew ident) <|
        .map (.refOf _) fun _ _ _ _ kept => ⟨rfl, kept⟩
  | .attr _ object _ => by
      refine .followed (expr inside object) fun _ => .map (.nameConstant _) ?_
      rintro _ ctx here ⟨_, rfl, bound⟩ rfl
      exact ⟨rfl, bound⟩
  | .index _ object index => by
      refine .bind (expr inside object) fun _ => .map (expr inside index) ?_
      rintro _ ctx here ⟨_, rfl, bound⟩ ⟨rfl, bound'⟩
      exact ⟨rfl, bound, bound'⟩
  | .null _ | .bool _ _ | .int _ _ | .float _ _ | .str _ _ | .self _ | .call _ _ _ _
  | .superCall _ _ | .binary _ _ _ _ | .unary _ _ _ | .assign _ _ _ _ | .list _ _ | .tuple _ _
  | .hash _ _ | .lambda _ _ | .isType _ _ _ | .asType _ _ _ | .coalesce _ _ _
  | .ternary _ _ _ _ => .rejected _ _

/-- The first pass visits the target of `target op= value` twice; the second reads its value
first. -/
theorem oldValue {place : Place} {inFunction : Bool} (inside : place.inFunction = inFunction) :
    (e : Expr) → Tracks inFunction anywhere (Resolver.target inFunction e) (Generator.expr place e)
      (MadeExpr place.bases e)
  | .name _ ident =>
      .declaring (Resolver.declares_declareIfNew ident) <|
        .map (.refOf _) fun _ _ _ _ kept => ⟨rfl, kept⟩
  | .attr _ object _ => by
      refine .followed (expr inside object) fun _ => .map (.nameConstant _) ?_
      rintro _ ctx here ⟨_, rfl, bound⟩ rfl
      exact ⟨rfl, bound⟩
  | .index _ object index => by
      refine .bind (expr inside object) fun _ => .map (expr inside index) ?_
      rintro _ ctx here ⟨_, rfl, bound⟩ ⟨rfl, bound'⟩
      exact ⟨rfl, bound, bound'⟩
  | .null _ | .bool _ _ | .int _ _ | .float _ _ | .str _ _ | .self _ | .call _ _ _ _
  | .superCall _ _ | .binary _ _ _ _ | .unary _ _ _ | .assign _ _ _ _ | .list _ _ | .tuple _ _
  | .hash _ _ | .lambda _ _ | .isType _ _ _ | .asType _ _ _ | .coalesce _ _ _
  | .ternary _ _ _ _ => .rejected _ _

theorem exprs {place : Place} {inFunction : Bool} (inside : place.inFunction = inFunction) :
    (items : List Expr) → Tracks inFunction anywhere (Resolver.exprs inFunction items)
      (Generator.exprs place items)
      (fun l ctx here => sourceExprs l = items ∧ Linked.BoundExprs ctx place.bases here l)
  | [] => .pure fun _ _ _ => ⟨rfl, trivial⟩
  | e :: rest => by
      refine .bind (expr inside e) fun _ => .map (exprs inside rest) ?_
      rintro _ ctx here ⟨_, rfl, bound⟩ ⟨rfl, bound'⟩
      exact ⟨rfl, bound, bound'⟩

theorem optionalExpr {place : Place} {inFunction : Bool} (inside : place.inFunction = inFunction) :
    (e : Option Expr) → Tracks inFunction anywhere (Resolver.optionalExpr inFunction e)
      (Generator.optionalExpr place e)
      (fun l ctx here => l.map Linked.Expr.source = e ∧ ∀ e ∈ l, e.Bound ctx place.bases here)
  | none => .pure fun _ _ _ => ⟨rfl, fun _ absent => nomatch absent⟩
  | some e => by
      refine .map (expr inside e) ?_
      rintro _ ctx here _ ⟨rfl, bound⟩
      refine ⟨rfl, ?_⟩
      rintro _ ⟨⟩
      exact bound

theorem namedExprs {place : Place} {inFunction : Bool} (inside : place.inFunction = inFunction) :
    (items : List (String × Expr)) → Tracks inFunction anywhere
      (Resolver.namedExprs inFunction items) (Generator.namedExprs place items)
      (fun l ctx here => sourceKeywords l = items ∧ Linked.BoundKeywords ctx place.bases here l)
  | [] => .pure fun _ _ _ => ⟨rfl, trivial⟩
  | (name, e) :: rest => by
      refine .linking (.nameConstant name) fun _ => .bind (expr inside e) fun _ =>
        .map (namedExprs inside rest) ?_
      rintro _ ctx here ⟨⟨_, rfl⟩, rfl, bound⟩ ⟨rfl, bound'⟩
      exact ⟨rfl, bound, bound'⟩

theorem exprPairs {place : Place} {inFunction : Bool} (inside : place.inFunction = inFunction) :
    (items : List (Expr × Expr)) → Tracks inFunction anywhere
      (Resolver.exprPairs inFunction items) (Generator.exprPairs place items)
      (fun l ctx here => sourcePairs l = items ∧ Linked.BoundPairs ctx place.bases here l)
  | [] => .pure fun _ _ _ => ⟨rfl, trivial⟩
  | (k, v) :: rest => by
      refine .bind (expr inside k) fun _ => .bind (expr inside v) fun _ =>
        .map (exprPairs inside rest) ?_
      rintro _ ctx here ⟨⟨_, rfl, first⟩, rfl, second⟩ ⟨rfl, third⟩
      exact ⟨rfl, first, second, third⟩

/-- A function has its parameters in its own scope, and calls the bases if it is a constructor. -/
theorem function {inFunction isBoundary : Bool} (name : String) (isInstanceMethod : Bool)
    (bases : Option (List String)) (hung : isBoundary = !inFunction) : (decl : FuncDecl) →
    Tracks inFunction (fun ctx _ => ctx.Chains bases decl) (Resolver.function isBoundary decl)
      (Generator.function name isInstanceMethod bases decl)
      (fun k ctx here => ctx.Becomes here decl k isBoundary)
  | .mk sig body => by
      have inside : Tracks true anywhere
          (Resolver.parameters sig.loc [] sig.parameterNames >>= fun _ => Resolver.stmts body)
          (do
            let scope := (← MonadState.get).scopes.current
            let parameters ← Generator.parameterSlots sig.parameterNames
            let chained ← Generator.basePaths
              (if Generator.startsWithSuperCall body then [] else bases.getD [])
            let body ← Generator.stmts { inFunction := true, bases } body
            let localCount := (← MonadState.get).scopes.localCount
            Pure.pure ({
              loc := sig.loc, name, isInstanceMethod, parameters, arity := sig.params.length
              localCount, variadic := sig.varargs.isSome, acceptsKeywords := sig.kwargs.isSome
              scope, body := .statements chained body } : Linked.Function))
          fun f ctx here => f.scope = here ∧ f.MadeFrom ctx bases (.mk sig body) := by
        refine .linking .get fun g => .bind (.still (.parameters sig.loc sig.parameterNames)
          fun r => (Resolver.declares_parameters sig.loc _ [] r).opened) fun _ => ?_
        refine .linking (.basePaths _) fun chained => ?_
        refine .followed (@stmts { inFunction := true, bases } rfl body) fun linked => ?_
        refine .linking .get fun g' => .pure ?_
        rintro ctx here ⟨⟨⟨⟨⟨_, rfl, _⟩, _⟩, named⟩, rfl, bound⟩, _⟩
        exact ⟨rfl, rfl, chained, linked, rfl, rfl, bound, named⟩
      exact .method inside hung

/-- What comes out for a statement was made of it. The induction is on the statement. -/
theorem stmt {place : Place} (inside : place.inFunction = true) : (s : Stmt) →
    Tracks true anywhere (Resolver.stmt s) (Generator.stmt place s)
      (fun l ctx here => l.source = s ∧ l.Bound ctx place.bases here)
  | .expr _ value => by
      refine .map (expr inside value) ?_
      rintro _ ctx here _ ⟨rfl, bound⟩
      exact ⟨rfl, bound⟩
  | .block loc body => by
      have inner : Tracks true anywhere (Resolver.stmts body)
          (Generator.stmts place body >>= fun l => Pure.pure (Linked.Stmt.block loc l))
          (fun l ctx here => ∀ outer, ctx.Opens (.stmt (.block loc body)) false outer here →
            l.source = .block loc body ∧ l.Bound ctx place.bases outer) := by
        refine .map (stmts inside body) ?_
        rintro _ ctx here _ ⟨rfl, bound⟩ outer opens
        exact ⟨rfl, here, opens, bound⟩
      exact .scope inner nofun rfl fun _ _ here _ _ opens made => made here opens
  | .ifElse _ condition body orelse => by
      refine .bind (expr inside condition) fun _ => .bind (stmt inside body) fun _ =>
        .map (optionalStmt inside orelse) ?_
      rintro _ ctx here ⟨⟨_, rfl, first⟩, rfl, second⟩ ⟨rfl, third⟩
      exact ⟨rfl, first, second, third⟩
  | .whileLoop _ condition body => by
      refine .bind (expr inside condition) fun _ =>
        .map (@stmt { place with inLoop := true } inside body) ?_
      rintro _ ctx here ⟨_, rfl, bound⟩ ⟨rfl, bound'⟩
      exact ⟨rfl, bound, bound'⟩
  | .doWhile _ body condition => by
      refine .bind (@stmt { place with inLoop := true } inside body) fun _ =>
        .map (expr inside condition) ?_
      rintro _ ctx here ⟨_, rfl, bound⟩ ⟨rfl, bound'⟩
      exact ⟨rfl, bound, bound'⟩
  | .forLoop loc first condition step body => by
      have inner : Tracks true anywhere (do
            Resolver.optionalStmt first
            Resolver.optionalExpr true condition
            Resolver.stmt body
            Resolver.optionalExpr true step)
          (do
            let first ← Generator.optionalStmt place first
            let condition ← Generator.optionalExpr place condition
            let body ← Generator.stmt { place with inLoop := true } body
            let step ← Generator.optionalExpr place step
            Pure.pure (Linked.Stmt.forLoop loc first condition step body))
          (fun l ctx here => ∀ outer,
            ctx.Opens (.stmt (.forLoop loc first condition step body)) false outer here →
            l.source = .forLoop loc first condition step body ∧ l.Bound ctx place.bases outer) := by
        refine .bind (optionalStmt inside first) fun _ =>
          .bind (optionalExpr inside condition) fun _ =>
            .bind (@stmt { place with inLoop := true } inside body) fun _ =>
              .map (optionalExpr inside step) ?_
        rintro _ ctx here ⟨⟨⟨_, rfl, one⟩, rfl, two⟩, rfl, three⟩ ⟨rfl, four⟩ outer opens
        exact ⟨rfl, here, opens, one, two, three, four⟩
      exact .scope inner nofun rfl fun _ _ here _ _ opens made => made here opens
  | .foreach loc item source body => by
      refine .bind (expr inside source) fun iterable => ?_
      have inner : Tracks true anywhere
          (Resolver.declare item >>= fun _ => Resolver.stmt body)
          (do
            let ref ← Generator.refOf item
            let body ← Generator.stmt { place with inLoop := true } body
            Pure.pure (Linked.Stmt.foreach loc item ref iterable body))
          (fun l ctx here => ∀ outer,
            ctx.Opens (.stmt (.foreach loc item source body)) false outer here →
            MadeExpr place.bases source iterable ctx outer →
            l.source = .foreach loc item source body ∧ l.Bound ctx place.bases outer) := by
        refine .declaring (Resolver.declares_declare item) <|
          .linking (.refOf item) fun _ => .map (@stmt { place with inLoop := true } inside body) ?_
        rintro _ ctx here ⟨_, kept⟩ ⟨rfl, bound⟩ outer opens ⟨rfl, first⟩
        exact ⟨rfl, first, here, opens, kept, bound⟩
      exact .scope inner nofun rfl fun _ _ here _ given opens made => made here opens given.2
  | .given _ value cases otherwise => by
      refine .bind (expr inside value) fun _ => .bind (whenCases inside cases) fun _ =>
        .map (optionalStmt inside otherwise) ?_
      rintro _ ctx here ⟨⟨_, rfl, first⟩, rfl, second⟩ ⟨rfl, third⟩
      exact ⟨rfl, first, second, third⟩
  | .breakLoop _ => .map (.still (.checkLoop _ _ _) fun _ => rfl) fun _ _ _ _ _ => ⟨rfl, trivial⟩
  | .continueLoop _ => .map (.still (.checkLoop _ _ _) fun _ => rfl) fun _ _ _ _ _ => ⟨rfl, trivial⟩
  | .ret _ value => by
      refine .map (optionalExpr inside value) ?_
      rintro _ ctx here _ ⟨rfl, bound⟩
      exact ⟨rfl, bound⟩
  | .raise _ value => by
      refine .map (expr inside value) ?_
      rintro _ ctx here _ ⟨rfl, bound⟩
      exact ⟨rfl, bound⟩
  | .tryExcept loc body binding types handler => by
      refine .bind (stmt inside body) fun guarded => ?_
      have declared : ∀ r : Resolver, r.Declares ((binding.forM Resolver.declare).run r).2 := by
        intro r
        cases binding with
        | none => exact .refl r
        | some name => exact Resolver.declares_declare name r
      have inner : Tracks true anywhere (do
            binding.forM Resolver.declare
            Resolver.exprs true types
            Resolver.stmt handler)
          (do
            let types ← Generator.exprs place types
            let binding ← Generator.bindingRef binding
            let handler ← Generator.stmt place handler
            Pure.pure (Linked.Stmt.tryExcept loc guarded binding types handler))
          (fun l ctx here => ∀ outer,
            ctx.Opens (.stmt (.tryExcept loc body binding types handler)) false outer here →
            guarded.source = body ∧ guarded.Bound ctx place.bases outer →
            l.source = .tryExcept loc body binding types handler ∧
              l.Bound ctx place.bases outer) := by
        refine .declaring declared <| .bind (exprs inside types) fun _ =>
          .linking (.bindingRef binding) fun _ => .map (stmt inside handler) ?_
        rintro _ ctx here ⟨⟨_, rfl, one⟩, rfl, two⟩ ⟨rfl, three⟩ outer opens ⟨rfl, first⟩
        exact ⟨rfl, first, here, opens, one, two, three⟩
      exact .scope inner nofun rfl fun _ _ here _ given opens made => made here opens given.2
  | .function _ decl => by
      refine .declaring (Resolver.declares_declare _) ?_
      refine .followed ((function _ _ none rfl decl).unchained) fun _ =>
        .linking (.addConstant _) fun _ => .map (.refOf _) ?_
      rintro ref ctx here ⟨⟨_, became⟩, _⟩ kept
      exact ⟨rfl, became, kept⟩
  | .classDef _ _ | .enumDef _ _ | .interfaceDef _ _ | .use _ _ => .rejected _ _

theorem optionalStmt {place : Place} (inside : place.inFunction = true) : (s : Option Stmt) →
    Tracks true anywhere (Resolver.optionalStmt s) (Generator.optionalStmt place s)
      (fun l ctx here => sourceOption l = s ∧ Linked.BoundOption ctx place.bases here l)
  | none => .pure fun _ _ _ => ⟨rfl, trivial⟩
  | some s => by
      refine .map (stmt inside s) ?_
      rintro _ ctx here _ ⟨rfl, bound⟩
      exact ⟨rfl, bound⟩

theorem stmts {place : Place} (inside : place.inFunction = true) : (body : List Stmt) →
    Tracks true anywhere (Resolver.stmts body) (Generator.stmts place body)
      (fun l ctx here => sourceStmts l = body ∧ Linked.BoundStmts ctx place.bases here l)
  | [] => .pure fun _ _ _ => ⟨rfl, trivial⟩
  | s :: rest => by
      refine .bind (stmt inside s) fun _ => .map (stmts inside rest) ?_
      rintro _ ctx here ⟨_, rfl, bound⟩ ⟨rfl, bound'⟩
      exact ⟨rfl, bound, bound'⟩

/-- Cases come out in the order in which they went in. -/
theorem whenCases {place : Place} (inside : place.inFunction = true) :
    (cases : List (List Expr × Stmt)) →
    Tracks true anywhere (Resolver.whenCases cases) (Generator.whenCases place cases)
      (fun l ctx here => sourceCases l = cases ∧ Linked.BoundCases ctx place.bases here l)
  | [] => .pure fun _ _ _ => ⟨rfl, trivial⟩
  | (values, body) :: rest => by
      refine .bind (exprs inside values) fun _ => .bind (stmt inside body) fun _ =>
        .map (whenCases inside rest) ?_
      rintro _ ctx here ⟨⟨_, rfl, first⟩, rfl, second⟩ ⟨rfl, third⟩
      exact ⟨rfl, first, second, third⟩

end

/-! ## Declarations -/

/-- The field values of the class have a scope. -/
def HasFields (decl : ClassDecl) : Sight :=
  fun ctx _ => ∃ scope, (.fields decl, scope) ∈ ctx.opened

theorem constructorDef (outer : Location) (decl : ClassDecl) : Tracks false (HasFields decl)
    (Resolver.constructor decl) (Generator.constructorDef outer decl) fun _ => anywhere := by
  obtain ⟨loc, name, bases, ctor, members⟩ := decl
  cases ctor with
  | some decl =>
      refine (function name true (some bases) rfl decl).imp ?_ fun _ _ _ _ _ => trivial
      rintro ctx here ⟨scope, logged⟩ _ ⟨⟩
      exact ⟨loc, name, members, scope, logged⟩
  | none =>
      refine ⟨(Passes.constructorDef outer _).together, fun _ _ => trivial, ?_⟩
      intro ctx r g _ _ decl scope member
      rcases Array.mem_push.1 member with old | this
      · exact .inl old
      · cases (Prod.mk.inj this).1

theorem fieldValues (seen : List String) : (members : List Stmt) → Tracks true anywhere
    (Resolver.fields members) (Generator.fieldValues seen members) fun _ => anywhere
  | [] => .pure fun _ _ _ => trivial
  | member :: rest => by
      cases member with
      | expr loc e =>
          cases e with
          | assign loc object op value =>
              cases object with
              | name loc' ident =>
                  cases op with
                  | some op => exact .rejecting _ _ (fieldValues seen rest)
                  | none =>
                      have linked : Tracks true anywhere
                          (Resolver.expr true value >>= fun _ => Resolver.fields rest)
                          (do
                            let value ← Generator.expr { inFunction := true } value
                            let ident ← Generator.nameConstant ident
                            let found ← Generator.fieldValues (seen ++ [ident.name]) rest
                            Pure.pure ((⟨loc, ident, value⟩ : Linked.Field) :: found.1, found.2))
                          fun _ => anywhere := by
                        refine .bind (@expr { inFunction := true } true rfl value) fun _ => ?_
                        refine .linking (.nameConstant ident) fun _ => ?_
                        exact .map (fieldValues _ rest) fun _ _ _ _ _ => trivial
                      rw [Generator.fieldValues]
                      cases seen.contains ident with
                      | false => exact linked
                      | true =>
                          refine .linking (.still (.report _ _) fun _ => rfl) fun _ => ?_
                          exact linked.imp (fun _ _ _ => trivial) fun _ _ _ _ _ => trivial
              | _ => exact .rejecting _ _ (fieldValues seen rest)
          | _ => exact fieldValues seen rest
      | _ => exact fieldValues seen rest

/-- The method that sets the fields is made of the fields in order. -/
theorem fieldSetter (decl : ClassDecl) : Tracks false anywhere (Resolver.fieldScope decl)
    (Generator.fieldSetter decl) fun _ => HasFields decl := by
  have inner : Tracks true anywhere (Resolver.fields decl.members)
      (do
        let scope := (← MonadState.get).scopes.current
        let found ← Generator.fieldValues [] decl.members
        let localCount := (← MonadState.get).scopes.localCount
        Pure.pure (({
          loc := decl.loc, name := decl.name ++ ".<fields>", isInstanceMethod := true, localCount
          scope, body := .fields found.1 } : Linked.Function), found.2))
      (fun _ => anywhere) := by
    refine .linking .get fun g => .followed (fieldValues _ _) fun found => ?_
    exact .linking .get fun g' => .pure fun _ _ _ => trivial
  have bracketed : Tracks false anywhere
      (Resolver.beginScope (.fields decl) true >>= fun _ => _ >>= fun _ => Resolver.endScope) _
      fun _ => HasFields decl :=
    .scope inner nofun rfl fun _ _ _ inside _ opens _ => ⟨inside, opens.logged⟩
  have added : ∀ drafted : Linked.Function × List String,
      Tracks false (fun ctx here => anywhere ctx here ∧ HasFields decl ctx here) (Pure.pure ())
        (if drafted.2.isEmpty then Pure.pure (none, drafted.2)
        else do
          let index ← Generator.addFunction drafted.1
          Pure.pure (some index, drafted.2)) fun _ => HasFields decl := by
    intro drafted
    cases drafted.2.isEmpty with
    | true => exact .pure fun _ _ given => given.2
    | false => exact .map (.addFunction _) fun _ _ _ given _ => given.2
  have whole := Tracks.followed bracketed added
  exact whole

mutual

/-- A class comes out with its fields. -/
theorem classDef (outer : Location) : (decl : ClassDecl) → Tracks false anywhere
    (Resolver.classDef decl) (Generator.classDef outer decl) (fun _ => HasFields decl)
  | .mk loc name bases ctor members => by
      refine .foreseen (C := fun ctx => HasFields _ ctx 0) (constructorDef outer _) (fun _ => ?_)
        fun _ _ _ known => known
      refine .bind (fieldSetter _) fun setter => ?_
      refine .followed (classMembers outer { seen := setter.2 } members) fun _ => ?_
      refine ⟨.linking (fun _ => rfl) (fun _ => rfl) fun _ => ⟨.refl _, .refl _, id⟩, ?_, ?_⟩
      · exact fun _ given => given.1.2
      · exact fun _ _ _ _ member => .inl member

theorem classMembers (outer : Location) (tables : Generator.ClassTables) : (members : List Stmt) →
    Tracks false anywhere (Resolver.classMembers members)
      (Generator.classMembers outer tables members) (fun _ => anywhere)
  | [] => .pure fun _ _ _ => trivial
  | member :: rest => by
      cases member with
      | function _ decl =>
          refine .bind ((function _ _ none rfl decl).unchained) fun _ =>
            .linking (.still (Passes.insert _ _ _ _) fun _ => rfl) fun _ => ?_
          exact (classMembers outer _ rest).imp (fun _ _ _ => trivial) fun _ _ _ _ _ => trivial
      | classDef _ decl =>
          refine .bind (classDef outer decl) fun _ =>
            .linking (.still (Passes.insert _ _ _ _) fun _ => rfl) fun _ => ?_
          exact (classMembers outer _ rest).imp (fun _ _ _ => trivial) fun _ _ _ _ _ => trivial
      | enumDef _ decl =>
          refine .linking (.still (Passes.enumDef decl) fun _ => rfl) fun _ =>
            .linking (.still (Passes.insert _ _ _ _) fun _ => rfl) fun _ => ?_
          exact (classMembers outer _ rest).imp (fun _ _ _ => trivial) fun _ _ _ _ _ => trivial
      | expr loc e =>
          cases e with
          | assign => exact classMembers outer tables rest
          | _ => exact .rejecting _ _ (classMembers outer tables rest)
      | _ => exact .rejecting _ _ (classMembers outer tables rest)

end

mutual

theorem rootStmt : (s : Stmt) → Tracks false anywhere (Resolver.rootStmt s) (Generator.rootStmt s)
    fun _ => anywhere
  | .expr _ value => .map (@expr {} false rfl value) fun _ _ _ _ _ => trivial
  | .block _ body => .map (rootStmts body) fun _ _ _ _ _ => trivial
  | .function _ decl =>
      .declaring (Resolver.declares_declare _) <|
        .followed ((function _ _ none rfl decl).unchained) fun _ =>
          .map (.still (Passes.bindAttribute _ _ _) fun _ => rfl) fun _ _ _ _ _ => trivial
  | .classDef loc decl =>
      .declaring (Resolver.declares_declare _) <|
        .followed (classDef loc decl) fun _ =>
          .map (.still (Passes.bindAttribute _ _ _) fun _ => rfl) fun _ _ _ _ _ => trivial
  | .enumDef _ decl =>
      .declaring (Resolver.declares_declare _) <|
        .linking (.still (Passes.enumDef decl) fun _ => rfl) fun _ =>
          .map (.still (Passes.bindAttribute _ _ _) fun _ => rfl) fun _ _ _ _ _ => trivial
  | .interfaceDef _ decl =>
      .declaring (Resolver.declares_declare _) <|
        .linking (.still (Passes.interfaceDef decl) fun _ => rfl) fun _ =>
          .map (.still (Passes.bindAttribute _ _ _) fun _ => rfl) fun _ _ _ _ _ => trivial
  | .use _ decl => .map (.still (Passes.use decl) fun _ => rfl) fun _ _ _ _ _ => trivial
  | .ifElse _ _ _ _ | .whileLoop _ _ _ | .doWhile _ _ _ | .forLoop _ _ _ _ _ | .foreach _ _ _ _
  | .given _ _ _ _ | .breakLoop _ | .continueLoop _ | .ret _ _ | .raise _ _
  | .tryExcept _ _ _ _ _ => .rejected _ _

/-- The statements of a module come out in order. -/
theorem rootStmts : (unit : List Stmt) → Tracks false anywhere (Resolver.rootStmts unit)
    (Generator.rootStmts unit) fun _ => anywhere
  | [] => .pure fun _ _ _ => trivial
  | s :: rest => .bind (rootStmt s) fun _ => .map (rootStmts rest) fun _ _ _ _ _ => trivial

end

end Provenance

/-- In a unit of which the first pass has no complaints, every function that is declared becomes a
method. -/
theorem generate_makes {unit : List Stmt} (clean : (resolve unit).errors = []) (directory : String)
    {decl : FuncDecl} {scope : Nat} (declared : (.function decl, scope) ∈ (resolve unit).opened) :
    (contextOf (resolve unit) (generate directory (resolve unit).scopes unit).2).Makes decl
      scope := by
  have passage : Passage false (Resolver.rootStmts unit) (Generator.rootStmts unit)
      (contextOf (resolve unit) (generate directory (resolve unit).scopes unit).2) {}
      { scopes := (resolve unit).scopes.reset, directory } :=
    ⟨.start, clean, (resolve_advances unit).sound.tree, .refl _, .start _ directory,
      rfl, .refl _, .refl _, .refl _, nofun⟩
  rcases (Provenance.rootStmts unit).made passage trivial declared with none | made
  · cases Array.mem_toList_iff.2 none
  · exact made

end ScriptMachine
