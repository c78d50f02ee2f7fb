import ScriptMachine.Proofs.Scopes.Pairing

/-!
The two passes keep in step over every tree, and the linked trees of a unit fit the unit: one
case for every form of expression, statement and declaration.
-/

namespace ScriptMachine

open Linked (Context NameConst Ref BasePath)

namespace Passes

/-- The linked expression fits the unit and the slots of the current scope. -/
def Fitting (e : Linked.Expr) : Facts :=
  fun ctx accepted here => e.Valid ctx accepted (ctx.scopes.slotsOf here)

mutual

/-- Both passes open the same scopes for an expression, and the references in what comes out are
valid. The induction is on the expression. -/
theorem expr {place : Place} {inFunction : Bool} (inside : place.inFunction = inFunction) :
    (e : Expr) → Paired inFunction nothing
    (Resolver.expr inFunction e) (Generator.expr place e) Fitting
  | .null _ => .pure fun _ _ _ _ => trivial
  | .bool _ _ => .pure fun _ _ _ _ => trivial
  | .int _ _ => .map (.addConstant nofun) fun _ _ _ _ _ held => held
  | .float _ _ => .map (.addConstant nofun) fun _ _ _ _ _ held => held
  | .str _ _ => .map (.nameConstant _) fun _ _ _ _ _ named => named.2
  | .name _ _ => .map (.refOf _) fun _ _ _ _ _ kept => kept
  | .self _ => .pure fun _ _ _ _ => trivial
  | .attr _ object _ =>
      .followed (expr inside object) fun _ => .map (.nameConstant _) fun _ _ _ _ given named =>
        ⟨given.2, named.2⟩
  | .index _ object index =>
      .bind (expr inside object) fun _ => .map (expr inside index) fun _ _ _ _ given valid =>
        ⟨given.2, valid⟩
  | .call _ callee args keywords =>
      .bind (exprs inside args) fun _ => .bind (namedExprs inside keywords) fun _ =>
        .map (expr inside callee) fun _ _ _ _ given valid => ⟨given.1.2, given.2, valid⟩
  | .superCall loc args => by
      refine .followed (exprs inside args) fun _ => ?_
      split
      · refine .map (.basePath _) fun path ctx accepted here given valid => ⟨given.2, ?_, ?_⟩
        · rintro _ ⟨⟩
          exact valid
        · exact fun _ => Option.some_ne_none _
      · refine .map (.report _ _) fun _ ctx accepted here given rejected => ⟨given.2, ?_, ?_⟩
        · rintro _ ⟨⟩
        · rw [rejected]
          exact fun fine => Bool.noConfusion fine
  | .binary _ _ left right =>
      .bind (expr inside left) fun _ => .map (expr inside right) fun _ _ _ _ given valid =>
        ⟨given.2, valid⟩
  | .unary _ _ operand => .map (expr inside operand) fun _ _ _ _ _ valid => valid
  | .assign _ object none value =>
      .bind (expr inside value) fun _ => .map (target inside object) fun _ _ _ _ given valid =>
        ⟨given.2, valid⟩
  | .assign _ object (some _) value =>
      .bind (oldValue inside object) fun _ => .bind (expr inside value) fun _ =>
        .map (target inside object) fun _ _ _ _ given valid => ⟨given.1.2, given.2, valid⟩
  | .list _ items => .map (exprs inside items) fun _ _ _ _ _ valid => valid
  | .tuple _ items => .map (exprs inside items) fun _ _ _ _ _ valid => valid
  | .hash _ pairs => .map (exprPairs inside pairs) fun _ _ _ _ _ valid => valid
  | .lambda _ decl => by
      refine .followed (function _ _ none rfl decl) fun _ =>
        .linkingWith (.addMethod fun _ _ _ given => given.2.lt) fun _ => .pure ?_
      rintro ctx accepted here ⟨⟨_, f, found, logged, boundary, shared⟩, held⟩
      refine ⟨held, f, found, logged, ?_, fun closes => shared ?_⟩
      · rw [boundary, Bool.not_not, inside]
      · rw [← inside, closes]
        rfl
  | .isType _ value type =>
      .bind (expr inside value) fun _ => .map (expr inside type) fun _ _ _ _ given valid =>
        ⟨given.2, valid⟩
  | .asType _ value type =>
      .bind (expr inside value) fun _ => .map (expr inside type) fun _ _ _ _ given valid =>
        ⟨given.2, valid⟩
  | .coalesce _ left right =>
      .bind (expr inside left) fun _ => .map (expr inside right) fun _ _ _ _ given valid =>
        ⟨given.2, valid⟩
  | .ternary _ condition thenValue elseValue =>
      .bind (expr inside condition) fun _ => .bind (expr inside thenValue) fun _ =>
        .map (expr inside elseValue) fun _ _ _ _ given valid => ⟨given.1.2, given.2, valid⟩

/-- What cannot be assigned to is reported by the first pass, and then nothing more is asked of it. -/
theorem target {place : Place} {inFunction : Bool} (inside : place.inFunction = inFunction) :
    (e : Expr) → Paired inFunction nothing
    (Resolver.target inFunction e) (Generator.target place e)
    (fun t ctx accepted here => t.Valid ctx accepted (ctx.scopes.slotsOf here))
  | .name _ ident =>
      .declaring (.resolving (Resolver.declares_declareIfNew ident))
        (.map (.refOf _) fun _ _ _ _ _ kept => kept)
  | .attr _ object _ =>
      .followed (expr inside object) fun _ => .map (.nameConstant _) fun _ _ _ _ given named =>
        ⟨given.2, named.2⟩
  | .index _ object index =>
      .bind (expr inside object) fun _ => .map (expr inside index) fun _ _ _ _ given valid =>
        ⟨given.2, valid⟩
  | .null _ | .bool _ _ | .int _ _ | .float _ _ | .str _ _ | .self _ | .call _ _ _ _
  | .superCall _ _ | .binary _ _ _ _ | .unary _ _ _ | .assign _ _ _ _ | .list _ _ | .tuple _ _
  | .hash _ _ | .lambda _ _ | .isType _ _ _ | .asType _ _ _ | .coalesce _ _ _
  | .ternary _ _ _ _ => .rejected _ _

/-- The first pass visits the target of `target op= value` twice; the second reads its value
first. -/
theorem oldValue {place : Place} {inFunction : Bool} (inside : place.inFunction = inFunction) :
    (e : Expr) → Paired inFunction nothing
    (Resolver.target inFunction e) (Generator.expr place e) Fitting
  | .name _ ident =>
      .declaring (.resolving (Resolver.declares_declareIfNew ident))
        (.map (.refOf _) fun _ _ _ _ _ kept => kept)
  | .attr _ object _ =>
      .followed (expr inside object) fun _ => .map (.nameConstant _) fun _ _ _ _ given named =>
        ⟨given.2, named.2⟩
  | .index _ object index =>
      .bind (expr inside object) fun _ => .map (expr inside index) fun _ _ _ _ given valid =>
        ⟨given.2, valid⟩
  | .null _ | .bool _ _ | .int _ _ | .float _ _ | .str _ _ | .self _ | .call _ _ _ _
  | .superCall _ _ | .binary _ _ _ _ | .unary _ _ _ | .assign _ _ _ _ | .list _ _ | .tuple _ _
  | .hash _ _ | .lambda _ _ | .isType _ _ _ | .asType _ _ _ | .coalesce _ _ _
  | .ternary _ _ _ _ => .rejected _ _

theorem exprs {place : Place} {inFunction : Bool} (inside : place.inFunction = inFunction) :
    (items : List Expr) → Paired inFunction nothing
    (Resolver.exprs inFunction items) (Generator.exprs place items)
    (fun l ctx accepted here => Linked.ValidExprs ctx accepted (ctx.scopes.slotsOf here) l)
  | [] => .pure fun _ _ _ _ => trivial
  | e :: rest =>
      .bind (expr inside e) fun _ => .map (exprs inside rest) fun _ _ _ _ given valid =>
        ⟨given.2, valid⟩

theorem optionalExpr {place : Place} {inFunction : Bool} (inside : place.inFunction = inFunction) :
    (e : Option Expr) → Paired inFunction nothing (Resolver.optionalExpr inFunction e)
    (Generator.optionalExpr place e)
    (fun l ctx accepted here => ∀ e ∈ l, e.Valid ctx accepted (ctx.scopes.slotsOf here))
  | none => .pure fun _ _ _ _ _ absent => nomatch absent
  | some e => .map (expr inside e) fun _ _ _ _ _ valid => by
      rintro _ ⟨⟩
      exact valid

/-- The name of a keyword is a constant for the second pass and nothing to the first. -/
theorem namedExprs {place : Place} {inFunction : Bool} (inside : place.inFunction = inFunction) :
    (items : List (String × Expr)) → Paired inFunction nothing
    (Resolver.namedExprs inFunction items) (Generator.namedExprs place items)
    (fun l ctx accepted here => Linked.ValidKeywords ctx accepted (ctx.scopes.slotsOf here) l)
  | [] => .pure fun _ _ _ _ => trivial
  | (name, e) :: rest =>
      .linking (.nameConstant name) fun _ => .bind (expr inside e) fun _ =>
        .map (namedExprs inside rest) fun _ _ _ _ given valid => ⟨given.1.2.2, given.2, valid⟩

theorem exprPairs {place : Place} {inFunction : Bool} (inside : place.inFunction = inFunction) :
    (items : List (Expr × Expr)) → Paired inFunction nothing
    (Resolver.exprPairs inFunction items) (Generator.exprPairs place items)
    (fun l ctx accepted here => Linked.ValidPairs ctx accepted (ctx.scopes.slotsOf here) l)
  | [] => .pure fun _ _ _ _ => trivial
  | (k, v) :: rest =>
      .bind (expr inside k) fun _ => .bind (expr inside v) fun _ =>
        .map (exprPairs inside rest) fun _ _ _ _ given valid => ⟨given.1.2, given.2, valid⟩

/-- The scope of a function is opened with its parameters, before its body is looked at. -/
theorem function {inFunction isBoundary : Bool} (name : String) (isInstanceMethod : Bool)
    (bases : Option (List String)) (hung : isBoundary = !inFunction) : (decl : FuncDecl) →
    Paired inFunction nothing (Resolver.function isBoundary decl)
      (Generator.function name isInstanceMethod bases decl) (Paired.Became isBoundary (.function decl))
  | .mk sig body => by
      have inside : Paired true nothing
          (Resolver.parameters sig.loc [] sig.parameterNames >>= fun _ => Resolver.stmts body)
          (do
            let scope := (← MonadState.get).scopes.current
            let parameters ← Generator.parameterSlots sig.parameterNames
            let chained ← Generator.basePaths
              (if Generator.startsWithSuperCall body then [] else bases.getD [])
            let body ← Generator.stmts { inFunction := true, bases } body
            let localCount := (← MonadState.get).scopes.localCount
            Pure.pure ({
              loc := sig.loc, name, isInstanceMethod, parameters, arity := sig.params.length
              localCount, variadic := sig.varargs.isSome, acceptsKeywords := sig.kwargs.isSome
              scope, body := .statements chained body } : Linked.Function))
          (Paired.Drafted (.function (.mk sig body))) := by
        refine .linking .get fun g => .bind (.parameters sig.loc sig.parameterNames) fun seats => ?_
        refine .linking (.basePaths _) fun chained => ?_
        refine .followed (@stmts { inFunction := true, bases } rfl body) fun linked => ?_
        refine .linking .get fun g' => .pure fun ctx accepted here given => ?_
        obtain ⟨⟨⟨⟨⟨_, before⟩, names, distinct, handed⟩, named⟩, valid⟩, after⟩ := given
        have counted : g'.scopes.localCount = ctx.scopes.slotsOf here := after.slots rfl
        refine ⟨before.current, counted, ⟨named, ?_⟩, names, rfl, rfl, rfl, distinct, ?_⟩
        · show Linked.ValidStmts ctx accepted g'.scopes.localCount false linked
          rw [counted]
          exact valid
        · show ∀ p ∈ seats, p.2 < g'.scopes.localCount
          rw [counted]
          exact handed
      exact Paired.method (.function (.mk sig body)) hung inside

/-- Both passes go through a statement in the same order. The induction is on the statement. -/
theorem stmt {place : Place} (inside : place.inFunction = true) : (s : Stmt) →
    Paired true nothing (Resolver.stmt s) (Generator.stmt place s)
      (fun l ctx accepted here => l.Valid ctx accepted (ctx.scopes.slotsOf here) place.inLoop)
  | .expr _ value => .map (expr inside value) fun _ _ _ _ _ valid => valid
  | .block loc body => by
      have inner := Paired.map (P := nothing) (f := Linked.Stmt.block loc) (stmts inside body)
        (S := fun l ctx accepted here => l.Valid ctx accepted (ctx.scopes.slotsOf here) place.inLoop)
        fun _ _ _ _ _ valid => valid
      refine .scope (.stmt (.block loc body)) rfl inner
        fun _ ctx accepted here inner _ opens valid => ?_
      exact opens.shared rfl ▸ valid
  | .ifElse _ condition body orelse =>
      .bind (expr inside condition) fun _ => .bind (stmt inside body) fun _ =>
        .map (optionalStmt inside orelse) fun _ _ _ _ given valid => ⟨given.1.2, given.2, valid⟩
  | .whileLoop _ condition body =>
      .bind (expr inside condition) fun _ => .map (@stmt { place with inLoop := true } inside body)
        fun _ _ _ _ given valid => ⟨given.2, valid⟩
  | .doWhile _ body condition =>
      .bind (@stmt { place with inLoop := true } inside body) fun _ =>
        .map (expr inside condition) fun _ _ _ _ given valid => ⟨given.2, valid⟩
  | .forLoop loc first condition step body => by
      have inner : Paired true nothing (do
            Resolver.optionalStmt first
            Resolver.optionalExpr true condition
            Resolver.stmt body
            Resolver.optionalExpr true step)
          (do
            let first ← Generator.optionalStmt place first
            let condition ← Generator.optionalExpr place condition
            let body ← Generator.stmt { place with inLoop := true } body
            let step ← Generator.optionalExpr place step
            Pure.pure (Linked.Stmt.forLoop loc first condition step body))
          (fun l ctx accepted here => l.Valid ctx accepted (ctx.scopes.slotsOf here) place.inLoop) :=
        .bind (optionalStmt inside first) fun _ => .bind (optionalExpr inside condition) fun _ =>
          .bind (@stmt { place with inLoop := true } inside body) fun _ =>
            .map (optionalExpr inside step) fun _ _ _ _ given valid =>
              ⟨given.1.1.2, given.1.2, given.2, valid⟩
      refine Paired.scope (.stmt (.forLoop loc first condition step body)) rfl inner
        fun _ ctx accepted here inner _ opens valid => ?_
      exact opens.shared rfl ▸ valid
  | .foreach loc item source body => by
      refine .bind (expr inside source) fun iterable => ?_
      have inner : Paired true nothing
          (Resolver.declare item >>= fun _ => Resolver.stmt body)
          (do
            let ref ← Generator.refOf item
            let body ← Generator.stmt { place with inLoop := true } body
            Pure.pure (Linked.Stmt.foreach loc item ref iterable body))
          (fun l ctx accepted here => iterable.Valid ctx accepted (ctx.scopes.slotsOf here) →
            l.Valid ctx accepted (ctx.scopes.slotsOf here) place.inLoop) :=
        .declaring (.resolving (Resolver.declares_declare item)) <|
          .linking (.refOf item) fun _ => .map (@stmt { place with inLoop := true } inside body)
            fun _ _ _ _ given valid iterable => ⟨iterable, given.2, valid⟩
      refine Paired.scope (.stmt (.foreach loc item source body)) rfl inner
        fun _ ctx accepted here inner given opens valid => ?_
      rw [opens.shared rfl] at valid
      exact valid given.2
  | .given _ value cases otherwise =>
      .bind (expr inside value) fun _ => .bind (whenCases inside cases) fun _ =>
        .map (optionalStmt inside otherwise) fun _ _ _ _ given valid => ⟨given.1.2, given.2, valid⟩
  | .breakLoop _ => .map (.checkLoop _ _ _) fun _ _ _ _ _ looped => looped
  | .continueLoop _ => .map (.checkLoop _ _ _) fun _ _ _ _ _ looped => looped
  | .ret _ value => .map (optionalExpr inside value) fun _ _ _ _ _ valid => valid
  | .raise _ value => .map (expr inside value) fun _ _ _ _ _ valid => valid
  | .tryExcept loc body binding types handler => by
      refine .bind (stmt inside body) fun guarded => ?_
      have declared : ∀ r : Resolver, r.Declares ((binding.forM Resolver.declare).run r).2 := by
        intro r
        cases binding with
        | none => exact .refl r
        | some name => exact Resolver.declares_declare name r
      have inner : Paired true nothing (do
            binding.forM Resolver.declare
            Resolver.exprs true types
            Resolver.stmt handler)
          (do
            let types ← Generator.exprs place types
            let binding ← Generator.bindingRef binding
            let handler ← Generator.stmt place handler
            Pure.pure (Linked.Stmt.tryExcept loc guarded binding types handler))
          (fun l ctx accepted here =>
            guarded.Valid ctx accepted (ctx.scopes.slotsOf here) place.inLoop →
              l.Valid ctx accepted (ctx.scopes.slotsOf here) place.inLoop) :=
        .declaring (.resolving declared) <|
          .bind (exprs inside types) fun _ => .linking (.bindingRef binding) fun _ =>
            .map (stmt inside handler) fun _ _ _ _ given valid guarded =>
              ⟨guarded, given.1.2, given.2, valid⟩
      refine Paired.scope (.stmt (.tryExcept loc body binding types handler)) rfl inner
        fun _ ctx accepted here inner given opens valid => ?_
      rw [opens.shared rfl] at valid
      exact valid given.2
  | .function _ decl => by
      refine .declaring (.resolving (Resolver.declares_declare _)) ?_
      refine .followed (function _ _ none rfl decl) fun _ =>
        .linkingWith (.addMethod fun _ _ _ given => given.2.lt) fun _ => .map (.refOf _) ?_
      rintro ref ctx accepted here ⟨⟨_, f, found, logged, boundary, shared⟩, held⟩ kept
      refine ⟨⟨held, f, found, logged, ?_, fun _ => shared rfl⟩, kept⟩
      rw [boundary]
      rfl
  | .classDef _ _ | .enumDef _ _ | .interfaceDef _ _ | .use _ _ => .rejected _ _

/-- What is not there opens no scope. -/
theorem optionalStmt {place : Place} (inside : place.inFunction = true) : (s : Option Stmt) →
    Paired true nothing (Resolver.optionalStmt s) (Generator.optionalStmt place s)
      (fun l ctx accepted here =>
        Linked.ValidOption ctx accepted (ctx.scopes.slotsOf here) place.inLoop l)
  | none => .pure fun _ _ _ _ => trivial
  | some s => .map (stmt inside s) fun _ _ _ _ _ valid => valid

theorem stmts {place : Place} (inside : place.inFunction = true) : (body : List Stmt) →
    Paired true nothing (Resolver.stmts body) (Generator.stmts place body)
      (fun l ctx accepted here =>
        Linked.ValidStmts ctx accepted (ctx.scopes.slotsOf here) place.inLoop l)
  | [] => .pure fun _ _ _ _ => trivial
  | s :: rest =>
      .bind (stmt inside s) fun _ => .map (stmts inside rest) fun _ _ _ _ given valid =>
        ⟨given.2, valid⟩

/-- The candidates of a case are expressions, which come before its body. -/
theorem whenCases {place : Place} (inside : place.inFunction = true) :
    (cases : List (List Expr × Stmt)) →
    Paired true nothing (Resolver.whenCases cases) (Generator.whenCases place cases)
      (fun l ctx accepted here =>
        Linked.ValidCases ctx accepted (ctx.scopes.slotsOf here) place.inLoop l)
  | [] => .pure fun _ _ _ _ => trivial
  | (values, body) :: rest =>
      .bind (exprs inside values) fun _ => .bind (stmt inside body) fun _ =>
        .map (whenCases inside rest) fun _ _ _ _ given valid => ⟨given.1.2, given.2, valid⟩

end

/-! ## Declarations -/

/-- A class without a constructor gets one, with a scope of its own. -/
theorem constructorDef (outer : Location) (decl : ClassDecl) : Paired false nothing
    (Resolver.constructor decl) (Generator.constructorDef outer decl) (fun _ => nothing) := by
  obtain ⟨loc, name, bases, ctor, members⟩ := decl
  cases ctor with
  | some decl => exact .imp (function name true (some bases) rfl decl) fun _ _ _ _ _ _ => trivial
  | none =>
      have inner : Paired true nothing (Pure.pure ())
          (do
            let scope := (← MonadState.get).scopes.current
            let chained ← Generator.basePaths bases
            let localCount := (← MonadState.get).scopes.localCount
            Pure.pure ({
              loc := outer, name, isInstanceMethod := true, localCount, scope
              body := .statements chained [] } : Linked.Function))
          (Paired.Drafted (.impliedConstructor (.mk loc name bases none members))) := by
        refine .linking .get fun g => .linking (.basePaths _) fun _ => .linking .get fun g' => ?_
        refine .pure fun ctx accepted here given => ?_
        obtain ⟨⟨⟨_, before⟩, named⟩, after⟩ := given
        exact ⟨before.current, after.slots rfl, ⟨named, trivial⟩, .nothing rfl rfl rfl rfl⟩
      exact .imp (Paired.method (.impliedConstructor (.mk loc name bases none members)) rfl inner)
        fun _ _ _ _ _ _ => trivial

/-- A field that is set twice was reported. -/
theorem fieldValues (seen : List String) : (members : List Stmt) → Paired true nothing
    (Resolver.fields members) (Generator.fieldValues seen members)
    (fun found ctx accepted here =>
      ∀ field ∈ found.1, field.Valid ctx accepted (ctx.scopes.slotsOf here))
  | [] => .pure fun _ _ _ _ => List.forall_mem_nil _
  | member :: rest => by
      cases member with
      | expr loc e =>
          cases e with
          | assign loc object op value =>
              cases object with
              | name loc' ident =>
                  cases op with
                  | some op => exact .rejecting _ _ (fieldValues seen rest)
                  | none =>
                      have linked : Paired true nothing
                          (Resolver.expr true value >>= fun _ => Resolver.fields rest)
                          (do
                            let value ← Generator.expr { inFunction := true } value
                            let ident ← Generator.nameConstant ident
                            let found ← Generator.fieldValues (seen ++ [ident.name]) rest
                            Pure.pure ((⟨loc, ident, value⟩ : Linked.Field) :: found.1, found.2))
                          (fun found ctx accepted here =>
                            ∀ field ∈ found.1, field.Valid ctx accepted (ctx.scopes.slotsOf here)) := by
                        refine .bind (@expr { inFunction := true } true rfl value) fun _ => ?_
                        refine .linking (.nameConstant ident) fun _ => ?_
                        refine .map (fieldValues _ rest) fun _ _ _ _ given valid => ?_
                        exact List.forall_mem_cons.2 ⟨⟨given.1.2, given.2.2⟩, valid⟩
                      rw [Generator.fieldValues]
                      cases seen.contains ident with
                      | false => exact linked
                      | true =>
                          refine .linking (.report _ _) fun _ => .imp linked ?_
                          exact fun _ _ _ _ _ valid => valid
              | _ => exact .rejecting _ _ (fieldValues seen rest)
          | _ => exact fieldValues seen rest
      | _ => exact fieldValues seen rest

/-- Fields are set by a method of their own, with no parameters. -/
theorem fieldSetter (decl : ClassDecl) : Paired false nothing (Resolver.fieldScope decl)
    (Generator.fieldSetter decl) (fun _ => nothing) := by
  have inner : Paired true nothing (Resolver.fields decl.members)
      (do
        let scope := (← MonadState.get).scopes.current
        let found ← Generator.fieldValues [] decl.members
        let localCount := (← MonadState.get).scopes.localCount
        Pure.pure (({
          loc := decl.loc, name := decl.name ++ ".<fields>", isInstanceMethod := true, localCount
          scope, body := .fields found.1 } : Linked.Function), found.2))
      (fun drafted => Paired.Drafted (.fields decl) drafted.1) := by
    refine .linking .get fun g => .followed (fieldValues _ _) fun found => .linking .get fun g' => ?_
    refine .pure fun ctx accepted here given => ?_
    obtain ⟨⟨⟨_, before⟩, valid⟩, after⟩ := given
    refine ⟨before.current, after.slots rfl, ?_, .nothing rfl rfl rfl rfl⟩
    show ∀ field ∈ found.1, field.Valid ctx accepted g'.scopes.localCount
    rw [after.slots rfl]
    exact valid
  have bracketed : Paired false nothing _ _ _ :=
    .scope (S := fun drafted ctx accepted _ => ctx.Fits accepted drafted.1 ∧ ctx.Seats drafted.1)
        (.fields decl) rfl inner <| by
      rintro ⟨f, seen⟩ ctx accepted here inside _ opens ⟨rfl, counted, valid, follows⟩
      exact ⟨⟨valid, counted, _, opens.logged⟩, _, opens.logged, follows⟩
  have added : ∀ drafted : Linked.Function × List String,
      Paired false (fun ctx accepted here => nothing ctx accepted here ∧
          ctx.Fits accepted drafted.1 ∧ ctx.Seats drafted.1)
        (Pure.pure ())
        (if drafted.2.isEmpty then Pure.pure (none, drafted.2)
        else do
          let index ← Generator.addFunction drafted.1
          Pure.pure (some index, drafted.2)) (fun _ => nothing) := by
    intro drafted
    cases drafted.2.isEmpty with
    | true => exact .pure fun _ _ _ _ => trivial
    | false =>
        have added : Paired false (fun ctx accepted here =>
            nothing ctx accepted here ∧ ctx.Fits accepted drafted.1 ∧ ctx.Seats drafted.1)
            (Pure.pure ())
            (Generator.addFunction drafted.1) (fun _ => nothing) :=
          .addFunction (fun ctx accepted here given => given.2) fun _ _ _ _ _ _ => trivial
        exact added
  have whole := Paired.followed bracketed added
  exact whole

/-- The second pass changes nothing that matters here. -/
theorem aside {β : Type} {inFunction : Bool} {G : Generator.Gen β}
    (same : ∀ g : Generator, g.Collects (G.run g).2) :
    Paired inFunction nothing (Pure.pure ()) G (fun _ => nothing) :=
  .collecting same fun _ _ _ _ _ _ _ _ _ _ => trivial

/-- Members of an enumeration are numbers and open no scope. -/
theorem enumMembers {inFunction : Bool} (items : List (String × Option Expr × Location))
    (members : List (String × Int64)) (next : Int64) : Paired inFunction nothing (Pure.pure ())
    (Generator.enumMembers members next items) (fun _ => nothing) := by
  have member : ∀ members name value loc, Paired inFunction nothing (Pure.pure ())
      (Generator.enumMember members name value loc) (fun _ => nothing) := by
    intro members name value loc
    unfold Generator.enumMember
    cases members.any fun x => x.1 == name with
    | true => exact .map (.report _ _) fun _ _ _ _ _ _ => trivial
    | false => exact .pure fun _ _ _ _ => trivial
  induction items generalizing members next with
  | nil => exact .pure fun _ _ _ _ => trivial
  | cons item rest ih =>
      obtain ⟨name, value, loc⟩ := item
      cases value with
      | none => exact .linking (member _ _ _ _) fun _ => .imp (ih _ _) fun _ _ _ _ _ _ => trivial
      | some value =>
          rw [Generator.enumMembers]
          split
          · exact .linking (member _ _ _ _) fun _ => .imp (ih _ _) fun _ _ _ _ _ _ => trivial
          · exact .linking (.report _ _) fun _ => .imp (ih _ _) fun _ _ _ _ _ _ => trivial

theorem enumDef {inFunction : Bool} (decl : EnumDecl) : Paired inFunction nothing (Pure.pure ())
    (Generator.enumDef decl) (fun _ => nothing) := by
  refine .linking (enumMembers _ _ _) fun _ => .imp (aside fun g => ?_) fun _ _ _ _ _ _ => trivial
  exact ⟨rfl, rfl, rfl, .refl _, fun _ => id, id⟩

/-- A name that is there already is reported by the second pass, which opens no scope for it. -/
theorem insert {inFunction : Bool} (tables : Generator.ClassTables) (loc : Location) (name : String)
    (add : Generator.ClassTables → Generator.ClassTables) :
    Paired inFunction nothing (Pure.pure ()) (tables.insert loc name add) (fun _ => nothing) := by
  unfold Generator.ClassTables.insert
  cases tables.seen.contains name with
  | true => exact .map (.report _ _) fun _ _ _ _ _ _ => trivial
  | false => exact .pure fun _ _ _ _ => trivial

mutual

/-- A class has the scopes of its constructor and of its fields before those of its members. -/
theorem classDef (outer : Location) : (decl : ClassDecl) → Paired false nothing
    (Resolver.classDef decl) (Generator.classDef outer decl) (fun _ => nothing)
  | .mk loc name bases ctor members => by
      refine .bind (constructorDef outer _) fun _ => .bind (fieldSetter _) fun setter => ?_
      refine .followed (classMembers outer { seen := setter.2 } members) fun _ => ?_
      refine .imp (aside fun g => ?_) fun _ _ _ _ _ _ => trivial
      exact ⟨rfl, rfl, rfl, .refl _, fun _ => id, id⟩

theorem classMembers (outer : Location) (tables : Generator.ClassTables) : (members : List Stmt) →
    Paired false nothing (Resolver.classMembers members)
      (Generator.classMembers outer tables members) (fun _ => nothing)
  | [] => .pure fun _ _ _ _ => trivial
  | member :: rest => by
      cases member with
      | function _ decl =>
          refine .bind (function _ _ none rfl decl) fun _ => .linking (insert _ _ _ _) fun _ => ?_
          exact .imp (classMembers outer _ rest) fun _ _ _ _ _ _ => trivial
      | classDef _ decl =>
          refine .bind (classDef outer decl) fun _ => .linking (insert _ _ _ _) fun _ => ?_
          exact .imp (classMembers outer _ rest) fun _ _ _ _ _ _ => trivial
      | enumDef _ decl =>
          refine .linking (enumDef decl) fun _ => .linking (insert _ _ _ _) fun _ => ?_
          exact .imp (classMembers outer _ rest) fun _ _ _ _ _ _ => trivial
      | expr loc e =>
          cases e with
          | assign => exact classMembers outer tables rest
          | _ => exact .rejecting _ _ (classMembers outer tables rest)
      | _ => exact .rejecting _ _ (classMembers outer tables rest)

end

theorem bindAttribute {inFunction : Bool} (loc : Location) (name : String) (value : Binding) :
    Paired inFunction nothing (Pure.pure ()) (Generator.bindAttribute loc name value)
      (fun _ => nothing) := by
  refine .linking .get fun g => ?_
  split
  · exact .imp (.report _ _) fun _ _ _ _ _ _ => trivial
  · exact .imp (aside fun g => ⟨rfl, rfl, rfl, .refl _, fun _ => id, id⟩) fun _ _ _ _ _ _ => trivial

theorem interfaceDef {inFunction : Bool} (decl : InterfaceDecl) :
    Paired inFunction nothing (Pure.pure ()) (Generator.interfaceDef decl) (fun _ => nothing) :=
  aside fun _ => ⟨rfl, rfl, rfl, .refl _, fun _ => id, id⟩

/-- The statements at module level fit the unit. -/
def FittingRoots (found : List Linked.Root) : Facts :=
  fun ctx accepted _ => ∀ s ∈ found, s.Valid ctx accepted

/-- A use names a module and opens no scope. -/
theorem use (decl : UseDecl) : Paired false nothing (Pure.pure ()) (Generator.use decl)
    (fun s ctx accepted _ => s.Valid ctx accepted) := by
  refine .linking .get fun g => .linking (.nameConstant _) fun name => ?_
  have imported : Paired false nothing (Pure.pure ())
      (modify fun g' =>
        if g'.imports.contains (Generator.usedModule g.directory decl) then g'
        else { g' with imports := g'.imports ++ [Generator.usedModule g.directory decl] })
      (fun _ => nothing) := by
    refine aside fun g' => ?_
    show g'.Collects (if _ then _ else _)
    split <;> exact ⟨rfl, rfl, rfl, .refl _, fun _ => id, id⟩
  cases skipped : decl.wildcard || decl.names.isEmpty with
  | true =>
      refine .linking (.pure (Q := fun _ => nothing) fun _ _ _ _ => trivial) fun names => ?_
      refine .map imported fun _ ctx accepted here given _ =>
        ⟨⟨_, given.1.2.2⟩, fun single some_ => ?_⟩
      rw [single, Bool.false_or] at skipped
      exact absurd (List.isEmpty_iff.1 skipped) some_
  | false =>
      refine .linking (.addConstant nofun) fun names => .map imported fun _ ctx accepted here given _ => ?_
      exact ⟨⟨_, given.1.2.2⟩, fun _ _ => given.2⟩

mutual

theorem rootStmt : (s : Stmt) → Paired false nothing (Resolver.rootStmt s) (Generator.rootStmt s)
    FittingRoots
  | .expr _ value => by
      refine .map (.atRoot (@expr {} false rfl value)) fun _ ctx accepted here _ valid => ?_
      refine List.forall_mem_singleton.2 ?_
      obtain ⟨rfl, valid⟩ := valid
      exact valid
  | .block _ body =>
      .map (rootStmts body) fun _ _ _ _ _ valid => List.forall_mem_cons.2 ⟨trivial, valid⟩
  | .function _ decl =>
      .declaring (.resolving (Resolver.declares_declare _)) <|
        .followed (function _ _ none rfl decl) fun _ => .map (bindAttribute _ _ _)
          fun _ _ _ _ _ _ => List.forall_mem_singleton.2 trivial
  | .classDef loc decl =>
      .declaring (.resolving (Resolver.declares_declare _)) <|
        .followed (classDef loc decl) fun _ => .map (bindAttribute _ _ _)
          fun _ _ _ _ _ _ => List.forall_mem_singleton.2 trivial
  | .enumDef _ decl =>
      .declaring (.resolving (Resolver.declares_declare _)) <|
        .linking (enumDef decl) fun _ => .map (bindAttribute _ _ _)
          fun _ _ _ _ _ _ => List.forall_mem_singleton.2 trivial
  | .interfaceDef _ decl =>
      .declaring (.resolving (Resolver.declares_declare _)) <|
        .linking (interfaceDef decl) fun _ => .map (bindAttribute _ _ _)
          fun _ _ _ _ _ _ => List.forall_mem_singleton.2 trivial
  | .use _ decl => .map (use decl) fun _ _ _ _ _ valid => List.forall_mem_singleton.2 valid
  | .ifElse _ _ _ _ | .whileLoop _ _ _ | .doWhile _ _ _ | .forLoop _ _ _ _ _ | .foreach _ _ _ _
  | .given _ _ _ _ | .breakLoop _ | .continueLoop _ | .ret _ _ | .raise _ _
  | .tryExcept _ _ _ _ _ => .rejected _ _

/-- The statements of a module are in the outermost scope. -/
theorem rootStmts : (unit : List Stmt) → Paired false nothing (Resolver.rootStmts unit)
    (Generator.rootStmts unit) FittingRoots
  | [] => .pure fun _ _ _ _ => List.forall_mem_nil _
  | s :: rest =>
      .bind (rootStmt s) fun _ => .map (rootStmts rest) fun _ _ _ _ given valid =>
        List.forall_mem_append.2 ⟨given.2, valid⟩

end

end Passes
end ScriptMachine
