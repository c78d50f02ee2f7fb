import ScriptMachine.Source.Resolution
import ScriptMachine.Proofs.Code.Sites

/-!
What the first pass complains about. `Reports` says of a computation when it leaves an empty log
empty; it is established along the recursion of the pass and compared with the nodes along the
recursion of `sites`.
-/

namespace ScriptMachine

namespace Resolver

/-- The computation leaves an empty log empty exactly if this holds. -/
def Reports (a : Resolve Unit) (P : Prop) : Prop :=
  ∀ r : Resolver, (a.run r).2.errors = [] ↔ r.errors = [] ∧ P

namespace Reports

variable {a b : Resolve Unit} {P Q : Prop}

theorem congr (reports : Reports a P) (same : P ↔ Q) : Reports a Q :=
  fun r => (reports r).trans (and_congr_right fun _ => same)

/-- Two passes in a row report nothing if neither does. -/
theorem bind (first : Reports a P) (second : Reports b Q) :
    Reports (a >>= fun _ => b) (P ∧ Q) := by
  intro r
  refine (second (a.run r).2).trans ?_
  rw [first r, and_assoc]

/-- What comes first reports nothing. -/
theorem silently (silent : ∀ r : Resolver, (a.run r).2.errors = r.errors) (second : Reports b Q) :
    Reports (a >>= fun _ => b) Q := by
  intro r
  refine (second (a.run r).2).trans ?_
  rw [silent r]

theorem pure : Reports (Pure.pure ()) True :=
  fun _ => (and_iff_left trivial).symm

/-- What adds no error asks for nothing. -/
theorem silent (silent : ∀ r : Resolver, (a.run r).2.errors = r.errors) : Reports a True := by
  intro r
  rw [silent r]
  exact (and_iff_left trivial).symm

/-- A report is always an error. -/
theorem report (loc : Location) (kind : CompileErrorKind) :
    Reports (Resolver.report loc kind) False := by
  intro r
  refine iff_of_false (fun none => ?_) And.right
  exact absurd none (List.append_ne_nil_of_right_ne_nil _ (List.cons_ne_nil _ _))

end Reports

theorem errors_beginScope (owner : ScopeOwner) (isBoundary : Bool) (r : Resolver) :
    ((beginScope owner isBoundary).run r).2.errors = r.errors := rfl

theorem errors_endScope (r : Resolver) : (endScope.run r).2.errors = r.errors := rfl

theorem errors_declare (name : String) (r : Resolver) :
    ((declare name).run r).2.errors = r.errors := rfl

/-- A name that is assigned to may be declared twice. -/
theorem errors_declareIfNew (name : String) (r : Resolver) :
    ((declareIfNew name).run r).2.errors = r.errors := by
  change ((if r.scopes.isDefined name = true then Pure.pure () else declare name : Resolve Unit).run
    r).2.errors = _
  split <;> rfl

/-- A computation in a scope of its own. -/
theorem Reports.scoped {a : Resolve Unit} {P : Prop} (owner : ScopeOwner) (isBoundary : Bool)
    (reports : Reports a P) : Reports (do beginScope owner isBoundary; a; endScope) P :=
  .silently (errors_beginScope owner isBoundary)
    ((Reports.bind reports (.silent errors_endScope)).congr (and_iff_left trivial))

/-- Parameters have different names. -/
theorem parameters_reports (loc : Location) (seen : List String) :
    (names : List String) → Reports (parameters loc seen names) (Fresh seen names)
  | [] => Reports.pure.congr (iff_of_true trivial (fresh_nil seen))
  | name :: rest => by
      have others : Reports (do declare name; parameters loc (seen ++ [name]) rest)
          (Fresh (seen ++ [name]) rest) :=
        .silently (errors_declare name) (parameters_reports loc (seen ++ [name]) rest)
      by_cases old : name ∈ seen
      · have reported : Reports (do
            report loc (.duplicateDefinition name)
            declare name
            parameters loc (seen ++ [name]) rest) (False ∧ Fresh (seen ++ [name]) rest) :=
          (Reports.report loc _).bind others
        have same : parameters loc seen (name :: rest) = (do
            report loc (.duplicateDefinition name)
            declare name
            parameters loc (seen ++ [name]) rest) := by
          rw [parameters, if_pos (List.contains_iff_mem.2 old)]
        rw [same, fresh_cons]
        exact reported.congr (and_congr_left fun _ => iff_of_false id (not_not_intro old))
      · have same : parameters loc seen (name :: rest) = (do
            declare name
            parameters loc (seen ++ [name]) rest) := by
          rw [parameters, if_neg (mt List.contains_iff_mem.1 old)]
        rw [same, fresh_cons]
        exact others.congr (and_iff_right old).symm

mutual

/-- Nothing is reported about an expression if all its sites resolve. The induction is on the
expression. -/
theorem expr_reports (inFunction : Bool) (around : Surroundings) :
    (e : Expr) → Reports (expr inFunction e) (∀ site ∈ e.sites around, site.Resolves)
  | .null _ | .bool _ _ | .int _ _ | .float _ _ | .str _ _ | .name _ _ | .self _ =>
      Reports.pure.congr (by simp [Expr.sites, Expr.assignsWell])
  | .attr _ object _ =>
      (expr_reports inFunction around object).congr (by simp [Expr.sites, Expr.assignsWell])
  | .index _ object index =>
      ((expr_reports inFunction around object).bind (expr_reports inFunction around index)).congr
        (by simp [Expr.sites, Expr.assignsWell, or_imp, forall_and])
  | .call _ callee args keywords =>
      ((exprs_reports inFunction around args).bind
        ((namedExprs_reports inFunction around keywords).bind
          (expr_reports inFunction around callee))).congr
        (by simp [Expr.sites, Expr.assignsWell, or_imp, forall_and])
  | .superCall _ args =>
      (exprs_reports inFunction around args).congr (by simp [Expr.sites, Expr.assignsWell])
  | .binary _ _ left right =>
      ((expr_reports inFunction around left).bind (expr_reports inFunction around right)).congr
        (by simp [Expr.sites, Expr.assignsWell, or_imp, forall_and])
  | .unary _ _ operand =>
      (expr_reports inFunction around operand).congr (by simp [Expr.sites, Expr.assignsWell])
  | .assign loc object op value => by
      have assigned : Reports (do expr inFunction value; target inFunction object)
          (∀ site ∈ (Expr.assign loc object op value).sites around, site.Resolves) :=
        ((expr_reports inFunction around value).bind
          (target_reports inFunction around object)).congr
          (by
            simp only [Expr.sites, Expr.assignsWell, Site.resolves_expr, List.cons_append,
              List.forall_mem_cons, List.forall_mem_append]
            rw [and_comm, and_assoc])
      cases op with
      | none => exact assigned
      | some op =>
          exact ((target_reports inFunction around object).bind assigned).congr
            (by
              simp only [Expr.sites, Expr.assignsWell, Site.resolves_expr, List.cons_append,
                List.forall_mem_cons, List.forall_mem_append]
              exact and_iff_right_of_imp fun ⟨fits, parts, _⟩ => ⟨fits, parts⟩)
  | .list _ items =>
      (exprs_reports inFunction around items).congr (by simp [Expr.sites, Expr.assignsWell])
  | .tuple _ items =>
      (exprs_reports inFunction around items).congr (by simp [Expr.sites, Expr.assignsWell])
  | .hash _ pairs =>
      (exprPairs_reports inFunction around pairs).congr (by simp [Expr.sites, Expr.assignsWell])
  | .lambda _ decl =>
      (function_reports (!inFunction) false decl).congr (by simp [Expr.sites, Expr.assignsWell])
  | .isType _ value type =>
      ((expr_reports inFunction around value).bind (expr_reports inFunction around type)).congr
        (by simp [Expr.sites, Expr.assignsWell, or_imp, forall_and])
  | .asType _ value type =>
      ((expr_reports inFunction around value).bind (expr_reports inFunction around type)).congr
        (by simp [Expr.sites, Expr.assignsWell, or_imp, forall_and])
  | .coalesce _ left right =>
      ((expr_reports inFunction around left).bind (expr_reports inFunction around right)).congr
        (by simp [Expr.sites, Expr.assignsWell, or_imp, forall_and])
  | .ternary _ condition thenValue elseValue =>
      ((expr_reports inFunction around condition).bind
        ((expr_reports inFunction around thenValue).bind
          (expr_reports inFunction around elseValue))).congr
        (by simp [Expr.sites, Expr.assignsWell, or_imp, forall_and])

/-- A target has to be something that can be assigned to. -/
theorem target_reports (inFunction : Bool) (around : Surroundings) : (e : Expr) →
    Reports (target inFunction e)
      (e.isAssignable = true ∧ ∀ site ∈ e.sites around, site.Resolves)
  | .name _ ident =>
      (Reports.silent (errors_declareIfNew ident)).congr
        (by simp [Expr.isAssignable, Expr.sites, Expr.assignsWell])
  | .attr _ object _ =>
      (expr_reports inFunction around object).congr
        (by simp [Expr.isAssignable, Expr.sites, Expr.assignsWell])
  | .index _ object index =>
      ((expr_reports inFunction around object).bind (expr_reports inFunction around index)).congr
        (by simp [Expr.isAssignable, Expr.sites, Expr.assignsWell, or_imp, forall_and])
  | .null _ | .bool _ _ | .int _ _ | .float _ _ | .str _ _ | .self _ | .call _ _ _ _
  | .superCall _ _ | .binary _ _ _ _ | .unary _ _ _ | .assign _ _ _ _ | .list _ _ | .tuple _ _
  | .hash _ _ | .lambda _ _ | .isType _ _ _ | .asType _ _ _ | .coalesce _ _ _
  | .ternary _ _ _ _ => (Reports.report _ _).congr (by simp [Expr.isAssignable])

theorem exprs_reports (inFunction : Bool) (around : Surroundings) : (items : List Expr) →
    Reports (exprs inFunction items) (∀ site ∈ sitesOfExprs around items, site.Resolves)
  | [] => Reports.pure.congr (by simp [sitesOfExprs])
  | e :: rest =>
      ((expr_reports inFunction around e).bind (exprs_reports inFunction around rest)).congr
        (by simp [sitesOfExprs, or_imp, forall_and])

theorem optionalExpr_reports (inFunction : Bool) (around : Surroundings) : (e : Option Expr) →
    Reports (optionalExpr inFunction e) (∀ site ∈ sitesOfOptionalExpr around e, site.Resolves)
  | none => Reports.pure.congr (by simp [sitesOfOptionalExpr])
  | some e => (expr_reports inFunction around e).congr (by simp [sitesOfOptionalExpr])

theorem namedExprs_reports (inFunction : Bool) (around : Surroundings) :
    (items : List (String × Expr)) →
    Reports (namedExprs inFunction items) (∀ site ∈ sitesOfKeywords around items, site.Resolves)
  | [] => Reports.pure.congr (by simp [sitesOfKeywords])
  | (_, e) :: rest =>
      ((expr_reports inFunction around e).bind (namedExprs_reports inFunction around rest)).congr
        (by simp [sitesOfKeywords, or_imp, forall_and])

theorem exprPairs_reports (inFunction : Bool) (around : Surroundings) :
    (items : List (Expr × Expr)) →
    Reports (exprPairs inFunction items) (∀ site ∈ sitesOfPairs around items, site.Resolves)
  | [] => Reports.pure.congr (by simp [sitesOfPairs])
  | (key, value) :: rest =>
      ((expr_reports inFunction around key).bind ((expr_reports inFunction around value).bind
        (exprPairs_reports inFunction around rest))).congr
        (by simp [sitesOfPairs, or_imp, forall_and])

/-- The sites of a function are those of its parameters and of its body. -/
theorem function_reports (isBoundary derived : Bool) : (decl : FuncDecl) →
    Reports (function isBoundary decl) (∀ site ∈ decl.sites derived, site.Resolves)
  | .mk sig body =>
      Reports.scoped _ _ (((parameters_reports sig.loc [] sig.parameterNames).bind
        (stmts_reports { body := .function, derived } rfl body)).congr
        (by simp [FuncDecl.sites, fresh_empty]))

/-- Nothing is reported about a statement if all its sites resolve. The induction is on the
statement. -/
theorem stmt_reports (around : Surroundings) (inside : around.body = .function) : (s : Stmt) →
    Reports (stmt s) (∀ site ∈ s.sites around, site.Resolves)
  | .expr _ value =>
      (expr_reports true around value).congr
        (by simp [Stmt.sites, inside, Stmt.mayStand, Stmt.isDeclaration])
  | .block _ body =>
      (Reports.scoped _ _ (stmts_reports around inside body)).congr
        (by simp [Stmt.sites, inside, Stmt.mayStand, Stmt.isDeclaration])
  | .ifElse _ condition body orelse =>
      ((expr_reports true around condition).bind ((stmt_reports around inside body).bind
        (optionalStmt_reports around inside orelse))).congr
        (by simp [Stmt.sites, inside, Stmt.mayStand, Stmt.isDeclaration, or_imp, forall_and])
  | .whileLoop _ condition body =>
      ((expr_reports true around condition).bind (stmt_reports around.looped inside body)).congr
        (by simp [Stmt.sites, inside, Stmt.mayStand, Stmt.isDeclaration, or_imp, forall_and])
  | .doWhile _ body condition =>
      ((stmt_reports around.looped inside body).bind (expr_reports true around condition)).congr
        (by simp [Stmt.sites, inside, Stmt.mayStand, Stmt.isDeclaration, or_imp, forall_and])
  | .forLoop _ start condition step body =>
      (Reports.scoped _ _ ((optionalStmt_reports around inside start).bind
        ((optionalExpr_reports true around condition).bind
          ((stmt_reports around.looped inside body).bind
            (optionalExpr_reports true around step))))).congr
        (by simp [Stmt.sites, inside, Stmt.mayStand, Stmt.isDeclaration, or_imp, forall_and])
  | .foreach _ item iterable body =>
      ((expr_reports true around iterable).bind (Reports.scoped _ _
        (.silently (errors_declare item) (stmt_reports around.looped inside body)))).congr
        (by simp [Stmt.sites, inside, Stmt.mayStand, Stmt.isDeclaration, or_imp, forall_and])
  | .given _ value cases otherwise =>
      ((expr_reports true around value).bind ((whenCases_reports around inside cases).bind
        (optionalStmt_reports around inside otherwise))).congr
        (by simp [Stmt.sites, inside, Stmt.mayStand, Stmt.isDeclaration, or_imp, forall_and])
  | .breakLoop _ | .continueLoop _ =>
      Reports.pure.congr (by simp [Stmt.sites, inside, Stmt.mayStand, Stmt.isDeclaration])
  | .ret _ value =>
      (optionalExpr_reports true around value).congr
        (by simp [Stmt.sites, inside, Stmt.mayStand, Stmt.isDeclaration])
  | .raise _ value =>
      (expr_reports true around value).congr
        (by simp [Stmt.sites, inside, Stmt.mayStand, Stmt.isDeclaration])
  | .tryExcept loc body binding types handler => by
      have handled : Reports (do
          binding.forM declare
          exprs true types
          stmt handler) ((∀ site ∈ sitesOfExprs around types, site.Resolves) ∧
            ∀ site ∈ handler.sites around, site.Resolves) := by
        refine .silently (fun r => ?_)
          ((exprs_reports true around types).bind (stmt_reports around inside handler))
        cases binding <;> rfl
      exact ((stmt_reports around inside body).bind (Reports.scoped _ _ handled)).congr
        (by simp [Stmt.sites, inside, Stmt.mayStand, Stmt.isDeclaration, or_imp, forall_and])
  | .function _ decl =>
      (Reports.silently (errors_declare decl.sig.name) (function_reports false false decl)).congr
        (by simp [Stmt.sites, inside, Stmt.mayStand, Stmt.isDeclaration])
  | .classDef _ _ | .enumDef _ _ | .interfaceDef _ _ | .use _ _ =>
      (Reports.report _ _).congr
        (by simp [Stmt.sites, inside, Stmt.mayStand, Stmt.isDeclaration])

theorem optionalStmt_reports (around : Surroundings) (inside : around.body = .function) :
    (s : Option Stmt) →
    Reports (optionalStmt s) (∀ site ∈ sitesOfOptionalStmt around s, site.Resolves)
  | none => Reports.pure.congr (by simp [sitesOfOptionalStmt])
  | some s => (stmt_reports around inside s).congr (by simp [sitesOfOptionalStmt])

theorem stmts_reports (around : Surroundings) (inside : around.body = .function) :
    (body : List Stmt) → Reports (stmts body) (∀ site ∈ sitesOfStmts around body, site.Resolves)
  | [] => Reports.pure.congr (by simp [sitesOfStmts])
  | s :: rest =>
      ((stmt_reports around inside s).bind (stmts_reports around inside rest)).congr
        (by simp [sitesOfStmts, or_imp, forall_and])

/-- The sites of a case are those of its candidates and of its body. -/
theorem whenCases_reports (around : Surroundings) (inside : around.body = .function) :
    (cases : List (List Expr × Stmt)) →
    Reports (whenCases cases) (∀ site ∈ sitesOfCases around cases, site.Resolves)
  | [] => Reports.pure.congr (by simp [sitesOfCases])
  | (values, body) :: rest =>
      ((exprs_reports true around values).bind ((stmt_reports around inside body).bind
        (whenCases_reports around inside rest))).congr
        (by simp [sitesOfCases, or_imp, forall_and])

end

/-- A class without a constructor has nothing to report for it. -/
theorem constructor_reports : (decl : ClassDecl) → Reports (constructor decl) (match decl with
    | .mk _ _ bases ctor _ => ∀ site ∈ sitesOfOptionalFunction (!bases.isEmpty) ctor, site.Resolves)
  | .mk _ _ bases (some decl) _ =>
      (function_reports true (!bases.isEmpty) decl).congr (by simp [sitesOfOptionalFunction])
  | .mk loc name bases none members =>
      (Reports.scoped (.impliedConstructor (.mk loc name bases none members)) true .pure).congr
        (by simp [sitesOfOptionalFunction])

mutual

/-- The sites of a class are its own, those of its members and those of its constructor. -/
theorem classDef_reports : (decl : ClassDecl) →
    Reports (classDef decl) (∀ site ∈ decl.sites, site.Resolves)
  | .mk loc name bases ctor members => by
      obtain ⟨P, Q, fields, others, both⟩ := members_reports members
      refine ((constructor_reports (.mk loc name bases ctor members)).bind
        ((Reports.scoped _ _ fields).bind others)).congr ?_
      rw [both]
      simp [ClassDecl.sites, or_imp, forall_and]

/-- The members of a class are visited twice: once for its fields, and once for all else. -/
theorem members_reports : (members : List Stmt) → ∃ P Q : Prop, Reports (fields members) P ∧
    Reports (classMembers members) Q ∧
      (P ∧ Q ↔ ∀ site ∈ sitesOfStmts { body := .cls } members, site.Resolves)
  | [] => ⟨True, True, .pure, .pure, by simp [sitesOfStmts]⟩
  | member :: rest => by
      obtain ⟨P, Q, fields, others, both⟩ := members_reports rest
      cases member with
      | expr loc e =>
          cases e with
          | assign loc' object op value =>
              cases object with
              | name loc'' ident =>
                  cases op with
                  | none =>
                      refine ⟨_, _, (expr_reports true { body := .cls } value).bind fields,
                        others, ?_⟩
                      simp only [sitesOfStmts, Stmt.sites, Expr.sites, List.forall_mem_append,
                        List.forall_mem_cons, ← both]
                      simp [Stmt.mayStand, Stmt.isMember, Expr.assignsWell, Expr.isAssignable,
                        and_assoc]
                  | some op =>
                      refine ⟨_, _, (Reports.report loc' _).bind fields, others, ?_⟩
                      simp [sitesOfStmts, Stmt.sites, Stmt.mayStand, Stmt.isMember]
              | _ =>
                  refine ⟨_, _, (Reports.report loc' _).bind fields, others, ?_⟩
                  simp [sitesOfStmts, Stmt.sites, Stmt.mayStand, Stmt.isMember]
          | _ =>
              refine ⟨_, _, fields, (Reports.report _ _).bind others, ?_⟩
              simp [sitesOfStmts, Stmt.sites, Stmt.mayStand, Stmt.isMember]
      | function loc decl =>
          refine ⟨_, _, fields, (function_reports true false decl).bind others, ?_⟩
          simp only [sitesOfStmts, Stmt.sites, List.forall_mem_append, List.forall_mem_cons, ← both]
          simp [Stmt.mayStand, Stmt.isMember, and_left_comm]
      | classDef loc decl =>
          refine ⟨_, _, fields, (classDef_reports decl).bind others, ?_⟩
          simp only [sitesOfStmts, Stmt.sites, List.forall_mem_append, List.forall_mem_cons, ← both]
          simp [Stmt.mayStand, Stmt.isMember, and_left_comm]
      | enumDef loc decl =>
          refine ⟨_, _, fields, others, ?_⟩
          simp only [sitesOfStmts, Stmt.sites, List.forall_mem_append, List.forall_mem_cons, ← both]
          simp [Stmt.mayStand, Stmt.isMember]
      | _ =>
          refine ⟨_, _, fields, (Reports.report _ _).bind others, ?_⟩
          simp [sitesOfStmts, Stmt.sites, Stmt.mayStand, Stmt.isMember]

end

mutual

theorem rootStmt_reports : (s : Stmt) →
    Reports (rootStmt s) (∀ site ∈ s.sites { body := .unit }, site.Resolves)
  | .expr _ value =>
      (expr_reports false { body := .unit } value).congr
        (by simp [Stmt.sites, Stmt.mayStand, Stmt.isControlFlow])
  | .block _ body =>
      (rootStmts_reports body).congr (by simp [Stmt.sites, Stmt.mayStand, Stmt.isControlFlow])
  | .function _ decl =>
      (Reports.silently (errors_declare decl.sig.name) (function_reports true false decl)).congr
        (by simp [Stmt.sites, Stmt.mayStand, Stmt.isControlFlow])
  | .classDef _ decl =>
      (Reports.silently (errors_declare decl.name) (classDef_reports decl)).congr
        (by simp [Stmt.sites, Stmt.mayStand, Stmt.isControlFlow])
  | .enumDef _ decl =>
      (Reports.silent (errors_declare decl.name)).congr
        (by simp [Stmt.sites, Stmt.mayStand, Stmt.isControlFlow])
  | .interfaceDef _ decl =>
      (Reports.silent (errors_declare decl.name)).congr
        (by simp [Stmt.sites, Stmt.mayStand, Stmt.isControlFlow])
  | .use _ _ => Reports.pure.congr (by simp [Stmt.sites, Stmt.mayStand, Stmt.isControlFlow])
  | .ifElse .. | .whileLoop .. | .doWhile .. | .forLoop .. | .foreach .. | .given .. | .breakLoop ..
  | .continueLoop .. | .ret .. | .raise .. | .tryExcept .. =>
      (Reports.report _ _).congr (by simp [Stmt.sites, Stmt.mayStand, Stmt.isControlFlow])

theorem rootStmts_reports : (body : List Stmt) →
    Reports (rootStmts body) (∀ site ∈ sitesOfStmts { body := .unit } body, site.Resolves)
  | [] => Reports.pure.congr (by simp [sitesOfStmts])
  | s :: rest =>
      ((rootStmt_reports s).bind (rootStmts_reports rest)).congr
        (by simp [sitesOfStmts, or_imp, forall_and])

end

end Resolver

/-- The first pass accepts a unit if all its sites resolve, and only then. -/
theorem resolve_errors {unit : List Stmt} :
    (resolve unit).errors = [] ↔ ∀ site ∈ sitesOfUnit unit, site.Resolves :=
  (Resolver.rootStmts_reports unit {}).trans (and_iff_right rfl)

end ScriptMachine
