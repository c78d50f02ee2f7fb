import ScriptMachine.Code.Compilation
import ScriptMachine.Proofs.Code.Sites

/-!
What the second pass complains about, in a unit in which the first has found nothing. A name that
is bound at module level must be new there, which depends on what was bound before: `Binds` says
which names a computation binds, and when it leaves an empty log empty.
-/

namespace ScriptMachine.Generator

/-! ## Computations of the second pass -/

/-- The names bound at module level so far. -/
def boundNames (g : Generator) : List String :=
  g.attributes.map (·.1)

/-- The computation leaves an empty log empty exactly if this holds and the names it binds at module
level are new, and then it has bound them. -/
structure Binds {α : Type} (a : Gen α) (P : Prop) (names : List String) : Prop where
  errors : ∀ g : Generator, (a.run g).2.errors = [] ↔
    g.errors = [] ∧ P ∧ Fresh g.boundNames names
  bound : ∀ g : Generator, (a.run g).2.errors = [] →
    (a.run g).2.boundNames = g.boundNames ++ names

/-- The computation binds no names, and leaves an empty log empty exactly if this holds. -/
abbrev Reports {α : Type} (a : Gen α) (P : Prop) : Prop :=
  Binds a P []

/-- The value of the computation is always such. -/
def Gives {α : Type} (a : Gen α) (K : α → Prop) : Prop :=
  ∀ g : Generator, K (a.run g).1

/-- The computation neither complains nor binds a name. -/
def Silent {α : Type} (a : Gen α) : Prop :=
  ∀ g : Generator, (a.run g).2.errors = g.errors ∧ (a.run g).2.attributes = g.attributes

section

variable {α β : Type} {a : Gen α} {f : α → Gen β} {P Q : Prop} {names others : List String}

/-- What the first part gives may be used for the second. -/
theorem Gives.bind {J : α → Prop} {K : β → Prop} (first : Gives a J)
    (second : ∀ x, J x → Gives (f x) K) : Gives (a >>= f) K :=
  fun g => second _ (first g) _

/-- The value does not depend on what comes first. -/
theorem Gives.after {K : β → Prop} (second : ∀ x, Gives (f x) K) : Gives (a >>= f) K :=
  fun _ => second _ _

theorem Gives.pure {K : α → Prop} {x : α} (holds : K x) : Gives (Pure.pure x : Gen α) K :=
  fun _ => holds

/-- Two silent parts are silent together. -/
theorem Silent.bind (first : Silent a) (second : ∀ x, Silent (f x)) : Silent (a >>= f) := by
  intro g
  obtain ⟨errors, attributes⟩ := second (a.run g).1 (a.run g).2
  exact ⟨errors.trans (first g).1, attributes.trans (first g).2⟩

theorem Silent.pure (x : α) : Silent (Pure.pure x : Gen α) :=
  fun _ => ⟨rfl, rfl⟩

namespace Binds

theorem congr (binds : Binds a P names) (same : P ↔ Q) : Binds a Q names :=
  ⟨fun g => (binds.errors g).trans (and_congr_right fun _ => and_congr_left fun _ => same),
    binds.bound⟩

/-- The second part may rely on what is known of the value of the first. -/
theorem bindWith {K : α → Prop} (gives : Gives a K) (first : Binds a P names)
    (second : ∀ x, K x → Binds (f x) Q others) :
    Binds (a >>= f) (P ∧ Q) (names ++ others) := by
  have next (g : Generator) := second _ (gives g)
  refine ⟨fun g => ?_, fun g empty => ?_⟩
  · refine ((next g).errors (a.run g).2).trans ?_
    rw [fresh_append]
    constructor
    · rintro ⟨empty, holds, fresh⟩
      rw [first.bound g empty] at fresh
      obtain ⟨start, before, new⟩ := (first.errors g).1 empty
      exact ⟨start, ⟨before, holds⟩, new, fresh⟩
    · rintro ⟨start, ⟨before, holds⟩, new, fresh⟩
      have empty := (first.errors g).2 ⟨start, before, new⟩
      rw [first.bound g empty]
      exact ⟨empty, holds, fresh⟩
  · have middle := (((next g).errors (a.run g).2).1 empty).1
    rw [← List.append_assoc, ← first.bound g middle]
    exact (next g).bound _ empty

/-- The first part always has the same value. -/
theorem bindValue {value : α} (gives : Gives a (· = value)) (first : Binds a P names)
    (second : Binds (f value) Q others) : Binds (a >>= f) (P ∧ Q) (names ++ others) :=
  bindWith gives first fun _ same => same ▸ second

/-- Two parts in a row bind the names of both. -/
theorem bind (first : Binds a P names) (second : ∀ x, Binds (f x) Q others) :
    Binds (a >>= f) (P ∧ Q) (names ++ others) :=
  bindWith (K := fun _ => True) (fun _ => trivial) first fun x _ => second x

/-- What comes first is silent. -/
theorem silently (silent : Silent a) (second : ∀ x, Binds (f x) Q others) :
    Binds (a >>= f) Q others := by
  have names (g : Generator) : (a.run g).2.boundNames = g.boundNames := by
    rw [boundNames, boundNames, (silent g).2]
  refine ⟨fun g => ?_, fun g empty => ?_⟩
  · refine ((second _).errors (a.run g).2).trans ?_
    rw [names, (silent g).1]
  · rw [← names g]
    exact (second _).bound _ empty

/-- What comes last is silent. -/
theorem followed (first : Binds a P names) (silent : ∀ x, Silent (f x)) :
    Binds (a >>= f) P names := by
  refine ⟨fun g => ?_, fun g empty => ?_⟩
  · rw [← first.errors g, ← (silent (a.run g).1 (a.run g).2).1]
    exact Iff.rfl
  · have errors := (silent (a.run g).1 (a.run g).2).1
    rw [← first.bound g (errors ▸ empty)]
    exact congrArg (List.map Prod.fst) (silent (a.run g).1 (a.run g).2).2

theorem map (first : Binds a P names) (make : α → β) :
    Binds (a >>= fun x => Pure.pure (make x)) P names :=
  first.followed fun x => .pure (make x)

end Binds

theorem Silent.reports (silent : Silent a) : Reports a True := by
  refine ⟨fun g => ?_, fun g _ => ?_⟩
  · rw [(silent g).1, and_iff_left ⟨trivial, fresh_nil _⟩]
  · rw [List.append_nil, boundNames, boundNames, (silent g).2]

theorem Reports.pure (x : α) : Reports (Pure.pure x : Gen α) True :=
  (Silent.pure x).reports

theorem report_reports (loc : Location) (kind : CompileErrorKind) :
    Reports (report loc kind) False := by
  have some (g : Generator) : ((report loc kind).run g).2.errors ≠ [] :=
    List.append_ne_nil_of_right_ne_nil _ (List.cons_ne_nil _ _)
  refine ⟨fun g => iff_of_false (some g) fun h => h.2.1, fun g empty => absurd empty (some g)⟩

end

/-! ## Silent computations -/

theorem enterScope_silent (owner : ScopeOwner) : Silent (enterScope owner) :=
  fun _ => ⟨rfl, rfl⟩

theorem exitScope_silent : Silent exitScope :=
  fun _ => ⟨rfl, rfl⟩

theorem get_silent : Silent (get : Gen Generator) :=
  fun _ => ⟨rfl, rfl⟩

/-- A change is silent if it leaves errors and attributes alone. -/
theorem modify_silent {f : Generator → Generator}
    (keeps : ∀ g, (f g).errors = g.errors ∧ (f g).attributes = g.attributes) :
    Silent (modify f) :=
  keeps

/-- A constant is found or added, and neither is reported. -/
theorem addConstant_silent (c : Constant) : Silent (addConstant c) :=
  fun _ => ⟨rfl, rfl⟩

theorem addFunction_silent (f : Linked.Function) : Silent (addFunction f) :=
  fun _ => ⟨rfl, rfl⟩

theorem nameConstant_silent (name : String) : Silent (nameConstant name) := by
  refine .bind get_silent fun g => ?_
  split
  · exact .pure _
  · exact .bind (addConstant_silent _) fun _ => .pure _

theorem nameConstants_silent : (names : List String) → Silent (nameConstants names)
  | [] => .pure _
  | name :: rest =>
      .bind (nameConstant_silent name) fun _ => .bind (nameConstants_silent rest) fun _ => .pure _

theorem basePaths_silent : (bases : List String) → Silent (basePaths bases)
  | [] => .pure _
  | _ :: rest =>
      .bind (nameConstants_silent _) fun _ => .bind (basePaths_silent rest) fun _ => .pure _

/-- A name that is not found is a global variable, so it is not reported. -/
theorem refOf_silent (name : String) : Silent (refOf name) := by
  refine .bind get_silent fun g => ?_
  split
  · exact .pure _
  · exact .bind (nameConstant_silent name) fun _ => .pure _

theorem bindingRef_silent : (binding : Option String) → Silent (bindingRef binding)
  | some name => .bind (refOf_silent name) fun _ => .pure _
  | none => .pure _

theorem parameterSlots_silent (names : List String) : Silent (parameterSlots names) :=
  .bind get_silent fun _ => .pure _

/-! ## Expressions, statements and functions -/

/-- The place of a node is what its surroundings say. -/
structure Suits (place : Place) (around : Surroundings) : Prop where
  inLoop : place.inLoop = around.inLoop
  derived : around.derived = true ↔ ∃ base rest, place.bases = some (base :: rest)

/-- The body of a loop is in the loop. -/
theorem Suits.looped {place : Place} {around : Surroundings} (suits : Suits place around) :
    Suits { place with inLoop := true } around.looped :=
  ⟨rfl, suits.derived⟩

/-- What has its place in a loop is reported outside of loops. -/
theorem checkLoop_reports {place : Place} {around : Surroundings} (suits : Suits place around)
    (loc : Location) (kind : CompileErrorKind) :
    Reports (checkLoop place loc kind) (around.inLoop = true) := by
  unfold checkLoop
  rw [← suits.inLoop]
  cases place.inLoop with
  | true => exact (Silent.pure ()).reports.congr (iff_of_true trivial rfl)
  | false => exact (report_reports loc kind).congr (iff_of_false id Bool.false_ne_true)

/-- A super call finds a base to call, or is reported. -/
theorem superCall_reports {place : Place} {around : Surroundings} (suits : Suits place around)
    (loc : Location) (args : List Linked.Expr) :
    Reports (match place.bases with
      | some (base :: _) => do return .superCall loc args (some (← basePath base))
      | _ => do
          report loc .superCallOutsideConstructor
          return Linked.Expr.superCall loc args none) (around.derived = true) := by
  have derived := suits.derived
  split
  · next base rest bases =>
      refine (Silent.bind (nameConstants_silent _) fun _ => .pure _).reports.congr ?_
      exact iff_of_true trivial (derived.2 ⟨base, rest, bases⟩)
  · next missing =>
      refine ((report_reports loc _).map _).congr (iff_of_false id fun some => ?_)
      obtain ⟨base, rest, bases⟩ := derived.1 some
      exact missing base rest bases

/-- Code that is not a constructor's own has no base to call. -/
theorem none_derived :
    false = true ↔ ∃ base rest, (none : Option (List String)) = some (base :: rest) := by
  simp

mutual

/-- Of sites that resolve, those of an expression are reported that do not generate. The induction
is on the expression. -/
theorem expr_reports {place : Place} {around : Surroundings} (suits : Suits place around) :
    (e : Expr) → (∀ site ∈ e.sites around, site.Resolves) →
    Reports (expr place e) (∀ site ∈ e.sites around, site.Generates)
  | .null _, _ | .bool _ _, _ | .self _, _ =>
      (Reports.pure _).congr (by simp [Expr.sites, Expr.callsWell])
  | .int _ _, _ | .float _ _, _ =>
      ((addConstant_silent _).bind fun _ => .pure _).reports.congr
        (by simp [Expr.sites, Expr.callsWell])
  | .str _ _, _ =>
      ((nameConstant_silent _).bind fun _ => .pure _).reports.congr
        (by simp [Expr.sites, Expr.callsWell])
  | .name _ _, _ =>
      ((refOf_silent _).bind fun _ => .pure _).reports.congr (by simp [Expr.sites, Expr.callsWell])
  | .attr _ object _, fine => by
      simp only [Expr.sites, List.forall_mem_cons] at fine ⊢
      refine ((expr_reports suits object fine.2).followed fun _ => (nameConstant_silent _).bind
        fun _ => .pure _).congr ?_
      simp [Expr.callsWell]
  | .index _ object index, fine => by
      simp only [Expr.sites, List.cons_append, List.forall_mem_cons,
        List.forall_mem_append] at fine ⊢
      obtain ⟨_, first, second⟩ := fine
      refine ((expr_reports suits object first).bind
        fun _ => (expr_reports suits index second).map _).congr ?_
      simp [Expr.callsWell]
  | .call _ callee args keywords, fine => by
      simp only [Expr.sites, List.cons_append, List.forall_mem_cons,
        List.forall_mem_append] at fine ⊢
      obtain ⟨_, ⟨first, second⟩, third⟩ := fine
      refine ((exprs_reports suits args first).bind fun _ =>
        (namedExprs_reports suits keywords second).bind fun _ =>
          (expr_reports suits callee third).map _).congr ?_
      simp [Expr.callsWell, and_assoc]
  | .superCall loc args, fine => by
      simp only [Expr.sites, List.forall_mem_cons] at fine ⊢
      refine ((exprs_reports suits args fine.2).bind
        fun _ => superCall_reports suits loc _).congr ?_
      rw [Site.generates_expr, Expr.callsWell, and_comm]
  | .binary _ _ left right, fine => by
      simp only [Expr.sites, List.cons_append, List.forall_mem_cons,
        List.forall_mem_append] at fine ⊢
      obtain ⟨_, first, second⟩ := fine
      refine ((expr_reports suits left first).bind
        fun _ => (expr_reports suits right second).map _).congr ?_
      simp [Expr.callsWell]
  | .unary _ _ operand, fine => by
      simp only [Expr.sites, List.forall_mem_cons] at fine ⊢
      refine ((expr_reports suits operand fine.2).map _).congr ?_
      simp [Expr.callsWell]
  | .assign _ object none value, fine => by
      simp only [Expr.sites, List.cons_append, List.forall_mem_cons,
        List.forall_mem_append] at fine ⊢
      obtain ⟨assignable, first, second⟩ := fine
      refine ((expr_reports suits value second).bind fun _ =>
        (target_reports suits object assignable first).map _).congr ?_
      simp [Expr.callsWell, and_comm]
  | .assign _ object (some op) value, fine => by
      simp only [Expr.sites, List.cons_append, List.forall_mem_cons,
        List.forall_mem_append] at fine ⊢
      obtain ⟨assignable, first, second⟩ := fine
      refine ((expr_reports suits object first).bind fun _ =>
        (expr_reports suits value second).bind fun _ =>
          (target_reports suits object assignable first).map _).congr ?_
      simp only [Site.generates_expr, Expr.callsWell, true_and]
      exact ⟨fun ⟨old, value, _⟩ => ⟨old, value⟩, fun ⟨old, value⟩ => ⟨old, value, old⟩⟩
  | .list _ items, fine => by
      simp only [Expr.sites, List.forall_mem_cons] at fine ⊢
      refine ((exprs_reports suits items fine.2).map _).congr ?_
      simp [Expr.callsWell]
  | .tuple _ items, fine => by
      simp only [Expr.sites, List.forall_mem_cons] at fine ⊢
      refine ((exprs_reports suits items fine.2).map _).congr ?_
      simp [Expr.callsWell]
  | .hash _ pairs, fine => by
      simp only [Expr.sites, List.forall_mem_cons] at fine ⊢
      refine ((exprPairs_reports suits pairs fine.2).map _).congr ?_
      simp [Expr.callsWell]
  | .lambda _ decl, fine => by
      simp only [Expr.sites, List.forall_mem_cons] at fine ⊢
      refine ((function_reports _ false none_derived decl fine.2).followed fun _ =>
        (addConstant_silent _).bind fun _ => .pure _).congr ?_
      simp [Expr.callsWell]
  | .isType _ value type, fine => by
      simp only [Expr.sites, List.cons_append, List.forall_mem_cons,
        List.forall_mem_append] at fine ⊢
      obtain ⟨_, first, second⟩ := fine
      refine ((expr_reports suits value first).bind
        fun _ => (expr_reports suits type second).map _).congr ?_
      simp [Expr.callsWell]
  | .asType _ value type, fine => by
      simp only [Expr.sites, List.cons_append, List.forall_mem_cons,
        List.forall_mem_append] at fine ⊢
      obtain ⟨_, first, second⟩ := fine
      refine ((expr_reports suits value first).bind
        fun _ => (expr_reports suits type second).map _).congr ?_
      simp [Expr.callsWell]
  | .coalesce _ left right, fine => by
      simp only [Expr.sites, List.cons_append, List.forall_mem_cons,
        List.forall_mem_append] at fine ⊢
      obtain ⟨_, first, second⟩ := fine
      refine ((expr_reports suits left first).bind
        fun _ => (expr_reports suits right second).map _).congr ?_
      simp [Expr.callsWell]
  | .ternary _ condition thenValue elseValue, fine => by
      simp only [Expr.sites, List.cons_append, List.forall_mem_cons,
        List.forall_mem_append] at fine ⊢
      obtain ⟨_, ⟨first, second⟩, third⟩ := fine
      refine ((expr_reports suits condition first).bind fun _ =>
        (expr_reports suits thenValue second).bind fun _ =>
          (expr_reports suits elseValue third).map _).congr ?_
      simp [Expr.callsWell, and_assoc]

theorem target_reports {place : Place} {around : Surroundings} (suits : Suits place around) :
    (e : Expr) → e.isAssignable = true → (∀ site ∈ e.sites around, site.Resolves) →
    Reports (target place e) (∀ site ∈ e.sites around, site.Generates)
  | .name _ _, _, _ =>
      ((refOf_silent _).bind fun _ => .pure _).reports.congr (by simp [Expr.sites, Expr.callsWell])
  | .attr _ object _, _, fine => by
      simp only [Expr.sites, List.forall_mem_cons] at fine ⊢
      refine ((expr_reports suits object fine.2).followed fun _ =>
        (nameConstant_silent _).bind fun _ => .pure _).congr ?_
      simp [Expr.callsWell]
  | .index _ object index, _, fine => by
      simp only [Expr.sites, List.cons_append, List.forall_mem_cons,
        List.forall_mem_append] at fine ⊢
      obtain ⟨_, first, second⟩ := fine
      refine ((expr_reports suits object first).bind fun _ =>
        (expr_reports suits index second).map _).congr ?_
      simp [Expr.callsWell]

theorem exprs_reports {place : Place} {around : Surroundings} (suits : Suits place around) :
    (items : List Expr) → (∀ site ∈ sitesOfExprs around items, site.Resolves) →
    Reports (exprs place items) (∀ site ∈ sitesOfExprs around items, site.Generates)
  | [], _ => (Reports.pure _).congr (by simp [sitesOfExprs])
  | e :: rest, fine => by
      simp only [sitesOfExprs, List.forall_mem_append] at fine ⊢
      exact (expr_reports suits e fine.1).bind fun _ => (exprs_reports suits rest fine.2).map _

theorem optionalExpr_reports {place : Place} {around : Surroundings} (suits : Suits place around) :
    (e : Option Expr) → (∀ site ∈ sitesOfOptionalExpr around e, site.Resolves) →
    Reports (optionalExpr place e) (∀ site ∈ sitesOfOptionalExpr around e, site.Generates)
  | none, _ => (Reports.pure _).congr (by simp [sitesOfOptionalExpr])
  | some e, fine => (expr_reports suits e fine).map _

theorem namedExprs_reports {place : Place} {around : Surroundings} (suits : Suits place around) :
    (items : List (String × Expr)) → (∀ site ∈ sitesOfKeywords around items, site.Resolves) →
    Reports (namedExprs place items) (∀ site ∈ sitesOfKeywords around items, site.Generates)
  | [], _ => (Reports.pure _).congr (by simp [sitesOfKeywords])
  | (name, e) :: rest, fine => by
      simp only [sitesOfKeywords, List.forall_mem_append] at fine ⊢
      exact .silently (nameConstant_silent name) fun _ =>
        (expr_reports suits e fine.1).bind fun _ => (namedExprs_reports suits rest fine.2).map _

theorem exprPairs_reports {place : Place} {around : Surroundings} (suits : Suits place around) :
    (items : List (Expr × Expr)) → (∀ site ∈ sitesOfPairs around items, site.Resolves) →
    Reports (exprPairs place items) (∀ site ∈ sitesOfPairs around items, site.Generates)
  | [], _ => (Reports.pure _).congr (by simp [sitesOfPairs])
  | (key, value) :: rest, fine => by
      simp only [sitesOfPairs, List.forall_mem_append, and_assoc] at fine ⊢
      obtain ⟨first, second, third⟩ := fine
      exact (expr_reports suits key first).bind fun _ =>
        (expr_reports suits value second).bind fun _ =>
          (exprPairs_reports suits rest third).map _

/-- The sites of a function are those of its body, which is in no loop. -/
theorem function_reports {bases : Option (List String)} {derived : Bool} (name : String)
    (isInstanceMethod : Bool)
    (derives : derived = true ↔ ∃ base rest, bases = some (base :: rest)) :
    (decl : FuncDecl) → (∀ site ∈ decl.sites derived, site.Resolves) →
    Reports (function name isInstanceMethod bases decl)
      (∀ site ∈ decl.sites derived, site.Generates)
  | .mk sig body, fine => by
      simp only [FuncDecl.sites, List.forall_mem_cons] at fine ⊢
      have suits : Suits { inFunction := true, bases } { body := .function, derived } :=
        ⟨rfl, derives⟩
      refine .congr (.silently (enterScope_silent _) fun _ => .silently get_silent fun _ =>
        .silently (parameterSlots_silent _) fun _ => .silently (basePaths_silent _) fun _ =>
          (stmts_reports suits rfl body fine.2).followed fun _ => .bind get_silent fun _ =>
            .bind exitScope_silent fun _ => addFunction_silent _) ?_
      simp

/-- Of sites that resolve, those of a statement are reported that do not generate. The induction is
on the statement. -/
theorem stmt_reports {place : Place} {around : Surroundings} (suits : Suits place around)
    (inside : around.body = .function) : (s : Stmt) → (∀ site ∈ s.sites around, site.Resolves) →
    Reports (stmt place s) (∀ site ∈ s.sites around, site.Generates)
  | .expr _ value, fine => by
      simp only [Stmt.sites, List.forall_mem_cons] at fine ⊢
      exact ((expr_reports suits value fine.2).map _).congr (by simp [Stmt.isLoopExit])
  | .block _ body, fine => by
      simp only [Stmt.sites, List.forall_mem_cons] at fine ⊢
      refine .congr (.silently (enterScope_silent _) fun _ =>
        (stmts_reports suits inside body fine.2).followed fun _ =>
          .bind exitScope_silent fun _ => .pure _) ?_
      simp [Stmt.isLoopExit]
  | .ifElse _ condition body orelse, fine => by
      simp only [Stmt.sites, List.cons_append, List.forall_mem_cons,
        List.forall_mem_append] at fine ⊢
      obtain ⟨_, ⟨first, second⟩, third⟩ := fine
      refine ((expr_reports suits condition first).bind fun _ =>
        (stmt_reports suits inside body second).bind fun _ =>
          (optionalStmt_reports suits inside orelse third).map _).congr ?_
      simp [Stmt.isLoopExit, and_assoc]
  | .whileLoop _ condition body, fine => by
      simp only [Stmt.sites, List.cons_append, List.forall_mem_cons,
        List.forall_mem_append] at fine ⊢
      obtain ⟨_, first, second⟩ := fine
      refine ((expr_reports suits condition first).bind fun _ =>
        (stmt_reports suits.looped inside body second).map _).congr ?_
      simp [Stmt.isLoopExit]
  | .doWhile _ body condition, fine => by
      simp only [Stmt.sites, List.cons_append, List.forall_mem_cons,
        List.forall_mem_append] at fine ⊢
      obtain ⟨_, first, second⟩ := fine
      refine ((stmt_reports suits.looped inside body first).bind fun _ =>
        (expr_reports suits condition second).map _).congr ?_
      simp [Stmt.isLoopExit]
  | .forLoop _ start condition step body, fine => by
      simp only [Stmt.sites, List.cons_append, List.forall_mem_cons,
        List.forall_mem_append] at fine ⊢
      obtain ⟨_, ⟨⟨first, second⟩, third⟩, fourth⟩ := fine
      refine .congr (.silently (enterScope_silent _) fun _ =>
        (optionalStmt_reports suits inside start first).bind fun _ =>
          (optionalExpr_reports suits condition second).bind fun _ =>
            (stmt_reports suits.looped inside body third).bind fun _ =>
              (optionalExpr_reports suits step fourth).followed fun _ =>
                .bind exitScope_silent fun _ => .pure _) ?_
      simp [Stmt.isLoopExit, and_assoc]
  | .foreach _ item iterable body, fine => by
      simp only [Stmt.sites, List.cons_append, List.forall_mem_cons,
        List.forall_mem_append] at fine ⊢
      obtain ⟨_, first, second⟩ := fine
      refine ((expr_reports suits iterable first).bind fun _ =>
        .silently (enterScope_silent _) fun _ => .silently (refOf_silent item) fun _ =>
          (stmt_reports suits.looped inside body second).followed fun _ =>
            .bind exitScope_silent fun _ => .pure _).congr ?_
      simp [Stmt.isLoopExit]
  | .given _ value cases otherwise, fine => by
      simp only [Stmt.sites, List.cons_append, List.forall_mem_cons,
        List.forall_mem_append] at fine ⊢
      obtain ⟨_, ⟨first, second⟩, third⟩ := fine
      refine ((expr_reports suits value first).bind fun _ =>
        (whenCases_reports suits inside cases second).bind fun _ =>
          (optionalStmt_reports suits inside otherwise third).map _).congr ?_
      simp [Stmt.isLoopExit, and_assoc]
  | .breakLoop loc, _ =>
      ((checkLoop_reports suits loc _).map _).congr (by simp [Stmt.sites, Stmt.isLoopExit])
  | .continueLoop loc, _ =>
      ((checkLoop_reports suits loc _).map _).congr (by simp [Stmt.sites, Stmt.isLoopExit])
  | .ret _ value, fine => by
      simp only [Stmt.sites, List.forall_mem_cons] at fine ⊢
      exact ((optionalExpr_reports suits value fine.2).map _).congr (by simp [Stmt.isLoopExit])
  | .raise _ value, fine => by
      simp only [Stmt.sites, List.forall_mem_cons] at fine ⊢
      exact ((expr_reports suits value fine.2).map _).congr (by simp [Stmt.isLoopExit])
  | .tryExcept _ body binding types handler, fine => by
      simp only [Stmt.sites, List.cons_append, List.forall_mem_cons,
        List.forall_mem_append] at fine ⊢
      obtain ⟨_, ⟨first, second⟩, third⟩ := fine
      refine ((stmt_reports suits inside body first).bind fun _ =>
        .silently (enterScope_silent _) fun _ => (exprs_reports suits types second).bind fun _ =>
          .silently (bindingRef_silent binding) fun _ =>
            (stmt_reports suits inside handler third).followed fun _ =>
              .bind exitScope_silent fun _ => .pure _).congr ?_
      simp [Stmt.isLoopExit, and_assoc]
  | .function _ decl, fine => by
      simp only [Stmt.sites, List.forall_mem_cons] at fine ⊢
      refine ((function_reports _ false none_derived decl fine.2).followed fun _ =>
        (addConstant_silent _).bind fun _ => (refOf_silent _).bind fun _ => .pure _).congr ?_
      simp [Stmt.isLoopExit]
  | .classDef _ _, fine | .enumDef _ _, fine | .interfaceDef _ _, fine | .use _ _, fine => by
      simp [Stmt.sites, inside, Stmt.mayStand, Stmt.isDeclaration] at fine

theorem optionalStmt_reports {place : Place} {around : Surroundings} (suits : Suits place around)
    (inside : around.body = .function) :
    (s : Option Stmt) → (∀ site ∈ sitesOfOptionalStmt around s, site.Resolves) →
    Reports (optionalStmt place s) (∀ site ∈ sitesOfOptionalStmt around s, site.Generates)
  | none, _ => (Reports.pure _).congr (by simp [sitesOfOptionalStmt])
  | some s, fine => (stmt_reports suits inside s fine).map _

theorem stmts_reports {place : Place} {around : Surroundings} (suits : Suits place around)
    (inside : around.body = .function) :
    (body : List Stmt) → (∀ site ∈ sitesOfStmts around body, site.Resolves) →
    Reports (stmts place body) (∀ site ∈ sitesOfStmts around body, site.Generates)
  | [], _ => (Reports.pure _).congr (by simp [sitesOfStmts])
  | s :: rest, fine => by
      simp only [sitesOfStmts, List.forall_mem_append] at fine ⊢
      exact (stmt_reports suits inside s fine.1).bind fun _ =>
        (stmts_reports suits inside rest fine.2).map _

theorem whenCases_reports {place : Place} {around : Surroundings} (suits : Suits place around)
    (inside : around.body = .function) :
    (cases : List (List Expr × Stmt)) → (∀ site ∈ sitesOfCases around cases, site.Resolves) →
    Reports (whenCases place cases) (∀ site ∈ sitesOfCases around cases, site.Generates)
  | [], _ => (Reports.pure _).congr (by simp [sitesOfCases])
  | (values, body) :: rest, fine => by
      simp only [sitesOfCases, List.forall_mem_append, and_assoc] at fine ⊢
      obtain ⟨first, second, third⟩ := fine
      exact (exprs_reports suits values first).bind fun _ =>
        (stmt_reports suits inside body second).bind fun _ =>
          (whenCases_reports suits inside rest third).map _

end

/-! ## Enums -/

/-- Values of an enumeration are number literals, perhaps negated. -/
theorem enumLiteral?_isSome (e : Expr) : (enumLiteral? e).isSome = true ↔ e.IsEnumValue := by
  constructor
  · intro some
    unfold enumLiteral? at some
    split at some
    · exact .literal _ _
    · next loc loc' value =>
        refine .negated _ _ _ ?_
        unfold Word.ofInt? at some
        split at some
        · next fits => exact fits.2
        · cases some
    · cases some
  · intro is
    cases is with
    | literal loc value => rfl
    | negated loc loc' value fits =>
        have bound := Int64.toInt_lt value
        have fits : Word.Fits (-value.toInt) := ⟨by unfold Word.least; omega, fits⟩
        rw [enumLiteral?, Word.ofInt?, if_pos fits]
        rfl

/-- Members have different names. -/
theorem enumMember_reports (members : List (String × Int64)) (name : String) (value : Int64)
    (loc : Location) : Reports (enumMember members name value loc) (name ∉ members.map (·.1)) := by
  have found : members.any (·.1 == name) = true ↔ name ∈ members.map (·.1) := by
    simp [List.any_eq_true]
  unfold enumMember
  split
  · next repeated =>
      exact ((report_reports loc _).map _).congr (iff_of_false id (not_not_intro (found.1 repeated)))
  · next new =>
      exact (Reports.pure _).congr (iff_of_true trivial (mt found.2 new))

theorem enumMember_gives (members : List (String × Int64)) (name : String) (value : Int64)
    (loc : Location) : Gives (enumMember members name value loc)
    (· = members ++ [(name, value)]) := by
  unfold enumMember
  split
  · exact .after fun _ => .pure rfl
  · exact .pure rfl

/-- Each member has a value of its own or the next one. -/
theorem enumMembers_reports (items : List (String × Option Expr × Location))
    (members : List (String × Int64)) (next : Int64) :
    Reports (enumMembers members next items) (Fresh (members.map (·.1)) (items.map (·.1)) ∧
      ∀ name value loc, (name, some value, loc) ∈ items → value.IsEnumValue) := by
  induction items generalizing members next with
  | nil => exact (Reports.pure _).congr (by simp [fresh_nil])
  | cons item rest ih =>
      obtain ⟨name, value, loc⟩ := item
      have added (word next : Int64) : Reports
          (enumMember members name word loc >>= fun members => enumMembers members next rest)
          (Fresh (members.map (·.1)) (name :: rest.map (·.1)) ∧
            ∀ name value loc, (name, some value, loc) ∈ rest → value.IsEnumValue) := by
        refine .congr (.bindValue (enumMember_gives members name word loc)
          (enumMember_reports members name word loc) (ih (members ++ [(name, word)]) next)) ?_
        rw [fresh_cons, and_assoc, List.map_append]
        rfl
      cases value with
      | none => exact (added next (next - 1)).congr (and_congr_right fun _ => by simp)
      | some value =>
          have literal := enumLiteral?_isSome value
          rw [enumMembers]
          cases found : enumLiteral? value with
          | some word =>
              have valid : value.IsEnumValue := literal.1 (by rw [found]; rfl)
              refine (added word next).congr (and_congr_right fun _ => ?_)
              constructor
              · intro others name' value' loc' member
                obtain same | member := List.mem_cons.1 member
                · cases same
                  exact valid
                · exact others name' value' loc' member
              · exact fun all name' value' loc' member =>
                  all name' value' loc' (List.mem_cons_of_mem _ member)
          | none =>
              have invalid : ¬ value.IsEnumValue := fun valid => by
                have some := literal.2 valid
                rw [found] at some
                cases some
              refine ((report_reports loc _).bind fun _ => ih members next).congr ?_
              exact iff_of_false (fun both => both.1) fun both =>
                invalid (both.2 name value loc List.mem_cons_self)

theorem enumDef_reports (decl : EnumDecl) :
    Reports (enumDef decl) (Site.enumBody decl).Generates :=
  ((enumMembers_reports decl.members [] (-1)).followed fun _ => fun _ => ⟨rfl, rfl⟩).congr
    (and_congr_left fun _ => fresh_empty)

/-! ## Classes -/

/-- A member takes a name that no member before it has. -/
theorem insert_reports {α : Type} {f : ClassTables → Gen α} {P : Prop} {names : List String}
    {add : ClassTables → ClassTables} (tables : ClassTables) (loc : Location) (name : String)
    (keeps : ∀ t, (add t).seen = t.seen)
    (further : ∀ t, Reports (f t) (P ∧ Fresh t.seen names)) :
    Reports (tables.insert loc name add >>= f) (P ∧ Fresh tables.seen (name :: names)) := by
  unfold ClassTables.insert
  split
  · next repeated =>
      have old : name ∈ tables.seen := List.contains_iff_mem.1 repeated
      refine (((report_reports loc _).map _).bindValue (fun _ => rfl) (further tables)).congr ?_
      exact iff_of_false (fun both => both.1) fun both => (fresh_cons.1 both.2).1 old
  · next new =>
      have new : name ∉ tables.seen := fun old => new (List.contains_iff_mem.2 old)
      refine (further (add { tables with seen := tables.seen ++ [name] })).congr ?_
      rw [keeps, fresh_cons, and_iff_right new]

theorem constructorDef_reports (outer : Location) : (decl : ClassDecl) → (match decl with
    | .mk _ _ bases ctor _ =>
        (∀ site ∈ sitesOfOptionalFunction (!bases.isEmpty) ctor, site.Resolves) →
        Reports (constructorDef outer decl)
          (∀ site ∈ sitesOfOptionalFunction (!bases.isEmpty) ctor, site.Generates))
  | .mk _ name bases (some decl) _ => fun fine => by
      have derives : (!bases.isEmpty) = true ↔ ∃ base rest, some bases = some (base :: rest) := by
        cases bases <;> simp
      exact function_reports name true derives decl fine
  | .mk _ _ bases none _ => fun _ => by
      refine (Silent.reports (.bind (enterScope_silent _) fun _ => .bind get_silent fun _ =>
        .bind (basePaths_silent bases) fun _ => .bind get_silent fun _ =>
          .bind exitScope_silent fun _ => addFunction_silent _)).congr ?_
      simp [sitesOfOptionalFunction]

theorem fieldSetter_reports {decl : ClassDecl} {P : Prop}
    (fields : Reports (fieldValues [] decl.members) P) : Reports (fieldSetter decl) P := by
  refine .silently (enterScope_silent _) fun _ => .silently get_silent fun _ =>
    fields.followed fun (items, seen) => .bind get_silent fun _ => .bind exitScope_silent
      fun _ => ?_
  split
  · exact .pure _
  · exact .bind (addFunction_silent _) fun _ => .pure _

/-- The fields are named in the order in which they are set. -/
theorem fieldSetter_gives {decl : ClassDecl} {names : List String}
    (fields : Gives (fieldValues [] decl.members) (·.2 = names)) :
    Gives (fieldSetter decl) (·.2 = names) := by
  refine .after fun _ => .after fun _ => .bind fields fun (items, seen) same =>
    .after fun _ => .after fun _ => ?_
  split
  · exact .pure same
  · exact .after fun _ => .pure same

theorem nameConstant_gives (name : String) : Gives (nameConstant name) (·.name = name) := by
  refine .after fun g => ?_
  split
  · exact .pure rfl
  · exact .after fun _ => .pure rfl

section

variable {P Q : Prop} {names : List String} {rest : List Stmt}

/-- A field takes a name that no field before it has. -/
theorem field_reports {value : Expr} (loc loc' loc'' : Location) (ident : String)
    (op : Option BinaryOp) (seen : List String)
    (own : Reports (expr { inFunction := true } value) P)
    (fields : ∀ seen, Reports (fieldValues seen rest) (Q ∧ Fresh seen names)) :
    Reports (fieldValues seen (.expr loc (.assign loc' (.name loc'' ident) op value) :: rest))
      ((P ∧ Q) ∧ Fresh seen (ident :: names)) := by
  have value := own.bind fun value => Binds.bindWith (Q := Q ∧ Fresh (seen ++ [ident]) names)
    (nameConstant_gives ident) (nameConstant_silent ident).reports
      fun x same => .congr ((fields (seen ++ [x.name])).map fun found =>
        ({ loc := loc', ident := x, value : Linked.Field } :: found.1, found.2)) (by rw [same])
  rw [true_and, ← and_assoc] at value
  unfold fieldValues
  split
  · next repeated =>
      have old : ident ∈ seen := List.contains_iff_mem.1 repeated
      refine ((report_reports loc' _).bind fun _ => value).congr ?_
      exact iff_of_false (fun both => both.1) fun both => (fresh_cons.1 both.2).1 old
  · next new =>
      have new : ident ∉ seen := fun old => new (List.contains_iff_mem.2 old)
      refine value.congr ?_
      rw [fresh_cons, and_iff_right new]

/-- A field that is assigned with an operator is a field as well. -/
theorem field_gives {value : Expr} (loc loc' loc'' : Location) (ident : String)
    (op : Option BinaryOp) (seen : List String)
    (fields : ∀ seen, Gives (fieldValues seen rest) (·.2 = seen ++ names)) :
    Gives (fieldValues seen (.expr loc (.assign loc' (.name loc'' ident) op value) :: rest))
      (·.2 = seen ++ ident :: names) := by
  have further (value : Linked.Expr) : Gives
      (nameConstant ident >>= fun x => fieldValues (seen ++ [x.name]) rest >>= fun found =>
        pure ({ loc := loc', ident := x, value : Linked.Field } :: found.1, found.2))
      (·.2 = seen ++ ident :: names) := by
    refine .bind (nameConstant_gives ident) fun x same =>
      .bind (fields (seen ++ [x.name])) fun found gives => .pure ?_
    rw [gives, same, List.append_assoc, List.singleton_append]
  unfold fieldValues
  split
  · exact .after fun _ => .after further
  · exact .after further

end

mutual

/-- The sites of a class are its own, those of its members and those of its constructor. -/
theorem classDef_reports (outer : Location) : (decl : ClassDecl) →
    (∀ site ∈ decl.sites, site.Resolves) →
    Reports (classDef outer decl) (∀ site ∈ decl.sites, site.Generates)
  | .mk loc name bases ctor members, fine => by
      simp only [ClassDecl.sites, List.cons_append, List.forall_mem_cons,
        List.forall_mem_append] at fine ⊢
      obtain ⟨P, Q, names, others, fields, set, further, both, all⟩ :=
        members_reports outer members fine.2.2
      have setter : Reports (fieldSetter (.mk loc name bases ctor members)) (P ∧ Fresh [] names) :=
        fieldSetter_reports (fields [])
      have gives : Gives (fieldSetter (.mk loc name bases ctor members)) (·.2 = names) :=
        fieldSetter_gives (set [])
      have distinct : Fresh [] names ∧ Fresh names others ↔
          (members.filterMap Stmt.memberName?).Nodup := by
        rw [← all.nodup_iff, ← fresh_empty, fresh_append, List.nil_append]
      refine .congr ((constructorDef_reports outer (.mk loc name bases ctor members) fine.2.1).bind
        fun _ => setter.bindWith (Q := Q ∧ Fresh names others) gives ?_) ?_
      · rintro ⟨index, seen⟩ rfl
        exact (further { seen }).followed fun _ _ => ⟨rfl, rfl⟩
      · rw [← both, Site.Generates]
        change _ ↔ (members.filterMap Stmt.memberName?).Nodup ∧ _
        rw [← distinct]
        exact ⟨fun ⟨own, ⟨set, new⟩, rest, other⟩ => ⟨⟨new, other⟩, own, set, rest⟩,
          fun ⟨⟨new, other⟩, own, set, rest⟩ => ⟨own, ⟨set, new⟩, rest, other⟩⟩

/-- The members of a class are visited twice: once for its fields, and once for all else. -/
theorem members_reports (outer : Location) : (members : List Stmt) →
    (∀ site ∈ sitesOfStmts { body := .cls } members, site.Resolves) →
    ∃ (P Q : Prop) (names others : List String),
      (∀ seen, Reports (fieldValues seen members) (P ∧ Fresh seen names)) ∧
      (∀ seen, Gives (fieldValues seen members) (·.2 = seen ++ names)) ∧
      (∀ tables, Reports (classMembers outer tables members) (Q ∧ Fresh tables.seen others)) ∧
      (P ∧ Q ↔ ∀ site ∈ sitesOfStmts { body := .cls } members, site.Generates) ∧
      (names ++ others).Perm (members.filterMap Stmt.memberName?)
  | [], _ => by
      refine ⟨True, True, [], [], fun seen => ?_, fun seen => ?_, fun tables => ?_, ?_, .refl _⟩
      · exact (Reports.pure _).congr (by simp [fresh_nil])
      · exact .pure (List.append_nil seen).symm
      · exact (Reports.pure _).congr (by simp [fresh_nil])
      · simp [sitesOfStmts]
  | member :: rest, fine => by
      simp only [sitesOfStmts, List.forall_mem_append] at fine
      obtain ⟨P, Q, names, others, fields, set, further, both, all⟩ :=
        members_reports outer rest fine.2
      cases member with
      | expr loc e =>
          cases e with
          | assign loc' object op value =>
              cases object with
              | name loc'' ident =>
                  simp only [Stmt.sites, Expr.sites, List.cons_append, List.nil_append,
                    List.forall_mem_cons] at fine
                  obtain ⟨⟨placed, assigned, named, fine⟩, _⟩ := fine
                  have suits : Suits { inFunction := true } { body := .cls } := ⟨rfl, none_derived⟩
                  have own := expr_reports suits value fine
                  refine ⟨_ ∧ P, Q, ident :: names, others,
                    fun seen => field_reports loc loc' loc'' ident op seen own fields,
                    fun seen => ?_, further, ?_, .cons _ all⟩
                  · exact field_gives loc loc' loc'' ident op seen set
                  · simp only [sitesOfStmts, Stmt.sites, Expr.sites, List.cons_append,
                      List.nil_append, List.forall_mem_cons, List.forall_mem_append, ← both]
                    simp [Expr.callsWell, Stmt.isLoopExit, and_assoc]
              | _ => simp [Stmt.sites, Stmt.mayStand, Stmt.isMember] at fine
          | _ => simp [Stmt.sites, Stmt.mayStand, Stmt.isMember] at fine
      | function loc decl =>
          simp only [Stmt.sites, List.forall_mem_cons] at fine
          have own := function_reports decl.sig.name (!decl.sig.isStatic) none_derived decl fine.1.2
          refine ⟨P, _, names, decl.sig.name :: others, fields, set,
            fun tables => .congr (own.bind fun index =>
            insert_reports tables decl.sig.loc decl.sig.name ?_ further) and_assoc.symm, ?_, ?_⟩
          · intro t
            split <;> rfl
          · simp only [sitesOfStmts, Stmt.sites, List.cons_append, List.forall_mem_cons,
              List.forall_mem_append, ← both]
            simp [Stmt.isLoopExit, and_left_comm]
          · exact List.perm_middle.trans (.cons _ all)
      | classDef loc decl =>
          simp only [Stmt.sites, List.forall_mem_cons] at fine
          have own := classDef_reports outer decl fine.1.2
          refine ⟨P, _, names, decl.name :: others, fields, set,
            fun tables => .congr (own.bind fun index =>
            insert_reports tables decl.loc decl.name (fun _ => rfl) further) and_assoc.symm, ?_, ?_⟩
          · simp only [sitesOfStmts, Stmt.sites, List.cons_append, List.forall_mem_cons,
              List.forall_mem_append, ← both]
            simp [Stmt.isLoopExit, and_left_comm]
          · exact List.perm_middle.trans (.cons _ all)
      | enumDef loc decl =>
          refine ⟨P, _, names, decl.name :: others, fields, set, fun tables => .congr
            ((enumDef_reports decl).bind fun index =>
              insert_reports tables decl.loc decl.name (fun _ => rfl) further) and_assoc.symm,
            ?_, ?_⟩
          · simp only [sitesOfStmts, Stmt.sites, List.cons_append, List.nil_append,
              List.forall_mem_cons, ← both]
            simp [Stmt.isLoopExit, and_left_comm]
          · exact List.perm_middle.trans (.cons _ all)
      | _ => simp [Stmt.sites, Stmt.mayStand, Stmt.isMember] at fine

end

/-! ## The top level -/

/-- A name is bound, and it is reported if it was bound before. -/
theorem bindAttribute_binds (loc : Location) (name : String) (value : Binding) :
    Binds (bindAttribute loc name value) True [name] := by
  have fresh {g : Generator} : Fresh g.boundNames [name] ↔ name ∉ g.boundNames := by
    rw [fresh_cons, and_iff_left (fresh_nil _)]
  have found {g : Generator} : g.attributes.any (·.1 == name) = true ↔ name ∈ g.boundNames := by
    simp [boundNames, List.any_eq_true]
  have runs (g : Generator) : (bindAttribute loc name value).run g =
      if name ∈ g.boundNames then (report loc (.duplicateDefinition name)).run g
      else ((), { g with attributes := g.attributes ++ [(name, value)] }) := by
    change StateT.run (if g.attributes.any (·.1 == name) = true then _ else _) g = _
    rw [apply_ite (StateT.run · g)]
    simp only [found]
    rfl
  refine ⟨fun g => ?_, fun g empty => ?_⟩
  · rw [runs, fresh, true_and]
    split
    · next old =>
        rw [(report_reports loc _).errors g]
        exact iff_of_false (fun both => both.2.1) fun both => both.2 old
    · next new => exact (and_iff_left new).symm
  · rw [runs] at empty ⊢
    split at empty
    · exact absurd (((report_reports loc _).errors g).1 empty).2.1 id
    · next new =>
        rw [if_neg new]
        exact List.map_append

theorem use_silent (decl : UseDecl) : Silent (use decl) := by
  have adds (module : String) : Silent (modify fun g : Generator =>
      if g.imports.contains module then g else { g with imports := g.imports ++ [module] }) := by
    refine modify_silent fun g => ?_
    split
    · exact ⟨rfl, rfl⟩
    · exact ⟨rfl, rfl⟩
  refine .bind get_silent fun g => .bind (nameConstant_silent _) fun _ => ?_
  split
  · exact .bind (.pure _) fun _ => .bind (adds _) fun _ => .pure _
  · exact .bind (addConstant_silent _) fun _ => .bind (adds _) fun _ => .pure _

mutual

theorem rootStmt_binds : (s : Stmt) → (∀ site ∈ s.sites { body := .unit }, site.Resolves) →
    Binds (rootStmt s) (∀ site ∈ s.sites { body := .unit }, site.Generates) s.declaredNames
  | .expr _ value, fine => by
      simp only [Stmt.sites, List.forall_mem_cons] at fine ⊢
      have suits : Suits {} { body := .unit } := ⟨rfl, none_derived⟩
      exact ((expr_reports suits value fine.2).map _).congr (by simp [Stmt.isLoopExit])
  | .block _ body, fine => by
      simp only [Stmt.sites, List.forall_mem_cons] at fine ⊢
      exact ((rootStmts_binds body fine.2).map _).congr (by simp [Stmt.isLoopExit])
  | .function loc decl, fine => by
      simp only [Stmt.sites, List.forall_mem_cons] at fine ⊢
      refine ((function_reports decl.sig.name false none_derived decl fine.2).bind fun index =>
        (bindAttribute_binds decl.sig.loc decl.sig.name (.method index)).map _).congr ?_
      simp [Stmt.isLoopExit]
  | .classDef loc decl, fine => by
      simp only [Stmt.sites, List.forall_mem_cons] at fine ⊢
      refine ((classDef_reports loc decl fine.2).bind fun index =>
        (bindAttribute_binds decl.loc decl.name (.cls index)).map _).congr ?_
      simp [Stmt.isLoopExit]
  | .enumDef loc decl, fine => by
      refine ((enumDef_reports decl).bind fun index =>
        (bindAttribute_binds decl.loc decl.name (.enum index)).map _).congr ?_
      simp [Stmt.sites, Stmt.isLoopExit]
  | .interfaceDef loc decl, _ => by
      refine .congr (.silently (a := interfaceDef decl) (fun _ => ⟨rfl, rfl⟩) fun index =>
        (bindAttribute_binds decl.loc decl.name (.interface index)).map _) ?_
      simp [Stmt.sites, Stmt.isLoopExit]
  | .use _ decl, _ =>
      ((use_silent decl).reports.map _).congr (by simp [Stmt.sites, Stmt.isLoopExit])
  | .ifElse .., fine | .whileLoop .., fine | .doWhile .., fine | .forLoop .., fine
  | .foreach .., fine | .given .., fine | .breakLoop .., fine | .continueLoop .., fine
  | .ret .., fine | .raise .., fine | .tryExcept .., fine => by
      simp [Stmt.sites, Stmt.mayStand, Stmt.isControlFlow] at fine

theorem rootStmts_binds : (body : List Stmt) →
    (∀ site ∈ sitesOfStmts { body := .unit } body, site.Resolves) →
    Binds (rootStmts body) (∀ site ∈ sitesOfStmts { body := .unit } body, site.Generates)
      (declaredNamesOf body)
  | [], _ => (Reports.pure _).congr (by simp [sitesOfStmts])
  | s :: rest, fine => by
      simp only [sitesOfStmts, List.forall_mem_append] at fine ⊢
      exact (rootStmt_binds s fine.1).bind fun _ => (rootStmts_binds rest fine.2).map _

end

end ScriptMachine.Generator
