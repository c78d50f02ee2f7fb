import Mathlib.Algebra.Group.Int.Defs
import ScriptMachine.Source.Tree

/-!
The rules that a unit has to follow, said of the nodes of its tree. `sites` lists every node with
what surrounds it: the body it stands in, whether a loop of the same function is around it, and
whether it is the own code of a constructor that has a base to call. `Admissible` then says what
must hold of nodes of each kind, and of the names that the unit declares. Each pass of the compiler
answers for some of the rules: `Site.Resolves` are those of the first pass and `Site.Generates`
those of the second.
-/

namespace ScriptMachine

/-! ## Nodes and what surrounds them -/

/-- What a statement stands in. Blocks and control flow do not count. -/
inductive BodyKind where
  | unit
  | function
  | cls
deriving Repr, DecidableEq

/-- What surrounds a node. -/
structure Surroundings where
  body : BodyKind
  /-- A loop of the same function has the node in its body. -/
  inLoop : Bool := false
  /-- The node is in the own code of the constructor of a class that declares a base. -/
  derived : Bool := false
deriving Repr, DecidableEq

/-- Inside the body of a loop. -/
def Surroundings.looped (around : Surroundings) : Surroundings :=
  { around with inLoop := true }

/-- A node of a program tree. -/
inductive Site where
  | stmt (around : Surroundings) (tree : Stmt)
  | expr (around : Surroundings) (tree : Expr)
  /-- A function, method, constructor or lambda. -/
  | function (sig : Signature)
  | classBody (decl : ClassDecl)
  | enumBody (decl : EnumDecl)

mutual

/-- The nodes of an expression. -/
def Expr.sites (around : Surroundings) : Expr → List Site
  | e@(.null _) | e@(.bool _ _) | e@(.int _ _) | e@(.float _ _) | e@(.str _ _) | e@(.name _ _)
  | e@(.self _) => [.expr around e]
  | e@(.attr _ target _) => .expr around e :: target.sites around
  | e@(.index _ target index) => .expr around e :: target.sites around ++ index.sites around
  | e@(.call _ callee args keywords) =>
      .expr around e :: sitesOfExprs around args ++ sitesOfKeywords around keywords
        ++ callee.sites around
  | e@(.superCall _ args) => .expr around e :: sitesOfExprs around args
  | e@(.binary _ _ left right) => .expr around e :: left.sites around ++ right.sites around
  | e@(.unary _ _ operand) => .expr around e :: operand.sites around
  | e@(.assign _ target _ value) => .expr around e :: target.sites around ++ value.sites around
  | e@(.list _ items) => .expr around e :: sitesOfExprs around items
  | e@(.tuple _ items) => .expr around e :: sitesOfExprs around items
  | e@(.hash _ pairs) => .expr around e :: sitesOfPairs around pairs
  | e@(.lambda _ decl) => .expr around e :: decl.sites false
  | e@(.isType _ value type) => .expr around e :: value.sites around ++ type.sites around
  | e@(.asType _ value type) => .expr around e :: value.sites around ++ type.sites around
  | e@(.coalesce _ left right) => .expr around e :: left.sites around ++ right.sites around
  | e@(.ternary _ condition thenValue elseValue) =>
      .expr around e :: condition.sites around ++ thenValue.sites around ++ elseValue.sites around

/-- The nodes of expressions. -/
def sitesOfExprs (around : Surroundings) : List Expr → List Site
  | [] => []
  | e :: rest => e.sites around ++ sitesOfExprs around rest

/-- The nodes of an expression that may be missing. -/
def sitesOfOptionalExpr (around : Surroundings) : Option Expr → List Site
  | some e => e.sites around
  | none => []

/-- The nodes of keyword arguments. -/
def sitesOfKeywords (around : Surroundings) : List (String × Expr) → List Site
  | [] => []
  | (_, e) :: rest => e.sites around ++ sitesOfKeywords around rest

/-- The nodes of the entries of a map literal. -/
def sitesOfPairs (around : Surroundings) : List (Expr × Expr) → List Site
  | [] => []
  | (key, value) :: rest => key.sites around ++ value.sites around ++ sitesOfPairs around rest

/-- The nodes of a function. Whatever surrounds it, its body has no loop around it yet. -/
def FuncDecl.sites (derived : Bool) : FuncDecl → List Site
  | .mk sig body => .function sig :: sitesOfStmts { body := .function, derived } body

/-- The nodes of a function that may be missing. -/
def sitesOfOptionalFunction (derived : Bool) : Option FuncDecl → List Site
  | some decl => decl.sites derived
  | none => []

/-- The nodes of a statement. -/
def Stmt.sites (around : Surroundings) : Stmt → List Site
  | s@(.expr _ value) => .stmt around s :: value.sites around
  | s@(.block _ body) => .stmt around s :: sitesOfStmts around body
  | s@(.ifElse _ condition body orelse) =>
      .stmt around s :: condition.sites around ++ body.sites around
        ++ sitesOfOptionalStmt around orelse
  | s@(.whileLoop _ condition body) =>
      .stmt around s :: condition.sites around ++ body.sites around.looped
  | s@(.doWhile _ body condition) =>
      .stmt around s :: body.sites around.looped ++ condition.sites around
  | s@(.forLoop _ start condition step body) =>
      .stmt around s :: sitesOfOptionalStmt around start ++ sitesOfOptionalExpr around condition
        ++ body.sites around.looped ++ sitesOfOptionalExpr around step
  | s@(.foreach _ _ iterable body) =>
      .stmt around s :: iterable.sites around ++ body.sites around.looped
  | s@(.given _ value cases otherwise) =>
      .stmt around s :: value.sites around ++ sitesOfCases around cases
        ++ sitesOfOptionalStmt around otherwise
  | s@(.breakLoop _) | s@(.continueLoop _) => [.stmt around s]
  | s@(.ret _ value) => .stmt around s :: sitesOfOptionalExpr around value
  | s@(.raise _ value) => .stmt around s :: value.sites around
  | s@(.tryExcept _ body _ types handler) =>
      .stmt around s :: body.sites around ++ sitesOfExprs around types ++ handler.sites around
  | s@(.function _ decl) => .stmt around s :: decl.sites false
  | s@(.classDef _ decl) => .stmt around s :: decl.sites
  | s@(.enumDef _ decl) => [.stmt around s, .enumBody decl]
  | s@(.interfaceDef _ _) | s@(.use _ _) => [.stmt around s]

/-- The nodes of a statement that may be missing. -/
def sitesOfOptionalStmt (around : Surroundings) : Option Stmt → List Site
  | some s => s.sites around
  | none => []

/-- The nodes of statements. -/
def sitesOfStmts (around : Surroundings) : List Stmt → List Site
  | [] => []
  | s :: rest => s.sites around ++ sitesOfStmts around rest

/-- The nodes of the cases of a `given` statement. -/
def sitesOfCases (around : Surroundings) : List (List Expr × Stmt) → List Site
  | [] => []
  | (values, body) :: rest =>
      sitesOfExprs around values ++ body.sites around ++ sitesOfCases around rest

/-- The nodes of a class: its constructor and what stands in its body. -/
def ClassDecl.sites : ClassDecl → List Site
  | decl@(.mk _ _ bases ctor members) =>
      .classBody decl :: sitesOfOptionalFunction (!bases.isEmpty) ctor
        ++ sitesOfStmts { body := .cls } members

end

/-- The nodes of a unit. -/
def sitesOfUnit (unit : List Stmt) : List Site :=
  sitesOfStmts { body := .unit } unit

/-! ## Kinds of nodes -/

namespace Stmt

/-- Statements that only make sense while a function runs. -/
def isControlFlow : Stmt → Bool
  | .ifElse .. | .whileLoop .. | .doWhile .. | .forLoop .. | .foreach .. | .given .. | .breakLoop ..
  | .continueLoop .. | .ret .. | .raise .. | .tryExcept .. => true
  | _ => false

/-- Declarations that belong to a unit. -/
def isDeclaration : Stmt → Bool
  | .classDef .. | .enumDef .. | .interfaceDef .. | .use .. => true
  | _ => false

/-- Functions, classes, enums, and plain assignments to simple names. -/
def isMember : Stmt → Bool
  | .function .. | .classDef .. | .enumDef .. | .expr _ (.assign _ (.name _ _) none _) => true
  | _ => false

/-- `break` and `continue`. -/
def isLoopExit : Stmt → Bool
  | .breakLoop _ | .continueLoop _ => true
  | _ => false

/-- The name that a statement gives a member of a class. -/
def memberName? : Stmt → Option String
  | .function _ decl => some decl.sig.name
  | .classDef _ decl => some decl.name
  | .enumDef _ decl => some decl.name
  | .expr _ (.assign _ (.name _ ident) _ _) => some ident
  | _ => none

end Stmt

mutual

/-- The names that a statement of a unit declares. -/
def Stmt.declaredNames : Stmt → List String
  | .block _ body => declaredNamesOf body
  | .function _ decl => [decl.sig.name]
  | .classDef _ decl => [decl.name]
  | .enumDef _ decl => [decl.name]
  | .interfaceDef _ decl => [decl.name]
  | _ => []

/-- The names that statements of a unit declare. -/
def declaredNamesOf : List Stmt → List String
  | [] => []
  | s :: rest => s.declaredNames ++ declaredNamesOf rest

end

/-- Integer literals, and negated ones whose negation is a word. -/
inductive Expr.IsEnumValue : Expr → Prop where
  | literal (loc : Location) (value : Int64) : IsEnumValue (.int loc value)
  | negated (loc loc' : Location) (value : Int64) : -value.toInt < 2 ^ 63 →
      IsEnumValue (.unary loc .negate (.int loc' value))

/-! ## The rules -/

/-- The unit follows all rules of the language. -/
structure Admissible (unit : List Stmt) : Prop where
  /-- Control flow stands in functions only. -/
  control : ∀ around s, .stmt around s ∈ sitesOfUnit unit → around.body = .unit →
    s.isControlFlow = false
  /-- Classes, enums, interfaces and imports do not stand in functions. -/
  declarations : ∀ around s, .stmt around s ∈ sitesOfUnit unit → around.body = .function →
    s.isDeclaration = false
  /-- A class has members, and nothing else in its body. -/
  members : ∀ around s, .stmt around s ∈ sitesOfUnit unit → around.body = .cls → s.isMember = true
  parameters : ∀ sig, .function sig ∈ sitesOfUnit unit → sig.parameterNames.Nodup
  targets : ∀ around loc target op value,
    .expr around (.assign loc target op value) ∈ sitesOfUnit unit → target.isAssignable = true
  classes : ∀ decl, .classBody decl ∈ sitesOfUnit unit →
    (decl.members.filterMap Stmt.memberName?).Nodup
  enums : ∀ decl, .enumBody decl ∈ sitesOfUnit unit → (decl.members.map (·.1)).Nodup ∧
    ∀ name value loc, (name, some value, loc) ∈ decl.members → value.IsEnumValue
  loops : ∀ around s, .stmt around s ∈ sitesOfUnit unit → s.isLoopExit = true → around.inLoop = true
  supers : ∀ around loc args, .expr around (.superCall loc args) ∈ sitesOfUnit unit →
    around.derived = true
  /-- Declarations of the unit have names of their own. -/
  names : (declaredNamesOf unit).Nodup

/-! ## Names that have not been seen -/

/-- The names are new and differ from each other. -/
def Fresh (seen names : List String) : Prop :=
  names.Nodup ∧ ∀ name ∈ names, name ∉ seen

theorem fresh_nil (seen : List String) : Fresh seen [] :=
  ⟨List.nodup_nil, List.forall_mem_nil _⟩

theorem fresh_cons {seen names : List String} {name : String} :
    Fresh seen (name :: names) ↔ name ∉ seen ∧ Fresh (seen ++ [name]) names := by
  unfold Fresh
  rw [List.nodup_cons, List.forall_mem_cons]
  constructor
  · rintro ⟨⟨other, distinct⟩, new, fresh⟩
    refine ⟨new, distinct, fun x member => ?_⟩
    rw [List.mem_append, List.mem_singleton]
    rintro (old | rfl)
    · exact fresh x member old
    · exact other member
  · rintro ⟨new, distinct, fresh⟩
    refine ⟨⟨fun member => ?_, distinct⟩, new, fun x member old => ?_⟩
    · exact fresh name member (List.mem_append_right seen (List.mem_singleton.2 rfl))
    · exact fresh x member (List.mem_append_left _ old)

theorem fresh_append {seen first second : List String} :
    Fresh seen (first ++ second) ↔ Fresh seen first ∧ Fresh (seen ++ first) second := by
  induction first generalizing seen with
  | nil => simp [fresh_nil]
  | cons name first ih =>
      rw [List.cons_append, fresh_cons, fresh_cons, ih, List.append_assoc, List.singleton_append,
        and_assoc]

theorem fresh_empty {names : List String} : Fresh [] names ↔ names.Nodup :=
  and_iff_left fun _ _ => List.not_mem_nil

/-! ## The rules of the passes -/

/-- The statement may stand in a body of this kind. -/
def Stmt.mayStand (s : Stmt) : BodyKind → Prop
  | .unit => s.isControlFlow = false
  | .function => s.isDeclaration = false
  | .cls => s.isMember = true

/-- If the expression is an assignment, its target can be assigned to. -/
def Expr.assignsWell : Expr → Prop
  | .assign _ target _ _ => target.isAssignable = true
  | _ => True

/-- If the expression is a super call, it may stand where there is a base to call. -/
def Expr.callsWell (derived : Bool) : Expr → Prop
  | .superCall _ _ => derived = true
  | _ => True

namespace Site

/-- What the first pass asks of a node. -/
def Resolves : Site → Prop
  | .stmt around s => s.mayStand around.body
  | .expr _ e => e.assignsWell
  | .function sig => sig.parameterNames.Nodup
  | .classBody _ | .enumBody _ => True

/-- What the second pass asks of a node. -/
def Generates : Site → Prop
  | .stmt around s => s.isLoopExit = true → around.inLoop = true
  | .expr around e => e.callsWell around.derived
  | .function _ => True
  | .classBody decl => (decl.members.filterMap Stmt.memberName?).Nodup
  | .enumBody decl => (decl.members.map (·.1)).Nodup ∧
      ∀ name value loc, (name, some value, loc) ∈ decl.members → value.IsEnumValue

variable {around : Surroundings}

@[simp] theorem resolves_stmt {s : Stmt} :
    (stmt around s).Resolves ↔ s.mayStand around.body := Iff.rfl

@[simp] theorem resolves_expr {e : Expr} : (expr around e).Resolves ↔ e.assignsWell := Iff.rfl

@[simp] theorem resolves_function {sig : Signature} :
    (function sig).Resolves ↔ sig.parameterNames.Nodup := Iff.rfl

@[simp] theorem resolves_classBody (decl : ClassDecl) : (classBody decl).Resolves := trivial

@[simp] theorem resolves_enumBody (decl : EnumDecl) : (enumBody decl).Resolves := trivial

@[simp] theorem generates_stmt {s : Stmt} :
    (stmt around s).Generates ↔ (s.isLoopExit = true → around.inLoop = true) := Iff.rfl

@[simp] theorem generates_expr {e : Expr} :
    (expr around e).Generates ↔ e.callsWell around.derived := Iff.rfl

@[simp] theorem generates_function (sig : Signature) : (function sig).Generates := trivial

end Site

theorem admissible_iff {unit : List Stmt} : Admissible unit ↔
    ((∀ site ∈ sitesOfUnit unit, site.Resolves) ∧ ∀ site ∈ sitesOfUnit unit, site.Generates) ∧
      (declaredNamesOf unit).Nodup := by
  constructor
  · intro fine
    refine ⟨⟨fun site member => ?_, fun site member => ?_⟩, fine.names⟩
    · cases site with
      | stmt around s =>
          change s.mayStand around.body
          cases body : around.body with
          | unit => exact fine.control around s member body
          | function => exact fine.declarations around s member body
          | cls => exact fine.members around s member body
      | expr around e =>
          cases e with
          | assign loc target op value => exact fine.targets around loc target op value member
          | _ => trivial
      | function sig => exact fine.parameters sig member
      | classBody decl => trivial
      | enumBody decl => trivial
    · cases site with
      | stmt around s => exact fine.loops around s member
      | expr around e =>
          cases e with
          | superCall loc args => exact fine.supers around loc args member
          | _ => trivial
      | function sig => trivial
      | classBody decl => exact fine.classes decl member
      | enumBody decl => exact fine.enums decl member
  · rintro ⟨⟨resolves, generates⟩, names⟩
    have placed {around : Surroundings} {s : Stmt} {kind : BodyKind}
        (member : .stmt around s ∈ sitesOfUnit unit) (body : around.body = kind) :
        s.mayStand kind := body ▸ resolves _ member
    exact
      { control := fun _ _ member body => placed member body
        declarations := fun _ _ member body => placed member body
        members := fun _ _ member body => placed member body
        parameters := fun sig member => resolves _ member
        targets := fun around loc target op value member => resolves _ member
        classes := fun decl member => generates _ member
        enums := fun decl member => generates _ member
        loops := fun around s member => generates _ member
        supers := fun around loc args member => generates _ member
        names }

end ScriptMachine
