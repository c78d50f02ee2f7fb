import ScriptMachine.Source.Tree
import ScriptMachine.Source.Scope
import ScriptMachine.Source.Diagnostic

/-!
The first pass over a unit: it builds the scope tree, declares every name in the
scope that owns it, and reports statements that stand where they may not. The
code generator visits the nodes that open scopes in the same order.
-/

namespace ScriptMachine

/-- A part of a program that has a scope of its own. -/
inductive ScopeOwner where
  /-- A function, method, constructor or lambda. -/
  | function (decl : FuncDecl)
  /-- The constructor that a class does not declare. -/
  | impliedConstructor (decl : ClassDecl)
  /-- The field values of a class. -/
  | fields (decl : ClassDecl)
  /-- A block, a `for` or `foreach` loop, or the handler of a `try` statement. -/
  | stmt (tree : Stmt)

/-- What the first pass has built so far. -/
structure Resolver where
  scopes : ScopeTable := {}
  errors : ErrorLog := []
  /-- The scopes opened so far and what each of them belongs to. -/
  opened : Array (ScopeOwner × Nat) := #[]
deriving Inhabited

namespace Resolver

/-- A computation that grows the scope tree and the error log. -/
abbrev Resolve := StateM Resolver

/-- Records a complaint. -/
def report (loc : Location) (kind : CompileErrorKind) : Resolve Unit :=
  modify fun r => { r with errors := r.errors ++ [⟨loc, kind⟩] }

/-- Opens a scope inside the current one. -/
def beginScope (owner : ScopeOwner) (isBoundary : Bool) : Resolve Unit :=
  modify fun r =>
    let scopes := r.scopes.beginScope isBoundary
    { r with scopes, opened := r.opened.push (owner, scopes.current) }

/-- Leaves the current scope. -/
def endScope : Resolve Unit :=
  modify fun r => { r with scopes := r.scopes.endScope }

/-- Declares a name in the current scope. -/
def declare (name : String) : Resolve Unit :=
  modify fun r => { r with scopes := (r.scopes.addSymbol name).2 }

/-- Declares a name in the current scope unless it is visible already. -/
def declareIfNew (name : String) : Resolve Unit := do
  unless (← get).scopes.isDefined name do declare name

/-- Declares parameters in order, complaining about each one that repeats an
earlier one. -/
def parameters (loc : Location) (seen : List String) : List String → Resolve Unit
  | [] => pure ()
  | name :: rest => do
      if seen.contains name then report loc (.duplicateDefinition name)
      declare name
      parameters loc (seen ++ [name]) rest

mutual

/-- Visits an expression. A lambda outside every function is a boundary of its
own; inside one it shares the slots of the function around it. -/
def expr (inFunction : Bool) : Expr → Resolve Unit
  | .null _ | .bool _ _ | .int _ _ | .float _ _ | .str _ _ | .name _ _ | .self _ => pure ()
  | .attr _ object _ => expr inFunction object
  | .index _ object index => do
      expr inFunction object
      expr inFunction index
  | .call _ callee args keywords => do
      exprs inFunction args
      namedExprs inFunction keywords
      expr inFunction callee
  | .superCall _ args => exprs inFunction args
  | .binary _ _ left right => do
      expr inFunction left
      expr inFunction right
  | .unary _ _ operand => expr inFunction operand
  | .assign _ object op value => do
      if op.isSome then target inFunction object
      expr inFunction value
      target inFunction object
  | .list _ items => exprs inFunction items
  | .tuple _ items => exprs inFunction items
  | .hash _ pairs => exprPairs inFunction pairs
  | .lambda _ decl => function (!inFunction) decl
  | .isType _ value type => do
      expr inFunction value
      expr inFunction type
  | .asType _ value type => do
      expr inFunction value
      expr inFunction type
  | .coalesce _ left right => do
      expr inFunction left
      expr inFunction right
  | .ternary _ condition thenValue elseValue => do
      expr inFunction condition
      expr inFunction thenValue
      expr inFunction elseValue

/-- Visits the parts of an assignment target. A bare name that is not visible yet
is declared by its first assignment. -/
def target (inFunction : Bool) : Expr → Resolve Unit
  | .name _ ident => declareIfNew ident
  | .attr _ object _ => expr inFunction object
  | .index _ object index => do
      expr inFunction object
      expr inFunction index
  | other => report other.loc .invalidAssignmentTarget

/-- Visits expressions in order. -/
def exprs (inFunction : Bool) : List Expr → Resolve Unit
  | [] => pure ()
  | e :: rest => do
      expr inFunction e
      exprs inFunction rest

/-- Visits an expression that may be missing. -/
def optionalExpr (inFunction : Bool) : Option Expr → Resolve Unit
  | some e => expr inFunction e
  | none => pure ()

/-- Visits keyword arguments in order. -/
def namedExprs (inFunction : Bool) : List (String × Expr) → Resolve Unit
  | [] => pure ()
  | (_, e) :: rest => do
      expr inFunction e
      namedExprs inFunction rest

/-- Visits the entries of a map literal in order, each key before its value. -/
def exprPairs (inFunction : Bool) : List (Expr × Expr) → Resolve Unit
  | [] => pure ()
  | (key, value) :: rest => do
      expr inFunction key
      expr inFunction value
      exprPairs inFunction rest

/-- Visits a function in a scope of its own. -/
def function (isBoundary : Bool) : FuncDecl → Resolve Unit
  | .mk sig body => do
      beginScope (.function (.mk sig body)) isBoundary
      parameters sig.loc [] sig.parameterNames
      stmts body
      endScope

/-- Visits a statement inside a function. -/
def stmt : Stmt → Resolve Unit
  | .expr _ value => expr true value
  | .block loc body => do
      beginScope (.stmt (.block loc body)) false
      stmts body
      endScope
  | .ifElse _ condition body orelse => do
      expr true condition
      stmt body
      optionalStmt orelse
  | .whileLoop _ condition body => do
      expr true condition
      stmt body
  | .doWhile _ body condition => do
      stmt body
      expr true condition
  | .forLoop loc start condition step body => do
      beginScope (.stmt (.forLoop loc start condition step body)) false
      optionalStmt start
      optionalExpr true condition
      stmt body
      optionalExpr true step
      endScope
  | .foreach loc item iterable body => do
      expr true iterable
      beginScope (.stmt (.foreach loc item iterable body)) false
      declare item
      stmt body
      endScope
  | .given _ value cases otherwise => do
      expr true value
      whenCases cases
      optionalStmt otherwise
  | .breakLoop _ | .continueLoop _ => pure ()
  | .ret _ value => optionalExpr true value
  | .raise _ value => expr true value
  | .tryExcept loc body binding types handler => do
      stmt body
      beginScope (.stmt (.tryExcept loc body binding types handler)) false
      binding.forM declare
      exprs true types
      stmt handler
      endScope
  | .function _ decl => do
      declare decl.sig.name
      function false decl
  | .classDef loc _ => report loc (.declarationNotAllowedInFunction "class")
  | .enumDef loc _ => report loc (.declarationNotAllowedInFunction "enum")
  | .interfaceDef loc _ => report loc (.declarationNotAllowedInFunction "interface")
  | .use loc _ => report loc (.declarationNotAllowedInFunction "use")

/-- Visits a statement that may be missing. -/
def optionalStmt : Option Stmt → Resolve Unit
  | some s => stmt s
  | none => pure ()

/-- Visits statements in order. -/
def stmts : List Stmt → Resolve Unit
  | [] => pure ()
  | s :: rest => do
      stmt s
      stmts rest

/-- Visits the cases of a `given` statement in order. -/
def whenCases : List (List Expr × Stmt) → Resolve Unit
  | [] => pure ()
  | (values, body) :: rest => do
      exprs true values
      stmt body
      whenCases rest

end

/-- Visits the constructor of a class. A class without one has an empty scope in its place. -/
def constructor : ClassDecl → Resolve Unit
  | .mk _ _ _ (some decl) _ => function true decl
  | .mk loc name bases none members => do
      beginScope (.impliedConstructor (.mk loc name bases none members)) true
      endScope

/-- Visits the field values of a class body. -/
def fields : List Stmt → Resolve Unit
  | [] => pure ()
  | .expr _ (.assign _ (.name _ _) none value) :: rest => do
      expr true value
      fields rest
  | .expr _ (.assign loc _ _ _) :: rest => do
      report loc .invalidFieldValue
      fields rest
  | _ :: rest => fields rest

/-- Visits the field values of a class in the scope they share. -/
def fieldScope (decl : ClassDecl) : Resolve Unit := do
  beginScope (.fields decl) true
  fields decl.members
  endScope

mutual

/-- Visits a class: its constructor, its field values, then its members. -/
def classDef : ClassDecl → Resolve Unit
  | .mk loc name bases ctor members => do
      constructor (.mk loc name bases ctor members)
      fieldScope (.mk loc name bases ctor members)
      classMembers members

/-- Visits the methods and nested classes of a class body. -/
def classMembers : List Stmt → Resolve Unit
  | [] => pure ()
  | member :: rest => do
      match member with
      | .function _ decl => function true decl
      | .classDef _ decl => classDef decl
      | .enumDef _ _ => pure ()
      | .expr _ (.assign ..) => pure ()
      | other => report other.loc .invalidClassMember
      classMembers rest

end

mutual

/-- Visits a statement at module level. -/
def rootStmt : Stmt → Resolve Unit
  | .expr _ value => expr false value
  | .block _ body => rootStmts body
  | .function _ decl => do
      declare decl.sig.name
      function true decl
  | .classDef _ decl => do
      declare decl.name
      classDef decl
  | .enumDef _ decl => declare decl.name
  | .interfaceDef _ decl => declare decl.name
  | .use _ _ => pure ()
  | other => report other.loc (.statementNotAllowedOutsideFunction other.keyword)

/-- Visits statements at module level in order. -/
def rootStmts : List Stmt → Resolve Unit
  | [] => pure ()
  | s :: rest => do
      rootStmt s
      rootStmts rest

end

end Resolver

/-- The scope tree of a unit and what is wrong with the unit. -/
def resolve (unit : List Stmt) : Resolver :=
  ((Resolver.rootStmts unit).run {}).2

end ScriptMachine
