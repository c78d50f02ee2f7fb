import ScriptMachine.Code.Emission
import ScriptMachine.Code.Unit
import ScriptMachine.Source.Resolution

/-!
Linked trees that fit a unit: every constant a tree refers to is in the pool and is what the
tree takes it for, every slot is one of the `slots` slots of the method, and every nested
function became a method that belongs to its own scope. In an accepted unit a super call also
has a base, and `break` and `continue` stand inside a loop.
-/

namespace ScriptMachine.Linked

/-- The constant holds the name. -/
def NameConst.In (pool : Array Constant) (n : NameConst) : Prop :=
  pool[n.const]? = some (.str n.name)

/-- The name is kept where `ref` says. -/
def Ref.Valid (pool : Array Constant) (slots : Nat) (ident : String) : Ref → Prop
  | .slot index => index < slots
  | .global const => pool[const]? = some (.str ident)

/-- A path names at least one thing. -/
def BasePath.Valid (pool : Array Constant) (path : BasePath) : Prop :=
  path ≠ [] ∧ ∀ n ∈ path, n.In pool

/-- What the linked trees of a unit refer to. -/
structure Context where
  pool : Array Constant
  functions : Array Function
  /-- The scope tree of the unit. -/
  scopes : ScopeTable
  /-- What each scope belongs to. -/
  opened : Array (ScopeOwner × Nat)

/-- A nested function became the method with number `method`, which `const` holds. It shares
the `slots` slots around it if its scope is not a boundary. -/
structure Context.Nested (ctx : Context) (slots : Nat) (decl : FuncDecl) (method const : Nat)
    (closes : Bool) : Prop where
  held : ctx.pool[const]? = some (.method method)
  owned : ∃ f, ctx.functions[method]? = some f ∧ (.function decl, f.scope) ∈ ctx.opened ∧
    closes = !(ctx.scopes.scope f.scope).isBoundary ∧ (closes = true → f.localCount = slots)

section

-- `accepted`: nothing was reported about the unit.
variable (ctx : Context) (accepted : Bool) (slots : Nat)

mutual

/-- An expression fits the pool and the slots. -/
def Expr.Valid : Expr → Prop
  | .null _ | .bool _ _ | .self _ => True
  | .int _ value const => ctx.pool[const]? = some (.int value)
  | .float _ value const => ctx.pool[const]? = some (.float value)
  | .str _ value => value.In ctx.pool
  | .name _ ident ref => ref.Valid ctx.pool slots ident
  | .attr _ target ident => target.Valid ∧ ident.In ctx.pool
  | .index _ target index => target.Valid ∧ index.Valid
  | .call _ callee args keywords => ValidExprs args ∧ ValidKeywords keywords ∧ callee.Valid
  | .superCall _ args base =>
      ValidExprs args ∧ (∀ path ∈ base, path.Valid ctx.pool) ∧ (accepted = true → base ≠ none)
  | .binary _ _ left right => left.Valid ∧ right.Valid
  | .unary _ _ operand => operand.Valid
  | .assign _ target value => value.Valid ∧ target.Valid
  | .update _ _ old value target => old.Valid ∧ value.Valid ∧ target.Valid
  | .list _ items => ValidExprs items
  | .tuple _ items => ValidExprs items
  | .hash _ pairs => ValidPairs pairs
  | .lambda _ decl method const closes => ctx.Nested slots decl method const closes
  | .isType _ value type => value.Valid ∧ type.Valid
  | .asType _ value type => value.Valid ∧ type.Valid
  | .coalesce _ left right => left.Valid ∧ right.Valid
  | .ternary _ condition thenValue elseValue =>
      condition.Valid ∧ thenValue.Valid ∧ elseValue.Valid

/-- An assignment target fits the pool and the slots. -/
def Target.Valid : Target → Prop
  | .name _ ident ref => ref.Valid ctx.pool slots ident
  | .attr _ object ident => object.Valid ∧ ident.In ctx.pool
  | .index _ object index => object.Valid ∧ index.Valid
  | .other _ => False

/-- Expressions fit the pool and the slots. -/
def ValidExprs : List Expr → Prop
  | [] => True
  | e :: rest => e.Valid ∧ ValidExprs rest

/-- Keyword arguments fit the pool and the slots. -/
def ValidKeywords : List (NameConst × Expr) → Prop
  | [] => True
  | (name, e) :: rest => name.In ctx.pool ∧ e.Valid ∧ ValidKeywords rest

/-- Map entries fit the pool and the slots. -/
def ValidPairs : List (Expr × Expr) → Prop
  | [] => True
  | (k, v) :: rest => k.Valid ∧ v.Valid ∧ ValidPairs rest

end

mutual

/-- A statement fits the pool and the slots; `inLoop` tells whether a loop is around it. -/
def Stmt.Valid (inLoop : Bool) : Stmt → Prop
  | .expr _ value => value.Valid ctx accepted slots
  | .block _ body => ValidStmts inLoop body
  | .ifElse _ condition body orelse =>
      condition.Valid ctx accepted slots ∧ body.Valid inLoop ∧ ValidOption inLoop orelse
  | .whileLoop _ condition body => condition.Valid ctx accepted slots ∧ body.Valid true
  | .doWhile _ body condition => body.Valid true ∧ condition.Valid ctx accepted slots
  | .forLoop _ first condition step body =>
      ValidOption inLoop first ∧ (∀ e ∈ condition, e.Valid ctx accepted slots) ∧ body.Valid true ∧
        ∀ e ∈ step, e.Valid ctx accepted slots
  | .foreach _ item ref iterable body =>
      iterable.Valid ctx accepted slots ∧ ref.Valid ctx.pool slots item ∧ body.Valid true
  | .given _ value cases otherwise =>
      value.Valid ctx accepted slots ∧ ValidCases inLoop cases ∧ ValidOption inLoop otherwise
  | .breakLoop _ => accepted = true → inLoop = true
  | .continueLoop _ => accepted = true → inLoop = true
  | .ret _ value => ∀ e ∈ value, e.Valid ctx accepted slots
  | .raise _ value => value.Valid ctx accepted slots
  | .tryExcept _ body binding types handler =>
      body.Valid inLoop ∧ ValidExprs ctx accepted slots types ∧
      (∀ b ∈ binding, b.2.Valid ctx.pool slots b.1) ∧ handler.Valid inLoop
  | .function _ decl method const ref =>
      ctx.Nested slots decl method const true ∧ ref.Valid ctx.pool slots decl.sig.name
  | .other _ => False

/-- A statement that may be missing fits the pool and the slots. -/
def ValidOption (inLoop : Bool) : Option Stmt → Prop
  | none => True
  | some s => s.Valid inLoop

/-- Statements fit the pool and the slots. -/
def ValidStmts (inLoop : Bool) : List Stmt → Prop
  | [] => True
  | s :: rest => s.Valid inLoop ∧ ValidStmts inLoop rest

/-- The cases of a `given` statement fit the pool and the slots. -/
def ValidCases (inLoop : Bool) : List (List Expr × Stmt) → Prop
  | [] => True
  | (values, body) :: rest =>
      ValidExprs ctx accepted slots values ∧ body.Valid inLoop ∧ ValidCases inLoop rest

end

/-- A field value fits the pool and the slots. -/
def Field.Valid (field : Field) : Prop :=
  field.value.Valid ctx accepted slots ∧ field.ident.In ctx.pool

/-- What a method does fits the pool and the slots. -/
def Body.Valid : Body → Prop
  | .statements bases body =>
      (∀ path ∈ bases, path.Valid ctx.pool) ∧ ValidStmts ctx accepted slots false body
  | .fields items => ∀ field ∈ items, field.Valid ctx accepted slots

/-- A method fits the pool and its own slots. -/
def Function.Valid (f : Function) : Prop :=
  f.body.Valid ctx accepted f.localCount

/-- A statement at module level fits the pool. There are no slots at module level. -/
def Root.Valid : Root → Prop
  | .mark _ => True
  | .expr _ value => value.Valid ctx accepted 0
  | .use decl module names =>
      (∃ name, ctx.pool[module]? = some (.str name)) ∧
        (decl.wildcard = false → decl.names ≠ [] → ctx.pool[names]? = some (.names decl.names))

end

end ScriptMachine.Linked
