import ScriptMachine.Proofs.Code.Origins
import ScriptMachine.Proofs.Scopes.Pairing

/-!
Names in linked trees. A name is bound if it is tied to what the finished scope tree says of it
where it stands: in the scope of the block, loop or handler around it, which is the one that was
opened for it. A method was made from a declaration if its linked body is the declared one with
bound names.
-/

namespace ScriptMachine

/-! ## Names in their scopes -/

/-- What a name stands for, seen from a scope. -/
def ScopeTable.lookupFrom (t : ScopeTable) (scope : Nat) (name : String) : Option Symbol :=
  { t with current := scope }.lookup name

/-- The slot of a name, seen from a scope, if it has one. -/
def ScopeTable.slotOf? (t : ScopeTable) (scope : Nat) (name : String) : Option Nat :=
  match t.lookupFrom scope name with
  | some { kind := .slot, index, .. } => some index
  | _ => none

/-- A table whose scopes are walked again finds the same. -/
theorem ScopeTable.Revisits.lookup {t u : ScopeTable} {visited : Nat → Nat}
    (again : t.Revisits u visited) (name : String) :
    u.lookup name = t.lookupFrom u.current name := by
  have moved : t.Revisits { t with current := u.current } fun j => (t.scope j).visited :=
    ⟨rfl, fun _ => rfl⟩
  simp only [ScopeTable.lookupFrom, ScopeTable.lookup, again.enclosing, moved.enclosing,
    again.scopes]
  rfl

namespace Linked

/-- The slot that a name is kept in, if it is kept in one. -/
def Ref.slot? : Ref → Option Nat
  | .slot index => some index
  | .global _ => none

/-- A function became a method whose scope was opened for it inside this one. -/
def Context.Becomes (ctx : Context) (here : Nat) (decl : FuncDecl) (method : Nat)
    (isBoundary : Bool) : Prop :=
  ∃ f, ctx.functions[method]? = some f ∧ ctx.Opens (.function decl) isBoundary here f.scope

section

variable (ctx : Context)
  -- The bases of the class, in a constructor.
  (bases : Option (List String))

mutual

/-- The names in an expression are tied to what the scope tree says of them, seen from `here`. -/
def Expr.Bound (here : Nat) : Expr → Prop
  | .null _ | .bool _ _ | .int _ _ _ | .float _ _ _ | .str _ _ | .self _ => True
  | .name _ ident ref => ref.slot? = ctx.scopes.slotOf? here ident
  | .attr _ target _ => target.Bound here
  | .index _ target index => target.Bound here ∧ index.Bound here
  | .call _ callee args keywords =>
      BoundExprs here args ∧ BoundKeywords here keywords ∧ callee.Bound here
  | .superCall _ args base =>
      BoundExprs here args ∧
        ∀ path ∈ base, ∃ first ∈ (bases.getD []).head?, path.names = Text.pieces '.' first
  | .binary _ _ left right => left.Bound here ∧ right.Bound here
  | .unary _ _ operand => operand.Bound here
  | .assign _ target value => value.Bound here ∧ target.Bound here
  | .update _ _ old value target =>
      old.source = target.source ∧ old.Bound here ∧ value.Bound here ∧ target.Bound here
  | .list _ items => BoundExprs here items
  | .tuple _ items => BoundExprs here items
  | .hash _ pairs => BoundPairs here pairs
  | .lambda _ decl method _ closes => ctx.Becomes here decl method (!closes)
  | .isType _ value type => value.Bound here ∧ type.Bound here
  | .asType _ value type => value.Bound here ∧ type.Bound here
  | .coalesce _ left right => left.Bound here ∧ right.Bound here
  | .ternary _ condition thenValue elseValue =>
      condition.Bound here ∧ thenValue.Bound here ∧ elseValue.Bound here

/-- The names in an assignment target are tied to what the scope tree says of them. -/
def Target.Bound (here : Nat) : Target → Prop
  | .name _ ident ref => ref.slot? = ctx.scopes.slotOf? here ident
  | .attr _ object _ => object.Bound here
  | .index _ object index => object.Bound here ∧ index.Bound here
  | .other _ => True

def BoundExprs (here : Nat) : List Expr → Prop
  | [] => True
  | e :: rest => e.Bound here ∧ BoundExprs here rest

def BoundKeywords (here : Nat) : List (NameConst × Expr) → Prop
  | [] => True
  | (_, e) :: rest => e.Bound here ∧ BoundKeywords here rest

def BoundPairs (here : Nat) : List (Expr × Expr) → Prop
  | [] => True
  | (k, v) :: rest => k.Bound here ∧ v.Bound here ∧ BoundPairs here rest

end

mutual

/-- The names in a statement are tied to what the scope tree says of them. Blocks, `for` and
`foreach` loops and handlers have the scope that was opened for them inside `here`. -/
def Stmt.Bound (here : Nat) : Stmt → Prop
  | .expr _ value => value.Bound ctx bases here
  | .block loc body => ∃ inner,
      ctx.Opens (.stmt (Stmt.source (.block loc body))) false here inner ∧ BoundStmts inner body
  | .ifElse _ condition body orelse =>
      condition.Bound ctx bases here ∧ body.Bound here ∧ BoundOption here orelse
  | .whileLoop _ condition body => condition.Bound ctx bases here ∧ body.Bound here
  | .doWhile _ body condition => body.Bound here ∧ condition.Bound ctx bases here
  | .forLoop loc first condition step body => ∃ inner,
      ctx.Opens (.stmt (Stmt.source (.forLoop loc first condition step body))) false here inner ∧
        BoundOption inner first ∧ (∀ e ∈ condition, e.Bound ctx bases inner) ∧ body.Bound inner ∧
        ∀ e ∈ step, e.Bound ctx bases inner
  | .foreach loc item ref iterable body => iterable.Bound ctx bases here ∧ ∃ inner,
      ctx.Opens (.stmt (Stmt.source (.foreach loc item ref iterable body))) false here inner ∧
        ref.slot? = ctx.scopes.slotOf? inner item ∧ body.Bound inner
  | .given _ value cases otherwise =>
      value.Bound ctx bases here ∧ BoundCases here cases ∧ BoundOption here otherwise
  | .breakLoop _ | .continueLoop _ => True
  | .ret _ value => ∀ e ∈ value, e.Bound ctx bases here
  | .raise _ value => value.Bound ctx bases here
  | .tryExcept loc body binding types handler => body.Bound here ∧ ∃ inner,
      ctx.Opens (.stmt (Stmt.source (.tryExcept loc body binding types handler))) false here inner ∧
        BoundExprs ctx bases inner types ∧
        (∀ b ∈ binding, b.2.slot? = ctx.scopes.slotOf? inner b.1) ∧ handler.Bound inner
  | .function _ decl method _ ref =>
      ctx.Becomes here decl method false ∧ ref.slot? = ctx.scopes.slotOf? here decl.sig.name
  | .other _ => True

def BoundOption (here : Nat) : Option Stmt → Prop
  | none => True
  | some s => s.Bound here

def BoundStmts (here : Nat) : List Stmt → Prop
  | [] => True
  | s :: rest => s.Bound here ∧ BoundStmts here rest

def BoundCases (here : Nat) : List (List Expr × Stmt) → Prop
  | [] => True
  | (values, body) :: rest =>
      BoundExprs ctx bases here values ∧ body.Bound here ∧ BoundCases here rest

end

/-- The method was made from the declaration: it runs the constructors of the bases, unless the
declaration begins with a super call, and then the declared body. -/
structure Function.MadeFrom (decl : FuncDecl) (f : Function) : Prop where
  loc : f.loc = decl.sig.loc
  body : ∃ chained body, f.body = .statements chained body ∧ sourceStmts body = decl.body ∧
    BoundStmts ctx bases f.scope body ∧
    chained.map BasePath.names =
      (if Generator.startsWithSuperCall decl.body then [] else bases.getD []).map (Text.pieces '.')

end

/-- If there are bases, they are those of a class that the function is the constructor of. -/
def Context.Chains (ctx : Context) (bases : Option (List String)) (decl : FuncDecl) : Prop :=
  ∀ names ∈ bases, ∃ loc name members scope,
    (.fields (.mk loc name names (some decl) members), scope) ∈ ctx.opened

/-- The function that was declared in this scope became a method. -/
def Context.Makes (ctx : Context) (decl : FuncDecl) (scope : Nat) : Prop :=
  ∃ (bases : Option (List String)) (index : Nat) (f : Function), ctx.functions[index]? = some f ∧
    f.scope = scope ∧ f.MadeFrom ctx bases decl ∧ ctx.Chains bases decl

end Linked

end ScriptMachine
