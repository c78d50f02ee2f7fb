import ScriptMachine.Code.Linked

/-!
The program trees that linked trees were made from. Linking only adds to a tree: what it was made
from is what is left without slots, constants and methods.
-/

namespace ScriptMachine

namespace Linked

mutual

/-- The expression without its links. -/
def Expr.source : Expr → ScriptMachine.Expr
  | .null loc => .null loc
  | .bool loc value => .bool loc value
  | .int loc value _ => .int loc value
  | .float loc value _ => .float loc value
  | .str loc value => .str loc value.name
  | .name loc ident _ => .name loc ident
  | .self loc => .self loc
  | .attr loc target ident => .attr loc target.source ident.name
  | .index loc target index => .index loc target.source index.source
  | .call loc callee args keywords =>
      .call loc callee.source (sourceExprs args) (sourceKeywords keywords)
  | .superCall loc args _ => .superCall loc (sourceExprs args)
  | .binary loc op left right => .binary loc op left.source right.source
  | .unary loc op operand => .unary loc op operand.source
  | .assign loc target value => .assign loc target.source none value.source
  | .update loc op _ value target => .assign loc target.source (some op) value.source
  | .list loc items => .list loc (sourceExprs items)
  | .tuple loc items => .tuple loc (sourceExprs items)
  | .hash loc pairs => .hash loc (sourcePairs pairs)
  | .lambda loc decl _ _ _ => .lambda loc decl
  | .isType loc value type => .isType loc value.source type.source
  | .asType loc value type => .asType loc value.source type.source
  | .coalesce loc left right => .coalesce loc left.source right.source
  | .ternary loc condition thenValue elseValue =>
      .ternary loc condition.source thenValue.source elseValue.source

/-- The assignment target without its links. -/
def Target.source : Target → ScriptMachine.Expr
  | .name loc ident _ => .name loc ident
  | .attr loc object ident => .attr loc object.source ident.name
  | .index loc object index => .index loc object.source index.source
  | .other tree => tree

/-- The expressions without their links. -/
def sourceExprs : List Expr → List ScriptMachine.Expr
  | [] => []
  | e :: rest => e.source :: sourceExprs rest

/-- The keyword arguments without their links. -/
def sourceKeywords : List (NameConst × Expr) → List (String × ScriptMachine.Expr)
  | [] => []
  | (name, e) :: rest => (name.name, e.source) :: sourceKeywords rest

/-- The map entries without their links. -/
def sourcePairs : List (Expr × Expr) → List (ScriptMachine.Expr × ScriptMachine.Expr)
  | [] => []
  | (k, v) :: rest => (k.source, v.source) :: sourcePairs rest

end

mutual

/-- The statement without its links. -/
def Stmt.source : Stmt → ScriptMachine.Stmt
  | .expr loc value => .expr loc value.source
  | .block loc body => .block loc (sourceStmts body)
  | .ifElse loc condition body orelse =>
      .ifElse loc condition.source body.source (sourceOption orelse)
  | .whileLoop loc condition body => .whileLoop loc condition.source body.source
  | .doWhile loc body condition => .doWhile loc body.source condition.source
  | .forLoop loc first condition step body =>
      .forLoop loc (sourceOption first) (condition.map Expr.source) (step.map Expr.source)
        body.source
  | .foreach loc item _ iterable body => .foreach loc item iterable.source body.source
  | .given loc value cases otherwise =>
      .given loc value.source (sourceCases cases) (sourceOption otherwise)
  | .breakLoop loc => .breakLoop loc
  | .continueLoop loc => .continueLoop loc
  | .ret loc value => .ret loc (value.map Expr.source)
  | .raise loc value => .raise loc value.source
  | .tryExcept loc body binding types handler =>
      .tryExcept loc body.source (binding.map Prod.fst) (sourceExprs types) handler.source
  | .function loc decl _ _ _ => .function loc decl
  | .other tree => tree

/-- The statement without its links, if there is one. -/
def sourceOption : Option Stmt → Option ScriptMachine.Stmt
  | none => none
  | some s => some s.source

/-- The statements without their links. -/
def sourceStmts : List Stmt → List ScriptMachine.Stmt
  | [] => []
  | s :: rest => s.source :: sourceStmts rest

/-- The cases of a `given` statement without their links. -/
def sourceCases : List (List Expr × Stmt) → List (List ScriptMachine.Expr × ScriptMachine.Stmt)
  | [] => []
  | (values, body) :: rest => (sourceExprs values, body.source) :: sourceCases rest

end

/-- The dotted name of a class. -/
def BasePath.names (path : BasePath) : List String :=
  path.map (·.name)

end Linked

/-! ## Handlers -/

/-- The expression is a bare name. -/
def Expr.IsName : Expr → Prop
  | .name _ _ => True
  | _ => False

mutual

/-- The types that handlers test for are bare names. Functions inside are functions of their own. -/
def Stmt.TypesAreNames : Stmt → Prop
  | .block _ body => AllTypesAreNames body
  | .ifElse _ _ body orelse => body.TypesAreNames ∧ OptionTypesAreNames orelse
  | .whileLoop _ _ body => body.TypesAreNames
  | .doWhile _ body _ => body.TypesAreNames
  | .forLoop _ first _ _ body => OptionTypesAreNames first ∧ body.TypesAreNames
  | .foreach _ _ _ body => body.TypesAreNames
  | .given _ _ cases otherwise => CasesTypesAreNames cases ∧ OptionTypesAreNames otherwise
  | .tryExcept _ body _ types handler =>
      body.TypesAreNames ∧ (∀ t ∈ types, t.IsName) ∧ handler.TypesAreNames
  | _ => True

def OptionTypesAreNames : Option Stmt → Prop
  | none => True
  | some s => s.TypesAreNames

def AllTypesAreNames : List Stmt → Prop
  | [] => True
  | s :: rest => s.TypesAreNames ∧ AllTypesAreNames rest

def CasesTypesAreNames : List (List Expr × Stmt) → Prop
  | [] => True
  | (_, body) :: rest => body.TypesAreNames ∧ CasesTypesAreNames rest

end

end ScriptMachine
