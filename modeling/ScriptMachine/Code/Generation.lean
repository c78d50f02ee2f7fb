import ScriptMachine.Code.Generator

/-!
The second pass over expressions, statements and functions. It visits the nodes that have a
scope of their own in the order in which the first pass opened those scopes.
-/

namespace ScriptMachine

namespace Generator

open Linked (Ref NameConst BasePath Target)

mutual

/-- Links an expression. -/
def expr (place : Place) : Expr → Gen Linked.Expr
  | .null loc => return .null loc
  | .bool loc value => return .bool loc value
  | .int loc value => return .int loc value (← addConstant (.int value))
  | .float loc value => return .float loc value (← addConstant (.float value))
  | .str loc value => return .str loc (← nameConstant value)
  | .name loc ident => return .name loc ident (← refOf ident)
  | .self loc => return .self loc
  | .attr loc object ident => do
      let object ← expr place object
      return .attr loc object (← nameConstant ident)
  | .index loc object index => do
      let object ← expr place object
      return .index loc object (← expr place index)
  | .call loc callee args keywords => do
      let args ← exprs place args
      let keywords ← namedExprs place keywords
      return .call loc (← expr place callee) args keywords
  | .superCall loc args => do
      let args ← exprs place args
      match place.bases with
      | some (base :: _) => return .superCall loc args (some (← basePath base))
      | _ => do
          report loc .superCallOutsideConstructor
          return .superCall loc args none
  | .binary loc op left right => do
      let left ← expr place left
      return .binary loc op left (← expr place right)
  | .unary loc op operand => return .unary loc op (← expr place operand)
  | .assign loc object none value => do
      let value ← expr place value
      return .assign loc (← target place object) value
  | .assign loc object (some op) value => do
      let old ← expr place object
      let value ← expr place value
      return .update loc op old value (← target place object)
  | .list loc items => return .list loc (← exprs place items)
  | .tuple loc items => return .tuple loc (← exprs place items)
  | .hash loc pairs => return .hash loc (← exprPairs place pairs)
  | .lambda loc decl => do
      let method ← function decl.sig.name false none decl
      return .lambda loc decl method (← addConstant (.method method)) place.inFunction
  | .isType loc value type => do
      let value ← expr place value
      return .isType loc value (← expr place type)
  | .asType loc value type => do
      let value ← expr place value
      return .asType loc value (← expr place type)
  | .coalesce loc left right => do
      let left ← expr place left
      return .coalesce loc left (← expr place right)
  | .ternary loc condition thenValue elseValue => do
      let condition ← expr place condition
      let thenValue ← expr place thenValue
      return .ternary loc condition thenValue (← expr place elseValue)

/-- Links an assignment target. -/
def target (place : Place) : Expr → Gen Target
  | .name loc ident => return .name loc ident (← refOf ident)
  | .attr loc object ident => do
      let object ← expr place object
      return .attr loc object (← nameConstant ident)
  | .index loc object index => do
      let object ← expr place object
      return .index loc object (← expr place index)
  | other => return .other other

/-- Links expressions in order. -/
def exprs (place : Place) : List Expr → Gen (List Linked.Expr)
  | [] => return []
  | e :: rest => do
      let first ← expr place e
      return first :: (← exprs place rest)

/-- Links an expression that may be missing. -/
def optionalExpr (place : Place) : Option Expr → Gen (Option Linked.Expr)
  | some e => return some (← expr place e)
  | none => return none

/-- Links keyword arguments in order. -/
def namedExprs (place : Place) : List (String × Expr) → Gen (List (NameConst × Linked.Expr))
  | [] => return []
  | (name, e) :: rest => do
      let name ← nameConstant name
      let first ← expr place e
      return (name, first) :: (← namedExprs place rest)

/-- Links the entries of a map literal in order. -/
def exprPairs (place : Place) : List (Expr × Expr) → Gen (List (Linked.Expr × Linked.Expr))
  | [] => return []
  | (k, v) :: rest => do
      let key ← expr place k
      let value ← expr place v
      return (key, value) :: (← exprPairs place rest)

/-- Links a function in its own scope and gives its index among the methods. The
constructor of a class first runs the constructors of the bases, unless it begins with a
super call of its own. -/
def function (name : String) (isInstanceMethod : Bool) (bases : Option (List String)) :
    FuncDecl → Gen Nat
  | .mk sig body => do
      enterScope (.function (.mk sig body))
      let scope := (← get).scopes.current
      let parameters ← parameterSlots sig.parameterNames
      let chained ← basePaths (if startsWithSuperCall body then [] else bases.getD [])
      let body ← stmts { inFunction := true, bases } body
      let localCount := (← get).scopes.localCount
      exitScope
      addFunction
        { loc := sig.loc, name, isInstanceMethod, parameters, arity := sig.params.length
          localCount, variadic := sig.varargs.isSome, acceptsKeywords := sig.kwargs.isSome
          scope, body := .statements chained body }

/-- Links a statement inside a function. -/
def stmt (place : Place) : Stmt → Gen Linked.Stmt
  | .expr loc value => return .expr loc (← expr place value)
  | .block loc body => do
      enterScope (.stmt (.block loc body))
      let body ← stmts place body
      exitScope
      return .block loc body
  | .ifElse loc condition body orelse => do
      let condition ← expr place condition
      let body ← stmt place body
      return .ifElse loc condition body (← optionalStmt place orelse)
  | .whileLoop loc condition body => do
      let condition ← expr place condition
      return .whileLoop loc condition (← stmt { place with inLoop := true } body)
  | .doWhile loc body condition => do
      let body ← stmt { place with inLoop := true } body
      return .doWhile loc body (← expr place condition)
  | .forLoop loc first condition step body => do
      enterScope (.stmt (.forLoop loc first condition step body))
      let first ← optionalStmt place first
      let condition ← optionalExpr place condition
      let body ← stmt { place with inLoop := true } body
      let step ← optionalExpr place step
      exitScope
      return .forLoop loc first condition step body
  | .foreach loc item source body => do
      let iterable ← expr place source
      enterScope (.stmt (.foreach loc item source body))
      let ref ← refOf item
      let body ← stmt { place with inLoop := true } body
      exitScope
      return .foreach loc item ref iterable body
  | .given loc value cases otherwise => do
      let value ← expr place value
      let cases ← whenCases place cases
      return .given loc value cases (← optionalStmt place otherwise)
  | .breakLoop loc => do
      checkLoop place loc .breakOutsideLoop
      return .breakLoop loc
  | .continueLoop loc => do
      checkLoop place loc .continueOutsideLoop
      return .continueLoop loc
  | .ret loc value => return .ret loc (← optionalExpr place value)
  | .raise loc value => return .raise loc (← expr place value)
  | .tryExcept loc body binding types handler => do
      let guarded ← stmt place body
      enterScope (.stmt (.tryExcept loc body binding types handler))
      let types ← exprs place types
      let binding ← bindingRef binding
      let handler ← stmt place handler
      exitScope
      return .tryExcept loc guarded binding types handler
  | .function loc decl => do
      let method ← function decl.sig.name false none decl
      let const ← addConstant (.method method)
      return .function loc decl method const (← refOf decl.sig.name)
  | other => return .other other

/-- Links a statement that may be missing. -/
def optionalStmt (place : Place) : Option Stmt → Gen (Option Linked.Stmt)
  | some s => return some (← stmt place s)
  | none => return none

/-- Links statements in order. -/
def stmts (place : Place) : List Stmt → Gen (List Linked.Stmt)
  | [] => return []
  | s :: rest => do
      let first ← stmt place s
      return first :: (← stmts place rest)

/-- Links the cases of a `given` statement in order. -/
def whenCases (place : Place) :
    List (List Expr × Stmt) → Gen (List (List Linked.Expr × Linked.Stmt))
  | [] => return []
  | (values, body) :: rest => do
      let values ← exprs place values
      let body ← stmt place body
      return (values, body) :: (← whenCases place rest)

end

end Generator
end ScriptMachine
