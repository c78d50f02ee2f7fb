import ScriptMachine.Source.Tree

/-!
Linked trees: program trees in which every name is tied to the slot it lives in, every
literal and every name that is looked up when the program runs to its constant, and every
nested function to the method it became. The second pass over a unit makes them; code is
written from them alone.

A linked tree also knows the position each of its instructions carries. The position in
force changes where a node begins and, for calls and operators, where it ends; `stamp` is
the one in force behind a node.
-/

namespace ScriptMachine.Linked

/-- Where the value of a name is kept. -/
inductive Ref where
  /-- In a slot of the running frame. -/
  | slot (index : Nat)
  /-- Among the globals, under the name that is this constant. -/
  | global (const : Nat)
deriving Repr, DecidableEq, Inhabited

/-- A name with the constant that holds it. -/
structure NameConst where
  name : String
  const : Nat
deriving Repr, DecidableEq, Inhabited

/-- A class by its dotted name: a global, then attributes one from the other. -/
abbrev BasePath := List NameConst

mutual

/-- Expressions. -/
inductive Expr where
  | null (loc : Location)
  | bool (loc : Location) (value : Bool)
  | int (loc : Location) (value : Int64) (const : Nat)
  | float (loc : Location) (value : Binary64) (const : Nat)
  | str (loc : Location) (value : NameConst)
  | name (loc : Location) (ident : String) (ref : Ref)
  | self (loc : Location)
  | attr (loc : Location) (target : Expr) (ident : NameConst)
  | index (loc : Location) (target index : Expr)
  | call (loc : Location) (callee : Expr) (args : List Expr) (keywords : List (NameConst × Expr))
  /-- Without a base the call stands where it may not. -/
  | superCall (loc : Location) (args : List Expr) (base : Option BasePath)
  | binary (loc : Location) (op : BinaryOp) (left right : Expr)
  | unary (loc : Location) (op : UnaryOp) (operand : Expr)
  | assign (loc : Location) (target : Target) (value : Expr)
  /-- `target op= value`. The parts of the target occur twice: the value it has is read
  before it is assigned. -/
  | update (loc : Location) (op : BinaryOp) (old value : Expr) (target : Target)
  | list (loc : Location) (items : List Expr)
  | tuple (loc : Location) (items : List Expr)
  | hash (loc : Location) (pairs : List (Expr × Expr))
  /-- The method it became, the constant that holds the method, and whether the lambda
  shares the slots of the function around it. -/
  | lambda (loc : Location) (decl : FuncDecl) (method const : Nat) (closes : Bool)
  | isType (loc : Location) (value type : Expr)
  | asType (loc : Location) (value type : Expr)
  | coalesce (loc : Location) (left right : Expr)
  | ternary (loc : Location) (condition thenValue elseValue : Expr)

/-- What can be assigned to. -/
inductive Target where
  | name (loc : Location) (ident : String) (ref : Ref)
  | attr (loc : Location) (object : Expr) (ident : NameConst)
  | index (loc : Location) (object index : Expr)
  /-- Anything else. -/
  | other (tree : ScriptMachine.Expr)

end

/-- Statements inside a function. -/
inductive Stmt where
  | expr (loc : Location) (value : Expr)
  | block (loc : Location) (body : List Stmt)
  | ifElse (loc : Location) (condition : Expr) (body : Stmt) (orelse : Option Stmt)
  | whileLoop (loc : Location) (condition : Expr) (body : Stmt)
  | doWhile (loc : Location) (body : Stmt) (condition : Expr)
  | forLoop (loc : Location) (start : Option Stmt) (condition step : Option Expr) (body : Stmt)
  | foreach (loc : Location) (item : String) (ref : Ref) (iterable : Expr) (body : Stmt)
  | given (loc : Location) (value : Expr) (cases : List (List Expr × Stmt))
      (otherwise : Option Stmt)
  | breakLoop (loc : Location)
  | continueLoop (loc : Location)
  | ret (loc : Location) (value : Option Expr)
  | raise (loc : Location) (value : Expr)
  | tryExcept (loc : Location) (body : Stmt) (binding : Option (String × Ref))
      (types : List Expr) (handler : Stmt)
  | function (loc : Location) (decl : FuncDecl) (method const : Nat) (ref : Ref)
  /-- A declaration that may not stand in a function. -/
  | other (tree : ScriptMachine.Stmt)

/-- A field of a class and the value it starts with. -/
structure Field where
  loc : Location
  ident : NameConst
  value : Expr

/-- Statements at module level. -/
inductive Root where
  /-- Nothing to run: a declaration, or the beginning of a block. -/
  | mark (loc : Location)
  | expr (loc : Location) (value : Expr)
  /-- The constant that holds the name of the module, and the one that holds the names
  taken from it if any are. -/
  | use (decl : UseDecl) (module : Nat) (names : Nat)

/-- What a method does. -/
inductive Body where
  /-- Runs the constructors of these bases, then the statements. -/
  | statements (bases : List BasePath) (body : List Stmt)
  /-- Sets the fields of a class. -/
  | fields (items : List Field)

/-- A method before its code is written. -/
structure Function where
  loc : Location
  name : String
  isInstanceMethod : Bool := false
  parameters : List (String × Nat) := []
  arity : Nat := 0
  localCount : Nat := 0
  variadic : Bool := false
  acceptsKeywords : Bool := false
  /-- Number of the scope of its body. -/
  scope : Nat
  body : Body

/-! ## Positions -/

mutual

/-- The position in force behind an expression. -/
def Expr.stamp : Expr → Location
  | .null loc | .bool loc _ | .int loc _ _ | .float loc _ _ | .str loc _ | .name loc _ _
  | .self loc | .call loc _ _ _ | .superCall loc _ _ | .lambda loc _ _ _ _ => loc
  | .attr _ target _ => target.stamp
  | .index _ _ index => index.stamp
  | .binary loc op _ right =>
      match op with
      | .boolAnd | .boolOr => right.stamp
      | _ => loc
  | .unary _ _ operand => operand.stamp
  | .assign _ target value => target.stamp value.stamp
  | .update _ _ _ value target => target.stamp value.stamp
  | .list loc items => stampExprs loc items
  | .tuple loc items => stampExprs loc items
  | .hash loc pairs => stampPairs loc pairs
  | .isType _ _ type => type.stamp
  | .asType _ _ type => type.stamp
  | .coalesce _ _ right => right.stamp
  | .ternary _ _ _ elseValue => elseValue.stamp

/-- The position in force behind an assignment target, given the one before it. -/
def Target.stamp (before : Location) : Target → Location
  | .name _ _ _ | .other _ => before
  | .attr _ object _ => object.stamp
  | .index _ _ index => index.stamp

/-- The position in force behind expressions, given the one before them. -/
def stampExprs (before : Location) : List Expr → Location
  | [] => before
  | e :: rest => stampExprs e.stamp rest

/-- The position in force behind the entries of a map. -/
def stampPairs (before : Location) : List (Expr × Expr) → Location
  | [] => before
  | (_, value) :: rest => stampPairs value.stamp rest

end

/-- The position in force behind keyword arguments, given the one before them. -/
def stampKeywords (before : Location) : List (NameConst × Expr) → Location
  | [] => before
  | (_, e) :: rest => stampKeywords e.stamp rest

mutual

/-- The position in force behind a statement. -/
def Stmt.stamp : Stmt → Location
  | .expr _ value => value.stamp
  | .block loc body => stampStmts loc body
  | .ifElse _ _ body orelse =>
      match orelse with
      | none => body.stamp
      | some other => other.stamp
  | .whileLoop _ _ body => body.stamp
  | .doWhile _ _ condition => condition.stamp
  | .forLoop _ _ _ step body =>
      match step with
      | none => body.stamp
      | some e => e.stamp
  | .foreach _ _ _ _ body => body.stamp
  | .given _ value cases otherwise =>
      match otherwise with
      | none => stampCases value.stamp cases
      | some s => s.stamp
  | .breakLoop loc | .continueLoop loc => loc
  | .ret loc value => (value.map Expr.stamp).getD loc
  | .raise _ value => value.stamp
  | .tryExcept _ _ _ _ handler => handler.stamp
  | .function _ decl _ _ _ => decl.sig.loc
  | .other tree => tree.loc

/-- The position in force behind statements, given the one before them. -/
def stampStmts (before : Location) : List Stmt → Location
  | [] => before
  | s :: rest => stampStmts s.stamp rest

/-- The position in force behind the cases of a `given` statement. -/
def stampCases (before : Location) : List (List Expr × Stmt) → Location
  | [] => before
  | (_, body) :: rest => stampCases body.stamp rest

end

/-- The position in force behind a statement at module level. -/
def Root.stamp : Root → Location
  | .mark loc => loc
  | .expr _ value => value.stamp
  | .use decl _ _ => decl.loc

end ScriptMachine.Linked
