import ScriptMachine.Number.Binary64
import ScriptMachine.Source.Location
import ScriptMachine.Source.Operator

/-!
Program trees as a front end hands them over. Expressions, statements and
function declarations refer to each other, so they are declared together; each
node carries its position as its first field. Nothing here is checked: the
resolver and the code generator report what is ill formed.
-/

namespace ScriptMachine

/-- Everything about a function declaration except its body. -/
structure Signature where
  loc : Location := {}
  name : String
  /-- Positional parameters in declaration order. -/
  params : List String := []
  /-- Receives the tuple of the arguments beyond the positional ones. -/
  varargs : Option String := none
  /-- Receives the map of keyword arguments. -/
  kwargs : Option String := none
  /-- Static methods belong to the class and are not bound to instances. -/
  isStatic : Bool := false
deriving Repr, DecidableEq, Inhabited

/-- All parameter names: positional, then the variadic one, then the keyword one. -/
def Signature.parameterNames (sig : Signature) : List String :=
  sig.params ++ sig.varargs.toList ++ sig.kwargs.toList

/-- A method an interface requires. -/
structure InterfaceMethod where
  name : String
  arity : Nat
deriving Repr, DecidableEq, Inhabited

/-- An interface declaration. -/
structure InterfaceDecl where
  loc : Location := {}
  name : String
  methods : List InterfaceMethod := []
deriving Repr, DecidableEq, Inhabited

/-- `use module`, `use a, b from module` or `use * from module`. -/
structure UseDecl where
  loc : Location := {}
  module : String
  /-- The module path is meant relative to the importing file's directory. -/
  relative : Bool := false
  names : List String := []
  wildcard : Bool := false
deriving Repr, DecidableEq, Inhabited

mutual

/-- Expressions. -/
inductive Expr where
  | null (loc : Location)
  | bool (loc : Location) (value : Bool)
  | int (loc : Location) (value : Int64)
  | float (loc : Location) (value : Binary64)
  | str (loc : Location) (value : String)
  /-- A bare identifier: a local slot or a global, decided by the resolver. -/
  | name (loc : Location) (ident : String)
  /-- The receiver of the running method. -/
  | self (loc : Location)
  | attr (loc : Location) (target : Expr) (ident : String)
  | index (loc : Location) (target index : Expr)
  /-- Keyword arguments travel as one trailing map argument. -/
  | call (loc : Location) (callee : Expr) (args : List Expr) (keywords : List (String × Expr))
  /-- `super(args)`, meaningful in the constructor of a class with a base. -/
  | superCall (loc : Location) (args : List Expr)
  | binary (loc : Location) (op : BinaryOp) (left right : Expr)
  | unary (loc : Location) (op : UnaryOp) (operand : Expr)
  /-- `target = value`, or `target op= value` when an operator is given. -/
  | assign (loc : Location) (target : Expr) (op : Option BinaryOp) (value : Expr)
  | list (loc : Location) (items : List Expr)
  | tuple (loc : Location) (items : List Expr)
  | hash (loc : Location) (pairs : List (Expr × Expr))
  | lambda (loc : Location) (decl : FuncDecl)
  /-- `value is type`. -/
  | isType (loc : Location) (value type : Expr)
  /-- `value as type`. -/
  | asType (loc : Location) (value type : Expr)
  /-- `left ?? right`. -/
  | coalesce (loc : Location) (left right : Expr)
  | ternary (loc : Location) (condition thenValue elseValue : Expr)

/-- Statements. -/
inductive Stmt where
  | expr (loc : Location) (value : Expr)
  | block (loc : Location) (body : List Stmt)
  | ifElse (loc : Location) (condition : Expr) (body : Stmt) (orelse : Option Stmt)
  | whileLoop (loc : Location) (condition : Expr) (body : Stmt)
  | doWhile (loc : Location) (body : Stmt) (condition : Expr)
  | forLoop (loc : Location) (start : Option Stmt) (condition step : Option Expr) (body : Stmt)
  | foreach (loc : Location) (item : String) (iterable : Expr) (body : Stmt)
  /-- Each case lists the values that select its body. -/
  | given (loc : Location) (value : Expr) (cases : List (List Expr × Stmt))
      (otherwise : Option Stmt)
  | breakLoop (loc : Location)
  | continueLoop (loc : Location)
  | ret (loc : Location) (value : Option Expr)
  | raise (loc : Location) (value : Expr)
  /-- An empty list of types catches everything. -/
  | tryExcept (loc : Location) (body : Stmt) (binding : Option String) (types : List Expr)
      (handler : Stmt)
  | function (loc : Location) (decl : FuncDecl)
  | classDef (loc : Location) (decl : ClassDecl)
  | enumDef (loc : Location) (decl : EnumDecl)
  | interfaceDef (loc : Location) (decl : InterfaceDecl)
  | use (loc : Location) (decl : UseDecl)

/-- A function declaration: its signature and its body. -/
inductive FuncDecl where
  | mk (sig : Signature) (body : List Stmt)

/-- A class declaration. Members are functions, classes, enums and
`name = value` field initial values; bases are dotted names. -/
inductive ClassDecl where
  | mk (loc : Location) (name : String) (bases : List String)
      (constructor : Option FuncDecl) (members : List Stmt)

/-- An enum declaration. Each member has a name, perhaps a value, and a position. -/
inductive EnumDecl where
  | mk (loc : Location) (name : String) (members : List (String × Option Expr × Location))

end

namespace Expr

/-- Position of an expression. -/
def loc : Expr → Location
  | null loc | bool loc _ | int loc _ | float loc _ | str loc _ | name loc _ | self loc
  | attr loc _ _ | index loc _ _ | call loc _ _ _ | superCall loc _ | binary loc _ _ _
  | unary loc _ _ | assign loc _ _ _ | list loc _ | tuple loc _ | hash loc _ | lambda loc _
  | isType loc _ _ | asType loc _ _ | coalesce loc _ _ | ternary loc _ _ _ => loc

/-- Names, attributes and index expressions can be assigned to. -/
def isAssignable : Expr → Bool
  | name .. | attr .. | index .. => true
  | _ => false

end Expr

namespace Stmt

/-- Position of a statement. -/
def loc : Stmt → Location
  | expr loc _ | block loc _ | ifElse loc _ _ _ | whileLoop loc _ _ | doWhile loc _ _
  | forLoop loc _ _ _ _ | foreach loc _ _ _ | given loc _ _ _ | breakLoop loc | continueLoop loc
  | ret loc _ | raise loc _ | tryExcept loc _ _ _ _ | function loc _ | classDef loc _
  | enumDef loc _ | interfaceDef loc _ | use loc _ => loc

/-- The word a statement starts with, as diagnostics name it. -/
def keyword : Stmt → String
  | ifElse .. => "if"
  | whileLoop .. => "while"
  | doWhile .. => "do"
  | forLoop .. => "for"
  | foreach .. => "foreach"
  | given .. => "given"
  | breakLoop .. => "break"
  | continueLoop .. => "continue"
  | ret .. => "return"
  | raise .. => "raise"
  | tryExcept .. => "try"
  | expr .. => "expression"
  | block .. => "block"
  | function .. => "func"
  | classDef .. => "class"
  | enumDef .. => "enum"
  | interfaceDef .. => "interface"
  | use .. => "use"

end Stmt

namespace FuncDecl

/-- The signature of a declaration. -/
def sig : FuncDecl → Signature
  | mk sig _ => sig

/-- The body of a declaration. -/
def body : FuncDecl → List Stmt
  | mk _ body => body

end FuncDecl

namespace ClassDecl

/-- Position of the declaration. -/
def loc : ClassDecl → Location
  | mk loc .. => loc

/-- Name of the class. -/
def name : ClassDecl → String
  | mk _ name .. => name

/-- What stands in the body of the class. -/
def members : ClassDecl → List Stmt
  | mk _ _ _ _ members => members

end ClassDecl

namespace EnumDecl

/-- Position of the declaration. -/
def loc : EnumDecl → Location
  | mk loc .. => loc

/-- Name of the enum. -/
def name : EnumDecl → String
  | mk _ name _ => name

/-- The members in declaration order. -/
def members : EnumDecl → List (String × Option Expr × Location)
  | mk _ _ members => members

end EnumDecl
end ScriptMachine
