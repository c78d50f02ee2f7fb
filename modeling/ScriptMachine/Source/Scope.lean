/-!
Lexical scopes and the slots of local variables.

Scopes form a tree. The resolver builds it with `beginScope` and `endScope`; the
code generator walks the finished tree again with `enterScope` and `exitScope`,
which visit the scopes below the current one in creation order. Since the tree
is complete before any code is generated, a name that is assigned late in a
function already has its slot at the first use.

A function boundary owns the numbering of slots: the names declared in it and in
the scopes nested in it, down to the next boundary, are numbered together. Names
whose boundary is the root are globals.
-/

namespace ScriptMachine

/-- How a resolved name is addressed when the program runs. -/
inductive SymbolKind where
  /-- A slot among the locals of the running frame. -/
  | slot
  /-- A module attribute or ambient global, addressed by name. -/
  | global
deriving Repr, DecidableEq, Inhabited

/-- The name of a kind. -/
def SymbolKind.name : SymbolKind → String
  | slot => "Local"
  | global => "Global"

/-- A declared name. -/
structure Symbol where
  name : String
  index : Nat
  kind : SymbolKind
deriving Repr, DecidableEq, Inhabited

/-- One node of the scope tree. Scopes refer to each other by number. -/
structure Scope where
  parent : Option Nat
  /-- Nested scopes in creation order. -/
  children : List Nat := []
  /-- Names declared here, oldest first. -/
  symbols : List Symbol := []
  isBoundary : Bool
  /-- Slots handed out so far; counted on boundaries only. -/
  slotCount : Nat := 0
  /-- How many of the children have been walked again. -/
  visited : Nat := 0
deriving Repr, DecidableEq, Inhabited

/-- The scope declares `name` itself. -/
def Scope.find? (scope : Scope) (name : String) : Option Symbol :=
  scope.symbols.find? (·.name == name)

/-- The scope tree and the scope in which names are currently declared and
looked up. Scope 0 is the root, and a scope's number exceeds its parent's. -/
structure ScopeTable where
  scopes : Array Scope := #[{ parent := none, isBoundary := true }]
  current : Nat := 0
deriving Repr, DecidableEq, Inhabited

namespace ScopeTable

/-- Number of the root scope. -/
def root : Nat := 0

/-- The scope with a given number. -/
def scope (table : ScopeTable) (id : Nat) : Scope :=
  table.scopes.getD id { parent := none, isBoundary := true }

/-- Changes the scope with a given number. -/
def update (table : ScopeTable) (id : Nat) (change : Scope → Scope) : ScopeTable :=
  { table with scopes := table.scopes.modify id change }

/-- At most `steps` scopes on the way from `id` up to the root. -/
def pathUp (table : ScopeTable) : (steps : Nat) → (id : Nat) → List Nat
  | 0, _ => []
  | steps + 1, id =>
      id :: match (table.scope id).parent with
        | some parent => table.pathUp steps parent
        | none => []

/-- The scopes that enclose `id`, innermost first and `id` itself included. A
parent has a smaller number than its child, so `id + 1` steps reach the root. -/
def enclosing (table : ScopeTable) (id : Nat) : List Nat :=
  table.pathUp (id + 1) id

/-- The nearest enclosing function boundary. -/
def boundaryOf (table : ScopeTable) (id : Nat) : Nat :=
  ((table.enclosing id).find? fun i => (table.scope i).isBoundary).getD root

/-- Opens a new scope inside the current one. -/
def beginScope (table : ScopeTable) (isBoundary : Bool) : ScopeTable :=
  let id := table.scopes.size
  let grown := table.update table.current fun s => { s with children := s.children ++ [id] }
  { scopes := grown.scopes.push { parent := some table.current, isBoundary }, current := id }

/-- Leaves the current scope for its parent. The root is never left. -/
def endScope (table : ScopeTable) : ScopeTable :=
  { table with current := (table.scope table.current).parent.getD table.current }

/-- Declares `name` in the current scope. A name that the scope already declares
keeps its symbol; any other name takes the next slot of the boundary. -/
def addSymbol (table : ScopeTable) (name : String) : Symbol × ScopeTable :=
  match (table.scope table.current).find? name with
  | some symbol => (symbol, table)
  | none =>
      let boundary := table.boundaryOf table.current
      let symbol : Symbol :=
        { name, index := (table.scope boundary).slotCount
          kind := if boundary = root then .global else .slot }
      let counted := table.update boundary fun s => { s with slotCount := s.slotCount + 1 }
      (symbol, counted.update table.current fun s => { s with symbols := s.symbols ++ [symbol] })

/-- The symbol of the nearest enclosing scope that declares `name`. -/
def lookup (table : ScopeTable) (name : String) : Option Symbol :=
  (table.enclosing table.current).findSome? fun id => (table.scope id).find? name

/-- Some enclosing scope declares `name`. -/
def isDefined (table : ScopeTable) (name : String) : Bool :=
  (table.lookup name).isSome

/-- Slots handed out by the nearest enclosing boundary. -/
def localCount (table : ScopeTable) : Nat :=
  (table.scope (table.boundaryOf table.current)).slotCount

/-- The current scope is the root. -/
def isRoot (table : ScopeTable) : Bool :=
  table.current == root

/-- Returns to the root, ready to walk the whole tree again. -/
def reset (table : ScopeTable) : ScopeTable :=
  { scopes := table.scopes.map fun s => { s with visited := 0 }, current := root }

/-- Enters the next scope below the current one that has not been walked again.
When none is left a fresh scope is opened. -/
def enterScope (table : ScopeTable) : ScopeTable :=
  let here := table.scope table.current
  let marked := table.update table.current fun s => { s with visited := s.visited + 1 }
  match here.children[here.visited]? with
  | some child => { marked with current := child }
  | none => marked.beginScope false

/-- Leaves the current scope for its parent. -/
def exitScope (table : ScopeTable) : ScopeTable :=
  table.endScope

end ScopeTable
end ScriptMachine
