import ScriptMachine.Code.Generation
import ScriptMachine.Text.Path

/-!
Declarations and the top level of a unit, and the compiler as a whole: resolution, then the
second pass, each of which may reject the unit, then the code of all methods.
-/

namespace ScriptMachine

namespace Generator

/-- The constructor of a class that declares none: it runs those of the bases. -/
def impliedConstructor (loc : Location) (decl : ClassDecl) (name : String) (bases : List String) :
    Gen Nat := do
  enterScope (.impliedConstructor decl)
  let scope := (← get).scopes.current
  let chained ← basePaths bases
  let localCount := (← get).scopes.localCount
  exitScope
  addFunction
    { loc, name, isInstanceMethod := true, localCount, scope, body := .statements chained [] }

/-- Links the field values of a class, and collects the names set. A name may be set once. -/
def fieldValues (seen : List String) : List Stmt → Gen (List Linked.Field × List String)
  | [] => pure ([], seen)
  | .expr _ (.assign loc (.name _ ident) _ value) :: rest => do
      if seen.contains ident then report loc (.duplicateDefinition ident)
      let value ← expr { inFunction := true } value
      let ident ← nameConstant ident
      let (others, seen) ← fieldValues (seen ++ [ident.name]) rest
      return ({ loc, ident, value } :: others, seen)
  | _ :: rest => fieldValues seen rest

/-- Links the constructor of a class, declared or implied. `outer` is the position of the
declaration at module level. -/
def constructorDef (outer : Location) : ClassDecl → Gen Nat
  | .mk _ name bases (some decl) _ => function name true (some bases) decl
  | .mk loc name bases none members =>
      impliedConstructor outer (.mk loc name bases none members) name bases

/-- Links the method that sets the fields of a class. There is none if no field is set. The
names set are given back too. -/
def fieldSetter (decl : ClassDecl) : Gen (Option Nat × List String) := do
  enterScope (.fields decl)
  let scope := (← get).scopes.current
  let (items, seen) ← fieldValues [] decl.members
  let localCount := (← get).scopes.localCount
  exitScope
  if seen.isEmpty then return (none, seen)
  else do
    let index ← addFunction
      { loc := decl.loc, name := decl.name ++ ".<fields>", isInstanceMethod := true, localCount
        scope, body := .fields items }
    return (some index, seen)

/-- Adds one enum member; a repeated name is reported. -/
def enumMember (members : List (String × Int64)) (name : String) (value : Int64)
    (loc : Location) : Gen (List (String × Int64)) := do
  if members.any (·.1 == name) then report loc (.duplicateDefinition name)
  return members ++ [(name, value)]

/-- Compiles the members of an enum. A member without a value takes the next
number, counting down from -1 whatever stands between. -/
def enumMembers (members : List (String × Int64)) (next : Int64) :
    List (String × Option Expr × Location) → Gen (List (String × Int64))
  | [] => pure members
  | (name, none, loc) :: rest => do
      let members ← enumMember members name next loc
      enumMembers members (next - 1) rest
  | (name, some value, loc) :: rest => do
      match enumLiteral? value with
      | some value => do
          let members ← enumMember members name value loc
          enumMembers members next rest
      | none => do
          report loc (.malformedEnumValue name)
          enumMembers members next rest

/-- Compiles an enum and gives its index. -/
def enumDef (decl : EnumDecl) : Gen Nat := do
  let members ← enumMembers [] (-1) decl.members
  modifyGet fun g => (g.enums.size, { g with enums := g.enums.push { name := decl.name, members } })

/-- Adds an interface and gives its index. -/
def interfaceDef (decl : InterfaceDecl) : Gen Nat :=
  modifyGet fun g => (g.interfaces.size, { g with interfaces := g.interfaces.push decl })

/-- The compiled members of a class body. -/
structure ClassTables where
  instanceMethods : List (String × Nat) := []
  attributes : List (String × Binding) := []
  /-- Every member name so far. -/
  seen : List String := []
deriving Repr, DecidableEq, Inhabited

/-- Takes a class member into the tables; a repeated name is reported. -/
def ClassTables.insert (tables : ClassTables) (loc : Location) (name : String)
    (add : ClassTables → ClassTables) : Gen ClassTables := do
  if tables.seen.contains name then do
    report loc (.duplicateDefinition name)
    return tables
  else return add { tables with seen := tables.seen ++ [name] }

mutual

/-- Links a class and gives its index: the constructor, one method that sets the fields,
then the members. `outer` is the position of the declaration at module level. -/
def classDef (outer : Location) : ClassDecl → Gen Nat
  | .mk loc name bases ctor members => do
      let constructor ← constructorDef outer (.mk loc name bases ctor members)
      let (fieldSetter, seen) ← fieldSetter (.mk loc name bases ctor members)
      let tables ← classMembers outer { seen } members
      modifyGet fun g => (g.classes.size, { g with
        classes := g.classes.push
          { name, constructor, fieldSetter, instanceMethods := tables.instanceMethods
            attributes := tables.attributes, declaredBases := bases } })

/-- Links the methods, nested classes and enums of a class body. -/
def classMembers (outer : Location) (tables : ClassTables) : List Stmt → Gen ClassTables
  | [] => pure tables
  | member :: rest => do
      match member with
      | .function _ decl => do
          let sig := decl.sig
          let index ← function sig.name (!sig.isStatic) none decl
          let tables ← tables.insert sig.loc sig.name fun t =>
            if sig.isStatic then { t with attributes := t.attributes ++ [(sig.name, .method index)] }
            else { t with instanceMethods := t.instanceMethods ++ [(sig.name, index)] }
          classMembers outer tables rest
      | .classDef _ decl => do
          let index ← classDef outer decl
          let tables ← tables.insert decl.loc decl.name fun t =>
            { t with attributes := t.attributes ++ [(decl.name, .cls index)] }
          classMembers outer tables rest
      | .enumDef _ decl => do
          let index ← enumDef decl
          let tables ← tables.insert decl.loc decl.name fun t =>
            { t with attributes := t.attributes ++ [(decl.name, .enum index)] }
          classMembers outer tables rest
      | _ => classMembers outer tables rest

end

/-- Binds a top-level name; a repeated name is reported. -/
def bindAttribute (loc : Location) (name : String) (value : Binding) : Gen Unit := do
  if (← get).attributes.any (·.1 == name) then report loc (.duplicateDefinition name)
  else modify fun g => { g with attributes := g.attributes ++ [(name, value)] }

/-- The module a `use` declaration names. A relative path is meant below the
directory of the source file. -/
def usedModule (directory : String) (decl : UseDecl) : String :=
  if decl.relative then
    Path.join directory
      (String.ofList (decl.module.toList.dropWhile fun c => c == '/' || c == '\\'))
  else decl.module

/-- Links a `use` declaration. -/
def use (decl : UseDecl) : Gen Linked.Root := do
  let module := usedModule (← get).directory decl
  let name ← nameConstant module
  let names ←
    if decl.wildcard || decl.names.isEmpty then pure 0 else addConstant (.names decl.names)
  modify fun g =>
    if g.imports.contains module then g else { g with imports := g.imports ++ [module] }
  return .use decl name.const names

mutual

/-- Links a statement at module level. Declarations are bound at compile time. -/
def rootStmt : Stmt → Gen (List Linked.Root)
  | .expr loc value => return [.expr loc (← expr {} value)]
  | .block loc body => return .mark loc :: (← rootStmts body)
  | .function loc decl => do
      let index ← function decl.sig.name false none decl
      bindAttribute decl.sig.loc decl.sig.name (.method index)
      return [.mark loc]
  | .classDef loc decl => do
      let index ← classDef loc decl
      bindAttribute decl.loc decl.name (.cls index)
      return [.mark loc]
  | .enumDef loc decl => do
      let index ← enumDef decl
      bindAttribute decl.loc decl.name (.enum index)
      return [.mark loc]
  | .interfaceDef loc decl => do
      let index ← interfaceDef decl
      bindAttribute decl.loc decl.name (.interface index)
      return [.mark loc]
  | .use _ decl => return [← use decl]
  | other => return [.mark other.loc]

/-- Links statements at module level in order. -/
def rootStmts : List Stmt → Gen (List Linked.Root)
  | [] => return []
  | s :: rest => do
      let first ← rootStmt s
      return first ++ (← rootStmts rest)

end

end Generator

/-- The second pass over a unit whose scope tree is given. -/
def generate (directory : String) (scopes : ScopeTable) (unit : List Stmt) :
    List Linked.Root × Generator :=
  (Generator.rootStmts unit).run { scopes := scopes.reset, directory }

/-- Compiles a unit. `name` is the module's name and `file` the path it was read
from. All complaints of the pass that found any are given back. -/
def compile (name file : String) (unit : List Stmt) : Except ErrorLog CompiledUnit :=
  let resolved := resolve unit
  if resolved.errors ≠ [] then .error resolved.errors
  else
    let (code, g) := generate ((Path.parent? file).getD "") resolved.scopes unit
    if g.errors ≠ [] then .error g.errors
    else .ok
      { name, file, imports := g.imports, constants := g.constants
        methods := g.functions.map Linked.Function.method
        classes := g.classes, enums := g.enums, interfaces := g.interfaces
        attributes := g.attributes, topLevel := Method.moduleBody (Linked.codeUnit code).body }

end ScriptMachine
