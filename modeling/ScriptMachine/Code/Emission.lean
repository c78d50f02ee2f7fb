import ScriptMachine.Code.Instruction
import ScriptMachine.Code.Linked

/-!
Code from linked trees. Operands are evaluated left to right; the arguments of a call come
before its callee, and an assigned value before its target.

Code for a node is a list of slots that starts at a known instruction index, so every jump
inside it can be written with its final target at once. Only `break` and `continue` wait:
they stay open until the loop around them knows where it ends, and the loop closes them.
-/

namespace ScriptMachine

/-- An instruction, or a jump that the enclosing loop completes. -/
inductive Slot where
  | fixed (instruction : Instruction)
  /-- Jumps behind the enclosing loop. -/
  | leaveLoop (loc : Location)
  /-- Jumps to the next round of the enclosing loop. -/
  | nextRound (loc : Location)
deriving Repr, DecidableEq, Inhabited

/-- Code that starts at a known instruction index. -/
abbrev Fragment := List Slot

namespace Slot

/-- An instruction at a position. -/
def of (loc : Location) (op : Opcode) (arg : Nat := 0) : Slot :=
  .fixed { op, arg, loc }

/-- Completes the jumps that belong to a loop. -/
def close (roundStart loopEnd : Nat) : Slot → Slot
  | .fixed i => .fixed i
  | .leaveLoop loc => .of loc .jump loopEnd
  | .nextRound loc => .of loc .jump roundStart

/-- The instruction of a slot. Outside loops no slot is open. -/
def instruction : Slot → Instruction
  | .fixed i => i
  | .leaveLoop loc | .nextRound loc => { op := .jump, loc }

end Slot

namespace Fragment

/-- Completes the jumps that belong to a loop. -/
def close (code : Fragment) (roundStart loopEnd : Nat) : Fragment :=
  code.map (Slot.close roundStart loopEnd)

/-- The finished body of a method. -/
def body (code : Fragment) : Array Instruction :=
  (code.map Slot.instruction).toArray

end Fragment

/-- What is open around a statement. -/
structure Nest where
  /-- Protected regions of the method. -/
  regions : Nat := 0
  /-- Protected regions around the innermost loop, if there is a loop. -/
  loopRegions : Option Nat := none
deriving Repr, DecidableEq, Inhabited

namespace Nest

/-- Inside the body of a loop. -/
def inLoop (nest : Nest) : Nest :=
  { nest with loopRegions := some nest.regions }

/-- Inside a protected region. -/
def inRegion (nest : Nest) : Nest :=
  { nest with regions := nest.regions + 1 }

end Nest

namespace Linked

/-- Pushes the value of a name. -/
def Ref.load (loc : Location) : Ref → Slot
  | .slot index => .of loc .loadLocal index
  | .global const => .of loc .loadGlobal const

/-- Pops the top value into a name. -/
def Ref.store (loc : Location) : Ref → Slot
  | .slot index => .of loc .storeLocal index
  | .global const => .of loc .storeGlobal const

/-- Pushes a class by its dotted name. -/
def loadBase (loc : Location) : BasePath → Fragment
  | [] => []
  | first :: rest =>
      .of loc .loadGlobal first.const :: rest.map fun segment => .of loc .loadAttribute segment.const

/-- Runs the constructors of the bases without arguments, in order. -/
def callBases (loc : Location) (bases : List BasePath) : Fragment :=
  bases.flatMap fun base => loadBase loc base ++ [.of loc .invokeSuper]

/-- Packs keyword arguments into one map, if there are any. -/
def packKeywords (loc : Location) (count : Nat) : Fragment :=
  if count = 0 then [] else [.of loc .buildHash count]

mutual

/-- Code that leaves the value of an expression on the stack. -/
def Expr.code (start : Nat) : Expr → Fragment
  | .null loc => [.of loc .loadNull]
  | .bool loc true => [.of loc .loadTrue]
  | .bool loc false => [.of loc .loadFalse]
  | .int loc _ const => [.of loc .loadConst const]
  | .float loc _ const => [.of loc .loadConst const]
  | .str loc value => [.of loc .loadConst value.const]
  | .name loc _ ref => [ref.load loc]
  | .self loc => [.of loc .loadSelf]
  | .attr _ target ident => target.code start ++ [.of target.stamp .loadAttribute ident.const]
  | .index _ target index =>
      let target := target.code start
      target ++ index.code (start + target.length) ++ [.of index.stamp .loadIndex]
  | .call loc callee args keywords =>
      let values := codeExprs start args
      let before := stampExprs loc args
      let named := codeKeywords before (start + values.length) keywords
      let packed := packKeywords (stampKeywords before keywords) keywords.length
      let front := values ++ named ++ packed
      front ++ callee.code (start + front.length) ++ [.of loc .invoke (args.length + packed.length)]
  | .superCall loc args base =>
      let values := codeExprs start args
      match base with
      | some path =>
          values ++ loadBase (stampExprs loc args) path
            ++ [.of loc .invokeSuper args.length, .of loc .loadNull]
      | none => values
  | .binary loc op left right =>
      let first := left.code start
      match op with
      | .boolAnd | .boolOr =>
          let right := right.code (start + first.length + 3)
          let skip := if op = .boolAnd then Opcode.jumpIfFalse else Opcode.jumpIfTrue
          first ++ [.of left.stamp .dup,
            .of left.stamp skip (start + first.length + 3 + right.length), .of left.stamp .pop]
            ++ right
      | _ => first ++ right.code (start + first.length) ++ [.of loc .binOp op.tag]
  | .unary _ op operand => operand.code start ++ [.of operand.stamp .unaryOp op.tag]
  | .assign _ target value =>
      let front := value.code start ++ [.of value.stamp .dup]
      front ++ target.store value.stamp (start + front.length)
  | .update _ op old value target =>
      let old := old.code start
      let front := old ++ value.code (start + old.length)
        ++ [.of value.stamp .binOp op.tag, .of value.stamp .dup]
      front ++ target.store value.stamp (start + front.length)
  | .list loc items => codeExprs start items ++ [.of (stampExprs loc items) .buildList items.length]
  | .tuple loc items =>
      codeExprs start items ++ [.of (stampExprs loc items) .buildTuple items.length]
  | .hash loc pairs => codePairs start pairs ++ [.of (stampPairs loc pairs) .buildHash pairs.length]
  | .lambda loc _ _ const closes =>
      .of loc .loadConst const :: if closes then [.of loc .buildClosure] else []
  | .isType _ value type =>
      let value := value.code start
      value ++ type.code (start + value.length) ++ [.of type.stamp .instanceOf]
  | .asType _ value type =>
      let value := value.code start
      value ++ type.code (start + value.length) ++ [.of type.stamp .dynamicCast]
  | .coalesce _ left right =>
      let first := left.code start
      let right := right.code (start + first.length + 1)
      first ++ [.of left.stamp .nullCoalesce (start + first.length + 1 + right.length)] ++ right
  | .ternary _ condition thenValue elseValue =>
      let test := condition.code start
      let thenStart := start + test.length + 1
      let first := thenValue.code thenStart
      let elseStart := thenStart + first.length + 1
      let second := elseValue.code elseStart
      test ++ [.of condition.stamp .jumpIfFalse elseStart] ++ first
        ++ [.of thenValue.stamp .jump (elseStart + second.length)] ++ second

/-- Code that pops the top value into an assignment target. -/
def Target.store (before : Location) (start : Nat) : Target → Fragment
  | .name _ _ ref => [ref.store before]
  | .attr _ object ident => object.code start ++ [.of object.stamp .storeAttribute ident.const]
  | .index _ object index =>
      let object := object.code start
      object ++ index.code (start + object.length) ++ [.of index.stamp .storeIndex]
  | .other _ => [.of before .pop]

/-- Code that pushes the values of expressions in order. -/
def codeExprs (start : Nat) : List Expr → Fragment
  | [] => []
  | e :: rest =>
      let first := e.code start
      first ++ codeExprs (start + first.length) rest

/-- Code that pushes the name and the value of each keyword argument. -/
def codeKeywords (before : Location) (start : Nat) : List (NameConst × Expr) → Fragment
  | [] => []
  | (name, e) :: rest =>
      let value := e.code (start + 1)
      .of before .loadConst name.const :: value
        ++ codeKeywords e.stamp (start + 1 + value.length) rest

/-- Code that pushes the key and the value of each map entry. -/
def codePairs (start : Nat) : List (Expr × Expr) → Fragment
  | [] => []
  | (k, v) :: rest =>
      let key := k.code start
      let both := key ++ v.code (start + key.length)
      both ++ codePairs (start + both.length) rest

end

/-- Code that compares the value on the stack with each candidate and jumps behind the
instruction after the comparisons at the first match. -/
def codeCandidates (before : Location) (start : Nat) : List Expr → Fragment
  | [] => []
  | e :: rest =>
      let value := e.code (start + 1)
      let restStart := start + 1 + value.length + 2
      let others := codeCandidates e.stamp restStart rest
      .of before .dup :: value
        ++ [.of e.stamp .binOp BinaryOp.equals.tag,
          .of e.stamp .jumpIfTrue (restStart + others.length + 1)]
        ++ others

/-- Code that tests the current exception against each type and jumps behind the two
instructions after the tests at the first match. -/
def codeTypeTests (before : Location) (start : Nat) : List Expr → Fragment
  | [] => []
  | e :: rest =>
      let type := e.code (start + 1)
      let restStart := start + 1 + type.length + 2
      let others := codeTypeTests e.stamp restStart rest
      .of before .loadException :: type
        ++ [.of e.stamp .instanceOf, .of e.stamp .jumpIfTrue (restStart + others.length + 2)]
        ++ others

/-- Code that goes on if the current exception has one of the types, and raises it again
otherwise. Without types nothing is tested. -/
def selectException (before : Location) (start : Nat) (types : List Expr) : Fragment :=
  if types.isEmpty then []
  else
    codeTypeTests before start types
      ++ [.of (stampExprs before types) .loadException, .of (stampExprs before types) .raise]

/-- Code that binds the current exception to a name, if there is one. -/
def bindException (loc : Location) : Option (String × Ref) → Fragment
  | some (_, ref) => [.of loc .loadException, ref.store loc]
  | none => []

/-- The jump of a `break` or `continue`: it first closes the regions opened since the loop
began. -/
def loopJump (nest : Nest) (loc : Location) (jump : Slot) : Fragment :=
  match nest.loopRegions with
  | none => []
  | some outer => List.replicate (nest.regions - outer) (.of loc .popExceptionHandler) ++ [jump]

/-- Code that leaves the loop if the condition, if there is one, is false. -/
def loopTest (start loopEnd : Nat) : Option Expr → Fragment
  | some e => e.code start ++ [.of e.stamp .jumpIfFalse loopEnd]
  | none => []

/-- Code that evaluates an expression, if there is one, and drops its value. -/
def evaluate (start : Nat) : Option Expr → Fragment
  | some e => e.code start ++ [.of e.stamp .pop]
  | none => []

mutual

/-- Code of a statement inside a function. It leaves the stack as it was. -/
def Stmt.code (nest : Nest) (start : Nat) : Stmt → Fragment
  | .expr _ value => value.code start ++ [.of value.stamp .pop]
  | .block _ body => codeStmts nest start body
  | .ifElse _ condition body orelse =>
      let test := condition.code start
      let bodyStart := start + test.length + 1
      let first := body.code nest bodyStart
      match orelse with
      | none =>
          test ++ [.of condition.stamp .jumpIfFalse (bodyStart + first.length)] ++ first
      | some other =>
          let otherStart := bodyStart + first.length + 1
          let second := other.code nest otherStart
          test ++ [.of condition.stamp .jumpIfFalse otherStart] ++ first
            ++ [.of body.stamp .jump (otherStart + second.length)] ++ second
  | .whileLoop _ condition body =>
      let test := condition.code start
      let bodyStart := start + test.length + 1
      let round := body.code nest.inLoop bodyStart
      let loopEnd := bodyStart + round.length + 1
      test ++ [.of condition.stamp .jumpIfFalse loopEnd] ++ Fragment.close round start loopEnd
        ++ [.of body.stamp .jump start]
  | .doWhile _ body condition =>
      let round := body.code nest.inLoop start
      let testStart := start + round.length
      let test := condition.code testStart
      let loopEnd := testStart + test.length + 1
      Fragment.close round testStart loopEnd ++ test ++ [.of condition.stamp .jumpIfTrue start]
  | .forLoop _ first condition step body =>
      let first := codeOption nest start first
      let top := start + first.length
      let bodyStart := top + (loopTest top 0 condition).length
      let round := body.code nest.inLoop bodyStart
      let stepStart := bodyStart + round.length
      let advance := evaluate stepStart step
      let loopEnd := stepStart + advance.length + 1
      first ++ loopTest top loopEnd condition ++ Fragment.close round stepStart loopEnd ++ advance
        ++ [.of ((step.map Expr.stamp).getD body.stamp) .jump top]
  | .foreach _ _ ref iterable body =>
      let loc := iterable.stamp
      let source := iterable.code start
      let top := start + source.length + 3
      let bodyStart := top + 6
      let round := body.code nest.inLoop bodyStart
      let loopEnd := bodyStart + round.length + 1
      source ++ [.of loc .getIter, .of loc .dup, .of loc .iterReset]
        ++ [.of loc .dup, .of loc .iterMoveNext, .of loc .jumpIfFalse loopEnd, .of loc .dup,
          .of loc .iterGetNext, ref.store loc]
        ++ Fragment.close round top loopEnd ++ [.of body.stamp .jump top]
        ++ [.of body.stamp .pop]
  | .given _ value cases otherwise =>
      let subject := value.code start
      subject ++ codeCases nest (fun start => codeOption nest start otherwise) value.stamp
        (start + subject.length) cases
  | .breakLoop loc => loopJump nest loc (.leaveLoop loc)
  | .continueLoop loc => loopJump nest loc (.nextRound loc)
  | .ret loc value =>
      let result := (value.map (Expr.code start)).getD [.of loc .loadNull]
      let loc := (value.map Expr.stamp).getD loc
      result ++ List.replicate nest.regions (.of loc .popExceptionHandler) ++ [.of loc .ret]
  | .raise _ value => value.code start ++ [.of value.stamp .raise]
  | .tryExcept loc body binding types handler =>
      let protected_ := body.code nest.inRegion (start + 1)
      let handlerStart := start + 1 + protected_.length + 2
      let front := selectException body.stamp handlerStart types
        ++ bindException (stampExprs body.stamp types) binding
      let recovery := handler.code nest (handlerStart + front.length)
      [.of loc .pushExceptionHandler handlerStart] ++ protected_
        ++ [.of body.stamp .popExceptionHandler,
          .of body.stamp .jump (handlerStart + front.length + recovery.length)]
        ++ front ++ recovery
  | .function _ decl _ const ref =>
      let loc := decl.sig.loc
      [.of loc .loadConst const, .of loc .buildClosure, ref.store loc]
  | .other _ => []

/-- Code of a statement that may be missing. -/
def codeOption (nest : Nest) (start : Nat) : Option Stmt → Fragment
  | some s => s.code nest start
  | none => []

/-- Code of statements in order. -/
def codeStmts (nest : Nest) (start : Nat) : List Stmt → Fragment
  | [] => []
  | s :: rest =>
      let first := s.code nest start
      first ++ codeStmts nest (start + first.length) rest

/-- Code of the cases of a `given` statement, with its subject on the stack. Each case
drops the subject before its body; the fallback runs when no case does. -/
def codeCases (nest : Nest) (fallback : Nat → Fragment) (before : Location) (start : Nat) :
    List (List Expr × Stmt) → Fragment
  | [] => .of before .pop :: fallback (start + 1)
  | (values, body) :: rest =>
      let tests := codeCandidates before start values
      let tested := stampExprs before values
      let bodyStart := start + tests.length + 2
      let first := body.code nest bodyStart
      let restStart := bodyStart + first.length + 1
      let others := codeCases nest fallback body.stamp restStart rest
      tests ++ [.of tested .jump restStart] ++ [.of tested .pop] ++ first
        ++ [.of body.stamp .jump (restStart + others.length)] ++ others

end

/-- Code that sets the fields of a class in order. -/
def codeFields (start : Nat) : List Field → Fragment
  | [] => []
  | field :: rest =>
      let first := field.value.code start
        ++ [.of field.value.stamp .loadSelf, .of field.value.stamp .storeAttribute field.ident.const]
      first ++ codeFields (start + first.length) rest

/-- Code of a statement at module level. Declarations are bound at compile time. -/
def Root.code (start : Nat) : Root → Fragment
  | .mark _ => []
  | .expr _ value => value.code start ++ [.of value.stamp .pop]
  | .use decl module names =>
      if decl.wildcard then [.of decl.loc .importAll module]
      else if decl.names.isEmpty then [.of decl.loc .importModule module]
      else [.of decl.loc .loadConst names, .of decl.loc .importFrom module,
        .of decl.loc .importModule module]

/-- Code of statements at module level in order. -/
def codeRoots (start : Nat) : List Root → Fragment
  | [] => []
  | s :: rest =>
      let first := s.code start
      first ++ codeRoots (start + first.length) rest

/-- Code of a whole unit: the top level, which ends by loading null. -/
def codeUnit (unit : List Root) : Fragment :=
  codeRoots 0 unit ++ [.of ((unit.map Root.stamp).getLastD {}) .loadNull]

/-- Code of a method, which ends by loading null. -/
def Body.code (loc : Location) : Body → Fragment
  | .statements bases body =>
      let chained := callBases loc bases
      chained ++ codeStmts {} chained.length body ++ [.of (stampStmts loc body) .loadNull]
  | .fields items =>
      codeFields 0 items
        ++ [.of ((items.map (·.value.stamp)).getLastD loc) .loadNull]

/-- The method with its code. -/
def Function.method (f : Function) : Method :=
  { name := f.name, isInstanceMethod := f.isInstanceMethod, parameters := f.parameters
    arity := f.arity, localCount := f.localCount, variadic := f.variadic
    acceptsKeywords := f.acceptsKeywords, body := (f.body.code f.loc).body }

end Linked
end ScriptMachine
