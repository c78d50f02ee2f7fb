import ScriptMachine.Code.Linked
import ScriptMachine.Heap.Loading
import ScriptMachine.Proofs.Machine.Instructions

/-!
What linked trees mean, said without code. The evaluator follows the tree: it evaluates parts in
the order in which the language does, decides by itself which part comes next, and leaves to the
machine only the single operation at a node: an operator, an access, a call, a step of an
iterator. For the time of an operation a machine stands still at the position of the node, with no
open region and no operand, and it runs until the operation is over.

The fuel bounds the steps of every single operation and the rounds of every single loop. Without
enough of it there is no answer.
-/

namespace ScriptMachine

/-! ## Operations -/

/-- The frame as it stands at a position, without operands and with none of its code left to run. -/
def Frame.standing (f : Frame) (loc : Location) : Frame :=
  { f with
    method := { f.method with code := { f.method.code with body := #[{ op := .nop, loc }] } }
    ip := 1
    stack := [] }

namespace Machine

/-- The machine whose topmost frame stands at a position, outside all regions. -/
def standing (m : Machine) (loc : Location) : Machine :=
  { m with calls := m.calls.modifyTop (·.standing loc), handlers := [], control := .running }

/-- A frame at this depth runs again, or the run has ended. -/
def isBack (m : Machine) (depth : Nat) : Bool :=
  match m.control with
  | .running => m.calls.depth ≤ depth
  | .delivering _ _ => false
  | .returned _ | .uncaught _ => true

/-- The machine when it is back, if that takes no more than `fuel` steps. -/
def settle? (depth : Nat) : (fuel : Nat) → Machine → Option Machine
  | 0, m => if m.isBack depth then some m else none
  | fuel + 1, m => if m.isBack depth then some m else settle? depth fuel m.step

end Machine

/-- A computation of the evaluator: it may raise, and it may run out of fuel. -/
abbrev Eval := ExceptT ExceptionId (StateT Machine Option)

namespace Eval

/-- What a computation gives or raises and the machine after it, if there is enough fuel. -/
def result {α : Type} (x : Eval α) (m : Machine) : Option (Except ExceptionId α × Machine) :=
  x.run.run m

/-- Asks a question about the machine. -/
def ask {α : Type} (question : Machine → α) : Eval α :=
  ExceptT.mk fun m => some (.ok (question m), m)

/-- No answer. -/
def exhausted {α : Type} : Eval α :=
  ExceptT.mk fun _ => none

/-- The truth of a value. -/
def truth (v : Value) : Eval Bool :=
  ask (·.heap.truthy v)

/-- What an operation that came to an end gives: the values it left, or the exception it raised. -/
def outcome (m n : Machine) : Except ExceptionId (List Value) × Machine :=
  match n.control with
  | .uncaught id =>
      (.error id, { n with calls := m.calls, current := some id, control := .running })
  | _ => (.ok n.stack, n)

/-- Lets the machine carry an operation out. -/
def operate (fuel : Nat) (loc : Location) (a : Action Unit) : Eval (List Value) :=
  ExceptT.mk fun m =>
    (((m.standing loc).perform a).settle? m.calls.depth fuel).map (outcome m)

/-- How a loop goes on after a round, if it does not leave. -/
inductive Completion where
  | normal
  | broke
  | continued
  | returned (value : Value)

/-- How a loop completes whose body has completed so, unless there is a next round. -/
def Completion.leaves : Completion → Option Completion
  | .normal | .continued => none
  | .broke => some .normal
  | .returned v => some (.returned v)

/-- At most `count` rounds of a loop. A round begins if `enter` says so, and is followed by another
if `again` says so. -/
def loop (enter : Eval Bool) (body : Eval Completion) (again : Eval Bool) :
    (count : Nat) → Eval Completion
  | 0 => exhausted
  | count + 1 => do
      if ← enter then
        match (← body).leaves with
        | some completion => return completion
        | none => if ← again then loop enter body again count else return .normal
      else return .normal

end Eval

/-- What an evaluation depends on besides the tree and the machine. -/
structure Setting where
  fuel : Nat
  /-- Where the tables of the unit start. -/
  offsets : Offsets

namespace Setting

/-- The value of an operation at a position. -/
def value (s : Setting) (loc : Location) (a : Action Unit) : Eval Value := do
  return (← Eval.operate s.fuel loc a).headD .null

/-- An operation at a position that has no value. -/
def effect (s : Setting) (loc : Location) (a : Action Unit) : Eval Unit :=
  discard (Eval.operate s.fuel loc a)

end Setting

namespace Linked

open Eval (Completion truth loop)
open ScriptMachine.Action (readLocal writeLocal readGlobal writeGlobal readSelf readAttribute writeAttribute
  readItem writeItem buildList buildMap invoke invokeSuper captureLocals testType castType
  raiseValue iterate resetIter moveIter iterItem)

variable (s : Setting)

/-- The value of a name. -/
def Ref.read (loc : Location) (ident : String) : Ref → Eval Value
  | .slot index => s.value loc (readLocal index)
  | .global _ => s.value loc (readGlobal ident)

/-- Assigns to a name. -/
def Ref.assign (loc : Location) (ident : String) (v : Value) : Ref → Eval Unit
  | .slot index => s.effect loc (writeLocal index v)
  | .global _ => s.effect loc (writeGlobal ident v)

/-- Reads attributes one from the other. -/
def follow (loc : Location) (v : Value) : List NameConst → Eval Value
  | [] => return v
  | segment :: rest => do follow loc (← s.value loc (readAttribute v segment.name .push)) rest

/-- The class with a dotted name. -/
def evalBase (loc : Location) : BasePath → Eval Value
  | [] => return .null
  | first :: rest => do follow s loc (← s.value loc (readGlobal first.name)) rest

/-- Runs the constructors of the bases without arguments, in order. -/
def runBases (loc : Location) : List BasePath → Eval Unit
  | [] => return ()
  | base :: rest => do
      s.effect loc (invokeSuper (← evalBase s loc base) [])
      runBases loc rest

mutual

/-- The value of an expression. -/
def Expr.eval : Expr → Eval Value
  | .null _ => return .null
  | .bool _ value => return .bool value
  | .int _ value _ => return .int value
  | .float _ value _ => return .float value
  | .str _ value => return .str value.name
  | .name loc ident ref => ref.read s loc ident
  | .self loc => s.value loc readSelf
  | .attr _ target ident => do
      s.value target.stamp (readAttribute (← target.eval) ident.name .push)
  | .index _ target index => do
      let container ← target.eval
      s.value index.stamp (readItem container (← index.eval))
  | .call loc callee args keywords => do
      let values ← evalExprs args
      let named ← evalKeywords keywords
      if keywords.isEmpty then s.value loc (invoke (← callee.eval) values)
      else
        let packed ← s.value (stampKeywords (stampExprs loc args) keywords) (buildMap named)
        s.value loc (invoke (← callee.eval) (values ++ [packed]))
  | .superCall loc args base => do
      let values ← evalExprs args
      match base with
      | some path =>
          s.effect loc (invokeSuper (← evalBase s (stampExprs loc args) path) values)
          return .null
      | none => return .null
  | .binary loc op left right => do
      let first ← left.eval
      match op with
      | .boolAnd => if ← truth first then right.eval else return first
      | .boolOr => if ← truth first then return first else right.eval
      | op => s.value loc (Action.binary op first (← right.eval))
  | .unary _ op operand => do s.value operand.stamp (Action.unary op (← operand.eval))
  | .assign _ target value => do
      let v ← value.eval
      target.assign value.stamp v
      return v
  | .update _ op old value target => do
      let first ← old.eval
      let v ← s.value value.stamp (Action.binary op first (← value.eval))
      target.assign value.stamp v
      return v
  | .list loc items => do s.value (stampExprs loc items) (buildList (← evalExprs items))
  | .tuple _ items => return .tuple (← evalExprs items)
  | .hash loc pairs => do s.value (stampPairs loc pairs) (buildMap (← evalPairs pairs))
  | .lambda loc _ method _ closes =>
      if closes then s.value loc (captureLocals (.method (s.offsets.methods + method)))
      else return .method (s.offsets.methods + method)
  | .isType _ value type => do
      let v ← value.eval
      s.value type.stamp (testType v (← type.eval))
  | .asType _ value type => do
      let v ← value.eval
      s.value type.stamp (castType v (← type.eval))
  | .coalesce _ left right => do
      let first ← left.eval
      if first.isNull then right.eval else return first
  | .ternary _ condition thenValue elseValue => do
      if ← truth (← condition.eval) then thenValue.eval else elseValue.eval

/-- Assigns a value. -/
def Target.assign (before : Location) (v : Value) : Target → Eval Unit
  | .name _ ident ref => ref.assign s before ident v
  | .attr _ object ident => do
      s.effect object.stamp (writeAttribute (← object.eval) ident.name v)
  | .index _ object index => do
      let container ← object.eval
      s.effect index.stamp (writeItem container (← index.eval) v)
  | .other _ => return ()

/-- The values of expressions in order. -/
def evalExprs : List Expr → Eval (List Value)
  | [] => return []
  | e :: rest => do
      let first ← e.eval
      return first :: (← evalExprs rest)

/-- The names and values of keyword arguments, in turn. -/
def evalKeywords : List (NameConst × Expr) → Eval (List Value)
  | [] => return []
  | (name, e) :: rest => do
      let first ← e.eval
      return .str name.name :: first :: (← evalKeywords rest)

/-- The keys and values of map entries, in turn. -/
def evalPairs : List (Expr × Expr) → Eval (List Value)
  | [] => return []
  | (k, v) :: rest => do
      let key ← k.eval
      let value ← v.eval
      return key :: value :: (← evalPairs rest)

end

/-- Whether a test holds of one of the values, tried in order. -/
def anyHolds (test : Value → Action Unit) : List Expr → Eval Bool
  | [] => return false
  | e :: rest => do
      let v ← e.eval s
      if ← truth (← s.value e.stamp (test v)) then return true else anyHolds test rest

/-- The truth of a condition, if there is one. -/
def evalTest : Option Expr → Eval Bool
  | some e => do truth (← e.eval s)
  | none => return true

/-- Evaluates an expression, if there is one, and drops its value. -/
def evalStep : Option Expr → Eval Bool
  | some e => do
      discard (e.eval s)
      return true
  | none => return true

/-- Raises an exception again unless it has one of the types. Without types it is any. -/
def selectCaught (loc : Location) (v : Value) (types : List Expr) : Eval Unit := do
  if types.isEmpty then return ()
  else if ← anyHolds s (testType v) types then return ()
  else s.effect loc (raiseValue v)

/-- Binds an exception to a name, if there is one. -/
def bindCaught (loc : Location) (v : Value) : Option (String × Ref) → Eval Unit
  | some (ident, ref) => ref.assign s loc ident v
  | none => return ()

/-- Moves an iterator on and binds the item it then stands on; tells whether there was one. -/
def nextItem (loc : Location) (item : String) (ref : Ref) (it : Value) : Eval Bool := do
  if ← truth (← s.value loc (moveIter it .push)) then
    ref.assign s loc item (← s.value loc (iterItem it .push))
    return true
  else return false

mutual

/-- Carries a statement out. -/
def Stmt.eval : Stmt → Eval Completion
  | .expr _ value => do
      discard (value.eval s)
      return .normal
  | .block _ body => evalStmts body
  | .ifElse _ condition body orelse => do
      if ← truth (← condition.eval s) then body.eval else evalOption orelse
  | .whileLoop _ condition body =>
      loop (do truth (← condition.eval s)) body.eval (return true) s.fuel
  | .doWhile _ body condition =>
      loop (return true) body.eval (do truth (← condition.eval s)) s.fuel
  | .forLoop _ first condition step body => do
      match ← evalOption first with
      | .normal => loop (evalTest s condition) body.eval (evalStep s step) s.fuel
      | completion => return completion
  | .foreach _ item ref iterable body => do
      let loc := iterable.stamp
      let it ← s.value loc (iterate (← iterable.eval s) Action.maxDelegation .push)
      s.effect loc (resetIter it .discard)
      loop (nextItem s loc item ref it) body.eval (return true) s.fuel
  | .given _ value cases otherwise => do
      let subject ← value.eval s
      evalCases subject (evalOption otherwise) cases
  | .breakLoop _ => return .broke
  | .continueLoop _ => return .continued
  | .ret _ value =>
      match value with
      | some e => return .returned (← e.eval s)
      | none => return .returned .null
  | .raise _ value => do
      s.effect value.stamp (raiseValue (← value.eval s))
      return .normal
  | .tryExcept _ body binding types handler =>
      tryCatch body.eval fun id => do
        let v ← Eval.ask (·.heap.seen id)
        let loc := stampExprs body.stamp types
        selectCaught s loc v types
        bindCaught s loc v binding
        handler.eval
  | .function _ decl method _ ref => do
      let loc := decl.sig.loc
      let made ← s.value loc (captureLocals (.method (s.offsets.methods + method)))
      ref.assign s loc decl.sig.name made
      return .normal
  | .other _ => return .normal

/-- Carries a statement out that may be missing. -/
def evalOption : Option Stmt → Eval Completion
  | some stmt => stmt.eval
  | none => return .normal

/-- Carries statements out in order, up to the first that does not complete normally. -/
def evalStmts : List Stmt → Eval Completion
  | [] => return .normal
  | stmt :: rest => do
      match ← stmt.eval with
      | .normal => evalStmts rest
      | completion => return completion

/-- Carries out the body of the first case with a candidate equal to the subject. -/
def evalCases (subject : Value) (otherwise : Eval Completion) :
    List (List Expr × Stmt) → Eval Completion
  | [] => otherwise
  | (values, body) :: rest => do
      if ← anyHolds s (Action.binary .equals subject) values then body.eval
      else evalCases subject otherwise rest

end

/-- Sets the fields of a class in order. -/
def evalFields : List Field → Eval Unit
  | [] => return ()
  | field :: rest => do
      let v ← field.value.eval s
      let object ← s.value field.value.stamp readSelf
      s.effect field.value.stamp (writeAttribute object field.ident.name v)
      evalFields rest

/-- What a method gives back. -/
def Body.eval (loc : Location) : Body → Eval Value
  | .statements bases body => do
      runBases s loc bases
      match ← evalStmts s body with
      | .returned v => return v
      | _ => return .null
  | .fields items => do
      evalFields s items
      return .null

end Linked
end ScriptMachine
