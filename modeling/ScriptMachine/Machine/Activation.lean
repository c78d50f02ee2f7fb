import ScriptMachine.Machine.State
import ScriptMachine.Operation.Container
import ScriptMachine.Heap.Classes

/-!
Activation of methods: arguments are bound to parameters and a frame is pushed. All
arguments are checked before one is put in place, so a call with the wrong ones changes no
variable. An environment that it brings may have got empty slots by then.
-/

namespace ScriptMachine

/-- A call of a method. -/
structure Call where
  method : MethodId
  receiver : Option Value := none
  args : List Value := []
  /-- The environment to run in; a new one if there is none. -/
  env : Option EnvId := none
  /-- The class whose constructor is called. -/
  owner : Option ClassId := none
deriving Inhabited

namespace Method

/-- The map that arguments end with, if they are more than the method has positional
parameters and the method takes keywords. -/
def keywordArgument? (code : Method) (args : List Value) : Option MapId :=
  if code.acceptsKeywords && code.arity < args.length then
    match args.getLast? with
    | some (.map id) => some id
    | _ => none
  else none

/-- The arguments that are not the keyword map. -/
def positionalArguments (code : Method) (args : List Value) : List Value :=
  if (code.keywordArgument? args).isSome then args.dropLast else args

/-- The method can be called with this many positional arguments. -/
def takes (code : Method) (count : Nat) : Bool :=
  if code.variadic then code.arity ≤ count else code.arity == count

/-- The values of all parameters in order. A method that takes keywords gets a new
map if it was given none. -/
def bind (code : Method) (args : List Value) : Primitive (List Value) := do
  let positional := code.positionalArguments args
  unless code.takes positional.length do
    throw (.argumentCount code.name code.arity positional.length)
  let surplus := if code.variadic then [Value.tuple (positional.drop code.arity)] else []
  let keywords ←
    if code.acceptsKeywords then
      match code.keywordArgument? args with
      | some id => pure [Value.map id]
      | none => do pure [← Primitive.make (·.newMap .empty)]
    else pure []
  return positional.take code.arity ++ surplus ++ keywords

/-- Puts the values of parameters into their slots. -/
def place (code : Method) (values : List Value) (slots : Array Value) : Array Value :=
  (code.parameters.zip values).foldl
    (fun slots ((_, slot), v) => slots.setIfInBounds slot v) slots

/-- Adds empty slots until there are as many as the method has local variables. -/
def widen (code : Method) (slots : Array Value) : Array Value :=
  slots ++ Array.replicate (code.localCount - slots.size) Value.null

end Method

/-- Makes room for the local variables of a method in an environment, if there is one. -/
def Heap.makeRoom (h : Heap) (code : Method) : Option EnvId → Heap
  | some id => h.modifyEnv id code.widen
  | none => h

namespace Action

/-- The environment of an activation, with its parameters in place: the given one, unless it
was never handed out, else a new one. -/
def environment (code : Method) (env : Option EnvId) (values : List Value) : Primitive EnvId := do
  match ← Primitive.ask fun h => env.filter (· < h.envs.size) with
  | some id =>
      Primitive.change (·.modifyEnv id (code.place values))
      return id
  | none => Primitive.make (·.newEnv (code.place values (code.widen #[])))

/-- A frame for a call, with its arguments bound. -/
def newFrame (call : Call) (returns : Returns) : Action Frame := do
  let limit ← ask (·.limits.frames)
  if limit ≤ (← ask (·.calls.depth)) then fault (.frameLimit limit)
  let method ← askHeap (·.method call.method)
  changeHeap (·.makeRoom method.code call.env)
  let values ← primitive (method.code.bind call.args)
  let env ← primitive (environment method.code call.env values)
  return { method, receiver := call.receiver, env, owner := call.owner, returns }

/-- Puts a frame on top and lets it run. -/
def pushFrame (frame : Frame) : Action Unit :=
  change fun m =>
    let m := { m with calls := m.calls.push frame, control := .running }
    m.note fun _ => .call frame.method.code.name m.calls.depth

/-- Pushes a frame for a call. -/
def activate (call : Call) (returns : Returns) : Action Unit := do
  pushFrame (← newFrame call returns)

/-- Makes a nested call: an operation waits for its value. -/
def enter (call : Call) (pending : Pending) : Action Unit := do
  let limit ← ask (·.limits.nesting)
  if limit ≤ (← ask (·.nesting)) then fault (.nestingLimit limit)
  activate call (.resume pending)

/-- Calls a method that an instance may offer. -/
@[inline] def hook (v : Value) (name : String) (args : List Value) (pending : Pending)
    (otherwise : Action Unit) : Action Unit := do
  match ← askHeap (·.instanceMethod? v name) with
  | some method => enter { method, receiver := some v, args } pending
  | none => otherwise

/-- Gives the caller of a frame that has ended what it waits for. -/
def handOver (returns : Returns) (result : Value) : Action Unit :=
  match returns with
  | .value => push result
  | .instance id => push (.instance id)
  | .nothing => pure ()
  | .resume pending => deliver result pending

/-- Ends the topmost frame. Regions it left open are closed. -/
def finish : Action Unit := do
  match ← ask (·.frames) with
  | [] => pure ()
  | frame :: _ =>
      change fun m =>
        let calls := m.calls.pop
        let handlers := m.handlers.dropWhile (calls.depth < ·.frameDepth)
        { m with calls, handlers }.note fun _ => .ret calls.depth
      handOver frame.returns (frame.stack.headD .null)

end Action
end ScriptMachine
