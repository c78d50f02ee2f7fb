import ScriptMachine.Proofs.Host.Binding
import ScriptMachine.Proofs.Host.Meaning

/-!
Calls with keyword arguments. The caller makes a map of its keyword arguments and passes that behind
the others, where the method that is called can tell it from a positional argument only by its place
and its kind. If there are as many positional arguments as the method has positional parameters, the
map goes where it belongs; if there are fewer, it is taken for one of them. And if there are no
keyword arguments, a map among the surplus arguments is taken for theirs if it is the last.
-/

namespace ScriptMachine

open ScriptMachine.Action

/-! ## Maps of keyword arguments -/

/-- Names and values in turn. -/
def inTurn (named : List (String × Value)) : List Value :=
  named.flatMap fun (name, v) => [.str name, v]

/-- The map of keyword arguments. A name that is given again gets another value. -/
def Table.ofNamed (named : List (String × Value)) : Table :=
  named.foldl (fun table (name, v) => table.insert (.str name) v) .empty

theorem Operation.addAll_inTurn (table : Table) (named : List (String × Value)) :
    addAll table (inTurn named) =
      .ok (named.foldl (fun table (name, v) => table.insert (.str name) v) table) := by
  induction named generalizing table with
  | nil => rfl
  | cons pair rest ih => exact ih _

theorem Operation.newMap_inTurn (h : Heap) (named : List (String × Value)) :
    (newMap (inTurn named)).result h =
      (.ok (.map h.maps.size), (h.newMap (.ofNamed named)).2) := by
  unfold newMap
  rw [addAll_inTurn]
  rfl

/-! ## Evaluating arguments -/

variable {a : Activation} {s : Setting} {e e' : Machine}

/-- The machine in which the map of keyword arguments is made and pushed. -/
def Machine.withNamed (m : Machine) (named : List (String × Value)) : Machine :=
  { m with heap := (m.heap.newMap (.ofNamed named)).2 }.withStack (.map m.heap.maps.size :: m.stack)

theorem result_buildMap (m : Machine) (named : List (String × Value)) :
    (buildMap (inTurn named)).result m = (.ok (), m.withNamed named) := by
  have made : (primitive (Operation.newMap (inTurn named))).result m =
      (.ok (.map m.heap.maps.size), { m with heap := (m.heap.newMap (.ofNamed named)).2 }) := by
    rw [result_primitive, Operation.newMap_inTurn]
  unfold buildMap
  rw [result_bind_ok made, result_push]
  rfl

/-- Making a map of keyword arguments always succeeds. -/
theorem Setting.value_buildMap (stands : a.Stands e) (loc : Location)
    (named : List (String × Value)) :
    ∃ n, (s.value loc (buildMap (inTurn named))).result e = some (.ok (.map e.heap.maps.size), n) ∧
      n.heap = (e.heap.newMap (.ofNamed named)).2 := by
  have frames := stands.frames_standing loc
  let n := (e.standing loc).withNamed named
  have back : n.isBack e.calls.depth = true := by
    refine Goes.isBack_of_frames rfl ?_
    refine (congrArg List.length (Machine.frames_withStack _ _)).trans ?_
    rw [List.length_modifyHead, stands.depth]
    exact congrArg List.length frames
  have stack : n.stack = [.map e.heap.maps.size] := by
    refine (Machine.stack_withStack ?_ _).trans ?_
    · exact frames ▸ List.cons_ne_nil _ _
    · rw [Machine.stack, frames]
      rfl
  have operated : (Eval.operate s.fuel loc (buildMap (inTurn named))).result e =
      some (.ok [.map e.heap.maps.size], n) := by
    change Option.map _ (((e.standing loc).perform _).settle? e.calls.depth s.fuel) = _
    rw [Machine.perform_of_ok (result_buildMap _ named), Activation.settle?_of_isBack back, ← stack]
    rfl
  exact ⟨n, Eval.result_bind_ok operated, rfl⟩

theorem Eval.result_bind_eq_ok {α β : Type} {x : Eval α} {f : α → Eval β} {b : β}
    (done : (x >>= f).result e = some (.ok b, e')) :
    ∃ v n, x.result e = some (.ok v, n) ∧ (f v).result n = some (.ok b, e') := by
  rw [Eval.result_bind] at done
  rcases found : x.result e with _ | ⟨id | v, n⟩ <;> rw [found] at done
  · cases done
  · cases done
  · exact ⟨v, n, rfl, done⟩

namespace Linked

variable (s : Setting)

/-- The names and values of keyword arguments. -/
def evalNamed : List (NameConst × Expr) → Eval (List (String × Value))
  | [] => return []
  | (name, x) :: rest => do
      let v ← x.eval s
      return (name.name, v) :: (← evalNamed rest)

theorem evalKeywords_eq (keywords : List (NameConst × Expr)) :
    evalKeywords s keywords = inTurn <$> evalNamed s keywords := by
  induction keywords with
  | nil => rfl
  | cons keyword rest ih =>
      obtain ⟨name, x⟩ := keyword
      rw [evalKeywords, evalNamed, ih, map_bind]
      simp only [map_eq_pure_bind, bind_assoc, pure_bind]
      rfl

/-- The arguments of a call: the positional ones, the others with their names, and what is passed
for these. -/
structure Arguments where
  positional : List Value
  named : List (String × Value)
  packed : List Value

/-- What the method that is called is given. -/
def Arguments.passed (arguments : Arguments) : List Value :=
  arguments.positional ++ arguments.packed

/-- The arguments of a call in the order in which they are evaluated. One map is passed for all
keyword arguments, if there are any. -/
def evalArguments (loc : Location) (args : List Expr) (keywords : List (NameConst × Expr)) :
    Eval Arguments := do
  let positional ← evalExprs s args
  let named ← evalNamed s keywords
  if keywords.isEmpty then return { positional, named, packed := [] }
  else
    let packed ← s.value (stampKeywords (stampExprs loc args) keywords) (buildMap (inTurn named))
    return { positional, named, packed := [packed] }

/-- Nothing is passed for no keyword arguments, and one map of them all for some. The map is new: all
that has been done on the heap since the arguments were evaluated is to make it. -/
def Arguments.Packs (arguments : Arguments) (h : Heap) : Prop :=
  arguments.named = [] ∧ arguments.packed = [] ∨
    arguments.named ≠ [] ∧ ∃ before : Heap, arguments.packed = [.map before.maps.size] ∧
      h = (before.newMap (.ofNamed arguments.named)).2

variable {s}

/-- The map that is passed holds the keyword arguments. -/
theorem Arguments.Packs.holds {arguments : Arguments} {h : Heap} (packs : arguments.Packs h)
    (some : arguments.named ≠ []) :
    ∃ id, arguments.packed = [.map id] ∧ h.map id = .ofNamed arguments.named := by
  rcases packs with ⟨none, _⟩ | ⟨_, before, packed, rfl⟩
  · exact absurd none some
  · exact ⟨_, packed, by simp [Heap.newMap, Heap.map]⟩

theorem names_evalNamed {keywords : List (NameConst × Expr)} {named : List (String × Value)}
    (evaluated : (evalNamed s keywords).result e = some (.ok named, e')) :
    named.map Prod.fst = keywords.map (·.1.name) := by
  induction keywords generalizing e named with
  | nil =>
      cases evaluated
      rfl
  | cons keyword rest ih =>
      obtain ⟨v, n, _, evaluated⟩ := Eval.result_bind_eq_ok evaluated
      obtain ⟨others, n', found, evaluated⟩ := Eval.result_bind_eq_ok evaluated
      cases evaluated
      exact congrArg (keyword.1.name :: ·) (ih found)

section

variable {ctx : Context} {slots start finish : Nat} {exits : Exits} {regions : List Protection}
  {stack : List Value} {m : Machine} {loc : Location} {args : List Expr}
  {keywords : List (NameConst × Expr)} {arguments : Arguments}

/-- As much is passed for keyword arguments as the code packs. -/
theorem Arguments.Packs.length {h : Heap} (packs : arguments.Packs h)
    (names : arguments.named.map Prod.fst = keywords.map (·.1.name)) :
    arguments.packed.length = (packKeywords loc keywords.length).length := by
  have same := congrArg List.length names
  rw [List.length_map, List.length_map] at same
  rw [← same]
  rcases packs with ⟨none, nothing⟩ | ⟨some, _, one, _⟩
  · rw [none, nothing]
    rfl
  · rw [one, packKeywords, if_neg fun none => some (List.length_eq_zero_iff.1 none)]
    rfl

/-- The code of arguments pushes the positional ones, then the names and values of the others. -/
theorem leads_operands (holds : a.Holds ctx s) (valid : ValidExprs ctx true slots args)
    (validNamed : ValidKeywords ctx true slots keywords) {middle : Nat} {before : Location}
    (pushes : a.Placed exits start (codeExprs start args) middle)
    (names : a.Placed exits middle (codeKeywords before middle keywords) finish)
    (here : a.At regions start stack m e) {positional : List Value} {named : List (String × Value)}
    {e₁ e₂ : Machine} (first : (evalExprs s args).result e = some (.ok positional, e₁))
    (second : (evalNamed s keywords).result e₁ = some (.ok named, e₂)) :
    a.Leads m fun n =>
      a.At regions finish ((inTurn named).reverse ++ (positional.reverse ++ stack)) n e₂ ∧
        positional.length = args.length ∧ (inTurn named).length = keywords.length * 2 ∧
        ∀ p ∈ regions, p.floor <:+ positional.reverse ++ stack := by
  have inTurned : (evalKeywords s keywords).result e₁ = some (.ok (inTurn named), e₂) := by
    rw [evalKeywords_eq, map_eq_pure_bind, Eval.result_bind_ok second]
    rfl
  have pushed := realizes_exprs holds args valid pushes here
  rw [first] at pushed
  refine (Activation.realizes_ok.1 pushed).trans fun n ⟨there, count⟩ => ?_
  have more := realizes_keywords holds keywords validNamed names there
  rw [inTurned] at more
  exact (Activation.realizes_ok.1 more).imp fun n ⟨after, twice⟩ =>
    ⟨after, count, twice, there.low⟩

/-- The code of the arguments of a call leaves what is passed on the stack. -/
theorem leads_arguments (holds : a.Holds ctx s) (valid : ValidExprs ctx true slots args)
    (validNamed : ValidKeywords ctx true slots keywords)
    (placed : a.Placed exits start (codeExprs start args
      ++ codeKeywords (stampExprs loc args) (start + (codeExprs start args).length) keywords
      ++ packKeywords (stampKeywords (stampExprs loc args) keywords) keywords.length) finish)
    (here : a.At regions start stack m e)
    (evaluated : (evalArguments s loc args keywords).result e = some (.ok arguments, e')) :
    arguments.positional.length = args.length ∧
      arguments.named.map Prod.fst = keywords.map (·.1.name) ∧ arguments.Packs e'.heap ∧
      a.Leads m fun n => a.At regions finish (arguments.passed.reverse ++ stack) n e' := by
  obtain ⟨positional, e₁, first, evaluated⟩ := Eval.result_bind_eq_ok evaluated
  obtain ⟨named, e₂, second, evaluated⟩ := Eval.result_bind_eq_ok evaluated
  have names := names_evalNamed second
  have leads := leads_operands holds valid validNamed placed.left.left placed.left.right here first
    second
  obtain ⟨_, _, there, count, _⟩ := id leads
  cases keywords with
  | nil =>
      obtain rfl := List.map_eq_nil_iff.1 names
      cases evaluated
      refine ⟨count, rfl, .inl ⟨rfl, rfl⟩, leads.imp fun n reached => ?_⟩
      rw [Arguments.passed, List.append_nil]
      have ends := placed.right.length
      exact ends ▸ reached.1
  | cons keyword rest =>
      obtain ⟨packed, e₃, third, evaluated⟩ := Eval.result_bind_eq_ok evaluated
      cases evaluated
      obtain ⟨k, made, heap⟩ := Setting.value_buildMap there.stands
        (stampKeywords (stampExprs loc args) (keyword :: rest)) named
      obtain ⟨same, rfl⟩ := Prod.mk.inj (Option.some.inj (third.symm.trans made))
      obtain rfl := Except.ok.inj same
      refine ⟨count, names, .inr ⟨?_, _, rfl, ?_⟩, leads.trans fun n reached => ?_⟩
      · rintro rfl
        cases names
      · exact heap
      · obtain ⟨after, _, twice, low⟩ := reached
        have built :=
          (Activation.Carries.buildMap twice).value (s := s) rfl placed.right after low
        rw [third] at built
        have pushed := Activation.realizes_ok.1 built
        rw [Arguments.passed, List.reverse_append, List.append_assoc]
        exact pushed

end
end Linked

/-! ## Calling -/

/-- The machine raises a new exception. -/
def Machine.fail (m : Machine) (type : ExceptionType) (message : String) : Machine :=
  let (id, heap) := m.heap.newException { type, message }
  { m with heap }.raise id

/-- The next step calls a method with these arguments. If they fit, it pushes a frame in which they
are bound, and otherwise it raises an exception that tells how many there are. -/
structure Activation.Calls (a : Activation) (ip : Nat) (stack : List Value) (call : Call)
    (positional : List Value) (keywords : Option MapId) (m : Machine) : Prop where
  binds : (m.heap.method call.method).code.Admits positional.length →
    ∃ f, m.step.frames = f :: a.top ip stack :: a.base ∧ f.method = m.heap.method call.method ∧
      call.Binds f positional keywords m.heap m.step.heap
  rejects : ¬ (m.heap.method call.method).code.Admits positional.length →
    ∃ n : Machine, n.frames = a.top ip stack :: a.base ∧
      call.Untouched (m.heap.method call.method).code m.heap n.heap ∧
      m.step = n.fail .argumentError (Fault.message (.argumentCount
        (m.heap.method call.method).code.name (m.heap.method call.method).code.arity
        positional.length))

theorem callOf?_args {h : Heap} {callee : Value} {args : List Value} {call : Call}
    (is : callOf? h callee args = some call) : call.args = args := by
  unfold callOf? at is
  split at is
  · cases is; rfl
  · cases is; rfl
  · cases is; rfl
  · cases is

/-- A call hands its arguments over as the method reads them. -/
theorem Activation.At.calls {ip : Nat} {stack args positional : List Value} {callee : Value}
    {keywords : Option MapId} {loc : Location} {regions : List Protection} {m : Machine}
    {call : Call} {sig : Signature}
    (here : a.At regions ip (callee :: (args.reverse ++ stack)) m e)
    (found : a.body[ip]? = some ⟨.invoke, args.length, loc⟩)
    (is : callOf? m.heap callee args = some call)
    (follows : (m.heap.method call.method).code.Follows sig)
    (reads : (m.heap.method call.method).code.Reads args positional keywords)
    (room : m.frames.length < m.limits.frames) :
    a.Calls (ip + 1) stack call positional keywords m := by
  have operands : a.At regions ip (callee :: args.reverse ++ stack) m e := here
  let n := (fetched m (a.top ip (callee :: args.reverse ++ stack))
    ⟨.invoke, args.length, loc⟩).withStack stack
  have step : m.step = n.perform (invoke callee args) :=
    operands.step_eq found (Carries.invoke callee rfl).executes
  have frames : n.frames = a.top (ip + 1) stack :: a.base := by
    rw [Machine.frames_withStack, frames_fetched operands.frames]
    rfl
  have heap : n.heap = m.heap := heap_fetched m _ _
  have room : n.frames.length < n.limits.frames := by
    have limits : n.limits = m.limits := (m.keeps_note _).limits
    rw [here.frames] at room
    rw [frames, limits]
    exact room
  have invokes : (invoke callee args).result n = (activate call .value).result n := by
    have asked : (askHeap (callOf? · callee args)).result n = (.ok (some call), n) := by
      rw [result_askHeap, heap, is]
    unfold invoke
    rw [result_bind_ok asked]
  rw [← callOf?_args is] at reads
  rw [← heap] at follows reads
  constructor
  · intro admits
    rw [← heap] at admits
    obtain ⟨f, k, done, top, _, method, binds⟩ :=
      call.activate_binds .value room rfl reads follows admits
    rw [step, Machine.perform_of_ok (invokes.trans done)]
    rw [heap] at method binds
    exact ⟨f, by rw [top, frames], method, binds⟩
  · intro other
    rw [← heap] at other
    have failed := call.activate_rejects .value room rfl reads other
    refine ⟨{ n with heap := n.heap.makeRoom (n.heap.method call.method).code call.env }, frames,
      ?_, ?_⟩
    · rw [← heap]
      exact call.untouched_makeRoom _ n.heap
    · rw [step, Machine.perform_of_error (invokes.trans failed), heap]
      rfl

/-- What a method receives that has so many positional parameters and a keyword parameter, as
positional arguments and as its keyword map. Arguments come as they were meant if there are enough
positional ones for the map of the others to come behind the parameters, or if there are no others
and no surplus that ends with a map. -/
inductive Linked.Arguments.Received (arguments : Linked.Arguments) (arity : Nat) :
    List Value → Option MapId → Prop
  | named {id : MapId} (packed : arguments.packed = [.map id])
      (enough : arity ≤ arguments.positional.length) :
      arguments.Received arity arguments.positional (some id)
  | unnamed (packed : arguments.packed = [])
      (plain : arguments.positional.length ≤ arity ∨
        ∀ front id, arguments.positional ≠ front ++ [.map id]) :
      arguments.Received arity arguments.positional none
  /-- The map of the keyword arguments takes the place of a positional one. -/
  | filling {id : MapId} (packed : arguments.packed = [.map id])
      (few : arguments.positional.length < arity) :
      arguments.Received arity (arguments.positional ++ [.map id]) none
  /-- A positional argument is taken for the map of keyword arguments. -/
  | mistaken {front : List Value} {id : MapId} (packed : arguments.packed = [])
      (last : arguments.positional = front ++ [.map id])
      (more : arity < arguments.positional.length) :
      arguments.Received arity front (some id)

/-- This is how the method reads what it is passed. -/
theorem Linked.Arguments.Received.reads {arguments : Linked.Arguments} {code : Method}
    {positional : List Value} {keywords : Option MapId}
    (received : arguments.Received code.arity positional keywords)
    (accepts : code.acceptsKeywords) : code.Reads arguments.passed positional keywords := by
  unfold Linked.Arguments.passed
  cases received with
  | named packed enough =>
      rw [packed]
      refine .lastMap accepts ?_
      rw [List.length_append]
      exact Nat.lt_succ_of_le enough
  | unnamed packed plain =>
      rw [packed, List.append_nil]
      refine .all ?_
      rintro ⟨_, more, front, id, is⟩
      rcases plain with few | other
      · exact absurd more (Nat.not_lt.2 few)
      · exact other front id is
  | filling packed few =>
      rw [packed]
      refine .all ?_
      rintro ⟨_, more, _⟩
      rw [List.length_append] at more
      exact absurd more (Nat.not_lt.2 few)
  | mistaken packed last more =>
      rw [packed, List.append_nil, last]
      exact .lastMap accepts (last ▸ more)

section

open Linked (evalArguments packKeywords stampKeywords stampExprs)

variable {ctx : Linked.Context} {slots start finish : Nat} {exits : Exits}
  {regions : List Protection} {stack : List Value} {m : Machine} {loc : Location}
  {callee : Linked.Expr} {args : List Linked.Expr}
  {keywords : List (Linked.NameConst × Linked.Expr)} {arguments : Linked.Arguments}
  {e₁ e₂ : Machine} {f : Value}

/-- Where keyword arguments go. A call passes its positional arguments and, if it has keyword
arguments, one map of them behind. If it calls a compiled method that has a keyword parameter, the
method receives the arguments as said above: it binds them if the positional ones fit, and else an
exception is raised. -/
theorem call_receives (holds : a.Holds ctx s)
    (valid : (Linked.Expr.call loc callee args keywords).Valid ctx true slots)
    (placed : a.Placed exits start ((Linked.Expr.call loc callee args keywords).code start) finish)
    (here : a.At regions start stack m e)
    (passes : (evalArguments s loc args keywords).result e = some (.ok arguments, e₁))
    (calls : (callee.eval s).result e₁ = some (.ok f, e₂))
    {name file : String} {unit : List Stmt} {u : CompiledUnit}
    (compiled : compile name file unit = .ok u) :
    arguments.positional.length = args.length ∧
      arguments.named.map Prod.fst = keywords.map (·.1.name) ∧ arguments.Packs e₁.heap ∧
      a.Leads m fun n =>
        a.At regions (finish - 1) (f :: (arguments.passed.reverse ++ stack)) n e₂ ∧
        ∀ call : Call, callOf? n.heap f arguments.passed = some call →
          (n.heap.method call.method).code ∈ u.methods →
          (n.heap.method call.method).code.acceptsKeywords →
          n.frames.length < n.limits.frames →
          ∀ positional keywords,
            arguments.Received (n.heap.method call.method).code.arity positional keywords →
            a.Calls finish stack call positional keywords n := by
  obtain ⟨count, names, packs, leads⟩ :=
    Linked.leads_arguments holds valid.1 valid.2.1 placed.left.left here passes
  refine ⟨count, names, packs, leads.trans fun n there => ?_⟩
  have evaluated := callee.realizes holds valid.2.2 placed.left.right there
  rw [calls] at evaluated
  have length : arguments.passed.length = args.length +
      (packKeywords (stampKeywords (stampExprs loc args) keywords) keywords.length).length := by
    rw [Linked.Arguments.passed, List.length_append, count, packs.length names]
  have invokes := placed.right.instruction
  obtain rfl := placed.right.length
  refine (Activation.realizes_ok.1 evaluated).imp fun n there => ⟨there, ?_⟩
  intro call is member accepts room positional keywords received
  obtain ⟨sig, follows⟩ := compile_follows compiled (.inr member)
  exact there.calls (length ▸ invokes) is follows (received.reads accepts) room

/-- A function with all kinds of parameters, and one that calls it with two positional arguments and
a keyword argument. -/
def naming : List Stmt :=
  [.function {} (.mk { name := "f", params := ["a"], varargs := some "rest", kwargs := some "opts" }
      [.ret {} (some (.name {} "opts"))]),
    .function {} (.mk { name := "main" }
      [.ret {} (some (.call {} (.name {} "f") [.int {} 1, .int {} 2] [("k", .int {} 3)]))])]

/-- The call in the second function. -/
def namingCallee : Linked.Expr := .name {} "f" (.global 4)

def namingArgs : List Linked.Expr := [.int {} 1 0, .int {} 2 1]

def namingKeywords : List (Linked.NameConst × Linked.Expr) := [(⟨"k", 2⟩, .int {} 3 3)]

/-- The machine when the second function has been called. -/
def namingMachine : Machine :=
  (HostCall.value (.method 1) []).after (Engine.loaded (compiledUnit naming)).machine 0

/-- What the call evaluates. -/
def namingEval : Eval (Linked.Arguments × Value) := do
  let arguments ← evalArguments ⟨0, ({} : Heap).offsets⟩ {} namingArgs namingKeywords
  return (arguments, ← namingCallee.eval ⟨0, ({} : Heap).offsets⟩)

/-- The call is the first thing that the second function does. -/
theorem namingMachine_begins : ∃ top, namingMachine.Begins
    ⟨(compiledUnit naming).methods.getD 1 default, 0⟩ top [] := by
  have shape : namingMachine.frames.map (fun f => (f.method.code, f.method.module, f.ip,
      f.stack.length)) = [((compiledUnit naming).methods.getD 1 default, 0, 0, 0)] := by
    decide +kernel
  have hosted : (Engine.loaded (compiledUnit naming)).Hosted :=
    Engine.hosted_loaded (compile_compiledUnit (by decide +kernel))
  exact Machine.begins_of_frames (hosted.after_live _ 0) (hosted.after_counted _ 0)
    (by decide +kernel) shape

theorem namingEval_result : ∃ arguments e₁ e₂,
    (evalArguments ⟨0, ({} : Heap).offsets⟩ {} namingArgs namingKeywords).result namingMachine
        = some (.ok arguments, e₁) ∧
      (namingCallee.eval ⟨0, ({} : Heap).offsets⟩).result e₁ = some (.ok (.method 0), e₂) ∧
      arguments.positional = [.int 1, .int 2] ∧ e₂.limits.frames = 1000 ∧
      (e₂.heap.method 0).code = (compiledUnit naming).methods.getD 0 default := by
  have run : (namingEval.result namingMachine).map (fun r =>
      (r.1.toOption.bind (·.2.method?), r.2.limits.frames, (r.2.heap.method 0).code)) =
        some (some 0, 1000, (compiledUnit naming).methods.getD 0 default) := by decide +kernel
  obtain ⟨⟨r, e₂⟩, found, same⟩ := Option.map_eq_some_iff.1 run
  simp only [Prod.mk.injEq] at same
  obtain ⟨calls, limit, code⟩ := same
  cases r with
  | error id => cases calls
  | ok pair =>
      obtain ⟨arguments, e₁, passes, rest⟩ := Eval.result_bind_eq_ok found
      obtain ⟨f, e₂, called, last⟩ := Eval.result_bind_eq_ok rest
      cases last
      obtain rfl := Value.eq_of_method? calls
      refine ⟨arguments, e₁, e₂, passes, called, ?_, limit, code⟩
      obtain ⟨positional, e₃, first, passes⟩ := Eval.result_bind_eq_ok passes
      obtain ⟨named, e₄, _, passes⟩ := Eval.result_bind_eq_ok passes
      obtain ⟨packed, e₅, _, passes⟩ := Eval.result_bind_eq_ok passes
      cases passes
      exact (Except.ok.inj (Prod.mk.inj (Option.some.inj first)).1).symm

/-- The function that is called receives what it was meant to: two positional arguments, and a map
with the third. -/
theorem call_receives_naming : ∃ (count : Nat) (f : Frame) (call : Call) (id : MapId),
    let n := namingMachine.run count
    n.step.frames.head? = some f ∧
      call.Binds f [.int 1, .int 2] (some id) n.heap n.step.heap := by
  obtain ⟨top, begins⟩ := namingMachine_begins
  obtain ⟨arguments, e₁, e₂, passes, calls, positional, limit, code⟩ := namingEval_result
  have compiled : compile "m" "m" naming = .ok (compiledUnit naming) :=
    compile_compiledUnit (by decide +kernel)
  let pool : Array Constant := #[.int 1, .int 2, .str "k", .int 3, .str "f"]
  have constants : (compiledUnit naming).constants = pool := by decide +kernel
  have nonempty : ((compiledUnit naming).methods.getD 1 default).body.size ≠ 0 := by decide +kernel
  have loaded : namingMachine.heap.Loaded (compiledUnit naming) 0 ({} : Heap).offsets :=
    (Heap.loaded_load {} (compiledUnit naming)).kept
      (HostCall.keeps_heap _ (Engine.loaded (compiledUnit naming)).machine 0)
  have holds : (begins.activation nonempty).Holds ⟨pool, #[], {}, #[]⟩ ⟨0, ({} : Heap).offsets⟩ :=
    begins.holds nonempty constants.symm loaded
  have valid : (Linked.Expr.call {} namingCallee namingArgs namingKeywords).Valid
      ⟨pool, #[], {}, #[]⟩ true 0 := by
    rw [Linked.Expr.Valid]
    exact ⟨⟨rfl, rfl, trivial⟩, ⟨rfl, rfl, trivial⟩, rfl⟩
  have placed : (begins.activation nonempty).Placed {} 0
      ((Linked.Expr.call {} namingCallee namingArgs namingKeywords).code 0) 7 := by
    have body : (begins.activation nonempty).body =
        ((compiledUnit naming).methods.getD 1 default).body :=
      congrArg (·.code.body) begins.method
    have same : ∀ k < 7, ((compiledUnit naming).methods.getD 1 default).body[k]? =
        ((Linked.Expr.call {} namingCallee namingArgs namingKeywords).code 0)[k]?.map fun slot =>
          (slot.close 0 0).instruction := by decide +kernel
    refine ⟨fun k slot found => ?_, by decide +kernel, ?_⟩
    · have small : k < 7 := (List.getElem?_eq_some_iff.1 found).1
      rw [body, Nat.zero_add, same k small, found]
      rfl
    · rw [body]
      decide +kernel
  obtain ⟨_, names, packs, count, _, there, receives⟩ :=
    call_receives holds valid placed (begins.here nonempty) passes calls compiled
  have some : arguments.named ≠ [] := by
    intro none
    rw [none] at names
    cases names
  obtain ⟨id, packed, _⟩ := packs.holds some
  have method : (namingMachine.run count).heap.method 0 = e₂.heap.method 0 := by
    rw [there.world.heap]
  have member : ((compiledUnit naming).methods.getD 0 default) ∈ (compiledUnit naming).methods := by
    decide +kernel
  have shape : ((compiledUnit naming).methods.getD 0 default).acceptsKeywords = true ∧
      ((compiledUnit naming).methods.getD 0 default).arity = 1 ∧
      ((compiledUnit naming).methods.getD 0 default).variadic = true := by decide +kernel
  rw [← code, ← method] at shape member
  obtain ⟨accepts, arity, variadic⟩ := shape
  have room : (namingMachine.run count).frames.length < (namingMachine.run count).limits.frames := by
    rw [there.frames, there.world.limits, limit]
    change 1 < 1000
    decide
  have enough : ((namingMachine.run count).heap.method 0).code.arity ≤
      arguments.positional.length := by
    rw [arity, positional]
    decide
  obtain ⟨binds, _⟩ := receives { method := 0, args := arguments.passed } rfl member accepts room _ _
    (.named packed enough)
  obtain ⟨f, top, _, bound⟩ := binds ⟨enough, by rw [variadic]; exact nofun⟩
  rw [positional] at bound
  exact ⟨count, f, _, id, congrArg List.head? top, bound⟩

end

/-- A function that tells whether one of its parameters is empty, with two positional arguments the
second of which is a map, and with a keyword argument in place of a positional one. -/
def misreading (varargs : Option String) (asked : String) (args : List Expr)
    (keywords : List (String × Expr)) : List Stmt :=
  [.function {} (.mk { name := "f", params := ["a"], varargs, kwargs := some "opts" }
      [.ret {} (some (.ternary {} (.name {} asked) (.int {} 1) (.int {} 0)))]),
    .function {} (.mk { name := "main" }
      [.ret {} (some (.call {} (.name {} "f") args keywords))])]

/-- With `def f(a, *rest, **opts)`, the call `f(1, {})` leaves the surplus empty, since the map is
taken for the keyword map. With `def f(a, **opts)`, the call `f(k=1)` leaves no argument missing,
since the map of the keyword arguments is taken for the positional one, and the keyword map is
empty. -/
theorem misreading_differs :
    let m (unit : List Stmt) := (HostCall.value (.method 1) []).after
      (Engine.loaded (compiledUnit unit)).machine
    (m (misreading (some "rest") "rest" [.int {} 1, .hash {} []] []) 20).control
        = .returned (.int 0) ∧
      (m (misreading none "opts" [] [("k", .int {} 1)]) 20).control = .returned (.int 0) := by
  intro m
  have surplus : (m (misreading (some "rest") "rest" [.int {} 1, .hash {} []] []) 20).control.int?
      = some 0 := by decide +kernel
  have empty : (m (misreading none "opts" [] [("k", .int {} 1)]) 20).control.int? = some 0 := by
    decide +kernel
  exact ⟨Control.eq_of_int? surplus, Control.eq_of_int? empty⟩

end ScriptMachine
