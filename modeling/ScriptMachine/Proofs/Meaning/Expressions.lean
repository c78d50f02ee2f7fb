import ScriptMachine.Proofs.Code.Operands
import ScriptMachine.Proofs.Meaning.Advance

/-!
The code of expressions does what evaluating them does. An expression leaves its value on top of
the operands, whatever they are, and an exception that its parts raise leaves it.
-/

namespace ScriptMachine

open ScriptMachine.Action
open Linked (Context)

variable {a : Activation} {s : Setting} {ctx : Context} {stack : List Value}

/-! ## Instructions and their operations -/

namespace Activation.Carries

variable {loc : Location} {arg const : Nat} {name : String}

/-- An instruction without operands. -/
theorem plain {i : Instruction} {act : Action Unit} (mirrors : Mirrors act) (falls : i.Falls)
    (pops : i.pops = 0) (executes : ∀ n : Machine, (∀ k, n.constant? k = a.constants[k]?) →
      (execute i).result n = act.result n) : a.Carries i [] stack act where
  executes n found constants := by
    have same : n.withStack stack = n := by
      rw [← show n.stack = stack from found, Machine.withStack_self]
    rw [same]
    exact executes n constants
  mirrors := mirrors
  falls := falls
  pops := pops

theorem readLocal (slot : Nat) :
    a.Carries ⟨.loadLocal, slot, loc⟩ [] stack (Action.readLocal slot) :=
  plain (readLocal_mirrors slot) (.of_opcode rfl) rfl fun _ _ => rfl

/-- The name of a global variable is a constant of the module. -/
theorem readGlobal (held : a.constants[const]? = some (.str name)) :
    a.Carries ⟨.loadGlobal, const, loc⟩ [] stack (Action.readGlobal name) :=
  plain (readGlobal_answers name).mirrors (.of_opcode rfl) rfl
    fun _ constants => execute_loadGlobal rfl ((constants const).trans held)

theorem readSelf : a.Carries ⟨.loadSelf, arg, loc⟩ [] stack Action.readSelf :=
  plain readSelf_answers.mirrors (.of_opcode rfl) rfl
    fun _ _ => execute_loadSelf rfl

theorem writeLocal (slot : Nat) (v : Value) :
    a.Carries ⟨.storeLocal, slot, loc⟩ [v] stack (Action.writeLocal slot v) where
  executes _ found _ := execute_storeLocal rfl found
  mirrors := writeLocal_mirrors slot v
  falls := .of_opcode rfl
  pops := rfl

theorem writeGlobal (held : a.constants[const]? = some (.str name)) (v : Value) :
    a.Carries ⟨.storeGlobal, const, loc⟩ [v] stack (Action.writeGlobal name v) where
  executes _ found constants := execute_storeGlobal rfl ((constants const).trans held) found
  mirrors := (writeGlobal_answers name v).mirrors
  falls := .of_opcode rfl
  pops := rfl

theorem readAttribute (held : a.constants[const]? = some (.str name)) (v : Value) :
    a.Carries ⟨.loadAttribute, const, loc⟩ [v] stack (Action.readAttribute v name .push) where
  executes _ found constants := execute_loadAttribute rfl ((constants const).trans held) found
  mirrors := (readAttribute_answers v name rfl).mirrors
  falls := .of_opcode rfl
  pops := rfl

/-- The object lies above the value that its attribute is set to. -/
theorem writeAttribute (held : a.constants[const]? = some (.str name)) (object v : Value) :
    a.Carries ⟨.storeAttribute, const, loc⟩ [object, v] stack
      (Action.writeAttribute object name v) where
  executes _ found constants := execute_storeAttribute rfl ((constants const).trans held) found
  mirrors := (Answers.done (writeAttribute_quiet object name v)).mirrors
  falls := .of_opcode rfl
  pops := rfl

theorem readItem (container index : Value) :
    a.Carries ⟨.loadIndex, arg, loc⟩ [index, container] stack
      (Action.readItem container index) where
  executes _ found _ := execute_loadIndex rfl found
  mirrors := (readItem_answers container index).mirrors
  falls := .of_opcode rfl
  pops := rfl

theorem writeItem (container index v : Value) :
    a.Carries ⟨.storeIndex, arg, loc⟩ [index, container, v] stack
      (Action.writeItem container index v) where
  executes _ found _ := execute_storeIndex rfl found
  mirrors := (writeItem_answers container index v).mirrors
  falls := .of_opcode rfl
  pops := rfl

/-- The tag of an operator can be read back, so the instruction does what the operator does. -/
theorem binary (op : BinaryOp) (left right : Value) :
    a.Carries ⟨.binOp, op.tag, loc⟩ [right, left] stack (Action.binary op left right) where
  executes _ found _ := execute_binOp rfl (BinaryOp.ofTag?_tag op) found
  mirrors := (binary_answers op left right).mirrors
  falls := .of_opcode rfl
  pops := rfl

theorem unary (op : UnaryOp) (v : Value) :
    a.Carries ⟨.unaryOp, op.tag, loc⟩ [v] stack (Action.unary op v) where
  executes _ found _ := execute_unaryOp rfl (UnaryOp.ofTag?_tag op) found
  mirrors := (unary_answers op v).mirrors
  falls := .of_opcode rfl
  pops := rfl

/-- The callee lies above its arguments, of which the last is on top. -/
theorem invoke (callee : Value) {args : List Value} (length : args.length = arg) :
    a.Carries ⟨.invoke, arg, loc⟩ (callee :: args.reverse) stack (Action.invoke callee args) where
  executes _ found _ := by
    rw [execute_invoke rfl found (args.length_reverse.trans length), List.reverse_reverse]
  mirrors := (invoke_answers callee args).mirrors
  falls := .of_opcode rfl
  pops := congrArg (· + 1) (args.length_reverse.trans length).symm

/-- The base lies above the arguments of its constructor. -/
theorem invokeSuper (base : Value) {args : List Value} (length : args.length = arg) :
    a.Carries ⟨.invokeSuper, arg, loc⟩ (base :: args.reverse) stack
      (Action.invokeSuper base args) where
  executes _ found _ := by
    rw [execute_invokeSuper rfl found (args.length_reverse.trans length), List.reverse_reverse]
  mirrors := (invokeSuper_answers base args).mirrors
  falls := .of_opcode rfl
  pops := congrArg (· + 1) (args.length_reverse.trans length).symm

/-- The items of a list lie on the stack with the last on top. -/
theorem buildList {items : List Value} (length : items.length = arg) :
    a.Carries ⟨.buildList, arg, loc⟩ items.reverse stack (Action.buildList items) where
  executes _ found _ := by
    rw [execute_buildList rfl found (items.length_reverse.trans length), List.reverse_reverse]
  mirrors := (buildList_answers items).mirrors
  falls := .of_opcode rfl
  pops := (items.length_reverse.trans length).symm

/-- The entries of a map lie on the stack as keys and values in turn. -/
theorem buildMap {items : List Value} (length : items.length = arg * 2) :
    a.Carries ⟨.buildHash, arg, loc⟩ items.reverse stack (Action.buildMap items) where
  executes _ found _ := by
    rw [execute_buildHash rfl found (items.length_reverse.trans length), List.reverse_reverse]
  mirrors := (buildMap_answers items).mirrors
  falls := .of_opcode rfl
  pops := (items.length_reverse.trans length).symm

/-- A closure is made of the method on top. -/
theorem captureLocals (method : MethodId) :
    a.Carries ⟨.buildClosure, arg, loc⟩ [.method method] stack
      (Action.captureLocals (.method method)) where
  executes _ found _ := execute_buildClosure rfl found
  mirrors := (captureLocals_answers method).mirrors
  falls := .of_opcode rfl
  pops := rfl

theorem testType (v type : Value) :
    a.Carries ⟨.instanceOf, arg, loc⟩ [type, v] stack (Action.testType v type) where
  executes _ found _ := execute_instanceOf rfl found
  mirrors := (testType_answers v type).mirrors
  falls := .of_opcode rfl
  pops := rfl

theorem castType (v type : Value) :
    a.Carries ⟨.dynamicCast, arg, loc⟩ [type, v] stack (Action.castType v type) where
  executes _ found _ := execute_dynamicCast rfl found
  mirrors := (castType_answers v type).mirrors
  falls := .of_opcode rfl
  pops := rfl

/-- An iterator is asked for with all delegations still allowed. -/
theorem iterate (v : Value) :
    a.Carries ⟨.getIter, arg, loc⟩ [v] stack (Action.iterate v maxDelegation .push) where
  executes _ found _ := execute_getIter rfl found
  mirrors := (iterate_answers v maxDelegation rfl).mirrors
  falls := .of_opcode rfl
  pops := rfl

theorem resetIter (it : Value) :
    a.Carries ⟨.iterReset, arg, loc⟩ [it] stack (Action.resetIter it .discard) where
  executes _ found _ := execute_iterReset rfl found
  mirrors := (resetIter_answers it rfl).mirrors
  falls := .of_opcode rfl
  pops := rfl

theorem moveIter (it : Value) :
    a.Carries ⟨.iterMoveNext, arg, loc⟩ [it] stack (Action.moveIter it .push) where
  executes _ found _ := execute_iterMoveNext rfl found
  mirrors := (moveIter_answers it rfl).mirrors
  falls := .of_opcode rfl
  pops := rfl

theorem iterItem (it : Value) :
    a.Carries ⟨.iterGetNext, arg, loc⟩ [it] stack (Action.iterItem it .push) where
  executes _ found _ := execute_iterGetNext rfl found
  mirrors := (iterItem_answers it rfl).mirrors
  falls := .of_opcode rfl
  pops := rfl

end Activation.Carries

/-! ## Constants -/

/-- The activation has the constants that the trees refer to. -/
def Activation.Holds (a : Activation) (ctx : Context) (s : Setting) : Prop :=
  ∀ {k : Nat} {c : Constant}, ctx.pool[k]? = some c → a.constants[k]? = some (s.offsets.constant c)

namespace Linked

open Activation (Carries)

variable {regions : List Protection} {slots start finish : Nat} {exits : Exits} {m e : Machine}

/-- A name is read as the evaluator reads it, be it a slot or a global variable. -/
theorem Ref.realizes_read {ref : Ref} {ident : String} {loc : Location} (holds : a.Holds ctx s)
    (valid : ref.Valid ctx.pool slots ident) (placed : a.Placed exits start [ref.load loc] finish)
    (here : a.At regions start stack m e) :
    a.Realizes regions s.fuel m ((ref.read s loc ident).result e) fun v n e' =>
      a.At regions finish (v :: stack) n e' := by
  cases ref with
  | slot index => exact (Carries.readLocal index).value rfl placed here here.low
  | global const => exact (Carries.readGlobal (holds valid)).value rfl placed here here.low

/-- A name is set as the evaluator sets it. -/
theorem Ref.realizes_assign {ref : Ref} {ident : String} {loc : Location} {v : Value}
    (holds : a.Holds ctx s) (valid : ref.Valid ctx.pool slots ident)
    (placed : a.Placed exits start [ref.store loc] finish)
    (here : a.At regions start (v :: stack) m e) (low : ∀ p ∈ regions, p.floor <:+ stack) :
    a.Realizes regions s.fuel m ((ref.assign s loc ident v).result e) fun _ n e' =>
      a.At regions finish stack n e' := by
  cases ref with
  | slot index => exact (Carries.writeLocal index v).effect rfl placed here low
  | global const => exact (Carries.writeGlobal (holds valid) v).effect rfl placed here low

/-- A path is followed attribute by attribute. The induction is on what is left of it. -/
theorem realizes_follow (holds : a.Holds ctx s) {loc : Location} : (path : List NameConst) →
    (∀ n ∈ path, n.In ctx.pool) → ∀ {start : Nat} {v : Value} {m e : Machine},
    a.Placed exits start (path.map fun segment => .of loc .loadAttribute segment.const) finish →
    a.At regions start (v :: stack) m e → (∀ p ∈ regions, p.floor <:+ stack) →
    a.Realizes regions s.fuel m ((follow s loc v path).result e) fun v n e' =>
      a.At regions finish (v :: stack) n e'
  | [], _, _, _, _, _, placed, here, _ => .pure (placed.length ▸ here)
  | _ :: path, named, _, v, _, _, placed, here, low => by
      obtain ⟨first, others⟩ := List.forall_mem_cons.1 named
      refine .bind ((Carries.readAttribute (holds first) v).value rfl placed.head here low)
        fun v n e' there => ?_
      exact realizes_follow holds path others placed.tail there low

/-- Pushing the class with a dotted name. -/
theorem realizes_base (holds : a.Holds ctx s) {loc : Location} {path : BasePath}
    (valid : path.Valid ctx.pool) (placed : a.Placed exits start (loadBase loc path) finish)
    (here : a.At regions start stack m e) :
    a.Realizes regions s.fuel m ((evalBase s loc path).result e) fun v n e' =>
      a.At regions finish (v :: stack) n e' := by
  cases path with
  | nil => exact absurd rfl valid.1
  | cons first rest =>
      obtain ⟨named, others⟩ := List.forall_mem_cons.1 valid.2
      refine .bind ((Carries.readGlobal (holds named)).value rfl placed.head here here.low)
        fun v n e' there => ?_
      exact realizes_follow holds rest others placed.tail there here.low

/-! ## Expressions -/

section

variable (a : Activation) (s : Setting) (ctx : Context) (slots : Nat) (regions : List Protection)

/-- The code of an expression does what evaluating it does, wherever it is placed. -/
def Expr.Realized (x : Expr) : Prop :=
  x.Valid ctx true slots →
    ∀ {exits : Exits} {start finish : Nat} {stack : List Value} {m e : Machine},
    a.Placed exits start (x.code start) finish → a.At regions start stack m e →
    a.Realizes regions s.fuel m ((x.eval s).result e) fun v n e' =>
      a.At regions finish (v :: stack) n e'

/-- The code that stores a value does what assigning it does. -/
def Target.Realized (t : Target) : Prop :=
  t.Valid ctx true slots →
    ∀ {before : Location} {exits : Exits} {start finish : Nat} {v : Value} {stack : List Value}
      {m e : Machine}, a.Placed exits start (t.store before start) finish →
    a.At regions start (v :: stack) m e → (∀ p ∈ regions, p.floor <:+ stack) →
    a.Realizes regions s.fuel m ((t.assign s before v).result e) fun _ n e' =>
      a.At regions finish stack n e'

/-- The code of expressions in a row leaves their values. -/
def ExprsRealized (items : List Expr) : Prop :=
  ValidExprs ctx true slots items →
    ∀ {exits : Exits} {start finish : Nat} {stack : List Value} {m e : Machine},
    a.Placed exits start (codeExprs start items) finish → a.At regions start stack m e →
    a.Realizes regions s.fuel m ((evalExprs s items).result e) fun values n e' =>
      a.At regions finish (values.reverse ++ stack) n e' ∧ values.length = items.length

/-- The code of keyword arguments leaves their names and values. -/
def KeywordsRealized (items : List (NameConst × Expr)) : Prop :=
  ValidKeywords ctx true slots items → ∀ {before : Location} {exits : Exits} {start finish : Nat}
      {stack : List Value} {m e : Machine},
    a.Placed exits start (codeKeywords before start items) finish → a.At regions start stack m e →
    a.Realizes regions s.fuel m ((evalKeywords s items).result e) fun values n e' =>
      a.At regions finish (values.reverse ++ stack) n e' ∧ values.length = items.length * 2

/-- The code of entries leaves their keys and values. -/
def PairsRealized (items : List (Expr × Expr)) : Prop :=
  ValidPairs ctx true slots items →
    ∀ {exits : Exits} {start finish : Nat} {stack : List Value} {m e : Machine},
    a.Placed exits start (codePairs start items) finish → a.At regions start stack m e →
    a.Realizes regions s.fuel m ((evalPairs s items).result e) fun values n e' =>
      a.At regions finish (values.reverse ++ stack) n e' ∧ values.length = items.length * 2

end

variable {loc : Location} {x y z : Expr} {t : Target} {op : BinaryOp} {items : List Expr}

namespace Expr.Realized

/-! ### Literals and variables -/

theorem null : (Expr.null loc).Realized a s ctx slots regions := by
  intro _ _ _ _ _ _ _ placed here
  exact here.silently (.pure (here.loadNull placed))

theorem bool (value : Bool) : (Expr.bool loc value).Realized a s ctx slots regions := by
  intro _ _ _ _ _ _ _ placed here
  cases value with
  | true => exact here.silently (.pure (here.loadTrue placed))
  | false => exact here.silently (.pure (here.loadFalse placed))

/-- A literal is a constant of the module. -/
theorem int (holds : a.Holds ctx s) {value : Int64} {const : Nat} :
    (Expr.int loc value const).Realized a s ctx slots regions := by
  intro valid _ _ _ _ _ _ placed here
  exact here.silently (.pure (here.loadConst placed (holds valid)))

theorem float (holds : a.Holds ctx s) {value : Binary64} {const : Nat} :
    (Expr.float loc value const).Realized a s ctx slots regions := by
  intro valid _ _ _ _ _ _ placed here
  exact here.silently (.pure (here.loadConst placed (holds valid)))

theorem str (holds : a.Holds ctx s) {value : NameConst} :
    (Expr.str loc value).Realized a s ctx slots regions := by
  intro valid _ _ _ _ _ _ placed here
  exact here.silently (.pure (here.loadConst placed (holds valid)))

/-- A name refers to where the resolver has put it. -/
theorem name (holds : a.Holds ctx s) {ident : String} {ref : Ref} :
    (Expr.name loc ident ref).Realized a s ctx slots regions := by
  intro valid _ _ _ _ _ _ placed here
  exact Ref.realizes_read holds valid placed here

theorem self : (Expr.self loc).Realized a s ctx slots regions := by
  intro _ _ _ _ _ _ _ placed here
  exact Carries.readSelf.value rfl placed here here.low

/-! ### Attributes, items and calls -/

/-- The object comes first, then its attribute. -/
theorem attr (holds : a.Holds ctx s) {ident : NameConst}
    (target : x.Realized a s ctx slots regions) :
    (Expr.attr loc x ident).Realized a s ctx slots regions := by
  intro valid _ _ _ _ _ _ placed here
  refine .bind (target valid.1 placed.left here) fun v n e' there => ?_
  exact (Carries.readAttribute (holds valid.2) v).value rfl placed.right there here.low

/-- The container is evaluated before the index. -/
theorem index (target : x.Realized a s ctx slots regions)
    (item : y.Realized a s ctx slots regions) :
    (Expr.index loc x y).Realized a s ctx slots regions := by
  intro valid _ _ _ _ _ _ placed here
  refine .bind (target valid.1 placed.left.left here) fun container n e' first => ?_
  refine .bind (item valid.2 placed.left.right first) fun i n e' second => ?_
  exact (Carries.readItem container i).value rfl placed.right second here.low

/-- A call without keyword arguments. -/
theorem plainCall (args : ExprsRealized a s ctx slots regions items)
    (none : KeywordsRealized a s ctx slots regions [])
    (callee : x.Realized a s ctx slots regions) :
    (Expr.call loc x items []).Realized a s ctx slots regions := by
  intro valid _ _ _ _ _ _ placed here
  refine .bind (args valid.1 placed.left.left.left.left here) fun values n e' first => ?_
  refine .bind (none trivial placed.left.left.left.right first.1) fun named n e' second => ?_
  obtain ⟨there, none⟩ := second
  obtain rfl := List.length_eq_zero_iff.1 none
  have unpacked := placed.left.left.right.length
  refine .bind (callee valid.2.2 placed.left.right (unpacked ▸ there)) fun f n e' third => ?_
  exact (Carries.invoke f first.2).value rfl placed.right third here.low

/-- A call with keyword arguments, which are packed into a map. -/
theorem packedCall {keyword : NameConst × Expr} {keywords : List (NameConst × Expr)}
    (args : ExprsRealized a s ctx slots regions items)
    (named : KeywordsRealized a s ctx slots regions (keyword :: keywords))
    (callee : x.Realized a s ctx slots regions) :
    (Expr.call loc x items (keyword :: keywords)).Realized a s ctx slots regions := by
  intro valid _ _ _ _ _ _ placed here
  refine .bind (args valid.1 placed.left.left.left.left here) fun values n e' first => ?_
  refine .bind (named valid.2.1 placed.left.left.left.right first.1) fun named n e' second => ?_
  have packs := placed.left.left.right
  refine .bind ((Carries.buildMap second.2).value rfl packs second.1 first.1.low)
    fun packed n e' third => ?_
  refine .bind (callee valid.2.2 placed.left.right third) fun f n e' fourth => ?_
  have count : (values ++ [packed]).length = items.length + 1 := by
    rw [List.length_append, first.2]
    rfl
  refine (Carries.invoke f count).value rfl placed.right ?_ here.low
  rw [List.reverse_concat]
  exact fourth

/-- A call of the base's constructor has arguments and a path to the base. -/
theorem superCall (holds : a.Holds ctx s) {base : Option BasePath}
    (args : ExprsRealized a s ctx slots regions items) :
    (Expr.superCall loc items base).Realized a s ctx slots regions := by
  intro valid _ _ _ _ _ _ placed here
  obtain ⟨fine, named, based⟩ := valid
  obtain ⟨path, rfl⟩ := Option.ne_none_iff_exists'.1 (based rfl)
  refine .bind (args fine placed.left.left here) fun values n e' first => ?_
  refine .bind (realizes_base holds (named path rfl) placed.left.right first.1)
    fun base n e' second => ?_
  refine .bind ((Carries.invokeSuper base first.2).effect rfl placed.right.head second here.low)
    fun _ n e' third => ?_
  exact third.silently (.pure (third.loadNull placed.right.tail))

/-! ### Operators -/

/-- An operator that evaluates both operands. -/
theorem strict (left : x.Realized a s ctx slots regions) (right : y.Realized a s ctx slots regions)
    (valid : x.Valid ctx true slots ∧ y.Valid ctx true slots)
    (placed : a.Placed exits start (x.code start ++ y.code (start + (x.code start).length) ++
      [.of loc .binOp op.tag]) finish) (here : a.At regions start stack m e) :
    a.Realizes regions s.fuel m ((x.eval s >>= fun first => y.eval s >>= fun second =>
      s.value loc (Action.binary op first second)).result e) fun v n e' =>
        a.At regions finish (v :: stack) n e' := by
  refine .bind (left valid.1 placed.left.left here) fun v n e' first => ?_
  refine .bind (right valid.2 placed.left.right first) fun w n e' second => ?_
  exact (Carries.binary op v w).value rfl placed.right second here.low

/-- The right operand is evaluated only if the left one is truthy, and the left one is the value if
not. -/
theorem conjunction (left : x.Realized a s ctx slots regions)
    (right : y.Realized a s ctx slots regions) :
    (Expr.binary loc .boolAnd x y).Realized a s ctx slots regions := by
  intro valid _ _ _ _ _ _ placed here
  refine .bind (left valid.1 placed.left.left here) fun v n e' first => ?_
  have copied := first.dup placed.middle.head
  have tested := copied.jumpIfFalse placed.middle.tail.head first.low
  refine first.silently (copied.silently (.ask ?_))
  by_cases true_ : e'.heap.truthy v = true
  · rw [if_pos true_] at tested ⊢
    have dropped := tested.pop placed.middle.tail.tail here.low
    exact tested.silently (right valid.2 placed.last dropped)
  · rw [if_neg true_] at tested ⊢
    exact .pure (placed.last.length ▸ tested)

/-- The right operand is evaluated only if the left one is not truthy. -/
theorem disjunction (left : x.Realized a s ctx slots regions)
    (right : y.Realized a s ctx slots regions) :
    (Expr.binary loc .boolOr x y).Realized a s ctx slots regions := by
  intro valid _ _ _ _ _ _ placed here
  refine .bind (left valid.1 placed.left.left here) fun v n e' first => ?_
  have copied := first.dup placed.middle.head
  have tested := copied.jumpIfTrue placed.middle.tail.head first.low
  refine first.silently (copied.silently (.ask ?_))
  by_cases true_ : e'.heap.truthy v = true
  · rw [if_pos true_] at tested ⊢
    exact .pure (placed.last.length ▸ tested)
  · rw [if_neg true_] at tested ⊢
    have dropped := tested.pop placed.middle.tail.tail here.low
    exact tested.silently (right valid.2 placed.last dropped)

/-- All other operators evaluate both operands, the left one first. -/
theorem binary (left : x.Realized a s ctx slots regions)
    (right : y.Realized a s ctx slots regions) :
    (Expr.binary loc op x y).Realized a s ctx slots regions := by
  cases op with
  | boolAnd => exact conjunction left right
  | boolOr => exact disjunction left right
  | _ => exact fun valid _ _ _ _ _ _ placed here => strict left right valid placed here

theorem unary {op : UnaryOp} (operand : x.Realized a s ctx slots regions) :
    (Expr.unary loc op x).Realized a s ctx slots regions := by
  intro valid _ _ _ _ _ _ placed here
  refine .bind (operand valid placed.left here) fun v n e' there => ?_
  exact (Carries.unary op v).value rfl placed.right there here.low

theorem isType (value : x.Realized a s ctx slots regions)
    (type : y.Realized a s ctx slots regions) :
    (Expr.isType loc x y).Realized a s ctx slots regions := by
  intro valid _ _ _ _ _ _ placed here
  refine .bind (value valid.1 placed.left.left here) fun v n e' first => ?_
  refine .bind (type valid.2 placed.left.right first) fun t n e' second => ?_
  exact (Carries.testType v t).value rfl placed.right second here.low

theorem asType (value : x.Realized a s ctx slots regions)
    (type : y.Realized a s ctx slots regions) :
    (Expr.asType loc x y).Realized a s ctx slots regions := by
  intro valid _ _ _ _ _ _ placed here
  refine .bind (value valid.1 placed.left.left here) fun v n e' first => ?_
  refine .bind (type valid.2 placed.left.right first) fun t n e' second => ?_
  exact (Carries.castType v t).value rfl placed.right second here.low

/-! ### Assignments -/

/-- The value is evaluated before the target, and remains as the value of the assignment. -/
theorem assign (target : t.Realized a s ctx slots regions)
    (value : x.Realized a s ctx slots regions) :
    (Expr.assign loc t x).Realized a s ctx slots regions := by
  intro valid _ _ _ _ _ _ placed here
  refine .bind (value valid.1 placed.left.left here) fun v n e' there => ?_
  have copied := there.dup placed.left.right
  refine there.silently ?_
  exact .bind (target valid.2 placed.right copied there.low) fun _ n e' after => .pure after

/-- The old value is read before the new one is evaluated, and then the target is set. -/
theorem update (old : x.Realized a s ctx slots regions) (value : y.Realized a s ctx slots regions)
    (target : t.Realized a s ctx slots regions) :
    (Expr.update loc op x y t).Realized a s ctx slots regions := by
  intro valid _ _ _ _ _ _ placed here
  refine .bind (old valid.1 placed.left.left.left here) fun first n e' one => ?_
  refine .bind (value valid.2.1 placed.left.left.right one) fun v n e' two => ?_
  refine .bind ((Carries.binary op first v).value rfl placed.left.right.head two here.low)
    fun v n e' three => ?_
  have copied := three.dup placed.left.right.tail
  refine three.silently ?_
  exact .bind (target valid.2.2 placed.right copied three.low) fun _ n e' after => .pure after

/-! ### Collections and lambdas -/

/-- Items are evaluated in order and put together at the end. -/
theorem list (values : ExprsRealized a s ctx slots regions items) :
    (Expr.list loc items).Realized a s ctx slots regions := by
  intro valid _ _ _ _ _ _ placed here
  refine .bind (values valid placed.left here) fun values n e' there => ?_
  exact (Carries.buildList there.2).value rfl placed.right there.1 here.low

theorem tuple (values : ExprsRealized a s ctx slots regions items) :
    (Expr.tuple loc items).Realized a s ctx slots regions := by
  intro valid _ _ _ _ _ _ placed here
  refine .bind (values valid placed.left here) fun values n e' there => ?_
  have built := there.1.buildTuple placed.right (values.length_reverse.trans there.2) here.low
  rw [List.reverse_reverse] at built
  exact there.1.silently (.pure built)

/-- Entries are evaluated in order, the key of each before its value. -/
theorem hash {pairs : List (Expr × Expr)} (entries : PairsRealized a s ctx slots regions pairs) :
    (Expr.hash loc pairs).Realized a s ctx slots regions := by
  intro valid _ _ _ _ _ _ placed here
  refine .bind (entries valid placed.left here) fun values n e' there => ?_
  exact (Carries.buildMap there.2).value rfl placed.right there.1 here.low

/-- A function that shares the variables around it is made a closure. -/
theorem lambda (holds : a.Holds ctx s) {decl : FuncDecl} {method const : Nat} (closes : Bool) :
    (Expr.lambda loc decl method const closes).Realized a s ctx slots regions := by
  intro valid _ _ _ _ _ _ placed here
  cases closes with
  | true =>
      have loaded := here.loadConst placed.head (holds valid.held)
      exact here.silently ((Carries.captureLocals _).value rfl placed.tail loaded here.low)
  | false => exact here.silently (.pure (here.loadConst placed (holds valid.held)))

/-! ### Choices -/

/-- The right operand is evaluated only if the left one is null. -/
theorem coalesce (left : x.Realized a s ctx slots regions)
    (right : y.Realized a s ctx slots regions) :
    (Expr.coalesce loc x y).Realized a s ctx slots regions := by
  intro valid _ _ _ _ _ _ placed here
  refine .bind (left valid.1 placed.left.left here) fun v n e' first => ?_
  by_cases null : v.isNull = true
  · rw [if_pos null]
    have dropped := first.dropsNull placed.middle null here.low
    exact first.silently (right valid.2 placed.last dropped)
  · rw [if_neg null]
    have kept := first.keepsValue placed.middle.instruction (Bool.eq_false_iff.2 null)
    exact first.silently (.pure (placed.last.length ▸ kept))

/-- Only one of the two values is evaluated. -/
theorem ternary (condition : x.Realized a s ctx slots regions)
    (thenValue : y.Realized a s ctx slots regions)
    (elseValue : z.Realized a s ctx slots regions) :
    (Expr.ternary loc x y z).Realized a s ctx slots regions := by
  intro valid _ _ _ _ _ _ placed here
  have test := placed.left.left.left
  have chosen := placed.left.left.last
  have other := placed.last.cast (congrArg (· + 1) chosen.length.symm)
  refine .bind (condition valid.1 test.left here) fun v n e' first => ?_
  have tested := first.jumpIfFalse placed.left.left.middle here.low
  refine first.silently (.ask ?_)
  by_cases true_ : e'.heap.truthy v = true
  · rw [if_pos true_] at tested ⊢
    refine .onward (thenValue valid.2.1 chosen tested) fun w n e' second => ?_
    have jumped := second.jump placed.left.right.instruction
    exact second.leads (other.length ▸ jumped)
  · rw [if_neg true_] at tested ⊢
    exact elseValue valid.2.2 other tested

end Expr.Realized

namespace Target.Realized

theorem name (holds : a.Holds ctx s) {ident : String} {ref : Ref} :
    (Target.name loc ident ref).Realized a s ctx slots regions := by
  intro valid _ _ _ _ _ _ _ _ placed here low
  exact Ref.realizes_assign holds valid placed here low

/-- The object is evaluated after the value that is stored. -/
theorem attr (holds : a.Holds ctx s) {ident : NameConst}
    (object : x.Realized a s ctx slots regions) :
    (Target.attr loc x ident).Realized a s ctx slots regions := by
  intro valid _ _ _ _ v _ _ _ placed here low
  refine .bind (object valid.1 placed.left here) fun o n e' there => ?_
  exact (Carries.writeAttribute (holds valid.2) o v).effect rfl placed.right there low

/-- Container and index are evaluated after the value that is stored. -/
theorem index (object : x.Realized a s ctx slots regions)
    (item : y.Realized a s ctx slots regions) :
    (Target.index loc x y).Realized a s ctx slots regions := by
  intro valid _ _ _ _ v _ _ _ placed here low
  refine .bind (object valid.1 placed.left.left here) fun container n e' first => ?_
  refine .bind (item valid.2 placed.left.right first) fun i n e' second => ?_
  exact (Carries.writeItem container i v).effect rfl placed.right second low

end Target.Realized

/-! ### Rows -/

theorem ExprsRealized.nil : ExprsRealized a s ctx slots regions [] := by
  intro _ _ _ _ _ _ _ placed here
  exact .pure ⟨placed.length ▸ here, rfl⟩

/-- Expressions in a row leave their values in a row. -/
theorem ExprsRealized.cons (item : x.Realized a s ctx slots regions)
    (rest : ExprsRealized a s ctx slots regions items) :
    ExprsRealized a s ctx slots regions (x :: items) := by
  intro valid _ _ _ _ _ _ placed here
  refine .bind (item valid.1 placed.left here) fun v n e' first => ?_
  refine .bind (rest valid.2 placed.right first) fun values n e' others => ?_
  refine .pure ⟨?_, congrArg (· + 1) others.2⟩
  rw [List.reverse_cons, List.append_assoc]
  exact others.1

/-- The two operands of an entry lie below those of the entries after it. -/
theorem at_entry {key value : Value} {values : List Value} {count : Nat}
    (there : a.At regions finish (values.reverse ++ value :: key :: stack) m e)
    (length : values.length = count * 2) :
    a.At regions finish ((key :: value :: values).reverse ++ stack) m e ∧
      (key :: value :: values).length = (count + 1) * 2 := by
  refine ⟨?_, ?_⟩
  · rw [List.reverse_cons, List.reverse_cons, List.append_assoc, List.append_assoc]
    exact there
  · rw [List.length_cons, List.length_cons, length, Nat.succ_mul]

theorem KeywordsRealized.nil : KeywordsRealized a s ctx slots regions [] := by
  intro _ _ _ _ _ _ _ _ placed here
  exact .pure ⟨placed.length ▸ here, rfl⟩

/-- The name of a keyword is pushed before its value. -/
theorem KeywordsRealized.cons (holds : a.Holds ctx s) {name : NameConst}
    {others : List (NameConst × Expr)} (item : x.Realized a s ctx slots regions)
    (rest : KeywordsRealized a s ctx slots regions others) :
    KeywordsRealized a s ctx slots regions ((name, x) :: others) := by
  intro valid before exits start finish _ _ _ placed here
  have parts : a.Placed exits start ([.of before .loadConst name.const] ++ x.code (start + 1)
      ++ codeKeywords x.stamp (start + 1 + (x.code (start + 1)).length) others) finish :=
    placed
  have loaded := here.loadConst parts.left.left (holds valid.1)
  refine here.silently (.bind (item valid.2.1 parts.middle loaded) fun v n e' first => ?_)
  refine .bind (rest valid.2.2 parts.last first) fun values n e' others => ?_
  exact .pure (at_entry others.1 others.2)

theorem PairsRealized.nil : PairsRealized a s ctx slots regions [] := by
  intro _ _ _ _ _ _ _ placed here
  exact .pure ⟨placed.length ▸ here, rfl⟩

theorem PairsRealized.cons {others : List (Expr × Expr)} (key : x.Realized a s ctx slots regions)
    (value : y.Realized a s ctx slots regions)
    (rest : PairsRealized a s ctx slots regions others) :
    PairsRealized a s ctx slots regions ((x, y) :: others) := by
  intro valid _ _ _ _ _ _ placed here
  refine .bind (key valid.1 placed.left.left here) fun k n e' first => ?_
  refine .bind (value valid.2.1 placed.left.right first) fun v n e' second => ?_
  refine .bind (rest valid.2.2 placed.right second) fun values n e' others => ?_
  exact .pure (at_entry others.1 others.2)

/-! ### All of them -/

mutual

/-- Code does what the evaluator does, for every expression. The induction is on the expression,
with one lemma for each constructor. -/
theorem Expr.realizes (holds : a.Holds ctx s) : (x : Expr) → x.Realized a s ctx slots regions
  | .null _ => .null
  | .bool _ value => .bool value
  | .int .. => .int holds
  | .float .. => .float holds
  | .str .. => .str holds
  | .name .. => .name holds
  | .self _ => .self
  | .attr _ target _ => .attr holds (target.realizes holds)
  | .index _ target item => .index (target.realizes holds) (item.realizes holds)
  | .call _ callee args [] =>
      .plainCall (realizes_exprs holds args) .nil (callee.realizes holds)
  | .call _ callee args (keyword :: keywords) =>
      .packedCall (realizes_exprs holds args) (realizes_keywords holds (keyword :: keywords))
        (callee.realizes holds)
  | .superCall _ args _ => .superCall holds (realizes_exprs holds args)
  | .binary _ _ left right => .binary (left.realizes holds) (right.realizes holds)
  | .unary _ _ operand => .unary (operand.realizes holds)
  | .assign _ target value => .assign (target.realizes holds) (value.realizes holds)
  | .update _ _ old value target =>
      .update (old.realizes holds) (value.realizes holds) (target.realizes holds)
  | .list _ items => .list (realizes_exprs holds items)
  | .tuple _ items => .tuple (realizes_exprs holds items)
  | .hash _ pairs => .hash (realizes_pairs holds pairs)
  | .lambda _ _ _ _ closes => .lambda holds closes
  | .isType _ value type => .isType (value.realizes holds) (type.realizes holds)
  | .asType _ value type => .asType (value.realizes holds) (type.realizes holds)
  | .coalesce _ left right => .coalesce (left.realizes holds) (right.realizes holds)
  | .ternary _ condition thenValue elseValue =>
      .ternary (condition.realizes holds) (thenValue.realizes holds) (elseValue.realizes holds)

/-- Code sets a target as the evaluator does. -/
theorem Target.realizes (holds : a.Holds ctx s) : (t : Target) → t.Realized a s ctx slots regions
  | .name .. => .name holds
  | .attr _ object _ => .attr holds (object.realizes holds)
  | .index _ object item => .index (object.realizes holds) (item.realizes holds)
  | .other _ => fun valid => valid.elim

theorem realizes_exprs (holds : a.Holds ctx s) : (items : List Expr) →
    ExprsRealized a s ctx slots regions items
  | [] => .nil
  | item :: rest => .cons (item.realizes holds) (realizes_exprs holds rest)

theorem realizes_keywords (holds : a.Holds ctx s) : (items : List (NameConst × Expr)) →
    KeywordsRealized a s ctx slots regions items
  | [] => .nil
  | (_, item) :: rest => .cons holds (item.realizes holds) (realizes_keywords holds rest)

theorem realizes_pairs (holds : a.Holds ctx s) : (items : List (Expr × Expr)) →
    PairsRealized a s ctx slots regions items
  | [] => .nil
  | (key, value) :: rest =>
      .cons (key.realizes holds) (value.realizes holds) (realizes_pairs holds rest)

end

end Linked

end ScriptMachine
