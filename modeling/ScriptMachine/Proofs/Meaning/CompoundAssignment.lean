import ScriptMachine.Code.Generation
import ScriptMachine.Proofs.Host.Environments
import ScriptMachine.Proofs.Host.Imports
import ScriptMachine.Proofs.Machine.Indifference
import ScriptMachine.Proofs.Meaning.Evaluation

/-!
Compound assignment. For every operator but the two that short-circuit, `t op= v` is the assignment
`t = t op v`. Both passes do the same for it if a name that is assigned is visible already, the code
is the same but for positions, and so is every run of it. The operators that short-circuit do so
only where they stand between two operands. In an assignment the right operand is always evaluated.
-/

namespace ScriptMachine

/-- The operator always evaluates its right operand. -/
def BinaryOp.isStrict : BinaryOp → Bool
  | .boolAnd | .boolOr => false
  | _ => true

variable {op : BinaryOp} {t v : Expr} {loc loc' middle : Location}

/-! ## The two passes -/

namespace Resolver

/-- If the target of an assignment is a name then this is visible. -/
def Sees (r : Resolver) (t : Expr) : Prop :=
  ∀ loc ident, t = .name loc ident → r.scopes.isDefined ident = true

variable {inFunction : Bool} {r : Resolver}

/-- To the first pass a target is an expression like any other if there is nothing to declare. -/
theorem target_of_sees (assignable : t.isAssignable = true) (sees : r.Sees t) :
    (target inFunction t).run r = (expr inFunction t).run r := by
  cases t with
  | name loc ident =>
      have visible := sees loc ident rfl
      simp [target, expr, declareIfNew, visible]
  | attr loc object ident => rw [target, expr]
  | index loc object index => rw [target, expr]
  | _ => cases assignable

theorem expr_compound (assignable : t.isAssignable = true) (sees : r.Sees t) :
    (expr inFunction (.assign loc t (some op) v)).run r
      = (expr inFunction (.assign loc' t none (.binary middle op t v))).run r := by
  have first : (target inFunction t).run r = (expr inFunction t).run r :=
    target_of_sees assignable sees
  rw [expr, expr, expr]
  simp [first]

end Resolver

theorem Generator.expr_compound (place : Place) (g : Generator) : ∃ old value target g',
    (expr place (.assign loc t (some op) v)).run g = (.update loc op old value target, g') ∧
      (expr place (.assign loc' t none (.binary middle op t v))).run g
        = (.assign loc' target (.binary middle op old value), g') := by
  rw [expr, expr, expr]
  exact ⟨_, _, _, _, rfl, rfl⟩

/-! ## Code -/

def Slot.unplaced : Slot → Slot
  | .fixed i => .fixed i.unplaced
  | .leaveLoop _ => .leaveLoop {}
  | .nextRound _ => .nextRound {}

def Fragment.unplaced (code : Fragment) : Fragment :=
  code.map Slot.unplaced

namespace Linked

variable {old value : Expr} {target : Target}

/-- The expressions have the same code but for positions. -/
def Expr.Resembles (e e' : Expr) : Prop :=
  ∀ start, Fragment.unplaced (e.code start) = Fragment.unplaced (e'.code start)

/-- Code that assigns to a target what an operation at a position gives. -/
def codeOperation (loc : Location) (op : BinaryOp) (old value : Expr) (target : Target)
    (start : Nat) : Fragment :=
  let first := old.code start
  let front := first ++ value.code (start + first.length) ++ [.of loc .binOp op.tag, .of loc .dup]
  front ++ target.store loc (start + front.length)

theorem code_update (start : Nat) : (Expr.update loc op old value target).code start
    = codeOperation value.stamp op old value target start := by
  rw [Expr.code]
  rfl

theorem code_binary (strict : op.isStrict = true) (start : Nat) :
    (Expr.binary loc op old value).code start
      = old.code start ++ value.code (start + (old.code start).length)
        ++ [.of loc .binOp op.tag] := by
  cases op <;> first | rfl | cases strict

theorem stamp_binary (strict : op.isStrict = true) :
    (Expr.binary loc op old value).stamp = loc := by
  cases op <;> first | rfl | cases strict

theorem code_assign_binary (strict : op.isStrict = true) (start : Nat) :
    (Expr.assign loc target (.binary middle op old value)).code start
      = codeOperation middle op old value target start := by
  rw [Expr.code, code_binary strict, stamp_binary strict]
  simp [codeOperation]

theorem unplaced_store (before before' : Location) (start : Nat) (target : Target) :
    Fragment.unplaced (target.store before start)
      = Fragment.unplaced (target.store before' start) := by
  cases target with
  | name loc ident ref => cases ref <;> rfl
  | attr | index | other => rfl

/-- Where the operation stands makes no difference but for positions. -/
theorem unplaced_codeOperation (start : Nat) :
    Fragment.unplaced (codeOperation loc op old value target start)
      = Fragment.unplaced (codeOperation loc' op old value target start) := by
  unfold codeOperation
  extract_lets first front front'
  have length : front.length = front'.length := by simp [front, front']
  have same : Fragment.unplaced front = Fragment.unplaced front' := by
    simp only [front, front', Fragment.unplaced, List.map_append]
    rfl
  have stored := unplaced_store loc loc' (start + front'.length) target
  rw [length]
  simp only [Fragment.unplaced, List.map_append] at same stored ⊢
  rw [same, stored]

/-! ## Meaning -/

theorem eval_binary (strict : op.isStrict = true) (s : Setting) :
    (Expr.binary loc op old value).eval s = (do
      let first ← old.eval s
      let second ← value.eval s
      s.value loc (Action.binary op first second)) := by
  cases op <;> first | rfl | cases strict

/-- The assignment means what the assignment of the operation means. They are told apart by a
position in traces only, and not even by that if the operator stands where its right operand
ends. -/
theorem eval_update (strict : op.isStrict = true) (s : Setting) :
    (Expr.update loc op old value target).eval s
      = (Expr.assign loc' target (.binary value.stamp op old value)).eval s := by
  conv_lhs => rw [Expr.eval]
  conv_rhs => rw [Expr.eval, stamp_binary strict, eval_binary strict]
  simp only [bind_assoc]

end Linked

/-! ## Exchange of code -/

namespace Linked

variable {e e' : Expr}

/-- Code that differs in positions and in that the one expression stands for the other. -/
inductive Expr.Exchanged (e e' : Expr) : Fragment → Fragment → Prop
  | alike {code code' : Fragment} (same : code.unplaced = code'.unplaced) :
      Exchanged e e' code code'
  | exchange (start : Nat) : Exchanged e e' (e.code start) (e'.code start)
  | append {before before' after after' : Fragment} (first : Exchanged e e' before before')
      (second : Exchanged e e' after after') : Exchanged e e' (before ++ after) (before' ++ after')

theorem Expr.Exchanged.unplaced {code code' : Fragment} (resembles : e.Resembles e')
    (exchanged : e.Exchanged e' code code') : code.unplaced = code'.unplaced := by
  induction exchanged with
  | alike same => exact same
  | exchange start => exact resembles start
  | append first second ih ih' =>
      simp only [Fragment.unplaced, List.map_append] at ih ih' ⊢
      rw [ih, ih']

/-- The methods differ in their code only, and there as they may. -/
def Expr.Exchanges (e e' : Expr) (method method' : Method) : Prop :=
  ∃ code code' : Fragment, e.Exchanged e' code code' ∧ method.body = code.body ∧
    method' = { method with body := code'.body }

end Linked

theorem Fragment.unplaced_body (code : Fragment) :
    code.body.map Instruction.unplaced = Fragment.body code.unplaced := by
  have each (slot : Slot) : slot.instruction.unplaced = slot.unplaced.instruction := by
    cases slot <;> rfl
  simp [body, unplaced, each]

theorem Linked.Expr.Exchanges.unplaced {e e' : Linked.Expr} {method method' : Method}
    (resembles : e.Resembles e') (exchanges : e.Exchanges e' method method') :
    method'.unplaced = method.unplaced := by
  obtain ⟨code, code', exchanged, body, rfl⟩ := exchanges
  rw [Method.unplaced, Method.unplaced, body, Fragment.unplaced_body, Fragment.unplaced_body,
    exchanged.unplaced resembles]

/-- A call of a host does the same without positions. -/
theorem HostCall.unplaced_after {m : Machine} (fine : m.Hosts Routine.Indifferent) (c : HostCall)
    (steps : Nat) : c.after m.unplaced steps = (c.after m steps).unplaced := by
  have start : c.machine m.unplaced = (c.machine m).unplaced := by cases c <;> rfl
  have told : c.action m.unplaced = c.action m := by cases c <;> rfl
  have ready : (c.machine m).Hosts Routine.Indifferent := by
    cases c with
    | module id | value callee args => exact ⟨fine.foreign, trivial, fine.frames⟩
  have careful : Careful .blindness (c.action m) :=
    c.careful m fun _ _ _ => ⟨trivial, fun _ _ => trivial⟩
  obtain ⟨same, after⟩ := careful.indifferent ready
  rw [HostCall.after, start, told, Machine.perform_unplaced same]
  exact (after.performed.run_unplaced steps).1

/-- A compound assignment is the assignment of the operation, if the operator does not
short-circuit. The first pass does the same for both where a name that is assigned is visible. The
second pass links the same parts in the same way. Both mean the same, and where code of methods has
the one in place of the other, runs are the same, the one that is under way as well as those that a
host starts. Only positions tell them apart. -/
theorem compound_assignment (strict : op.isStrict = true) (assignable : t.isAssignable = true) :
    (∀ (inFunction : Bool) (r : Resolver), r.Sees t →
      (Resolver.expr inFunction (.assign loc t (some op) v)).run r
        = (Resolver.expr inFunction (.assign loc' t none (.binary middle op t v))).run r) ∧
      ∀ (place : Place) (g : Generator), ∃ old value target g',
        (Generator.expr place (.assign loc t (some op) v)).run g
            = (.update loc op old value target, g') ∧
          (Generator.expr place (.assign loc' t none (.binary middle op t v))).run g
            = (.assign loc' target (.binary middle op old value), g') ∧
          (∀ s : Setting, (Linked.Expr.update loc op old value target).eval s
            = (Linked.Expr.assign loc' target (.binary value.stamp op old value)).eval s) ∧
          ∀ change : Method → Method,
            (∀ code, (Linked.Expr.update loc op old value target).Exchanges
              (.assign loc' target (.binary middle op old value)) code (change code)) →
            ∀ m : Machine, m.Hosts Routine.Indifferent → ∀ steps : Nat,
              ((m.recoded change).run steps).unplaced = (m.run steps).unplaced ∧
                ∀ c : HostCall, (c.after (m.recoded change) steps).unplaced
                  = (c.after m steps).unplaced := by
  refine ⟨fun inFunction r sees => Resolver.expr_compound assignable sees, fun place g => ?_⟩
  obtain ⟨old, value, target, g', compound, expanded⟩ := Generator.expr_compound place g
  refine ⟨old, value, target, g', compound, expanded, fun s => Linked.eval_update strict s,
    fun change exchanges m fine steps => ?_⟩
  have resembles : (Linked.Expr.update loc op old value target).Resembles
      (.assign loc' target (.binary middle op old value)) := by
    intro start
    rw [Linked.code_update, Linked.code_assign_binary strict]
    exact Linked.unplaced_codeOperation start
  have same (code : Method) : (change code).unplaced = code.unplaced :=
    (exchanges code).unplaced resembles
  refine ⟨fine.run_recoded same steps, fun c => ?_⟩
  rw [← c.unplaced_after (fine.recoded change), ← c.unplaced_after fine,
    Machine.unplaced_recoded same]

/-- The second statement adds, by a compound assignment or by the assignment of a sum. -/
def adding (compound : Bool) : Expr :=
  if compound then .assign ⟨2, 3⟩ (.name ⟨2, 1⟩ "x") (some .add) (.int ⟨2, 6⟩ 2)
  else .assign ⟨2, 3⟩ (.name ⟨2, 1⟩ "x") none
    (.binary ⟨2, 4⟩ .add (.name ⟨2, 1⟩ "x") (.int ⟨2, 6⟩ 2))

/-- A function that adds two to one. -/
def addition (compound : Bool) : List Stmt :=
  [.function {} (.mk { name := "main" }
    [.expr {} (.assign {} (.name {} "x") none (.int {} 1)), .expr ⟨2, 1⟩ (adding compound),
      .ret {} (some (.name {} "x"))])]

/-- The code of the function. -/
def additionMethod (compound : Bool) : Method :=
  (compiledUnit (addition compound)).methods.getD 0 default

/-- The second pass in the middle of the function. -/
def additionGenerator : Generator where
  scopes := ((({} : ScopeTable).beginScope true).addSymbol "x").2
  constants := #[.int 1]

/-- The one function in place of the other. -/
def expandAddition (code : Method) : Method :=
  if code = additionMethod true then additionMethod false else code

theorem exchanges_expandAddition (code : Method) :
    let x : Linked.Expr := .name ⟨2, 1⟩ "x" (.slot 0)
    let target : Linked.Target := .name ⟨2, 1⟩ "x" (.slot 0)
    (Linked.Expr.update ⟨2, 3⟩ .add x (.int ⟨2, 6⟩ 2 1) target).Exchanges
      (.assign ⟨2, 3⟩ target (.binary ⟨2, 4⟩ .add x (.int ⟨2, 6⟩ 2 1))) code
      (expandAddition code) := by
  intro x target
  by_cases main : code = additionMethod true
  · rw [expandAddition, if_pos main, main]
    let front (compound : Bool) : Fragment :=
      ((additionMethod compound).body.toList.take 4).map .fixed
    let behind (compound : Bool) : Fragment :=
      ((additionMethod compound).body.toList.drop 9).map .fixed
    have start : (front true).unplaced = (front false).unplaced := by decide +kernel
    have rest : (behind true).unplaced = (behind false).unplaced := by decide +kernel
    exact ⟨_, _, .append (.append (.alike start) (.exchange 4)) (.alike rest),
      by decide +kernel, by decide +kernel⟩
  · rw [expandAddition, if_neg main]
    have body : code.body = Fragment.body (code.body.toList.map .fixed) := by
      simp [Fragment.body, Slot.instruction, Function.comp_def]
    exact ⟨_, _, .alike rfl, body, by rw [← body]⟩

/-- The machine adds in both ways, with the code of the one unit and with that of the other. -/
theorem compound_assignment_addition :
    (Resolver.expr true (adding true)).run { scopes := additionGenerator.scopes }
        = (Resolver.expr true (adding false)).run { scopes := additionGenerator.scopes } ∧
      (compiledUnit (addition true)).methods.map expandAddition
        = (compiledUnit (addition false)).methods ∧
      let m := (Engine.loaded (compiledUnit (addition true))).machine
      ((HostCall.value (.method 0) []).after m 14).control = .returned (.int 3) ∧
        ((HostCall.value (.method 0) []).after (m.recoded expandAddition) 14).control
          = .returned (.int 3) := by
  have sees : Resolver.Sees { scopes := additionGenerator.scopes } (.name ⟨2, 1⟩ "x") := by
    intro loc ident same
    cases same
    decide +kernel
  obtain ⟨resolves, links⟩ :=
    @compound_assignment .add (.name ⟨2, 1⟩ "x") (.int ⟨2, 6⟩ 2) ⟨2, 3⟩ ⟨2, 3⟩ ⟨2, 4⟩ rfl rfl
  obtain ⟨old, value, target, g, compound, _, _, runs⟩ :=
    links { inFunction := true } additionGenerator
  refine ⟨resolves true _ sees, by decide +kernel, ?_⟩
  intro m
  have fine : m.Hosts Routine.Indifferent :=
    ⟨fun _ _ _ => trivial, trivial, fun _ member => absurd member List.not_mem_nil⟩
  have linked : Linked.Expr.update ⟨2, 3⟩ .add (.name ⟨2, 1⟩ "x" (.slot 0)) (.int ⟨2, 6⟩ 2 1)
      (.name ⟨2, 1⟩ "x" (.slot 0)) = .update ⟨2, 3⟩ .add old value target :=
    congrArg Prod.fst compound
  cases linked
  have same := (runs expandAddition exchanges_expandAddition m fine 14).2 (.value (.method 0) [])
  have three : ((HostCall.value (.method 0) []).after m 14).control = .returned (.int 3) :=
    Control.eq_of_int? (by decide +kernel)
  refine ⟨three, ?_⟩
  rw [← Machine.control_unplaced, same, Machine.control_unplaced, three]

/-- The second statement of the function is skipped, or would be: with 0 the operator does not need
its right operand, which is a name without a value. -/
def skipping (compound : Bool) : List Stmt :=
  [.function {} (.mk { name := "main" }
    [.expr {} (.assign {} (.name {} "x") none (.int {} 0)),
      .expr {} (if compound then .assign {} (.name {} "x") (some .boolAnd) (.name {} "missing")
        else .assign {} (.name {} "x") none
          (.binary {} .boolAnd (.name {} "x") (.name {} "missing"))),
      .ret {} (some (.name {} "x"))])]

/-- The assignment of the operation does not evaluate the right operand, and the function returns 0.
The compound assignment does, and ends the run with an exception. -/
theorem skipping_differs :
    let m (compound : Bool) := (HostCall.value (.method 0) []).after
      (Engine.loaded (compiledUnit (skipping compound))).machine
    (m false 20).control = .returned (.int 0) ∧ (m true 20).control = .uncaught 0 ∧
      ((m true 20).heap.exception 0).type = .nameError := by
  intro m
  have zero : (m false 20).control.int? = some 0 := by decide +kernel
  have ends : (m true 20).control.uncaught? = some 0 := by decide +kernel
  exact ⟨Control.eq_of_int? zero, Control.eq_of_uncaught? ends, by decide +kernel⟩

end ScriptMachine
