import ScriptMachine.Proofs.Meaning.Expressions

/-!
How statements complete, and loops. A statement that completes normally is left behind with the
operands and regions it found; `break` and `continue` arrive where the loop around them says, with
the regions closed that were opened inside it; `return` arrives at the end of the code with its
value on top. A loop is followed round by round. In each round the machine takes at least one step
of which the evaluator knows nothing, so that a loop that exhausts its rounds exhausts as many
steps.
-/

namespace ScriptMachine

open Eval (Completion truth loop)
open Linked (Context)
open Activation (Carries)

variable {a : Activation} {s : Setting} {ctx : Context} {regions : List Protection}
  {outer : Option (List Protection)} {exits exits' : Exits} {stack stack' : List Value}
  {slots start finish : Nat} {m e : Machine}

namespace Activation

/-- Where the activation is when a statement has completed. `outer` are the regions around the
loop that it stands in, if there is one. -/
def Ends (a : Activation) (regions : List Protection) (outer : Option (List Protection))
    (exits : Exits) (finish : Nat) (stack : List Value) : Completion → Machine → Machine → Prop
  | .normal => a.At regions finish stack
  | .broke => fun m e => ∃ around ∈ outer, a.At around exits.loopEnd stack m e
  | .continued => fun m e => ∃ around ∈ outer, a.At around exits.roundStart stack m e
  | .returned v => fun m e => ∃ operands, a.At [] a.body.size (v :: operands) m e

namespace Ends

variable {completion : Completion} {bodyEnd roundStart loopEnd : Nat}

/-- The machine goes on behind a statement that completed normally. -/
theorem onward {inner : List Protection}
    (ends : a.Ends inner outer exits bodyEnd stack completion m e)
    (next : a.At inner bodyEnd stack m e → a.Leads m fun n => a.At regions finish stack n e) :
    a.Leads m fun n => a.Ends regions outer exits finish stack completion n e := by
  cases completion with
  | normal => exact next ends
  | broke => exact .now ends
  | continued => exact .now ends
  | returned v => exact .now ends

/-- A loop completes normally or returns, and so the machine leaves it. -/
theorem behind (ends : a.Ends regions none exits loopEnd stack completion m e)
    (next : a.At regions loopEnd stack m e → a.Leads m fun n => a.At regions finish stack' n e) :
    a.Leads m fun n => a.Ends regions outer exits' finish stack' completion n e := by
  cases completion with
  | normal => exact next ends
  | broke =>
      obtain ⟨around, none, _⟩ := ends
      cases none
  | continued =>
      obtain ⟨around, none, _⟩ := ends
      cases none
  | returned v => exact .now ends

/-- After the body of a loop the machine has left the loop, or gets to where the next round is
prepared. -/
theorem round
    (ends : a.Ends regions (some regions) ⟨roundStart, loopEnd⟩ bodyEnd stack completion m e)
    (next : a.At regions bodyEnd stack m e → a.Leads m fun n => a.At regions roundStart stack n e) :
    a.Leads m fun n => match completion.leaves with
      | some left => a.Ends regions none exits loopEnd stack left n e
      | none => a.At regions roundStart stack n e := by
  cases completion with
  | normal => exact next ends
  | broke =>
      obtain ⟨around, ⟨⟩, there⟩ := ends
      exact .now there
  | continued =>
      obtain ⟨around, ⟨⟩, there⟩ := ends
      exact .now there
  | returned v => exact .now ends

end Ends

/-- A value is returned from inside regions, which are closed first. -/
theorem At.returns {ip arg count : Nat} {v : Value} {loc loc' : Location}
    (here : a.At regions ip (v :: stack) m e) (all : count = regions.length)
    (placed : a.Placed exits ip (List.replicate count (.of loc .popExceptionHandler)) finish)
    (found : a.body[finish]? = some ⟨.ret, arg, loc'⟩) :
    a.Leads m fun n => a.Ends regions outer exits' start stack' (.returned v) n e := by
  subst all
  rw [← List.append_nil regions] at here
  exact (here.closings regions placed).trans fun n there => there.leads ⟨stack, there.ret found⟩

/-! ## Loops -/

/-- A round of a loop that has begun. -/
theorem realizes_round {fuel count : Nat} {enter again : Eval Bool} {body : Eval Completion}
    {Q : Completion → Machine → Machine → Prop} {Next : Machine → Machine → Prop}
    (first : a.Realizes regions fuel m (body.result e) fun completion n e =>
      match completion.leaves with
      | some left => Q left n e
      | none => Next n e)
    (next : ∀ n e, Next n e → a.Realizes regions fuel n
      ((again >>= fun more => if more then loop enter body again count else pure .normal).result e)
      Q) :
    a.Realizes regions fuel m ((body >>= fun completion =>
      match completion.leaves with
      | some left => pure left
      | none => again >>= fun more =>
          if more then loop enter body again count else pure .normal).result e) Q := by
  refine .bind first fun completion n e after => ?_
  cases leaves : completion.leaves with
  | none =>
      rw [leaves] at after
      exact next n e after
  | some left =>
      rw [leaves] at after
      exact .pure after

theorem At.exhausted {α : Type} {Q : α → Machine → Machine → Prop} {ip : Nat}
    (here : a.At regions ip stack m e) :
    a.Realizes regions 0 m ((Eval.exhausted : Eval α).result e) Q :=
  realizes_none.2 fun k few => by
    rw [Nat.le_zero.1 few]
    exact here.depth_lt

end Activation

namespace Linked

variable {body : Eval Completion} {loc : Location} {bodyStart bodyEnd loopEnd : Nat}

theorem realizes_while (holds : a.Holds ctx s) {condition : Expr}
    (valid : condition.Valid ctx true slots)
    (test : a.Placed exits start
      (condition.code start ++ [.of condition.stamp .jumpIfFalse loopEnd]) bodyStart)
    (runs : ∀ {m e}, a.At regions bodyStart stack m e → a.Realizes regions s.fuel m (body.result e)
      (a.Ends regions (some regions) ⟨start, loopEnd⟩ bodyEnd stack))
    (back : a.Placed exits bodyEnd [.of loc .jump start] loopEnd) {count : Nat}
    (few : count ≤ s.fuel) (here : a.At regions start stack m e) :
    a.Realizes regions count m
      ((loop (do truth (← condition.eval s)) body (pure true) count).result e)
      (a.Ends regions none exits loopEnd stack) := by
  induction count generalizing m e with
  | zero => exact here.exhausted
  | succ count ih =>
      rw [loop, bind_assoc]
      refine .bind (.mono few (condition.realizes holds valid test.left here)) fun v n e first => ?_
      have tested := first.jumpIfFalse test.right here.low
      refine first.realizes_step (.ask ?_)
      by_cases true_ : e.heap.truthy v = true
      · rw [if_pos true_] at tested ⊢
        have rounds := Nat.le_of_succ_le few
        refine Activation.realizes_round ?_ fun n e next => ih rounds next
        refine .onward (.mono rounds (runs tested)) fun completion n e ends => ?_
        exact ends.round fun there => there.leads (there.jump back.instruction)
      · rw [if_neg true_] at tested ⊢
        exact .pure tested

theorem realizes_doWhile (holds : a.Holds ctx s) {condition : Expr} {testStart : Nat}
    (valid : condition.Valid ctx true slots)
    (runs : ∀ {m e}, a.At regions start stack m e → a.Realizes regions s.fuel m (body.result e)
      (a.Ends regions (some regions) ⟨testStart, loopEnd⟩ testStart stack))
    (test : a.Placed exits testStart
      (condition.code testStart ++ [.of condition.stamp .jumpIfTrue start]) loopEnd) {count : Nat}
    (few : count ≤ s.fuel) (here : a.At regions start stack m e) :
    a.Realizes regions count m
      ((loop (pure true) body (do truth (← condition.eval s)) count).result e)
      (a.Ends regions none exits loopEnd stack) := by
  induction count generalizing m e with
  | zero => exact here.exhausted
  | succ count ih =>
      rw [loop, pure_bind, if_pos rfl]
      refine Activation.realizes_round (.onward (.mono few (runs here)) fun completion n e ends =>
        ends.round fun there => .now there) fun n e next => ?_
      rw [bind_assoc]
      refine .bind (.mono few (condition.realizes holds valid test.left next)) fun v n e first => ?_
      have tested := first.jumpIfTrue test.right next.low
      refine first.realizes_step (.ask ?_)
      by_cases true_ : e.heap.truthy v = true
      · rw [if_pos true_] at tested ⊢
        exact ih (Nat.le_of_succ_le few) tested
      · rw [if_neg true_] at tested ⊢
        exact .pure tested

/-- The test of a loop, if it has one. -/
theorem realizes_test (holds : a.Holds ctx s) {condition : Option Expr}
    (valid : ∀ x ∈ condition, x.Valid ctx true slots)
    (placed : a.Placed exits start (loopTest start loopEnd condition) finish)
    (here : a.At regions start stack m e) :
    a.Realizes regions s.fuel m ((evalTest s condition).result e) fun more n e =>
      a.At regions (if more then finish else loopEnd) stack n e := by
  cases condition with
  | none => exact .pure (placed.length ▸ here)
  | some x =>
      refine .bind (x.realizes holds (valid x rfl) placed.left here) fun v n e first => ?_
      exact first.silently (.pure (first.jumpIfFalse placed.right here.low))

/-- An expression whose value is dropped. -/
theorem Expr.realizes_dropped (holds : a.Holds ctx s) {x : Expr} (valid : x.Valid ctx true slots)
    (placed : a.Placed exits start (x.code start ++ [.of loc .pop]) finish)
    (here : a.At regions start stack m e) :
    a.Realizes regions s.fuel m ((discard (x.eval s)).result e) fun _ n e =>
      a.At regions finish stack n e := by
  refine .bind (x.realizes holds valid placed.left here) fun v n e first => ?_
  exact first.silently (.pure (first.pop placed.right here.low))

/-- What is evaluated between two rounds, if there is something. -/
theorem realizes_advance (holds : a.Holds ctx s) {step : Option Expr}
    (valid : ∀ x ∈ step, x.Valid ctx true slots)
    (placed : a.Placed exits start (evaluate start step) finish)
    (here : a.At regions start stack m e) :
    a.Realizes regions s.fuel m ((evalStep s step).result e) fun more n e =>
      more = true ∧ a.At regions finish stack n e := by
  cases step with
  | none => exact .pure ⟨rfl, placed.length ▸ here⟩
  | some x =>
      refine .bind (x.realizes_dropped holds (valid x rfl) placed here) fun _ n e there => ?_
      exact .pure ⟨rfl, there⟩

theorem realizes_for (holds : a.Holds ctx s) {condition step : Option Expr}
    {stepStart stepEnd : Nat}
    (validTest : ∀ x ∈ condition, x.Valid ctx true slots)
    (validStep : ∀ x ∈ step, x.Valid ctx true slots)
    (test : a.Placed exits start (loopTest start loopEnd condition) bodyStart)
    (runs : ∀ {m e}, a.At regions bodyStart stack m e → a.Realizes regions s.fuel m (body.result e)
      (a.Ends regions (some regions) ⟨stepStart, loopEnd⟩ stepStart stack))
    (advance : a.Placed exits stepStart (evaluate stepStart step) stepEnd)
    (back : a.Placed exits stepEnd [.of loc .jump start] loopEnd) {count : Nat}
    (few : count ≤ s.fuel) (here : a.At regions start stack m e) :
    a.Realizes regions count m
      ((loop (evalTest s condition) body (evalStep s step) count).result e)
      (a.Ends regions none exits loopEnd stack) := by
  induction count generalizing m e with
  | zero => exact here.exhausted
  | succ count ih =>
      rw [loop]
      refine .bind (.mono few (realizes_test holds validTest test here)) fun enters n e tested => ?_
      cases enters with
      | false => exact .pure tested
      | true =>
          refine Activation.realizes_round (.onward (.mono few (runs tested))
            fun completion n e ends => ends.round fun there => .now there) fun n e next => ?_
          refine .bind (.mono few (realizes_advance holds validStep advance next))
            fun more n e stepped => ?_
          obtain ⟨rfl, there⟩ := stepped
          exact there.realizes_step (ih (Nat.le_of_succ_le few) (there.jump back.instruction))

/-- Moving an iterator on whose copy is on top. -/
theorem realizes_nextItem (holds : a.Holds ctx s) {item : String} {ref : Ref} {it : Value}
    (valid : ref.Valid ctx.pool slots item)
    (placed : a.Placed exits start [.of loc .iterMoveNext, .of loc .jumpIfFalse loopEnd,
      .of loc .dup, .of loc .iterGetNext, ref.store loc] finish)
    (here : a.At regions start (it :: it :: stack) m e)
    (low : ∀ p ∈ regions, p.floor <:+ it :: stack) :
    a.Realizes regions s.fuel m ((nextItem s loc item ref it).result e) fun more n e =>
      a.At regions (if more then finish else loopEnd) (it :: stack) n e := by
  have rest := placed.tail.tail
  refine .bind ((Carries.moveIter it).value rfl placed.head here low) fun v n e moved => ?_
  have tested := moved.jumpIfFalse placed.tail.head low
  refine moved.silently (.ask ?_)
  by_cases true_ : e.heap.truthy v = true
  · rw [if_pos true_] at tested ⊢
    have copied := tested.dup rest.head
    refine tested.silently (.bind ((Carries.iterItem it).value rfl rest.tail.head copied low)
      fun v n e got => ?_)
    refine .bind (Ref.realizes_assign holds valid rest.tail.tail got low) fun _ n e bound => ?_
    exact .pure bound
  · rw [if_neg true_] at tested ⊢
    exact .pure tested

theorem realizes_foreach (holds : a.Holds ctx s) {item : String} {ref : Ref} {it : Value}
    {loc' : Location} (valid : ref.Valid ctx.pool slots item)
    (head : a.Placed exits start [.of loc .dup, .of loc .iterMoveNext, .of loc .jumpIfFalse loopEnd,
      .of loc .dup, .of loc .iterGetNext, ref.store loc] bodyStart)
    (runs : ∀ {m e}, a.At regions bodyStart (it :: stack) m e →
      a.Realizes regions s.fuel m (body.result e)
        (a.Ends regions (some regions) ⟨start, loopEnd⟩ bodyEnd (it :: stack)))
    (back : a.Placed exits bodyEnd [.of loc' .jump start] loopEnd) {count : Nat}
    (few : count ≤ s.fuel) (here : a.At regions start (it :: stack) m e) :
    a.Realizes regions count m
      ((loop (nextItem s loc item ref it) body (pure true) count).result e)
      (a.Ends regions none exits loopEnd (it :: stack)) := by
  induction count generalizing m e with
  | zero => exact here.exhausted
  | succ count ih =>
      have rounds := Nat.le_of_succ_le few
      have next := realizes_nextItem holds valid head.tail (here.dup head.head) here.low
      refine here.realizes_step (.bind (.mono rounds next) fun more n e there => ?_)
      cases more with
      | false => exact .pure there
      | true =>
          refine Activation.realizes_round ?_ fun n e next => ih rounds next
          refine .onward (.mono rounds (runs there)) fun completion n e ends => ?_
          exact ends.round fun there => there.leads (there.jump back.instruction)

end Linked
end ScriptMachine
