import ScriptMachine.Proofs.Code.Certificate
import ScriptMachine.Proofs.Meaning.Statements

/-!
The code of whole methods does what evaluating their bodies does: constructors of bases, then
statements, or field values. Whatever happens on the way, the activation ends with the value on
top at the end of its code, or an exception leaves it.
-/

namespace ScriptMachine

open Eval (Completion)
open Linked (Context)
open Activation (Carries)

variable {a : Activation} {s : Setting} {ctx : Context} {slots : Nat}

/-- Code that ends with one more instruction stands in the body of the method that it makes up. -/
theorem Activation.Placed.whole {code : Fragment} {slot : Slot}
    (body : a.body = (code ++ [slot]).body) :
    a.Placed {} 0 code code.length where
  slots k slot found := by
    rw [body, Nat.zero_add, Fragment.getElem?_body,
      List.getElem?_append_left (List.getElem?_eq_some_iff.1 found).1, found]
    cases slot <;> rfl
  length := Nat.zero_add _
  more := by
    rw [body, Fragment.body, List.size_toArray, List.length_map, List.length_append]
    exact Nat.lt_succ_self _

namespace Linked

variable {regions : List Protection} {exits : Exits} {finish : Nat} {stack : List Value}

/-- Running the constructors of the bases. -/
theorem realizes_bases (holds : a.Holds ctx s) {loc : Location} : (bases : List BasePath) →
    (∀ path ∈ bases, path.Valid ctx.pool) → ∀ {start : Nat} {m e : Machine},
    a.Placed exits start (callBases loc bases) finish → a.At regions start stack m e →
    a.Realizes regions s.fuel m ((runBases s loc bases).result e) fun _ n e =>
      a.At regions finish stack n e
  | [], _, _, _, _, placed, here => .pure (placed.length ▸ here)
  | base :: rest, valid, start, _, _, placed, here => by
      obtain ⟨first, others⟩ := List.forall_mem_cons.1 valid
      have parts : a.Placed exits start
          (loadBase loc base ++ [.of loc .invokeSuper] ++ callBases loc rest) finish := placed
      refine .bind (realizes_base holds first parts.left.left here) fun v n e found => ?_
      refine .bind ((Carries.invokeSuper v rfl).effect rfl parts.left.right found here.low)
        fun _ n e ran => ?_
      exact realizes_bases holds rest others parts.right ran

/-- Setting the fields of a class. -/
theorem realizes_fields (holds : a.Holds ctx s) : (items : List Field) →
    (∀ field ∈ items, field.Valid ctx true slots) → ∀ {start : Nat} {m e : Machine},
    a.Placed exits start (codeFields start items) finish → a.At regions start stack m e →
    a.Realizes regions s.fuel m ((evalFields s items).result e) fun _ n e =>
      a.At regions finish stack n e
  | [], _, _, _, _, placed, here => .pure (placed.length ▸ here)
  | field :: rest, valid, _, _, _, placed, here => by
      obtain ⟨first, others⟩ := List.forall_mem_cons.1 valid
      have set := placed.left.right
      refine .bind (field.value.realizes holds first.1 placed.left.left here) fun v n e one => ?_
      refine .bind (Carries.readSelf.value rfl set.head one one.low) fun object n e two => ?_
      refine .bind
        ((Carries.writeAttribute (holds first.2) object v).effect rfl set.tail two here.low)
        fun _ n e done => ?_
      exact realizes_fields holds rest others placed.right done

/-- The types that handlers in a body test for are bare names. -/
def Body.TypesAreNames : Body → Prop
  | .statements _ body => AllTypesAreNames (sourceStmts body)
  | .fields _ => True

/-- What is left of a body when its statements are over: it gives null. -/
theorem realizes_end {code : Fragment} {loc : Location} {m e : Machine}
    (body : a.body = (code ++ [Slot.of loc .loadNull]).body)
    (here : a.At [] code.length stack m e) :
    a.Realizes [] s.fuel m ((pure Value.null : Eval Value).result e) fun v n e =>
      ∃ operands, a.At [] a.body.size (v :: operands) n e := by
  have found : a.body[code.length]? = some ⟨.loadNull, 0, loc⟩ := by
    rw [body, Fragment.getElem?_body, List.getElem?_concat_length]
    rfl
  have size : a.body.size = code.length + 1 := by
    rw [body, Fragment.body, List.size_toArray, List.length_map, List.length_append]
    rfl
  rw [size]
  exact .leads (here.leads ⟨stack, here.loads found (Action.execute_loadNull rfl)⟩)

theorem Body.realizes (holds : a.Holds ctx s) {body : Body} {loc : Location} {m e : Machine}
    (valid : body.Valid ctx true slots) (names : body.TypesAreNames)
    (code : a.body = (body.code loc).body) (here : a.At [] 0 [] m e) :
    a.Realizes [] s.fuel m ((body.eval s loc).result e) fun v n e =>
      ∃ operands, a.At [] a.body.size (v :: operands) n e := by
  cases body with
  | statements bases body =>
      have placed := Activation.Placed.whole code
      have nest : Nest.Around {} none [] := ⟨rfl, rfl, nofun⟩
      have chained := Nat.zero_add (callBases loc bases).length
      refine .bind (realizes_bases holds bases valid.1 (placed.left.upTo chained) here)
        fun _ n e ready => ?_
      refine .bind (realizes_stmts holds body valid.2 names nest (placed.right.cast chained) ready)
        fun completion n e ends => ?_
      cases completion with
      | normal => exact realizes_end code ends
      | broke =>
          obtain ⟨around, none, _⟩ := ends
          cases none
      | continued =>
          obtain ⟨around, none, _⟩ := ends
          cases none
      | returned v => exact .pure ends
  | fields items =>
      have placed := Activation.Placed.whole code
      refine .bind (realizes_fields holds items valid placed here) fun _ n e done => ?_
      exact realizes_end code done

end Linked
end ScriptMachine
