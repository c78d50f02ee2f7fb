import ScriptMachine.Proofs.Code.Origins
import ScriptMachine.Proofs.Meaning.Loops

/-!
Exception handlers. The evaluator hands a handler the exception it has caught; code asks the
machine for the exception that was caught last, each time it is needed. The two are the same as
long as nothing that is done in between catches another one, which holds of types that are bare
names.
-/

namespace ScriptMachine

open ScriptMachine.Action
open Eval (Completion truth)
open Linked (Context)
open Activation (Carries)

variable {a : Activation} {s : Setting} {ctx : Context} {regions : List Protection}
  {exits : Exits} {stack : List Value} {slots start finish : Nat} {m e : Machine}

/-! ## Catching -/

namespace Eval

variable {α : Type}

/-- What is raised in the first part is given to the handler. -/
theorem result_tryCatch (x : Eval α) (handle : ExceptionId → Eval α) (e : Machine) :
    (tryCatch x handle).result e = (x.result e).bind fun
      | (.ok v, e) => some (.ok v, e)
      | (.error id, e) => (handle id).result e := by
  change Option.bind _ _ = _
  congr 1
  funext r
  rcases r with ⟨_ | _, _⟩ <;> rfl

end Eval

namespace Activation

/-- A region is open around the first part, and the handler runs with the region gone. -/
theorem realizes_tryCatch {α : Type} {fuel : Nat} {p : Protection} {x : Eval α}
    {handle : ExceptionId → Eval α} {Q R : α → Machine → Machine → Prop}
    (first : a.Realizes (p :: regions) fuel m (x.result e) Q)
    (onward : ∀ v n e, Q v n e → a.Leads n fun n => R v n e)
    (caught : ∀ id n e, a.Throws (p :: regions) id n e →
      a.Realizes regions fuel n ((handle id).result e) R) :
    a.Realizes regions fuel m ((tryCatch x handle).result e) R := by
  rw [Eval.result_tryCatch]
  rcases found : x.result e with _ | ⟨id | v, e'⟩ <;> rw [found] at first
  · exact first
  · have rest (n : Machine) (throws : a.Throws (p :: regions) id n e') := caught id n e' throws
    change a.Realizes regions fuel m ((handle id).result e') R
    rcases found : (handle id).result e' with _ | ⟨id | w, e''⟩ <;> rw [found] at rest
    · exact (realizes_error.1 first).stays rest
    · exact realizes_error.2 ((realizes_error.1 first).trans rest)
    · exact realizes_ok.2 ((realizes_error.1 first).trans rest)
  · exact realizes_ok.2 ((realizes_ok.1 first).trans (onward v · e'))

/-- What is known of the evaluator's result holds as well. -/
theorem Realizes.also {α : Type} {fuel : Nat} {r : Option (Except ExceptionId α × Machine)}
    {Q : α → Machine → Machine → Prop} {P : α → Machine → Prop}
    (realizes : a.Realizes regions fuel m r Q)
    (known : ∀ v e, r = some (.ok v, e) → P v e) :
    a.Realizes regions fuel m r fun v n e => Q v n e ∧ P v e := by
  rcases r with _ | ⟨id | v, e⟩
  · exact realizes
  · exact realizes
  · exact realizes_ok.2 ((realizes_ok.1 realizes).trans fun n holds => .now ⟨holds, known v e rfl⟩)

end Activation

/-! ## Types by their names -/

/-- The exception that was caught last is the same, and so is all that can be seen of it. -/
structure Machine.Recalls (e e' : Machine) : Prop where
  heap : e'.heap = e.heap
  current : e'.current = e.current

theorem Machine.Recalls.refl (e : Machine) : e.Recalls e :=
  ⟨rfl, rfl⟩

/-- What is recalled twice is recalled. -/
theorem Machine.Recalls.trans {e e' e'' : Machine} (first : e.Recalls e')
    (second : e'.Recalls e'') :
    e.Recalls e'' :=
  ⟨second.heap.trans first.heap, second.current.trans first.current⟩

/-- The action changes nothing. -/
def Looks {α : Type} (x : Action α) : Prop :=
  ∀ m : Machine, (x.result m).2 = m

/-- The operation finds a value without changing anything, or raises at once. -/
def Peeks (act : Action Unit) : Prop :=
  ∀ m : Machine, (∃ v, act.result m = (push v).result m) ∨ ∃ r, act.result m = (.error r, m)

theorem Peeks.push (v : Value) : Peeks (push v) :=
  fun _ => .inl ⟨v, rfl⟩

/-- Looking first changes nothing of what is done next. -/
theorem Peeks.bind {α : Type} {x : Action α} {f : α → Action Unit} (looks : Looks x)
    (next : ∀ v, Peeks (f v)) : Peeks (x >>= f) := by
  intro m
  have same := looks m
  rw [result_bind]
  rcases done : x.result m with ⟨r | v, n⟩ <;> rw [done] at same <;> cases same
  · exact .inr ⟨r, rfl⟩
  · exact next v _

/-- Names are read without running anything. -/
theorem readLocal_peeks (slot : Nat) : Peeks (readLocal slot) := by
  refine .bind (fun _ => rfl) fun found => ?_
  cases found with
  | some v => exact .push v
  | none => exact fun _ => .inr ⟨_, rfl⟩

theorem readGlobal_peeks (name : String) : Peeks (readGlobal name) := by
  refine .bind (fun _ => rfl) fun module => .bind (fun m => ?_) .push
  unfold global
  rw [result_bind_ok (result_ask _ m)]
  split <;> rfl

/-- Testing a type runs nothing. -/
theorem testType_peeks (v type : Value) : Peeks (testType v type) := by
  refine .bind (fun m => ?_) fun holds => .push _
  unfold consult
  rw [result_bind_ok (result_askHeap _ m)]
  split <;> rfl

/-- A value that was only looked for leaves the exception that is handled. -/
theorem Peeks.recalls {act : Action Unit} (peeks : Peeks act) {loc : Location} {v : Value}
    {e' : Machine} (found : (s.value loc act).result e = some (.ok v, e')) : e.Recalls e' := by
  rw [Setting.value, Eval.result_bind] at found
  change Option.bind (Option.map _ (((e.standing loc).perform act).settle? e.calls.depth s.fuel)) _
    = _ at found
  rcases peeks (e.standing loc) with ⟨w, pushes⟩ | ⟨r, raises⟩
  · rw [result_push] at pushes
    have back :
        ((e.standing loc).withStack (w :: (e.standing loc).stack)).isBack e.calls.depth = true := by
      refine decide_eq_true (Nat.le_of_eq ?_)
      change ((e.calls.modifyTop _).modifyTop _).depth = _
      rw [CallStack.depth_eq, CallStack.depth_eq, CallStack.frames_modifyTop,
        CallStack.frames_modifyTop, List.length_modifyHead, List.length_modifyHead]
    rw [Machine.perform_of_ok pushes, Activation.settle?_of_isBack back] at found
    cases found
    exact ⟨rfl, rfl⟩
  · have raised :
        ((e.standing loc).perform act).control = .uncaught (r.resolve (e.standing loc)).1 := by
      rw [Machine.perform_of_error raises, Machine.raise_of_nil (r.keeps_resolve _).handlers]
    have back : ((e.standing loc).perform act).isBack e.calls.depth = true := by
      rw [Machine.isBack, raised]
    rw [Activation.settle?_of_isBack back, Option.map_some, Eval.outcome, raised] at found
    cases found

namespace Linked

/-- Evaluating a bare name catches nothing. -/
theorem Expr.recalls_of_isName {x : Expr} (name : x.source.IsName) {v : Value} {e' : Machine}
    (found : (x.eval s).result e = some (.ok v, e')) : e.Recalls e' := by
  cases x with
  | name loc ident ref =>
      rw [Expr.eval] at found
      cases ref with
      | slot index => exact (readLocal_peeks index).recalls found
      | global const => exact (readGlobal_peeks ident).recalls found
  | _ => exact name.elim

/-- The tests of an exception against types, tried in order. -/
theorem realizes_typeTests (holds : a.Holds ctx s) {id : ExceptionId} {v : Value} :
    (types : List Expr) → ValidExprs ctx true slots types → (∀ t ∈ sourceExprs types, t.IsName) →
    ∀ {before : Location} {start : Nat} {m e : Machine}, e.current = some id →
    e.heap.seen id = v → a.Placed exits start (codeTypeTests before start types) finish →
    a.At regions start stack m e →
    a.Realizes regions s.fuel m ((anyHolds s (testType v) types).result e) fun found n e' =>
      a.At regions (if found then finish + 2 else finish) stack n e' ∧ e.Recalls e'
  | [], _, _, _, _, _, e, _, _, placed, here => .pure ⟨placed.length ▸ here, .refl e⟩
  | type :: rest, valid, names, _, _, _, e, current, seen, placed, here => by
      obtain ⟨name, others⟩ := List.forall_mem_cons.1 names
      obtain ⟨load, value, tests, behind⟩ := placed.row
      have loaded := here.loadException load current
      rw [seen] at loaded
      refine here.silently (.bind ((type.realizes holds valid.1 value loaded).also
        fun t e' found => type.recalls_of_isName name found) fun t n₁ e₁ first => ?_)
      obtain ⟨typed, recalls₁⟩ := first
      refine .bind (((Carries.testType v t).value rfl tests.head typed here.low).also
        fun w e' found => (testType_peeks v t).recalls found) fun w n₂ e₂ second => ?_
      obtain ⟨compared, recalls₂⟩ := second
      have recalls := recalls₁.trans recalls₂
      have jumped := compared.jumpIfTrue tests.tail here.low
      refine compared.silently (.ask ?_)
      by_cases true_ : e₂.heap.truthy w = true
      · rw [if_pos true_] at jumped ⊢
        exact .pure ⟨behind.length ▸ jumped, recalls⟩
      · rw [if_neg true_] at jumped ⊢
        have again := realizes_typeTests holds rest valid.2 others (recalls.current.trans current)
          ((congrArg (·.seen id) recalls.heap).trans seen) behind jumped
        exact .onward again fun found n e' after => .now ⟨after.1, recalls.trans after.2⟩

/-- A handler goes on if the exception has one of its types, and raises it again otherwise. -/
theorem realizes_select (holds : a.Holds ctx s) {types : List Expr} {before : Location}
    {id : ExceptionId} {v : Value} (valid : ValidExprs ctx true slots types)
    (names : ∀ t ∈ sourceExprs types, t.IsName) (current : e.current = some id)
    (seen : e.heap.seen id = v)
    (placed : a.Placed exits start (selectException before start types) finish)
    (here : a.At regions start stack m e) :
    a.Realizes regions s.fuel m ((selectCaught s (stampExprs before types) v types).result e)
      fun _ n e' => a.At regions finish stack n e' ∧ e.Recalls e' := by
  unfold selectException at placed
  unfold selectCaught
  split at placed
  · next none =>
    rw [if_pos none]
    exact .pure ⟨placed.length ▸ here, .refl e⟩
  · next some =>
    rw [if_neg some]
    refine .bind (realizes_typeTests holds types valid names current seen placed.left here)
      fun found n e' tested => ?_
    obtain ⟨there, recalls⟩ := tested
    cases found with
    | true => exact .pure ⟨placed.right.length ▸ there, recalls⟩
    | false =>
        have loaded := there.loadException placed.right.head (recalls.current.trans current)
        rw [recalls.heap, seen] at loaded
        exact there.silently (loaded.raises placed.right.tail.instruction here.low)

/-- The exception is bound as the evaluator binds it. -/
theorem realizes_bind (holds : a.Holds ctx s) {binding : Option (String × Ref)} {loc : Location}
    {id : ExceptionId} {v : Value} (valid : ∀ b ∈ binding, b.2.Valid ctx.pool slots b.1)
    (current : e.current = some id) (seen : e.heap.seen id = v)
    (placed : a.Placed exits start (bindException loc binding) finish)
    (here : a.At regions start stack m e) :
    a.Realizes regions s.fuel m ((bindCaught s loc v binding).result e) fun _ n e' =>
      a.At regions finish stack n e' := by
  rcases binding with _ | ⟨ident, ref⟩
  · exact .pure (placed.length ▸ here)
  · have loaded := here.loadException placed.head current
    rw [seen] at loaded
    exact here.silently (Ref.realizes_assign holds (valid _ rfl) placed.tail loaded here.low)

end Linked
end ScriptMachine
