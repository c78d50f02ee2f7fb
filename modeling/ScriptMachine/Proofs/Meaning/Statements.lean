import ScriptMachine.Proofs.Meaning.Handlers

/-!
The code of statements, and of whole bodies, does what carrying them out does.
-/

namespace ScriptMachine

open Eval (Completion truth)
open Linked (Context)
open Activation (Carries)

variable {a : Activation} {s : Setting} {ctx : Context} {slots : Nat}

/-- What code generation knows to be open around a statement is what is open. -/
structure Nest.Around (nest : Nest) (outer : Option (List Protection))
    (regions : List Protection) : Prop where
  count : nest.regions = regions.length
  loop : nest.loopRegions = outer.map List.length
  inner : ∀ around ∈ outer, around <:+ regions

namespace Nest.Around

variable {nest : Nest} {outer : Option (List Protection)} {regions : List Protection}

/-- A loop has the regions that are open where it begins. -/
theorem inLoop (around : nest.Around outer regions) :
    nest.inLoop.Around (some regions) regions where
  count := around.count
  loop := congrArg some around.count
  inner := by
    rintro _ ⟨⟩
    exact List.suffix_rfl

/-- A region is closed by what leaves it. -/
theorem inRegion (around : nest.Around outer regions) (p : Protection) :
    nest.inRegion.Around outer (p :: regions) where
  count := congrArg (· + 1) around.count
  loop := around.loop
  inner := fun regions member => (around.inner regions member).trans (List.suffix_cons _ _)

end Nest.Around

/-- The jump of a `break` or `continue`. -/
theorem Activation.At.leavesLoop {nest : Nest} {around regions : List Protection} {exits : Exits}
    {ip finish target : Nat} {stack : List Value} {m e : Machine} {loc : Location} {slot : Slot}
    (here : a.At regions ip stack m e) (nested : nest.Around (some around) regions)
    (placed : a.Placed exits ip (Linked.loopJump nest loc slot) finish)
    (closes : slot.close exits.roundStart exits.loopEnd = .of loc .jump target) :
    a.Leads m fun n => a.At around target stack n e := by
  obtain ⟨inner, rfl⟩ := nested.inner around rfl
  have count : nest.regions - around.length = inner.length := by
    rw [nested.count, List.length_append, Nat.add_sub_cancel]
  simp only [Linked.loopJump, nested.loop, Option.map_some, count] at placed
  have jump : a.body[ip + (List.replicate inner.length (Slot.of loc .popExceptionHandler)).length]?
      = some ⟨.jump, target, loc⟩ := by
    rw [← Nat.add_zero (ip + _), placed.right.slots 0 slot rfl, closes]
    rfl
  exact (here.closings inner placed.left).trans fun n there => there.leads (there.jump jump)

namespace Linked

/-- The comparisons of a subject with candidates, tried in order. -/
theorem realizes_candidates {regions : List Protection} {exits : Exits} {finish : Nat}
    {stack : List Value} (holds : a.Holds ctx s) {subject : Value} :
    (items : List Expr) → ValidExprs ctx true slots items → ∀ {before : Location} {start : Nat}
      {m e : Machine}, a.Placed exits start (codeCandidates before start items) finish →
    a.At regions start (subject :: stack) m e → (∀ p ∈ regions, p.floor <:+ stack) →
    a.Realizes regions s.fuel m ((anyHolds s (Action.binary .equals subject) items).result e)
      fun found n e' => a.At regions (if found then finish + 1 else finish) (subject :: stack) n e'
  | [], _, _, _, _, _, placed, here, _ => .pure (placed.length ▸ here)
  | item :: rest, valid, _, _, _, _, placed, here, low => by
      obtain ⟨copy, value, tests, behind⟩ := placed.row
      have copied := here.dup copy
      refine here.silently (.bind (item.realizes holds valid.1 value copied) fun v n e first => ?_)
      refine .bind ((Carries.binary .equals subject v).value rfl tests.head first here.low)
        fun w n e second => ?_
      have jumped := second.jumpIfTrue tests.tail here.low
      refine second.silently (.ask ?_)
      by_cases true_ : e.heap.truthy w = true
      · rw [if_pos true_] at jumped ⊢
        exact .pure (behind.length ▸ jumped)
      · rw [if_neg true_] at jumped ⊢
        exact realizes_candidates holds rest valid.2 behind jumped low

section

variable (a : Activation) (s : Setting) (ctx : Context) (slots : Nat)

/-- The code of a statement does what carrying it out does, wherever it is placed. -/
def Stmt.Realized (x : Stmt) : Prop :=
  ∀ ⦃nest : Nest⦄ ⦃outer : Option (List Protection)⦄ ⦃regions : List Protection⦄ ⦃exits : Exits⦄
    ⦃start finish : Nat⦄ ⦃stack : List Value⦄ ⦃m e : Machine⦄,
  x.Valid ctx true slots outer.isSome → x.source.TypesAreNames → nest.Around outer regions →
  a.Placed exits start (x.code nest start) finish → a.At regions start stack m e →
  a.Realizes regions s.fuel m ((x.eval s).result e) (a.Ends regions outer exits finish stack)

def OptionRealized (x : Option Stmt) : Prop :=
  ∀ ⦃nest : Nest⦄ ⦃outer : Option (List Protection)⦄ ⦃regions : List Protection⦄ ⦃exits : Exits⦄
    ⦃start finish : Nat⦄ ⦃stack : List Value⦄ ⦃m e : Machine⦄,
  ValidOption ctx true slots outer.isSome x → OptionTypesAreNames (sourceOption x) →
    nest.Around outer regions →
  a.Placed exits start (codeOption nest start x) finish → a.At regions start stack m e →
  a.Realizes regions s.fuel m ((evalOption s x).result e) (a.Ends regions outer exits finish stack)

def StmtsRealized (body : List Stmt) : Prop :=
  ∀ ⦃nest : Nest⦄ ⦃outer : Option (List Protection)⦄ ⦃regions : List Protection⦄ ⦃exits : Exits⦄
    ⦃start finish : Nat⦄ ⦃stack : List Value⦄ ⦃m e : Machine⦄,
  ValidStmts ctx true slots outer.isSome body → AllTypesAreNames (sourceStmts body) →
  nest.Around outer regions → a.Placed exits start (codeStmts nest start body) finish →
  a.At regions start stack m e →
  a.Realizes regions s.fuel m ((evalStmts s body).result e)
    (a.Ends regions outer exits finish stack)

/-- The code of cases does what trying them in order does, if that of what comes after all of them
does. -/
def CasesRealized (cases : List (List Expr × Stmt)) : Prop :=
  ∀ ⦃subject : Value⦄ ⦃otherwise : Eval Completion⦄ ⦃fallback : Nat → Fragment⦄ ⦃nest : Nest⦄
    ⦃outer : Option (List Protection)⦄ ⦃regions : List Protection⦄ ⦃exits : Exits⦄
    ⦃before : Location⦄ ⦃start finish : Nat⦄ ⦃stack : List Value⦄ ⦃m e : Machine⦄,
  ValidCases ctx true slots outer.isSome cases → CasesTypesAreNames (sourceCases cases) →
  nest.Around outer regions →
  a.Placed exits start (codeCases nest fallback before start cases) finish →
  a.At regions start (subject :: stack) m e → (∀ p ∈ regions, p.floor <:+ stack) →
  (∀ {start m e}, a.Placed exits start (fallback start) finish → a.At regions start stack m e →
    a.Realizes regions s.fuel m (otherwise.result e) (a.Ends regions outer exits finish stack)) →
  a.Realizes regions s.fuel m ((evalCases s subject otherwise cases).result e)
    (a.Ends regions outer exits finish stack)

end

variable {loc : Location} {value condition : Expr} {x y : Stmt} {step : Option Expr}

namespace Stmt.Realized

/-- The value of an expression statement is dropped. -/
theorem expr (holds : a.Holds ctx s) : (Stmt.expr loc value).Realized a s ctx slots := by
  intro _ _ _ _ _ _ _ _ _ valid _ _ placed here
  exact .bind (value.realizes_dropped holds valid placed here) fun _ n e there => .pure there

theorem block {body : List Stmt} (inner : StmtsRealized a s ctx slots body) :
    (Stmt.block loc body).Realized a s ctx slots := by
  intro _ _ _ _ _ _ _ _ _ valid names around placed here
  exact inner valid names around placed here

/-! ### Choices -/

/-- Without an alternative there is nothing to do if the test fails. -/
theorem onlyIf (holds : a.Holds ctx s) (body : x.Realized a s ctx slots) :
    (Stmt.ifElse loc condition x none).Realized a s ctx slots := by
  intro _ _ _ _ _ _ _ _ _ valid names around placed here
  refine .bind (condition.realizes holds valid.1 placed.left.left here) fun v n e first => ?_
  have tested := first.jumpIfFalse placed.middle here.low
  refine first.silently (.ask ?_)
  by_cases true_ : e.heap.truthy v = true
  · rw [if_pos true_] at tested ⊢
    exact body valid.2.1 names.1 around placed.last tested
  · rw [if_neg true_] at tested ⊢
    exact .pure (placed.last.length ▸ tested)

/-- The code jumps over the branch that is not taken. -/
theorem ifElse (holds : a.Holds ctx s) (body : x.Realized a s ctx slots)
    (other : y.Realized a s ctx slots) :
    (Stmt.ifElse loc condition x (some y)).Realized a s ctx slots := by
  intro _ _ _ _ _ _ _ _ _ valid names around placed here
  have chosen := placed.left.left.last
  have rest := placed.last.cast (congrArg (· + 1) chosen.length.symm)
  refine .bind (condition.realizes holds valid.1 placed.left.left.left.left here)
    fun v n e first => ?_
  have tested := first.jumpIfFalse placed.left.left.middle here.low
  refine first.silently (.ask ?_)
  by_cases true_ : e.heap.truthy v = true
  · rw [if_pos true_] at tested ⊢
    refine .onward (body valid.2.1 names.1 around chosen tested)
      fun completion n e ends => ends.onward fun there => ?_
    have jumped := there.jump placed.left.right.instruction
    exact there.leads (rest.length ▸ jumped)
  · rw [if_neg true_] at tested ⊢
    exact other valid.2.2 names.2 around rest tested

/-- The value is computed once and compared with the candidates of one case after the other. -/
theorem given (holds : a.Holds ctx s) {cases : List (List Expr × Stmt)} {otherwise : Option Stmt}
    (tried : CasesRealized a s ctx slots cases) (left : OptionRealized a s ctx slots otherwise) :
    (Stmt.given loc value cases otherwise).Realized a s ctx slots := by
  intro _ _ _ _ _ _ _ _ _ valid names around placed here
  refine .bind (value.realizes holds valid.1 placed.left here) fun subject n e first => ?_
  exact tried valid.2.1 names.1 around placed.right first here.low
    fun placed here => left valid.2.2 names.2 around placed here

/-! ### Loops -/

/-- A round is the test, the body and the jump back. Rounds are counted in `realizes_while`. -/
theorem whileLoop (holds : a.Holds ctx s) (body : x.Realized a s ctx slots) :
    (Stmt.whileLoop loc condition x).Realized a s ctx slots := by
  intro _ _ _ _ _ _ _ _ _ valid names around placed here
  have test := placed.left.left
  rw [List.length_append] at test
  have round := placed.left.last.closed
  have ends := (congrArg (· + 1) round.length).trans placed.right.length
  refine .onward (realizes_while holds valid.1 test (fun here => ?_)
    (placed.right.upTo ends.symm) (Nat.le_refl _) here) fun completion n e left => ?_
  · exact body valid.2 names around.inLoop round here
  · exact left.behind fun there => .now (ends ▸ there)

/-- The body comes before the test. -/
theorem doWhile (holds : a.Holds ctx s) (body : x.Realized a s ctx slots) :
    (Stmt.doWhile loc x condition).Realized a s ctx slots := by
  intro _ _ _ _ _ _ _ _ _ valid names around placed here
  have round := placed.assoc.left.closed
  have test := placed.assoc.right.cast round.length.symm
  rw [← round.length] at round
  have ends := test.length
  rw [List.length_append] at ends
  refine .onward (realizes_doWhile holds valid.2 (fun here => ?_) (test.upTo ends.symm)
    (Nat.le_refl _) here) fun completion n e left => ?_
  · exact body valid.1 names around.inLoop round here
  · exact left.behind fun there => .now (ends ▸ there)

/-- The step runs after each round, also after one that was cut short. -/
theorem forLoop (holds : a.Holds ctx s) {first : Option Stmt} {test? : Option Expr}
    (initial : OptionRealized a s ctx slots first) (body : x.Realized a s ctx slots) :
    (Stmt.forLoop loc first test? step x).Realized a s ctx slots := by
  intro _ _ _ _ _ _ _ _ _ valid names around placed here
  -- the code measures the test with another target
  have measured := fun top loopEnd => congrArg (top + ·) (loopTest_length test? top loopEnd 0)
  have test := placed.left.left.middle.upTo (measured _ _)
  have round := (placed.left.left.last.cast (measured _ _)).closed
  have advance := placed.left.right.cast round.length.symm
  rw [← round.length] at round
  have ends := (congrArg (· + 1) advance.length).trans placed.right.length
  refine .bind (initial valid.1 names.1 around placed.left.left.left.left here)
    fun completion n e started => ?_
  cases completion with
  | normal =>
      refine .onward (realizes_for holds valid.2.1 valid.2.2.2 test (fun here => ?_) advance
        (placed.right.upTo ends.symm) (Nat.le_refl _) started) fun completion n e left =>
          left.behind fun there => .now (ends ▸ there)
      exact body valid.2.2.1 names.2 around.inLoop round here
  | broke => exact .pure started
  | continued => exact .pure started
  | returned v => exact .pure started

/-- The iterator lies below the operands of the body, which leaves it alone. -/
theorem foreach (holds : a.Holds ctx s) {item : String} {ref : Ref} {iterable : Expr}
    (body : x.Realized a s ctx slots) :
    (Stmt.foreach loc item ref iterable x).Realized a s ctx slots := by
  intro _ _ _ _ _ _ _ _ _ valid names around placed here
  have source := placed.left.left.left.left
  have prepare := placed.left.left.left.middle
  have head := placed.left.left.left.last
  have round := (placed.left.left.right.cast head.length.symm).closed
  have ends := (congrArg (· + 1) round.length).trans placed.left.right.length
  refine .bind (iterable.realizes holds valid.1 source.left here) fun v n e first => ?_
  refine .bind ((Carries.iterate v).value rfl prepare.head first here.low) fun it n e got => ?_
  have copied := got.dup prepare.tail.head
  have resets := prepare.tail.tail
  refine got.silently (.bind ((Carries.resetIter it).effect rfl resets copied got.low)
    fun _ n e ready => ?_)
  refine .onward (realizes_foreach holds valid.2.1 (head.upTo head.length.symm) (fun here => ?_)
    (placed.left.right.upTo ends.symm) (Nat.le_refl _) ready) fun completion n e left =>
      left.behind fun there => ?_
  · exact body valid.2.2 names around.inLoop round here
  · have there := ends ▸ there
    exact there.leads (there.pop placed.right here.low)

/-- The regions of the loop are closed before the jump. -/
theorem breakLoop : (Stmt.breakLoop loc).Realized a s ctx slots := by
  intro _ _ _ _ _ _ _ _ _ valid _ around placed here
  obtain ⟨regions, rfl⟩ := Option.isSome_iff_exists.1 (valid rfl)
  exact .leads ((here.leavesLoop around placed rfl).imp fun n there => ⟨regions, rfl, there⟩)

/-- The next round begins where the loop has its test or its step. -/
theorem continueLoop : (Stmt.continueLoop loc).Realized a s ctx slots := by
  intro _ _ _ _ _ _ _ _ _ valid _ around placed here
  obtain ⟨regions, rfl⟩ := Option.isSome_iff_exists.1 (valid rfl)
  exact .leads ((here.leavesLoop around placed rfl).imp fun n there => ⟨regions, rfl, there⟩)

/-! ### Leaving -/

theorem retNull : (Stmt.ret loc none).Realized a s ctx slots := by
  intro _ _ _ _ _ _ _ _ _ _ _ around placed here
  have loaded := here.loadNull placed.left.left
  refine here.silently (.leads ?_)
  exact loaded.returns around.count placed.middle placed.last.instruction

theorem ret (holds : a.Holds ctx s) : (Stmt.ret loc (some value)).Realized a s ctx slots := by
  intro _ _ _ _ _ _ _ _ _ valid _ around placed here
  refine .bind (value.realizes holds (valid value rfl) placed.left.left here) fun v n e first => ?_
  exact .leads (first.returns around.count placed.middle placed.last.instruction)

/-- Raising leaves the statement in any case. -/
theorem raise (holds : a.Holds ctx s) : (Stmt.raise loc value).Realized a s ctx slots := by
  intro _ _ _ _ _ _ _ _ _ valid _ _ placed here
  refine .bind (value.realizes holds valid placed.left here) fun v n e first => ?_
  exact .bind (Q := fun _ _ _ => False) (first.raises placed.right.instruction here.low)
    fun _ _ _ never => never.elim

/-- What the body raises finds the handler, which has the type tests in front. -/
theorem tryExcept (holds : a.Holds ctx s) {binding : Option (String × Ref)} {types : List Expr}
    (body : x.Realized a s ctx slots) (handler : y.Realized a s ctx slots) :
    (Stmt.tryExcept loc x binding types y).Realized a s ctx slots := by
  intro _ _ _ _ _ _ _ _ _ valid names around placed here
  obtain ⟨opening, guarded, leaving, front⟩ := placed.left.row
  have recovery := placed.right.cast front.length.symm
  have opened := here.opens opening
  refine here.silently (Activation.realizes_tryCatch
    (body valid.1 names.1 (around.inRegion _) guarded opened)
    (fun completion n e ends => ends.onward fun there => ?_) fun id n e throws => ?_)
  · have closed := there.closes leaving.head
    have jumped := closed.jump leaving.tail.instruction
    exact (closed.leads (recovery.length ▸ jumped)).step there.depth_lt
  · obtain ⟨caught, current⟩ := throws.caught here.low
    refine .ask (.bind (realizes_select holds valid.2.1 names.2.1 current rfl front.left caught)
      fun _ n e' selected => ?_)
    obtain ⟨there, recalls⟩ := selected
    refine .bind (realizes_bind holds valid.2.2.1 (recalls.current.trans current)
      (congrArg (·.seen id) recalls.heap) front.right there) fun _ n e' bound => ?_
    exact handler valid.2.2.2 names.2.2 around recovery (front.length.symm ▸ bound)

/-- A local function is a closure that is stored in a variable. -/
theorem function (holds : a.Holds ctx s) {decl : FuncDecl} {method const : Nat} {ref : Ref} :
    (Stmt.function loc decl method const ref).Realized a s ctx slots := by
  intro _ _ _ _ _ _ _ _ _ valid _ _ placed here
  have loaded := here.loadConst placed.head (holds valid.1.held)
  have captures := placed.tail.head
  refine here.silently (.bind ((Carries.captureLocals _).value rfl captures loaded here.low)
    fun v n e made => ?_)
  refine .bind (Ref.realizes_assign holds valid.2 placed.tail.tail made here.low)
    fun _ n e bound => ?_
  exact .pure bound

end Stmt.Realized

theorem OptionRealized.none : OptionRealized a s ctx slots none := by
  intro _ _ _ _ _ _ _ _ _ _ _ _ placed here
  exact .pure (placed.length ▸ here)

theorem OptionRealized.some (body : x.Realized a s ctx slots) :
    OptionRealized a s ctx slots (some x) := by
  intro _ _ _ _ _ _ _ _ _ valid names around placed here
  exact body valid names around placed here

theorem StmtsRealized.nil : StmtsRealized a s ctx slots [] := by
  intro _ _ _ _ _ _ _ _ _ _ _ _ placed here
  exact .pure (placed.length ▸ here)

theorem StmtsRealized.cons {body : List Stmt} (first : x.Realized a s ctx slots)
    (rest : StmtsRealized a s ctx slots body) : StmtsRealized a s ctx slots (x :: body) := by
  intro _ _ _ _ _ _ _ _ _ valid names around placed here
  refine .bind (first valid.1 names.1 around placed.left here) fun completion n e ends => ?_
  cases completion with
  | normal => exact rest valid.2 names.2 around placed.right ends
  | broke => exact .pure ends
  | continued => exact .pure ends
  | returned v => exact .pure ends

theorem CasesRealized.nil : CasesRealized a s ctx slots [] := by
  intro _ _ _ _ _ _ _ _ _ _ _ _ _ _ _ _ placed here low falls
  exact here.silently (falls placed.tail (here.pop placed.head low))

/-- The candidates of a case are compared first, and then the case runs or the next one is tried. -/
theorem CasesRealized.cons (holds : a.Holds ctx s) {values : List Expr}
    {cases : List (List Expr × Stmt)} (body : x.Realized a s ctx slots)
    (rest : CasesRealized a s ctx slots cases) :
    CasesRealized a s ctx slots ((values, x) :: cases) := by
  intro _ _ _ _ _ _ _ _ _ _ _ _ _ valid names around placed here low falls
  have tests := placed.left.left.left
  have miss := tests.middle
  have drop := tests.last
  have chosen := placed.left.left.right.cast drop.length.symm
  have others := placed.last.cast (congrArg (· + 1) chosen.length.symm)
  refine .bind (realizes_candidates holds values valid.1 tests.left.left here low)
    fun found n e there => ?_
  cases found with
  | true =>
      have dropped := there.pop drop low
      refine there.silently (.onward (body valid.2.1 names.1 around chosen
        (drop.length.symm ▸ dropped)) fun completion n e ends => ends.onward fun there => ?_)
      have jumped := there.jump placed.left.right.instruction
      exact there.leads (others.length ▸ jumped)
  | false =>
      have jumped := there.jump miss.instruction
      exact there.silently (rest valid.2.2 names.2 around others jumped low falls)

/-! ### All of them -/

mutual

/-- Code does what the evaluator does, for every statement. The induction is on the statement, with
one lemma for each constructor. -/
theorem Stmt.realizes (holds : a.Holds ctx s) : (x : Stmt) → x.Realized a s ctx slots
  | .expr .. => .expr holds
  | .block _ body => .block (realizes_stmts holds body)
  | .ifElse _ _ body none => .onlyIf holds (body.realizes holds)
  | .ifElse _ _ body (some other) => .ifElse holds (body.realizes holds) (other.realizes holds)
  | .whileLoop _ _ body => .whileLoop holds (body.realizes holds)
  | .doWhile _ body _ => .doWhile holds (body.realizes holds)
  | .forLoop _ first _ _ body => .forLoop holds (realizes_option holds first) (body.realizes holds)
  | .foreach _ _ _ _ body => .foreach holds (body.realizes holds)
  | .given _ _ cases otherwise =>
      .given holds (realizes_cases holds cases) (realizes_option holds otherwise)
  | .breakLoop _ => .breakLoop
  | .continueLoop _ => .continueLoop
  | .ret _ none => .retNull
  | .ret _ (some _) => .ret holds
  | .raise .. => .raise holds
  | .tryExcept _ body _ _ handler =>
      .tryExcept holds (body.realizes holds) (handler.realizes holds)
  | .function .. => .function holds
  | .other _ => fun _ _ _ _ _ _ _ _ _ valid => valid.elim

theorem realizes_option (holds : a.Holds ctx s) : (x : Option Stmt) → OptionRealized a s ctx slots x
  | none => .none
  | some x => .some (x.realizes holds)

theorem realizes_stmts (holds : a.Holds ctx s) : (body : List Stmt) →
    StmtsRealized a s ctx slots body
  | [] => .nil
  | x :: rest => .cons (x.realizes holds) (realizes_stmts holds rest)

theorem realizes_cases (holds : a.Holds ctx s) : (cases : List (List Expr × Stmt)) →
    CasesRealized a s ctx slots cases
  | [] => .nil
  | (_, body) :: rest => .cons holds (body.realizes holds) (realizes_cases holds rest)

end

end Linked
end ScriptMachine
