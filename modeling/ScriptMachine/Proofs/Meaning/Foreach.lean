import ScriptMachine.Proofs.Machine.Abreast
import ScriptMachine.Proofs.Machine.Gathering
import ScriptMachine.Proofs.Meaning.Expressions
import ScriptMachine.Proofs.Meaning.Rounds

/-!
Loops over built-in iterables, round by round.
-/

namespace ScriptMachine

open ScriptMachine.Action

variable {a : Activation} {regions : List Protection} {ip : Nat}
  {stack operands values : List Value} {m e : Machine} {h : Heap} {v : Value}

namespace Activation

/-! ## Single instructions -/

namespace At

theorem comes_step (here : a.At regions ip stack m e) : a.Comes regions ip ip m m.step :=
  .step (here.amid ⟨Nat.le_refl _, Nat.le_refl _⟩)

/-- An instruction whose operation depends on the heap only. It takes two steps. -/
theorem obtains {act : Pending → Action Unit} {finish : Finish} {i : Instruction}
    (here : a.At regions ip (operands ++ stack) m e) (found : a.body[ip]? = some i)
    (carries : a.Carries i operands stack (act ⟨[], finish⟩))
    (produces : Produces act e.heap v h)
    (given : finish = .push ∧ values = [v] ∨ finish = .discard ∧ values = [])
    (low : ∀ p ∈ regions, p.floor <:+ stack) :
    ∃ n, a.Comes regions ip ip m n ∧
      a.At regions (ip + 1) (values ++ stack) n { e with heap := h } := by
  let k := (fetched m (a.top ip (operands ++ stack)) i).withStack stack
  have frames : k.frames = a.top (ip + 1) stack :: a.base := by
    rw [Machine.frames_withStack, frames_fetched here.frames]
    rfl
  have left : k.stack = stack := by
    rw [Machine.stack, frames]
    rfl
  have heap : k.heap = e.heap := (heap_fetched m _ i).trans here.world.heap
  have first : m.step = k.delivering h v ⟨[], finish⟩ :=
    (here.step_eq found carries.executes).trans (produces.perform heap _)
  have second : m.step.step
      = Machine.withStack { k with heap := h, control := .running } (values ++ stack) := by
    rw [first]
    rcases given with ⟨rfl, rfl⟩ | ⟨rfl, rfl⟩
    · refine (Machine.step_push rfl).trans ?_
      change Machine.withStack { k with heap := h, control := .running } ([v] ++ k.stack) = _
      rw [left]
    · have idle := Machine.withStack_self { k with heap := h, control := .running }
      change Machine.withStack { k with heap := h, control := .running } k.stack = _ at idle
      rw [left] at idle
      exact idle.symm
  have twice : m.run 2 = m.step.step := by rw [Machine.run_succ, Machine.run_one]
  have waits : a.Amid regions ip ip m.step := by
    refine ⟨[], ip, ip + 1, stack, ?_, fun now => ?_, fun _ => rfl,
      ⟨Nat.le_refl _, Nat.le_refl _⟩, ?_⟩
    · rw [first]
      exact frames
    · have control := now.2
      rw [first] at control
      cases control
    · rw [first]
      exact here.handlers_fetched _ i ▸ List.suffix_rfl
  refine ⟨m.step.step, here.comes_step.trans (.step waits), ?_⟩
  have bears : a.Bears (m.run 2) { e with heap := h } := here.toBears.run 2 here.stands
  rw [twice] at bears
  refine ⟨bears, ?_, ?_, ?_, ?_, fun p member => (low p member).trans (List.suffix_append _ _)⟩
  · rw [second]
    obtain ⟨_, h₂, h₃, h₄, h₅, h₆, h₇, h₈⟩ := here.world.fetched (a.top ip (operands ++ stack)) i
    exact ⟨rfl, h₂, h₃, h₄, h₅, h₆, h₇, h₈⟩
  · rw [second, Machine.frames_withStack]
    change k.frames.modifyHead _ = _
    rw [frames]
    rfl
  · rw [second]
    exact here.handlers_fetched _ i
  · rw [second]
    rfl

/-- An instruction that stores a local variable. -/
theorem storesLocal {slot : Nat} {loc : Location} (here : a.At regions ip (v :: stack) m e)
    (found : a.body[ip]? = some ⟨.storeLocal, slot, loc⟩)
    (low : ∀ p ∈ regions, p.floor <:+ stack) : a.Arrives regions (ip + 1) stack m.step := by
  have here : a.At regions ip ([v] ++ stack) m e := here
  let k := (fetched m (a.top ip ([v] ++ stack)) ⟨.storeLocal, slot, loc⟩).withStack stack
  obtain ⟨h, stored⟩ : ∃ h, (writeLocal slot v).result k = (.ok (), { k with heap := h }) :=
    ⟨_, rfl⟩
  have step : m.step = { k with heap := h } :=
    (here.step_eq found (Carries.writeLocal slot v).executes).trans (Machine.perform_of_ok stored)
  have frames : m.step.frames = a.top (ip + 1) stack :: a.base := by
    rw [step]
    change k.frames = _
    rw [Machine.frames_withStack, frames_fetched here.frames]
    rfl
  have bears : a.Bears (m.run 1) m.step := here.toBears.run 1
    ⟨here.counted.step, _, frames, fun _ => rfl⟩
  rw [Machine.run_one] at bears
  refine ⟨bears, .refl _, frames, ?_, ?_, low⟩
  · rw [step]
    exact here.handlers_fetched _ _
  · rw [step]
    exact here.control_fetched _ _

end At

/-! ## Walking under way -/

/-- The code of a loop over an iterable, from the instruction that makes the iterator to the jump
at the end of a round. The last round is followed by the instruction that drops the iterator. -/
structure Foreach (a : Activation) (regions : List Protection) (pool : Array Constant)
    (start last : Nat) : Prop where
  prepares : ∃ exits loc, a.Placed exits start
    [.of loc .getIter, .of loc .dup, .of loc .iterReset] (start + 3)
  asks : ∃ exits loc, a.Placed exits (start + 3)
    [.of loc .dup, .of loc .iterMoveNext, .of loc .jumpIfFalse (last + 1)] (start + 6)
  shows_ : ∃ exits loc, a.Placed exits (start + 6) [.of loc .dup, .of loc .iterGetNext] (start + 8)
  covered : ∃ sketch around, around.length = regions.length ∧
    Covers pool a.body sketch (start + 8) last ∧ sketch (start + 8) = some (view 1 around)
  ends : ∃ exits loc, a.Placed exits (last + 1) [.of loc .pop] (last + 2)
  inside : start + 8 ≤ last

/-- The code of a loop, in front of the value and behind it. -/
theorem code_foreach (loc : Location) (item : String) (ref : Linked.Ref) (iterable : Linked.Expr)
    (body : Linked.Stmt) (nest : Nest) {start first last : Nat}
    (value : first = start + (iterable.code start).length)
    (round : last = first + 9 + (body.code nest.inLoop (first + 9)).length) :
    (Linked.Stmt.foreach loc item ref iterable body).code nest start = iterable.code start ++
      ([.of iterable.stamp .getIter, .of iterable.stamp .dup, .of iterable.stamp .iterReset] ++
      ([.of iterable.stamp .dup, .of iterable.stamp .iterMoveNext,
        .of iterable.stamp .jumpIfFalse (last + 1)] ++
      ([.of iterable.stamp .dup, .of iterable.stamp .iterGetNext] ++
      (Linked.roundCode ref iterable.stamp nest body (first + 3) (first + 8) ++
        [.of body.stamp .pop])))) := by
  subst value round
  rw [Linked.Stmt.code, Linked.roundCode]
  simp only [List.append_assoc, List.cons_append, List.nil_append]

/-- The code of the loop is that of the statement. -/
theorem Placed.foreach {ctx : Linked.Context} {slots : Nat} {inLoop : Bool} {nest : Nest}
    {exits : Exits} {loc : Location} {item : String} {ref : Linked.Ref} {iterable : Linked.Expr}
    {body : Linked.Stmt} {start first last : Nat}
    (value : first = start + (iterable.code start).length)
    (round : last = first + 9 + (body.code nest.inLoop (first + 9)).length)
    (placed : a.Placed exits start
      ((Linked.Stmt.foreach loc item ref iterable body).code nest start) (last + 2))
    (valid : (Linked.Stmt.foreach loc item ref iterable body).Valid ctx true slots inLoop)
    (count : nest.regions = regions.length) :
    a.Foreach regions ctx.pool first last := by
  rw [code_foreach loc item ref iterable body nest value round] at placed
  have prepares := placed.right.cast value.symm
  have asks := prepares.right
  have shown := asks.right
  have rounds := shown.right
  have length := Linked.length_roundCode ref iterable.stamp nest body (first + 3) (first + 8)
  have behind : first + 8 + (Linked.roundCode ref iterable.stamp nest body (first + 3)
      (first + 8)).length = last + 1 := by
    have again : first + 8 + 1 = first + 9 := rfl
    rw [length, round, again]
    omega
  have ends := rounds.right.cast behind
  have stands (k : Nat) (i : Instruction) (found : (Linked.roundCode ref iterable.stamp nest body
      (first + 3) (first + 8))[k]? = some (.fixed i)) : a.body[first + 8 + k]? = some i :=
    rounds.left.slots k _ found
  obtain ⟨sketch, around, size, covers, entry⟩ :=
    body.covered valid.2.2 ref iterable.stamp nest (by omega) stands
  have same : first + 8 + 1 + (body.code nest.inLoop (first + 8 + 1)).length = last := round.symm
  refine ⟨⟨_, _, prepares.left⟩, ⟨_, _, asks.left⟩, ⟨_, _, shown.left⟩,
    ⟨sketch, around, size.trans count, same ▸ covers, entry⟩, ⟨_, _, ends⟩, ?_⟩
  omega

/-- An iterator for the value is among the operands of the activation, under these, and has made so
many moves. If it was made for the loop, nothing else refers to it. -/
structure Walking (a : Activation) (regions : List Protection) (x : Value) (source : Iter)
    (id : IteratorId) (stack : List Value) (ip : Nat) (above : List Value) (k : Nat) (m : Machine) :
    Prop where
  arrives : a.Arrives regions ip (above ++ .iterator id :: stack) m
  walks : m.heap.Walks id source k
  own : ∀ own, x = .iterator own → own = id
  alone : (∀ own, x ≠ .iterator own) → a.Lacks id m ∧ Avoids id above

section

variable {pool : Array Constant} {start last k : Nat} {x : Value} {source : Iter} {id : IteratorId}
  {n o : Machine}

/-- The loop makes an iterator, or takes the one it is given, and has it start anew. -/
theorem Foreach.begins (loop : a.Foreach regions pool start last)
    (here : a.Arrives regions start (x :: stack) m) (low : ∀ p ∈ regions, p.floor <:+ stack)
    (sealed : m.Sealed) (walk : m.heap.walk? x = some source) :
    ∃ id n, a.Comes regions start (start + 2) m n ∧
      a.Walking regions x source id stack (start + 3) [] 0 n := by
  obtain ⟨_, _, prepares⟩ := loop.prepares
  obtain ⟨id, h, produces, walks, _, own⟩ := iterate_walks walk maxDelegation
  have here : a.At regions start ([x] ++ stack) m m := here
  obtain ⟨n₁, comes₁, at₁⟩ := here.obtains prepares.instruction (Carries.iterate x) produces
    (.inl ⟨rfl, rfl⟩) low
  have copied : a.At regions (start + 2) ([.iterator id] ++ .iterator id :: stack) _ _ :=
    at₁.dup prepares.tail.head
  obtain ⟨n₂, comes₂, at₂⟩ := copied.obtains prepares.tail.tail.instruction
    (Carries.resetIter (.iterator id)) (resetIter_produces h id) (.inr ⟨rfl, rfl⟩) at₁.low
  refine ⟨id, n₂, ?_, at₂.arrives, at₂.world.heap ▸ walks, fun mine same => ?_, fun other => ?_⟩
  · exact (comes₁.widen (Nat.le_refl _) (by omega)).trans
      ((at₁.comes_step.widen (by omega) (by omega)).trans (comes₂.widen (by omega) (by omega)))
  · rcases own with mine | ⟨other, _⟩
    · exact Value.iterator.inj (same.symm.trans mine)
    · exact absurd same (other mine)
  · obtain ⟨_, made, rfl, rfl⟩ := own.resolve_left (other id)
    have kept := sealed _ (Nat.le_refl _)
    have lacks := lacks_of_kept kept here.frames (.inl rfl)
    obtain ⟨_, same, fine⟩ := (kept.top here.frames).operands
    rw [Secret.low_eq, show ite _ (Secret.unmade _ _).operands [] = [] from ite_self [],
      List.append_nil] at same
    have known : Avoids m.heap.iterators.size x := (passes_cons.1 (same ▸ fine)).1
    have visits := passes_iterOver? lacks.heap known source made
    have made := lacks.heap.newIterator visits
    have ready := made.setIterator m.heap.iterators.size (Iter.passes_reset
      (made.iterators m.heap.iterators.size))
    exact ⟨(lacks.withHeap ready).world at₂.world, passes_nil⟩

/-- While there is another item, the loop takes it and begins a round. -/
theorem Walking.visits (walking : a.Walking regions x source id stack (start + 3) [] k m)
    (loop : a.Foreach regions pool start last)
    (found : source.item? m.heap k = some v) :
    ∃ n, a.Comes regions (start + 3) (start + 7) m n ∧
      a.Walking regions x source id stack (start + 8) [v] (k + 1) n := by
  obtain ⟨_, _, asks⟩ := loop.asks
  obtain ⟨_, _, shows_⟩ := loop.shows_
  obtain ⟨it, moves, current, walks⟩ := walking.walks.moves found
  have at₀ : a.At regions (start + 3) (.iterator id :: stack) m m := walking.arrives
  have at₁ : a.At regions (start + 4) ([.iterator id] ++ .iterator id :: stack) _ m :=
    at₀.dup asks.head
  obtain ⟨n₂, comes₂, at₂⟩ := at₁.obtains asks.tail.instruction
    (Carries.moveIter (.iterator id)) (moveIter_produces moves) (.inl ⟨rfl, rfl⟩) at₀.low
  have at₃ : a.At regions (start + 6) (.iterator id :: stack) _ _ :=
    at₂.jumpIfFalse asks.tail.tail at₀.low
  have at₄ : a.At regions (start + 7) ([.iterator id] ++ .iterator id :: stack) _ _ :=
    at₃.dup shows_.head
  have given := iterItem_produces (m.heap.setIterator id it) id
  rw [current] at given
  obtain ⟨n₅, comes₅, at₅⟩ := at₄.obtains shows_.tail.instruction
    (Carries.iterItem (.iterator id)) given (.inl ⟨rfl, rfl⟩) at₃.low
  refine ⟨n₅, ?_, at₅.arrives, at₅.world.heap ▸ walks, walking.own, fun other => ?_⟩
  · refine (at₀.comes_step.widen (Nat.le_refl _) (by omega)).trans ?_
    refine (comes₂.widen (by omega) (by omega)).trans ?_
    refine (at₂.comes_step.widen (by omega) (by omega)).trans ?_
    exact (at₃.comes_step.widen (by omega) (by omega)).trans (comes₅.widen (by omega) (by omega))
  · obtain ⟨lacks, _⟩ := walking.alone other
    have moved := lacks.heap.moveNext (lacks.heap.iterators id)
    rw [moves] at moved
    have lacks' := lacks.heap.setIterator id moved
    have shown := Iter.passes_current (lacks'.iterators id)
    rw [current] at shown
    exact ⟨(lacks.withHeap lacks').world at₅.world, passes_cons.2 ⟨shown, passes_nil⟩⟩

/-- At the end the loop drops the iterator and goes on behind. -/
theorem Walking.leaves (walking : a.Walking regions x source id stack (start + 3) [] k m)
    (loop : a.Foreach regions pool start last) (low : ∀ p ∈ regions, p.floor <:+ stack)
    (none : source.item? m.heap k = none) :
    ∃ n, a.Comes regions (start + 3) (start + 5) m n ∧
      a.Arrives regions (last + 1) (.iterator id :: stack) n ∧
      a.Comes regions (last + 1) (last + 1) n n.step ∧
      a.Arrives regions (last + 2) stack n.step := by
  obtain ⟨_, _, asks⟩ := loop.asks
  obtain ⟨_, _, ends⟩ := loop.ends
  have at₀ : a.At regions (start + 3) (.iterator id :: stack) m m := walking.arrives
  have at₁ : a.At regions (start + 4) ([.iterator id] ++ .iterator id :: stack) _ m :=
    at₀.dup asks.head
  obtain ⟨n₂, comes₂, at₂⟩ := at₁.obtains asks.tail.instruction
    (Carries.moveIter (.iterator id)) (moveIter_produces (walking.walks.ends none))
    (.inl ⟨rfl, rfl⟩) at₀.low
  have at₃ := at₂.jumpIfFalse asks.tail.tail at₀.low
  refine ⟨_, ?_, at₃.arrives, at₃.comes_step, (at₃.pop ends low).arrives⟩
  refine (at₀.comes_step.widen (Nat.le_refl _) (by omega)).trans ?_
  exact (comes₂.widen (by omega) (by omega)).trans (at₂.comes_step.widen (by omega) (by omega))

/-- A round whose body completed leaves the walk where it was: an iterator that the loop was given
is as it was if the body has not used it, and one that was made for the loop is out of reach. -/
theorem Walking.completes (walking : a.Walking regions x source id stack (start + 8) [v] k n)
    (loop : a.Foreach regions pool start last) (comes : a.Comes regions (start + 8) last n o)
    (there : a.Arrives regions (start + 3) (.iterator id :: stack) o)
    (unused : ∀ own, x = .iterator own → o.heap.iterators[own]? = n.heap.iterators[own]?) :
    a.Walking regions x source id stack (start + 3) [] k o := by
  obtain ⟨sketch, around, count, covers, entry⟩ := loop.covered
  obtain ⟨_, _, ends⟩ := loop.ends
  let s : Secret :=
    { iterator := id
      state := n.heap.iterators[id]?
      depth := a.base.length
      operands := .iterator id :: stack }
  have some : s.state ≠ none := by
    obtain ⟨it, found, _⟩ := walking.walks
    exact fun none => Option.some_ne_none it (found.symm.trans none)
  have keeps (other : ∀ own, x ≠ .iterator own) : s.Kept o := by
    obtain ⟨lacks, known⟩ := walking.alone other
    have kept : s.Kept n := lacks.kept walking.arrives known rfl rfl (Nat.zero_le _)
    have length : ([v] ++ s.operands).length = 1 + s.operands.length := Nat.add_comm _ _
    exact comes.keeps covers loop.inside entry count walking.arrives length there
      (Nat.lt_of_succ_lt ends.more) kept rfl some
  have same : o.heap.iterators[id]? = n.heap.iterators[id]? := by
    by_cases given : ∃ own, x = .iterator own
    · obtain ⟨own, given⟩ := given
      exact walking.own own given ▸ unused own given
    · exact (keeps fun own same => given ⟨own, same⟩).heap.own.1
  exact ⟨there, walking.walks.congr same, walking.own, fun other =>
    ⟨lacks_of_kept (keeps other) there.frames (.inr rfl), passes_nil⟩⟩

end

/-! ## Rounds -/

/-- Rounds of a loop over a value, the body of each of which completed without using the value, if
that is an iterator. The trail has the item of each round, and the heap when the loop looked for
it. -/
inductive Rounds (a : Activation) (regions : List Protection) (x it : Value) (stack : List Value)
    (start last : Nat) (m : Machine) : List (Heap × Value) → Machine → Prop where
  | start : Rounds a regions x it stack start last m [] m
  | round {trail : List (Heap × Value)} {k n o : Machine} {v : Value} :
      Rounds a regions x it stack start last m trail k →
      a.Comes regions (start + 3) (start + 7) k n →
      a.Arrives regions (start + 8) (v :: it :: stack) n →
      a.Comes regions (start + 8) last n o →
      a.Arrives regions (start + 3) (it :: stack) o →
      (∀ own, x = .iterator own → o.heap.iterators[own]? = n.heap.iterators[own]?) →
      Rounds a regions x it stack start last m (trail ++ [(k.heap, v)]) o

section

variable {pool : Array Constant} {start last k : Nat} {x : Value} {source : Iter} {id : IteratorId}
  {n o : Machine} {trail : List (Heap × Value)}

/-- After some rounds the walk is as far, and each of them had the item of its number. -/
theorem Rounds.walking (rounds : a.Rounds regions x (.iterator id) stack start last m trail n)
    (loop : a.Foreach regions pool start last) (low : ∀ p ∈ regions, p.floor <:+ stack)
    (begun : a.Walking regions x source id stack (start + 3) [] 0 m) :
    a.Walking regions x source id stack (start + 3) [] trail.length n ∧
      ∀ j h v, trail[j]? = some (h, v) → source.item? h j = some v := by
  induction rounds with
  | start => exact ⟨begun, nofun⟩
  | @round trail k n o v _ comes arrives onward there unused ih =>
      obtain ⟨walking, items⟩ := ih
      cases found : source.item? k.heap trail.length with
      | none =>
          -- the machine has left the loop instead
          obtain ⟨left, goes, behind, _⟩ := walking.leaves loop low found
          have inside := loop.inside
          have same := comes.unique (goes.widen (Nat.le_refl _) (by omega))
            (arrives.not_amid fun _ => Nat.lt_succ_self _) (behind.not_amid fun _ => by omega)
          have frames := (same ▸ arrives).frames.symm.trans behind.frames
          have ips := congrArg Frame.ip (List.cons.inj frames).1
          change start + 8 = last + 1 at ips
          omega
      | some w =>
          obtain ⟨visit, goes, taken⟩ := walking.visits loop found
          have same := comes.unique goes (arrives.not_amid fun _ => Nat.lt_succ_self _)
            (taken.arrives.not_amid fun _ => Nat.lt_succ_self _)
          subst same
          have frames := arrives.frames.symm.trans taken.arrives.frames
          have operands : v :: .iterator id :: stack = w :: .iterator id :: stack :=
            congrArg Frame.stack (List.cons.inj frames).1
          obtain rfl : v = w := (List.cons.inj operands).1
          refine ⟨?_, fun j h u at_ => ?_⟩
          · rw [List.length_append]
            exact taken.completes loop onward there unused
          · rw [List.getElem?_append] at at_
            split at at_
            · exact items j h u at_
            · next late =>
                obtain ⟨here, last⟩ := List.getElem?_eq_some_iff.1 at_
                have here : j - trail.length < 1 := here
                obtain rfl : j = trail.length := by omega
                simp only [List.getElem_singleton, Prod.mk.injEq] at last
                obtain ⟨rfl, rfl⟩ := last
                exact found

end
end Activation
end ScriptMachine
