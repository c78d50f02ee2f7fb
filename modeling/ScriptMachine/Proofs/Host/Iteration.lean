import ScriptMachine.Proofs.Host.Meaning
import ScriptMachine.Proofs.Meaning.Foreach

/-!
All ways to go through a built-in iterable. A loop visits the same items as a builtin that collects
the value and as an iterator of the value that is drained after a reset. The loop may take its time:
what its body does to a tuple, a string or a map does not matter, and a list is looked at when a
round begins, so that items that were appended meanwhile are visited.
-/

namespace ScriptMachine

open ScriptMachine.Action

/-! ## Machines of a host -/

section

variable {i : IteratorId}

theorem Offsets.avoids_value (o : Offsets) (binding : Binding) : Avoids i (o.value binding) := by
  cases binding <;> exact Value.passes_of_isPlain rfl

theorem Offsets.avoids_constant (o : Offsets) (constant : Constant) :
    Avoids i (o.constant constant) := by
  cases constant with
  | names items => exact (Value.passes_tuple _).2 (Value.passes_strs _ _)
  | _ => exact Value.passes_of_isPlain rfl

/-- Nothing refers to an iterator on a heap that is empty. -/
theorem Heap.lacks_empty : ({} : Heap).Lacks i :=
  have none : Avoids i (#[] : Array Value) := fun v member => absurd member (Array.not_mem_empty v)
  { lists := fun _ => none
    maps := fun _ => Table.passes_empty
    envs := fun _ => none
    closures := fun _ => passes_none
    classes := fun _ => passes_nil
    instances := fun _ => passes_nil
    constants := fun _ => none
    globals := fun _ => passes_nil
    iterators := fun _ => Value.passes_of_isPlain rfl }

theorem Offsets.avoids_values (o : Offsets) (bindings : Bindings Binding) :
    Avoids i (bindings.map fun (name, binding) => (name, o.value binding) : Bindings Value) := by
  intro entry member
  obtain ⟨_, _, rfl⟩ := List.mem_map.1 member
  exact ⟨trivial, o.avoids_value _⟩

/-- What a unit brings refers to no iterator. -/
theorem Heap.Lacks.load {h : Heap} (lacks : h.Lacks i) (u : CompiledUnit) :
    (h.load u).2.Lacks i := by
  have constants : Avoids i (u.constants.toList.map h.offsets.constant).toArray := by
    refine passes_toArray.2 fun v member => ?_
    obtain ⟨_, _, rfl⟩ := List.mem_map.1 member
    exact h.offsets.avoids_constant _
  have globals := h.offsets.avoids_values (i := i) u.attributes
  have declared (c : ClassObject) (member : c ∈ u.classes.toList.map h.offsets.cls) :
      Avoids i c.attributes := by
    obtain ⟨_, _, rfl⟩ := List.mem_map.1 member
    exact h.offsets.avoids_values _
  exact { lacks with
    classes := forall_getD_append (P := fun c : ClassObject => Avoids i c.attributes)
      lacks.classes declared
    constants := forall_getD_push (P := fun m : ModuleObject => Avoids i m.constants)
      lacks.constants constants
    globals := forall_getD_push (P := fun m : ModuleObject => Avoids i m.attributes)
      lacks.globals globals }

theorem Engine.sealed_loaded (u : CompiledUnit) : (Engine.loaded u).machine.Sealed := by
  intro i _
  exact {
    heap := ⟨Heap.lacks_empty.load u, rfl, Nat.zero_le _⟩
    frames := trivial
    control := trivial
    globals := passes_nil
    foreign := fun _ _ _ _ _ => ⟨Value.not_refersTo_of_isPlain rfl, trivial⟩
    there := fun some => absurd rfl some }

end

/-- A host that calls a value has no iterators that were not made. -/
theorem Machine.Sealed.call {m : Machine} (sealed : m.Sealed) (c : HostCall)
    (given : ∀ callee args, c = .value callee args → ∀ i, m.heap.iterators.size ≤ i →
      Avoids i callee ∧ Avoids i args) (steps : Nat) : (c.after m steps).Sealed := by
  have prepared : (c.machine m).Sealed := by
    intro i beyond
    cases c with
    | module id => exact { sealed i beyond with control := trivial }
    | value callee args => exact { sealed i beyond with control := trivial }
  have careful (i : IteratorId) (beyond : (c.machine m).heap.iterators.size ≤ i) :
      Careful (Secret.unmade (c.machine m).heap.iterators.size i).discipline (c.action m) :=
    c.careful m fun callee args same => given callee args same i (c.heap_machine m ▸ beyond)
  exact (prepared.perform careful).run steps

/-! ## One sequence -/

/-- Collecting the value gives these items, and so does draining its iterator after a reset. -/
structure Machine.Enumerates (m : Machine) (x : Value) (items : List Value) : Prop where
  collects : ∀ pending act pending', Collects x pending act pending' → Gathers m act items pending'
  drains : ∃ it h₁ h₂ h₃, Produces (iterate x maxDelegation) m.heap it h₁ ∧
    Produces (resetIter it) h₁ .null h₂ ∧ Drains it h₂ items h₃

/-- A loop that has made some rounds follows a walk over the value, which began on the heap `h₀`.
Each round had the item of its number, and the machine goes on to a round with the next item, or out
of the loop if there is none. -/
structure Activation.Follows (a : Activation) (regions : List Protection) (x : Value) (h₀ : Heap)
    (it : Value) (stack : List Value) (first last : Nat) (trail : List (Heap × Value))
    (n : Machine) :
    Prop where
  visited : ∀ j h v, trail[j]? = some (h, v) → x.item? h₀ h j = some v
  next : ∀ v, x.item? h₀ n.heap trail.length = some v →
    ∃ o, a.Comes regions (first + 3) (first + 7) n o ∧
      a.Arrives regions (first + 8) (v :: it :: stack) o
  ends : x.item? h₀ n.heap trail.length = none →
    ∃ o, a.Comes regions (first + 3) (last + 1) n o ∧ a.Arrives regions (last + 2) stack o

section

variable {a : Activation} {regions : List Protection} {it x : Value} {h₀ : Heap}
  {stack items : List Value} {start first last : Nat} {trail : List (Heap × Value)}
  {m n : Machine}

/-- If the value is not modified, a loop visits its items one after the other, and all of them by
the time it ends. -/
theorem Activation.Follows.unmodified (follows : a.Follows regions x h₀ it stack first last trail n)
    (lists : ∀ p ∈ trail, x.Lists h₀ p.1 items) (still : x.Lists h₀ n.heap items) :
    trail.map Prod.snd <+: items ∧
      (x.item? h₀ n.heap trail.length = none → trail.map Prod.snd = items) := by
  have item (j : Nat) (few : j < trail.length) : (trail.map Prod.snd)[j]? = items[j]? := by
    have found := List.getElem?_eq_getElem few
    rw [List.getElem?_map, found, lists _ (List.getElem_mem few) j]
    exact (follows.visited j _ _ found).symm
  have same : trail.map Prod.snd = items.take trail.length := by
    refine List.ext_getElem? fun j => ?_
    by_cases few : j < trail.length
    · rw [item j few, List.getElem?_take_of_lt few]
    · rw [List.getElem?_eq_none (by rw [List.length_map]; omega),
        List.getElem?_eq_none (by rw [List.length_take]; omega)]
  refine ⟨same ▸ List.take_prefix _ _, fun none => ?_⟩
  rw [← still] at none
  rw [same, List.take_of_length_le (List.getElem?_eq_none_iff.1 none)]

/-- A value that can be walked enumerates its items. -/
theorem Machine.enumerates (iterable : x.IsIterable m.heap) (lists : x.Lists m.heap m.heap items) :
    m.Enumerates x items := by
  obtain ⟨source, walk, same⟩ := Value.exists_walk? iterable
  have lists : source.Lists m.heap items := fun k => (lists k).trans (same _ k).symm
  refine ⟨fun _ _ pending' collects => ?_, drains_iterate walk lists⟩
  rw [collects.eq]
  exact gathers_collect walk lists pending'

variable {ctx : Linked.Context} {slots : Nat} {inLoop : Bool} {nest : Nest} {exits : Exits}
  {loc : Location} {item : String} {ref : Linked.Ref} {iterable : Linked.Expr} {body : Linked.Stmt}

/-- All ways to go through a built-in iterable agree. A loop has made its iterator, or reset the one
it was given, when it first looks for an item. Then, as long as its body completes, the round with
each number visits the item with that number: of a list the item that is there when the round
begins, of a tuple, a string or a map one of those that were there when the loop began, whatever
happens to the value meanwhile, and of an iterator one of its full sequence, if the body does not
use it. After the last item the loop ends. If the value is not modified the loop so visits the items
that any builtin collects from it, which are those that its iterator shows after a reset. -/
theorem walks_agree
    (valid : (Linked.Stmt.foreach loc item ref iterable body).Valid ctx true slots inLoop)
    (count : nest.regions = regions.length)
    (value : first = start + (iterable.code start).length)
    (round : last = first + 9 + (body.code nest.inLoop (first + 9)).length)
    (placed : a.Placed exits start
      ((Linked.Stmt.foreach loc item ref iterable body).code nest start) (last + 2))
    (here : a.Arrives regions first (x :: stack) m) (low : ∀ p ∈ regions, p.floor <:+ stack)
    (sealed : m.Sealed) (walkable : x.IsIterable m.heap) :
    (∃ it begun, a.Comes regions first (first + 2) m begun ∧
      a.Arrives regions (first + 3) (it :: stack) begun ∧
      ∀ trail n, a.Rounds regions x it stack first last begun trail n →
        a.Follows regions x m.heap it stack first last trail n ∧
        ∀ items, (∀ p ∈ trail, x.Lists m.heap p.1 items) → x.Lists m.heap n.heap items →
          trail.map Prod.snd <+: items ∧
            (x.item? m.heap n.heap trail.length = none → trail.map Prod.snd = items)) ∧
    ∀ k : Machine, x.IsIterable k.heap →
      x.Endless k.heap ∨ ∃ items, x.Lists k.heap k.heap items ∧ k.Enumerates x items := by
  have loop := Activation.Placed.foreach value round placed valid count
  obtain ⟨source, walk, same⟩ := Value.exists_walk? walkable
  obtain ⟨id, begun, comes, walking⟩ := loop.begins here low sealed walk
  refine ⟨⟨.iterator id, begun, comes, walking.arrives, fun trail n rounds => ?_⟩, ?_⟩
  · obtain ⟨walking', visited⟩ := rounds.walking loop low walking
    have follows : a.Follows regions x m.heap (.iterator id) stack first last trail n := by
      refine ⟨fun j h v found => (same h j).symm.trans (visited j h v found), fun v found => ?_,
        fun none => ?_⟩
      · obtain ⟨o, goes, taken⟩ := walking'.visits loop ((same _ _).trans found)
        exact ⟨o, goes, taken.arrives⟩
      · have inside := loop.inside
        obtain ⟨o, goes, _, drops, left⟩ := walking'.leaves loop low ((same _ _).trans none)
        exact ⟨_, (goes.widen (Nat.le_refl _) (by omega)).trans
          (drops.widen (by omega) (Nat.le_refl _)), left⟩
    exact ⟨follows, fun items => follows.unmodified⟩
  · intro k iterable
    by_cases endless : x.Endless k.heap
    · exact .inl endless
    · obtain ⟨items, lists⟩ := Value.exists_lists iterable endless k.heap
      exact .inr ⟨items, lists, Machine.enumerates iterable lists⟩

end

/-- A function that walks over a string. -/
def spelling : List Stmt :=
  [.function {} (.mk { name := "main" } [.foreach {} "c" (.str {} "ab") (.block {} [])])]

/-- The machine when the function has been called. -/
def spellingMachine : Machine :=
  (HostCall.value (.method 0) []).after (Engine.loaded (compiledUnit spelling)).machine 0

theorem spellingMachine_begins : ∃ top, spellingMachine.Begins
    ⟨(compiledUnit spelling).methods.getD 0 default, 0⟩ top [] := by
  have shape : spellingMachine.frames.map (fun f => (f.method.code, f.method.module, f.ip,
      f.stack.length)) = [((compiledUnit spelling).methods.getD 0 default, 0, 0, 0)] := by
    decide +kernel
  have hosted : (Engine.loaded (compiledUnit spelling)).Hosted :=
    Engine.hosted_loaded (compile_compiledUnit (by decide +kernel))
  exact Machine.begins_of_frames (hosted.after_live _ 0) (hosted.after_counted _ 0)
    (by decide +kernel) shape

theorem spellingMachine_sealed : spellingMachine.Sealed :=
  (Engine.sealed_loaded _).call _ (fun _ _ same i _ => by
    cases same
    exact ⟨Value.passes_of_isPlain rfl, passes_nil⟩) 0

/-- The loop over the string visits both letters and ends. Both are collected from the string. -/
theorem walks_agree_spelling : ∃ (a : Activation) (it : Value) (begun n o : Machine)
    (trail : List (Heap × Value)), a.Rounds [] (.str "ab") it [] 1 10 begun trail n ∧
      a.Comes [] 1 3 spellingMachine.step begun ∧ trail.map Prod.snd = [.str "a", .str "b"] ∧
      a.Comes [] 4 11 n o ∧ a.Arrives [] 12 [] o ∧
      o.Enumerates (.str "ab") [.str "a", .str "b"] := by
  obtain ⟨top, begins⟩ := spellingMachine_begins
  let pool : Array Constant := #[.str "ab"]
  let loop : Linked.Stmt := .foreach {} "c" (.slot 0) (.str {} ⟨"ab", 0⟩) (.block {} [])
  have constants : (compiledUnit spelling).constants = pool := by decide +kernel
  have nonempty : ((compiledUnit spelling).methods.getD 0 default).body.size ≠ 0 := by
    decide +kernel
  have loaded : spellingMachine.heap.Loaded (compiledUnit spelling) 0 ({} : Heap).offsets :=
    (Heap.loaded_load {} (compiledUnit spelling)).kept
      (HostCall.keeps_heap _ (Engine.loaded (compiledUnit spelling)).machine 0)
  let a := begins.activation nonempty
  have holds : a.Holds ⟨pool, #[], {}, #[]⟩ ⟨0, ({} : Heap).offsets⟩ :=
    begins.holds nonempty constants.symm loaded
  have placed : a.Placed {} 0 (loop.code {} 0) (10 + 2) := by
    have body : a.body = ((compiledUnit spelling).methods.getD 0 default).body :=
      congrArg (·.code.body) begins.method
    have same : ∀ k < 12, ((compiledUnit spelling).methods.getD 0 default).body[k]? =
        (loop.code {} 0)[k]?.map fun slot => (slot.close 0 0).instruction := by decide +kernel
    refine ⟨fun k slot found => ?_, by decide +kernel, ?_⟩
    · have small : k < 12 := (List.getElem?_eq_some_iff.1 found).1
      rw [body, Nat.zero_add, same k small, found]
      rfl
    · rw [body]
      decide +kernel
  have here : a.At [] 1 [.str "ab"] spellingMachine.step spellingMachine :=
    (begins.here nonempty).loadConst placed.head (holds (show pool[0]? = some (.str "ab") from rfl))
  have valid : loop.Valid ⟨pool, #[], {}, #[]⟩ true 1 false := by
    rw [Linked.Stmt.Valid, Linked.Expr.Valid, Linked.Stmt.Valid]
    exact ⟨rfl, Nat.zero_lt_one, trivial⟩
  obtain ⟨⟨it, begun, comes, _, rounds⟩, enumerates⟩ :=
    walks_agree valid rfl rfl rfl placed here.arrives nofun spellingMachine_sealed.step trivial
  -- the body stores the letter and jumps back
  have body (v : Value) (n : Machine) (arrives : a.Arrives [] 9 [v, it] n) :
      a.Comes [] 9 10 n n.step.step ∧ a.Arrives [] 4 [it] n.step.step := by
    have stored := arrives.storesLocal (placed.slots 9 _ rfl) nofun
    have jumped := stored.jump (placed.slots 10 _ rfl)
    refine ⟨?_, jumped.arrives⟩
    exact (arrives.comes_step.widen (Nat.le_refl _) (by decide)).trans
      (stored.comes_step.widen (by decide) (Nat.le_refl _))
  have zeroth : a.Rounds [] (.str "ab") it [] 1 10 begun [] begun := .start
  obtain ⟨⟨_, next, _⟩, _⟩ := rounds [] begun zeroth
  obtain ⟨n₁, goes₁, visit₁⟩ := next (.str "a") rfl
  obtain ⟨round₁, back₁⟩ := body _ _ visit₁
  have first := zeroth.round goes₁ visit₁ round₁ back₁ nofun
  obtain ⟨⟨_, next, _⟩, _⟩ := rounds _ _ first
  obtain ⟨n₂, goes₂, visit₂⟩ := next (.str "b") rfl
  obtain ⟨round₂, back₂⟩ := body _ _ visit₂
  have second := first.round goes₂ visit₂ round₂ back₂ nofun
  obtain ⟨⟨_, _, ends⟩, _⟩ := rounds _ _ second
  obtain ⟨o, leaves, behind⟩ := ends rfl
  refine ⟨a, it, begun, _, o, _, second, comes, rfl, leaves, behind, ?_⟩
  rcases enumerates o trivial with ⟨_, _, _, _, _, wrong, _⟩ | ⟨items, lists, enumerates⟩
  · cases wrong
  · have same : items = [.str "a", .str "b"] := List.ext_getElem? lists
    exact same ▸ enumerates

end ScriptMachine
