import ScriptMachine.Proofs.Host.Defects
import ScriptMachine.Proofs.Meaning.Bodies
import ScriptMachine.Proofs.Scopes.Provenance

/-!
The compiler preserves meaning. Every function that a unit declares becomes a method, and a machine
that runs this method from its beginning ends as evaluating the declared body does, whenever one of
the two comes to an end: with the same value or the same exception, and with the same heap, globals
and output. Local variables are in environments on the heap, so they are the same as well.
-/

namespace ScriptMachine

open Linked (Context)

/-! ## Loaded units -/

/-- The unit was loaded as a module, and its tables start at these offsets. -/
structure Heap.Loaded (h : Heap) (u : CompiledUnit) (id : ModuleId) (o : Offsets) : Prop where
  constants : (h.module id).constants = (u.constants.toList.map o.constant).toArray
  methods : ∀ k code, u.methods[k]? = some code → h.method (o.methods + k) = ⟨code, id⟩

theorem Heap.loaded_load (h : Heap) (u : CompiledUnit) :
    (h.load u).2.Loaded u (h.load u).1 h.offsets where
  constants := by
    change ((h.load u).2.module h.modules.size).constants = _
    rw [@Heap.module_push (h.load u).2 _ _ rfl]
  methods k code found := by
    obtain ⟨inside, rfl⟩ := Array.getElem?_eq_some_iff.1 found
    have place : ((h.methods ++ u.methods.toList.map (LoadedMethod.mk · h.modules.size)).push
        ⟨u.topLevel, h.modules.size⟩)[h.methods.size + k]?
          = some ⟨u.methods[k], h.modules.size⟩ := by
      rw [← Array.getElem?_toList, Array.toList_push, Array.toList_appendList, List.append_assoc,
        List.getElem?_append_right (by simp), Array.length_toList, Nat.add_sub_cancel_left,
        List.getElem?_append_left (by simpa using inside), List.getElem?_map, Array.getElem?_toList,
        found]
      rfl
    rw [Heap.method, Array.getD_eq_getD_getElem?]
    change Option.getD (Array.push _ _)[h.methods.size + k]? _ = _
    rw [place]
    rfl

theorem Heap.Loaded.kept {h h' : Heap} {u : CompiledUnit} {id : ModuleId} {o : Offsets}
    (loaded : h.Loaded u id o) (keeps : h.Keeps h') : h'.Loaded u id o where
  constants := (keeps.constants id).trans loaded.constants
  methods k code found := by
    rw [Heap.method, keeps.methods]
    exact loaded.methods k code found

/-- A call that a host makes takes nothing away from the heap. -/
theorem HostCall.keeps_heap (c : HostCall) (m : Machine) (steps : Nat) :
    m.heap.Keeps (c.after m steps).heap := by
  have same : (c.machine m).heap = m.heap := by cases c <;> rfl
  have begun := ((c.answers m).made.steady (c.machine m)).keeps_heap_perform
  rw [same] at begun
  exact begun.trans (Machine.keeps_heap_run _ steps)

/-! ## Activations from beginning to end -/

namespace Machine

/-- The machine is about to run a method from its beginning, in a frame on top of others. -/
structure Begins (m : Machine) (method : LoadedMethod) (top : Frame) (base : List Frame) :
    Prop where
  live : m.Live
  counted : m.Counted
  control : m.control = .running
  frames : m.frames = top :: base
  method : top.method = method
  start : top.ip = 0
  empty : top.stack = []

/-- A machine begins the method of its only frame when that has no operands and has not fetched an
instruction. -/
theorem begins_of_frames {m : Machine} (live : m.Live) (counted : m.Counted)
    (running : m.control = .running) {code : Method} {id : ModuleId}
    (only : m.frames.map (fun f => (f.method.code, f.method.module, f.ip, f.stack.length)) =
      [(code, id, 0, 0)]) : ∃ top, m.Begins ⟨code, id⟩ top [] := by
  obtain ⟨top, frames, facts⟩ := List.map_eq_singleton_iff.1 only
  simp only [Prod.mk.injEq, List.length_eq_zero_iff] at facts
  obtain ⟨same, module, start, empty⟩ := facts
  exact ⟨top, live, counted, running, frames, by rw [← same, ← module], start, empty⟩

/-- How a frame that began in `m` has come to an end in `n`, if evaluating what it runs came to an
end in `e`. -/
inductive Finishes (m : Machine) (top : Frame) (base : List Frame) (n e : Machine) :
    Except ExceptionId Value → Prop where
  /-- The frame is at the end of its code, and what it returns is on top. -/
  | returns {v : Value} (operands : List Value) : n.control = .running →
      n.frames = { top with ip := top.method.code.body.size, stack := v :: operands } :: base →
      n.handlers = m.handlers → n.World e → Finishes m top base n e (.ok v)
  /-- The exception was raised in the frame or above it, and the frame has no open region. -/
  | raises {id : ExceptionId} {k : Machine} (above : List Frame) (ip : Nat)
    (operands : List Value) :
      n = k.raise id → k.frames = above ++ { top with ip, stack := operands } :: base →
      k.handlers = m.handlers → World { n with current := some id } e →
      Finishes m top base n e (.error id)

variable {m : Machine} {method : LoadedMethod} {top : Frame} {base : List Frame}

/-- A frame that has not begun has no open regions. -/
theorem Begins.low (begins : m.Begins method top base) (some : method.code.body.size ≠ 0) :
    ∀ h ∈ m.handlers, h.frameDepth ≤ base.length := by
  obtain ⟨f, rest, l, below, frames, stands, stacked, handlers⟩ :=
    begins.live.standing begins.control
  obtain ⟨rfl, rfl⟩ := List.cons.inj (begins.frames.symm.trans frames)
  rcases stands with atEnd | ⟨⟨pool, sketch, runs, _⟩, flow, _⟩
  · rw [Frame.next?, begins.start, begins.method] at atEnd
    exact absurd (Nat.le_zero.1 (Array.getElem?_eq_none_iff.1 atEnd)) some
  · rw [begins.start] at flow
    obtain ⟨_, here⟩ := runs.admits.charted.follows flow
    have same := Option.some.inj (here.symm.trans runs.admits.charted.start)
    have closed : l.regions = [] := congrArg (·.layout.regions) same
    rw [handlers, Layout.handlers, closed]
    exact stacked.owned

/-- The activation that begins. -/
def Begins.activation (begins : m.Begins method top base) (some : method.code.body.size ≠ 0) :
    Activation where
  frame := top
  base := base
  below := m.handlers
  constants := (m.heap.module method.module).constants
  low := begins.low some

theorem Begins.here (begins : m.Begins method top base) (some : method.code.body.size ≠ 0) :
    (begins.activation some).At [] 0 [] m m where
  live := begins.live
  counted := begins.counted
  constants := by
    change (m.heap.module top.method.module).constants = _
    rw [begins.method]
    rfl
  stands := ⟨begins.counted, top, begins.frames, fun _ => rfl⟩
  world := .refl m
  frames := by
    rw [begins.frames]
    change _ = { top with ip := 0, stack := [] } :: base
    rw [← begins.start, ← begins.empty]
  handlers := rfl
  control := begins.control
  low := nofun

/-- It has the constants of its unit. -/
theorem Begins.holds {u : CompiledUnit} {id : ModuleId} {o : Offsets} {ctx : Context} {code : Method}
    (begins : m.Begins ⟨code, id⟩ top base) (some : code.body.size ≠ 0)
    (pool : ctx.pool = u.constants) (loaded : m.heap.Loaded u id o) {fuel : Nat} :
    (begins.activation some).Holds ctx ⟨fuel, o⟩ := by
  intro k c found
  change (m.heap.module id).constants[k]? = _
  rw [loaded.constants, List.getElem?_toArray, List.getElem?_map, Array.getElem?_toList, ← pool,
    found]
  rfl

end Machine

/-! ## Compiled functions -/

namespace Linked

/-- A method has code. -/
theorem Body.size_code_ne_zero (body : Body) (loc : Location) : (body.code loc).body.size ≠ 0 := by
  rw [Fragment.body, List.size_toArray, List.length_map]
  cases body <;> exact Nat.ne_of_gt (by rw [Body.code, List.length_append]; exact Nat.succ_pos _)

variable {f : Function} {ctx : Context} {u : CompiledUnit} {id : ModuleId} {o : Offsets}
  {m : Machine}
  {top : Frame} {base : List Frame}

/-- The method does what evaluating its body does. -/
theorem Function.realizes (valid : f.Valid ctx true) (names : f.body.TypesAreNames)
    (pool : ctx.pool = u.constants) (loaded : m.heap.Loaded u id o)
    (begins : m.Begins ⟨f.method, id⟩ top base) (fuel : Nat) :
    let a := begins.activation (f.body.size_code_ne_zero f.loc)
    a.Realizes [] fuel m ((f.body.eval ⟨fuel, o⟩ f.loc).result m) fun v n e =>
      ∃ operands, a.At [] a.body.size (v :: operands) n e := by
  intro a
  have holds : a.Holds ctx ⟨fuel, o⟩ := begins.holds _ pool loaded
  have code : a.body = (f.body.code f.loc).body := by
    change top.method.code.body = _
    rw [begins.method]
    rfl
  exact Body.realizes holds valid names code (begins.here _)

/-- Whatever evaluating the body comes to, the machine comes to it as well. -/
theorem Function.finishes (valid : f.Valid ctx true) (names : f.body.TypesAreNames)
    (pool : ctx.pool = u.constants) (loaded : m.heap.Loaded u id o)
    (begins : m.Begins ⟨f.method, id⟩ top base) {fuel : Nat} {r : Except ExceptionId Value}
    {e : Machine} (evaluated : (f.body.eval ⟨fuel, o⟩ f.loc).result m = some (r, e)) :
    ∃ count, (∀ k < count, base.length < (m.run k).calls.depth) ∧
      m.Finishes top base (m.run count) e r := by
  have realizes := Function.realizes valid names pool loaded begins fuel
  rw [evaluated] at realizes
  cases r with
  | ok v =>
      obtain ⟨count, inside, operands, there⟩ := Activation.realizes_ok.1 realizes
      exact ⟨count, inside, .returns operands there.control there.frames there.handlers there.world⟩
  | error x =>
      obtain ⟨count, inside, throws⟩ := Activation.realizes_error.1 realizes
      obtain ⟨k, above, ip, operands, raised, frames, handlers, _⟩ := throws.raised
      exact ⟨count, inside, .raises above ip operands raised frames handlers throws.world⟩

/-- If the machine leaves the frame, evaluating the body comes to an end. -/
theorem Function.evaluates (valid : f.Valid ctx true) (names : f.body.TypesAreNames)
    (pool : ctx.pool = u.constants) (loaded : m.heap.Loaded u id o)
    (begins : m.Begins ⟨f.method, id⟩ top base) {count : Nat}
    (left : (m.run count).calls.depth ≤ base.length) :
    ∃ r e, (f.body.eval ⟨count, o⟩ f.loc).result m = some (r, e) := by
  have realizes := Function.realizes valid names pool loaded begins count
  cases found : (f.body.eval ⟨count, o⟩ f.loc).result m with
  | some result => exact ⟨_, _, rfl⟩
  | none =>
      rw [found] at realizes
      exact absurd left (Nat.not_le.2 (realizes count (Nat.le_refl count)))

end Linked

/-- The compiler preserves meaning. Every function that a unit declares, in whose body handlers test
for bare names only, becomes a method that was made from it. If evaluating the body of the method
comes to an end, a machine that runs the method ends in the same way; and if a machine that runs the
method leaves it, evaluating its body comes to an end. -/
theorem compile_preserves_meaning {name file : String} {unit : List Stmt} {u : CompiledUnit}
    (compiled : compile name file unit = .ok u) :
    ∃ functions : Array Linked.Function, u.methods = functions.map Linked.Function.method ∧
      let ctx : Context := ⟨u.constants, functions, (resolve unit).scopes, (resolve unit).opened⟩
      ∀ decl scope, (.function decl, scope) ∈ (resolve unit).opened → AllTypesAreNames decl.body →
      ∃ (bases : Option (List String)) (index : Nat) (f : Linked.Function),
        functions[index]? = some f ∧ f.scope = scope ∧ f.MadeFrom ctx bases decl ∧
        ctx.Chains bases decl ∧
        ∀ (m : Machine) (id : ModuleId) (o : Offsets) (top : Frame) (base : List Frame),
          m.heap.Loaded u id o → m.Begins ⟨f.method, id⟩ top base →
          (∀ fuel r e, (f.body.eval ⟨fuel, o⟩ f.loc).result m = some (r, e) →
            ∃ count, (∀ k < count, base.length < (m.run k).calls.depth) ∧
              m.Finishes top base (m.run count) e r) ∧
          ∀ count, (m.run count).calls.depth ≤ base.length →
            ∃ fuel r e, (f.body.eval ⟨fuel, o⟩ f.loc).result m = some (r, e) := by
  obtain ⟨directory, clean, fine, constants, methods, _⟩ := compile_ok compiled
  obtain ⟨carries, _⟩ := @generate_fits _ clean directory true fun _ => fine
  refine ⟨_, methods, fun decl scope declared bare => ?_⟩
  obtain ⟨bases, index, f, found, place, made, chains⟩ := generate_makes clean directory declared
  have valid := (carries.functions f (Array.mem_of_getElem? found)).valid
  have names : f.body.TypesAreNames := by
    obtain ⟨chained, body, is, source, _⟩ := made.body
    rw [is]
    change AllTypesAreNames (Linked.sourceStmts body)
    rw [source]
    exact bare
  rw [constants]
  refine ⟨bases, index, f, found, place, made, chains,
    fun m id o top base loaded begins => ⟨?_, ?_⟩⟩
  · exact fun fuel r e => Linked.Function.finishes valid names constants.symm loaded begins
  · exact fun count left =>
      ⟨count, Linked.Function.evaluates valid names constants.symm loaded begins left⟩

/-- The function that leaves a loop in three ways, called with two items. The machine leaves it
after 34 steps, and evaluating its body comes to the same end. -/
theorem preserves_meaning_leavingLoop :
    let m := (HostCall.value (.method 0) [.tuple [.bool false, .int 3]]).after
      (Engine.loaded loopUnit).machine 0
    (m.run 34).calls.depth = 0 ∧
      ∃ (f : Linked.Function) (top : Frame), f.scope = 1 ∧ m.Begins ⟨f.method, 0⟩ top [] ∧
        ∃ fuel r e count,
          (f.body.eval ⟨fuel, ({} : Heap).offsets⟩ f.loc).result m = some (r, e) ∧
            m.Finishes top [] (m.run count) e r := by
  intro m
  have left : (m.run 34).calls.depth = 0 := by decide +kernel
  have declared :
      (resolve [.function {} leavingLoop]).opened[0]? = some (.function leavingLoop, 1) := rfl
  have bare : AllTypesAreNames leavingLoop.body :=
    ⟨⟨⟨trivial, trivial⟩, List.forall_mem_singleton.2 trivial, trivial⟩, trivial⟩
  obtain ⟨functions, methods, each⟩ := compile_preserves_meaning compile_loopUnit
  obtain ⟨bases, index, f, found, place, _, _, runs⟩ :=
    each leavingLoop 1 (Array.mem_of_getElem? declared) bare
  have only : loopUnit.methods.size = 1 := by decide +kernel
  have code : loopUnit.methods[0]? = some f.method := by
    obtain ⟨inside, _⟩ := Array.getElem?_eq_some_iff.1 found
    rw [methods, Array.size_map] at only
    obtain rfl : index = 0 := by omega
    rw [methods, Array.getElem?_map, found]
    rfl
  have shape : m.frames.map (fun f => (f.method.code, f.method.module, f.ip, f.stack.length))
      = loopUnit.methods.toList.map fun code => (code, 0, 0, 0) := by decide +kernel
  have alone : loopUnit.methods.toList = [f.method] := by
    refine List.ext_getElem? fun k => ?_
    cases k with
    | zero => rw [Array.getElem?_toList, code]; rfl
    | succ k => rw [Array.getElem?_toList, Array.getElem?_eq_none (by omega)]; rfl
  rw [alone, List.map_singleton] at shape
  have hosted := Engine.hosted_loaded compile_loopUnit
  obtain ⟨top, begins⟩ := Machine.begins_of_frames (hosted.after_live _ 0)
    (hosted.after_counted _ 0) (by decide +kernel) shape
  have loaded : m.heap.Loaded loopUnit 0 ({} : Heap).offsets :=
    (Heap.loaded_load {} loopUnit).kept (HostCall.keeps_heap _ (Engine.loaded loopUnit).machine 0)
  obtain ⟨finishes, evaluates⟩ := runs m 0 _ top [] loaded begins
  obtain ⟨fuel, r, e, evaluated⟩ := evaluates 34 (Nat.le_of_eq left)
  obtain ⟨count, _, ends⟩ := finishes fuel r e evaluated
  exact ⟨left, f, top, place, begins, fuel, r, e, count, evaluated, ends⟩

end ScriptMachine
