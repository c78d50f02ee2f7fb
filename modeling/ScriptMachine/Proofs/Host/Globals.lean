import ScriptMachine.Proofs.Host.Environments
import ScriptMachine.Proofs.Machine.Fetching

/-!
Global names. A name may be held in two places: in the table of names that belong to no module, and
among the attributes of a module. An assignment goes to the attribute if there is one, code reads
the table first, and a host reads the attribute of the module it ran last first. So the host always
sees what was assigned, and code does unless both places hold the name: then it goes on reading
what is in the table.
-/

namespace ScriptMachine

open ScriptMachine.Action

theorem Heap.attributes_setModuleAttribute {h : Heap} {id : ModuleId} {name : String} {old : Value}
    (held : (h.module id).attributes.get? name = some old) (v : Value) :
    ((h.setModuleAttribute id name v).module id).attributes.get? name = some v := by
  have known : id < h.modules.size := by
    by_contra unknown
    rw [Heap.module, Array.getD_eq_getD_getElem?, Array.getElem?_eq_none (Nat.not_lt.1 unknown)]
      at held
    cases held
  simp [Heap.module, Heap.setModuleAttribute, Array.getElem_modify, known]

/-- The module whose code the topmost frame runs. -/
theorem Action.result_askModule {m : Machine} {f : Frame} {rest : List Frame}
    (frames : m.frames = f :: rest) :
    (askFrame (·.method.module) 0).result m = (.ok f.method.module, m) := by
  unfold askFrame
  rw [result_ask, frames]

namespace Machine

/-- What is held under a name, in the table and among the attributes of a module. -/
def binding (m : Machine) (module : ModuleId) (name : String) : Option Value × Option Value :=
  (m.globals.get? name, (m.heap.module module).attributes.get? name)

variable {m n : Machine} {module : ModuleId} {name : String} {v : Value}

theorem global?_eq (m : Machine) (module : ModuleId) (name : String) :
    m.global? module name = (m.binding module name).1.or (m.binding module name).2 := rfl

/-- Assigning changes the attribute if there is one, and the table otherwise. -/
theorem binding_setGlobal (m : Machine) (module : ModuleId) (name : String) (v : Value) :
    (m.setGlobal module name v).binding module name
      = match m.binding module name with
        | (ambient, some _) => (ambient, some v)
        | (_, none) => (some v, none) := by
  unfold setGlobal binding
  cases held : (m.heap.module module).attributes.get? name with
  | none =>
      rw [Option.isSome_none, if_neg Bool.false_ne_true, Bindings.get?_set_self]
      dsimp only
      rw [held]
  | some old =>
      rw [Option.isSome_some, if_pos rfl]
      dsimp only
      rw [Heap.attributes_setModuleAttribute held]

theorem World.binding (world : m.World n) (module : ModuleId) (name : String) :
    m.binding module name = n.binding module name := by
  rw [Machine.binding, Machine.binding, world.globals, world.heap]

/-! ## Instructions on names -/

/-- The assignment of a global name that comes next: the module whose code it is in, the name and the
value. -/
def assignedGlobal? (m : Machine) : Option (ModuleId × String × Value) := do
  let (f, i) ← m.fetch?
  match i.op, m.constant? i.arg, f.stack with
  | .storeGlobal, some (.str name), v :: _ => some (f.method.module, name, v)
  | _, _, _ => none

/-- The reading of a global name that comes next: the module whose code it is in, and the name. -/
def readGlobal? (m : Machine) : Option (ModuleId × String) := do
  let (f, i) ← m.fetch?
  match i.op, m.constant? i.arg with
  | .loadGlobal, some (.str name) => some (f.method.module, name)
  | _, _ => none

theorem assignedGlobal?_eq_some (assigns : m.assignedGlobal? = some (module, name, v)) :
    ∃ f rest i s, m.Fetches f rest i ∧ i.op = .storeGlobal ∧ f.method.module = module ∧
      m.constant? i.arg = some (.str name) ∧ f.stack = v :: s := by
  obtain ⟨f, rest, i, fetches, assigns⟩ := fetches_of_bind_fetch? assigns
  dsimp only at assigns
  split at assigns
  · next s stores named stack =>
      cases assigns
      exact ⟨f, rest, i, s, fetches, stores, rfl, named, stack⟩
  · cases assigns

theorem readGlobal?_eq_some (reads : m.readGlobal? = some (module, name)) :
    ∃ f rest i, m.Fetches f rest i ∧ i.op = .loadGlobal ∧ f.method.module = module ∧
      m.constant? i.arg = some (.str name) := by
  obtain ⟨f, rest, i, fetches, reads⟩ := fetches_of_bind_fetch? reads
  dsimp only at reads
  split at reads
  · next loads named =>
      cases reads
      exact ⟨f, rest, i, fetches, loads, rfl, named⟩
  · cases reads

theorem binding_step_assigned (assigns : m.assignedGlobal? = some (module, name, v)) :
    m.step.binding module name = (m.setGlobal module name v).binding module name := by
  obtain ⟨f, rest, i, s, fetches, stores, rfl, named, stack⟩ := assignedGlobal?_eq_some assigns
  have here := fetches.frames_withStack s
  have done : (execute i).result (fetched m f i)
      = (.ok (), ((fetched m f i).withStack s).setGlobal f.method.module name v) := by
    rw [execute_storeGlobal stores ((fetches.constant? _).trans named) (fetches.stack.trans stack)]
    unfold writeGlobal
    rw [result_bind_ok (result_askModule here), result_change]
  have world : ((fetched m f i).withStack s).World m := by
    obtain ⟨h₁, h₂, h₃, h₄, h₅, h₆, h₇, h₈⟩ := (World.refl m).fetched f i
    exact ⟨h₁, h₂, h₃, h₄, h₅, h₆, h₇, h₈⟩
  rw [fetches.step done, binding_setGlobal, binding_setGlobal, world.binding]

/-- Reading a name gives what the table holds, or else what the module does. -/
theorem yields_global (reads : m.readGlobal? = some (module, name))
    (found : m.global? module name = some v) : m.Yields m.step 0 v := by
  obtain ⟨f, rest, i, fetches, loads, rfl, named⟩ := readGlobal?_eq_some reads
  have here := frames_fetched fetches.frames i
  have same : (fetched m f i).global? f.method.module name = some v := by
    rw [global?_eq, ((World.refl m).fetched f i).binding, ← global?_eq, found]
  have read : (global f.method.module name).result (fetched m f i) = (.ok v, fetched m f i) := by
    unfold global
    rw [result_bind_ok (result_askFor same)]
    rfl
  have done : (execute i).result (fetched m f i)
      = (.ok (), (fetched m f i).withStack (v :: f.stack.drop 0)) := by
    rw [execute_loadGlobal loads ((fetches.constant? _).trans named)]
    unfold readGlobal
    rw [result_bind_ok (result_askModule here), result_bind_ok read, result_push,
      fetches.stack]
    rfl
  rw [fetches.step done]
  exact fetches.yields 0 v

/-- What becomes of a value that code of a module assigned to a global name, as long as neither place
is changed. Code of the module that reads the name is given the value, unless both places held the
name before: then it is given what the table holds. A host that ran the module last finds the value
in any case, and calls it when it calls the name. -/
theorem assigned_global (assigns : m.assignedGlobal? = some (module, name, v)) :
    (∀ n : Machine, n.binding module name = m.step.binding module name →
      n.readGlobal? = some (module, name) →
      (m.globals.get? name = none ∨ (m.heap.module module).attributes.get? name = none →
        n.Yields n.step 0 v) ∧
      ∀ ambient own, m.globals.get? name = some ambient →
        (m.heap.module module).attributes.get? name = some own → n.Yields n.step 0 ambient) ∧
    ∀ e : Engine, e.main = some module →
      e.machine.binding module name = m.step.binding module name →
      e.lookup? name = some v ∧
      e.global? name = some (HostValue.ofValue e.machine.heap v) ∧
      ∀ args, e.call name args =
        match e.importValues args with
        | (.error cause, e) => (Engine.refused cause, e)
        | (.ok values, e) => e.callValue v values := by
  have stored := (binding_step_assigned assigns).trans (binding_setGlobal m module name v)
  unfold binding at stored
  refine ⟨fun n same reads => ⟨fun once => ?_, fun ambient own held also => ?_⟩,
    fun e ran same => ?_⟩
  · refine yields_global reads ?_
    rw [global?_eq, same, binding, stored]
    rcases once with none | none <;> rw [none]
    · cases (m.heap.module module).attributes.get? name <;> rfl
    · rfl
  · refine yields_global reads ?_
    rw [global?_eq, same, binding, stored, held, also]
    rfl
  · have found : e.lookup? name = some v := by
      have looked : e.lookup? name
          = (e.machine.binding module name).2.or (e.machine.binding module name).1 := by
        unfold Engine.lookup?
        rw [ran]
        rfl
      rw [looked, same, binding, stored]
      cases (m.heap.module module).attributes.get? name <;> rfl
    refine ⟨found, ?_, fun args => ?_⟩
    · rw [Engine.global?, found]
      rfl
    · unfold Engine.call
      generalize e.lookup? name = callee at found ⊢
      subst found
      rfl

end Machine

/-- A module with a function whose name another function assigns and then reads. -/
def reassigning : List Stmt :=
  [.function {} (.mk { name := "counter" } []), .function {} (.mk { name := "main" }
    [.expr {} (.assign {} (.name {} "counter") none (.int {} 5)),
      .ret {} (some (.name {} "counter"))])]

/-- The machine that has the module, with these names in the table. -/
def reassigningMachine (globals : Bindings Value) : Machine :=
  { (Engine.loaded (compiledUnit reassigning)).machine with globals }

/-- The integer that a value is. -/
def Value.int? : Value → Option Int64
  | .int value => some value
  | _ => none

theorem Value.eq_of_int? {v : Value} {value : Int64} (is : v.int? = some value) :
    v = .int value := by
  unfold int? at is
  split at is
  · cases is
    rfl
  · cases is

theorem Value.held_of_int? {held : Option Value} {value : Int64}
    (is : held.bind int? = some value) : held = some (.int value) := by
  obtain ⟨v, found, is⟩ := Option.bind_eq_some_iff.1 is
  rw [found, Value.eq_of_int? is]

namespace Machine

variable {m : Machine} {module : ModuleId} {name : String}

theorem assignedGlobal?_of_int {value : Int64}
    (assigns : m.assignedGlobal?.map (fun (module, name, v) => (module, name, v.int?))
      = some (module, name, some value)) : m.assignedGlobal? = some (module, name, .int value) := by
  obtain ⟨⟨_, _, v⟩, found, same⟩ := Option.map_eq_some_iff.1 assigns
  obtain ⟨rfl, rfl, is⟩ : _ = module ∧ _ = name ∧ v.int? = some value := by simpa using same
  rw [found, Value.eq_of_int? is]

/-- The integers held under a name, `none` where something else is held. -/
def heldInts (m : Machine) (module : ModuleId) (name : String) :
    Option (Option Int64) × Option (Option Int64) :=
  (m.binding module name).map (·.map Value.int?) (·.map Value.int?)

theorem binding_of_ints (ambient own : Option Int64)
    (held : m.heldInts module name = (ambient.map some, own.map some)) :
    m.binding module name = (ambient.map .int, own.map .int) := by
  have both {v : Option Value} {i : Option Int64} (same : v.map Value.int? = i.map some) :
      v = i.map .int := by
    cases v with
    | none => cases i <;> trivial
    | some v =>
        cases i with
        | none => cases same
        | some i => rw [Value.eq_of_int? (Option.some.inj same), Option.map_some]
  exact Prod.ext (both (Prod.mk.inj held).1) (both (Prod.mk.inj held).2)

end Machine

/-- The function reads what it assigned, and so does the host. -/
theorem assigned_global_reassigning :
    let m := (HostCall.value (.method 1) []).after (reassigningMachine [])
    (m 2).assignedGlobal? = some (0, "counter", .int 5) ∧
      (m 4).readGlobal? = some (0, "counter") ∧ (m 4).Yields (m 4).step 0 (.int 5) ∧
      ({ machine := m 8, main := some 0 } : Engine).lookup? "counter" = some (.int 5) := by
  intro m
  have assigns : (m 2).assignedGlobal? = some (0, "counter", .int 5) :=
    Machine.assignedGlobal?_of_int (by decide +kernel)
  have reads : (m 4).readGlobal? = some (0, "counter") := by decide +kernel
  have free : ((m 2).globals.get? "counter").isNone = true := by decide +kernel
  have stored : (m 2).step.binding 0 "counter" = (none, some (.int 5)) :=
    Machine.binding_of_ints none (some 5) (by decide +kernel)
  have kept : (m 4).binding 0 "counter" = (none, some (.int 5)) :=
    Machine.binding_of_ints none (some 5) (by decide +kernel)
  have last : (m 8).binding 0 "counter" = (none, some (.int 5)) :=
    Machine.binding_of_ints none (some 5) (by decide +kernel)
  obtain ⟨code, host⟩ := Machine.assigned_global assigns
  have yields := (code (m 4) (kept.trans stored.symm) reads).1
    (.inl (Option.isNone_iff_eq_none.1 free))
  exact ⟨assigns, reads, yields,
    (host { machine := m 8, main := some 0 } rfl (last.trans stored.symm)).1⟩

/-- If the table holds the name as well, the function goes on reading what is there, while the host
finds what was assigned. -/
theorem reassigning_ambient :
    let m := (HostCall.value (.method 1) []).after (reassigningMachine [("counter", .int 7)])
    (m 2).assignedGlobal? = some (0, "counter", .int 5) ∧
      (m 4).readGlobal? = some (0, "counter") ∧
      (m 4).binding 0 "counter" = (m 2).step.binding 0 "counter" ∧
      (m 4).Yields (m 4).step 0 (.int 7) ∧ ¬ (m 4).Yields (m 4).step 0 (.int 5) ∧
      (m 8).control = .returned (.int 7) ∧
      ({ machine := m 8, main := some 0 } : Engine).lookup? "counter" = some (.int 5) := by
  intro m
  have assigns : (m 2).assignedGlobal? = some (0, "counter", .int 5) :=
    Machine.assignedGlobal?_of_int (by decide +kernel)
  have reads : (m 4).readGlobal? = some (0, "counter") := by decide +kernel
  have stored : (m 2).step.binding 0 "counter" = (some (.int 7), some (.int 5)) :=
    Machine.binding_of_ints (some 7) (some 5) (by decide +kernel)
  have kept : (m 4).binding 0 "counter" = (some (.int 7), some (.int 5)) :=
    Machine.binding_of_ints (some 7) (some 5) (by decide +kernel)
  have last : (m 8).binding 0 "counter" = (some (.int 7), some (.int 5)) :=
    Machine.binding_of_ints (some 7) (some 5) (by decide +kernel)
  have yields : (m 4).Yields (m 4).step 0 (.int 7) :=
    Machine.yields_global reads (congrArg (fun b => b.1.or b.2) kept)
  have returns : (m 8).control.int? = some 7 := by decide +kernel
  refine ⟨assigns, reads, kept.trans stored.symm, yields, fun other => ?_,
    Control.eq_of_int? returns, congrArg (fun b => b.2.or b.1) last⟩
  have same := yields.unique other
  cases same

end ScriptMachine
