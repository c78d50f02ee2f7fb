import ScriptMachine.Proofs.Code.Certificate
import ScriptMachine.Proofs.Scopes.Outcome

/-!
Compiled code is well formed. The second pass makes valid linked trees, the code of valid trees
is typed, and typed code has a certificate that all paths through it keep to.
-/

namespace ScriptMachine

/-- A unit compiles if neither pass complains, and then holds what the second pass made. -/
theorem compile_ok {name file : String} {unit : List Stmt} {u : CompiledUnit}
    (compiled : compile name file unit = .ok u) :
    ∃ directory, (resolve unit).errors = [] ∧
      (generate directory (resolve unit).scopes unit).2.errors = [] ∧
      u.constants = (generate directory (resolve unit).scopes unit).2.constants ∧
      u.methods
        = (generate directory (resolve unit).scopes unit).2.functions.map Linked.Function.method ∧
      u.topLevel = Method.moduleBody
        (Linked.codeUnit (generate directory (resolve unit).scopes unit).1).body := by
  refine ⟨(Path.parent? file).getD "", ?_⟩
  simp only [compile] at compiled
  split at compiled
  · cases compiled
  · next clean =>
    split at compiled
    · cases compiled
    · next fine =>
      cases compiled
      exact ⟨not_not.1 clean, not_not.1 fine, rfl, rfl, rfl⟩

/-- The code of a valid method has a certificate. -/
theorem Linked.Function.certified {ctx : Linked.Context} {f : Linked.Function}
    (valid : f.Valid ctx true) : Certified ctx.pool f.method.body :=
  (Linked.Body.typed valid).certified

/-- All code of a compiled unit has certificates for the constants of the unit. -/
theorem compile_certified {name file : String} {unit : List Stmt} {u : CompiledUnit}
    (compiled : compile name file unit = .ok u) :
    Certified u.constants u.topLevel.body ∧
      ∀ m ∈ u.methods, Certified u.constants m.body := by
  obtain ⟨directory, clean, fine, constants, methods, topLevel⟩ := compile_ok compiled
  obtain ⟨carries, valid⟩ := @generate_fits _ clean directory true fun _ => fine
  rw [constants, methods, topLevel]
  refine ⟨(Linked.codeUnit_typed valid).certified, fun m member => ?_⟩
  obtain ⟨f, added, rfl⟩ := Array.mem_map.1 member
  exact Linked.Function.certified (carries.functions f added).valid

/-- Every method of a compiled unit is well formed, and so is its top level. The nested
functions and lambdas in the constant pool are among the methods. -/
theorem compile_wellFormed {name file : String} {unit : List Stmt} {u : CompiledUnit}
    (compiled : compile name file unit = .ok u) :
    u.topLevel.WellFormed ∧ (∀ m ∈ u.methods, m.WellFormed) ∧
      ∀ k, .method k ∈ u.constants → ∃ m, u.methods[k]? = some m ∧ m.WellFormed := by
  obtain ⟨⟨_, top⟩, bodies⟩ := compile_certified compiled
  have each : ∀ m ∈ u.methods, m.WellFormed := by
    intro m member
    obtain ⟨_, certified⟩ := bodies m member
    exact certified.wellFormed
  refine ⟨top.wellFormed, each, fun k held => ?_⟩
  obtain ⟨directory, clean, fine, constants, methods, _⟩ := compile_ok compiled
  obtain ⟨carries, _⟩ := @generate_fits _ clean directory true fun _ => fine
  have inside : k < u.methods.size := by
    rw [methods, Array.size_map]
    exact carries.nested k (constants ▸ held)
  exact ⟨u.methods[k], Array.getElem?_eq_getElem inside, each _ (Array.getElem_mem inside)⟩

/-- A function that leaves a protected region inside a loop in three ways. -/
def leavingLoop : FuncDecl :=
  .mk { name := "search", params := ["items"] }
    [.foreach {} "item" (.name {} "items")
      (.tryExcept {}
        (.ifElse {} (.name {} "item") (.ret {} (some (.name {} "item"))) (some (.continueLoop {})))
        (some "e") [.name {} "Error"] (.breakLoop {}))]

/-- It compiles, and the methods that come out are well formed. -/
theorem compile_leavingLoop : ∃ u, compile "m" "m" [.function {} leavingLoop] = .ok u ∧
    u.topLevel.WellFormed ∧ (∀ m ∈ u.methods, m.WellFormed) ∧
      ∀ k, .method k ∈ u.constants → ∃ m, u.methods[k]? = some m ∧ m.WellFormed := by
  have clean : (resolve [.function {} leavingLoop]).errors = [] := by decide +kernel
  have fine : (generate ((Path.parent? "m").getD "") (resolve [.function {} leavingLoop]).scopes
      [.function {} leavingLoop]).2.errors = [] := by decide +kernel
  obtain ⟨u, compiled⟩ : ∃ u, compile "m" "m" [.function {} leavingLoop] = .ok u := by
    simp only [compile, clean, fine]
    exact ⟨_, rfl⟩
  exact ⟨u, compiled, compile_wellFormed compiled⟩

end ScriptMachine
