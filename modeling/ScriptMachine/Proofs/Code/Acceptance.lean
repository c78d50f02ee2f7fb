import ScriptMachine.Proofs.Code.GeneratorReports
import ScriptMachine.Proofs.Code.ResolverReports

/-!
The compiler accepts a unit exactly if it follows all rules of the language. The second pass runs
only on units that the first has accepted, and each pass answers for its own rules.
-/

namespace ScriptMachine

/-- In a unit that the first pass accepts, the second complains of broken rules and of names that
are declared again, and of nothing else. -/
theorem generate_errors {unit : List Stmt} (directory : String) (scopes : ScopeTable)
    (resolves : ∀ site ∈ sitesOfUnit unit, site.Resolves) :
    (generate directory scopes unit).2.errors = [] ↔
      (∀ site ∈ sitesOfUnit unit, site.Generates) ∧ (declaredNamesOf unit).Nodup := by
  rw [← fresh_empty]
  exact ((Generator.rootStmts_binds unit resolves).errors _).trans (and_iff_right rfl)

/-- A unit compiles exactly if neither pass complains. -/
theorem compile_isOk (name file : String) (unit : List Stmt) :
    (∃ compiled, compile name file unit = .ok compiled) ↔ (resolve unit).errors = [] ∧
      (generate ((Path.parent? file).getD "") (resolve unit).scopes unit).2.errors = [] := by
  simp only [compile]
  split
  · next complaints =>
      exact iff_of_false (fun ⟨_, ok⟩ => nomatch ok) fun clean => complaints clean.1
  · next first =>
      rw [and_iff_right (Decidable.not_not.1 first)]
      split
      · next complaints => exact iff_of_false (fun ⟨_, ok⟩ => nomatch ok) complaints
      · next second => exact iff_of_true ⟨_, rfl⟩ (Decidable.not_not.1 second)

/-- The compiler accepts exactly the units that follow all rules. -/
theorem compile_accepts_admissible (name file : String) (unit : List Stmt) :
    (∃ compiled, compile name file unit = .ok compiled) ↔ Admissible unit := by
  rw [compile_isOk, admissible_iff, resolve_errors, and_assoc]
  exact and_congr_right fun resolves => generate_errors _ _ resolves

end ScriptMachine
