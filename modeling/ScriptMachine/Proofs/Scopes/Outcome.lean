import ScriptMachine.Proofs.Scopes.Passes

/-!
What both passes leave behind when the first one finds nothing to complain about: the second
pass has walked the whole scope tree, and everything it made fits the unit.
-/

namespace ScriptMachine

open Linked (Context)

/-- The unit as both passes leave it. -/
def contextOf (resolved : Resolver) (g : Generator) : Context :=
  ⟨g.constants, g.functions, resolved.scopes, resolved.opened⟩

theorem Resolver.Ready.start : Resolver.Ready false {} :=
  ⟨⟨ScopeTable.tree_empty, rfl⟩, by decide⟩

/-- The second pass begins where the first one did. -/
theorem InStep.start (T : ScopeTable) (directory : String) :
    InStep T {} { scopes := T.reset, directory } := by
  refine ⟨rfl, ⟨(ScopeTable.revisits_reset T).size, fun j => ?_⟩, rfl⟩
  rw [(ScopeTable.revisits_reset T).scopes]
  cases j <;> rfl

section

variable {unit : List Stmt}

theorem resolve_advances (unit : List Stmt) : Resolver.Advances {} (resolve unit) :=
  (Passes.rootStmts unit {} .start).1

variable (clean : (resolve unit).errors = []) (directory : String)

include clean

theorem generate_inStep : InStep (resolve unit).scopes (resolve unit)
    (generate directory (resolve unit).scopes unit).2 := by
  obtain ⟨step, inner⟩ := Passes.rootStmts unit {} .start
  exact (inner clean _ _ step.sound.tree (.refl _) (.start _ directory)).1

theorem generate_fits {accepted : Bool}
    (fine : accepted = true → (generate directory (resolve unit).scopes unit).2.errors = []) :
    let g := (generate directory (resolve unit).scopes unit).2
    (contextOf (resolve unit) g).Carries accepted g ∧
      ∀ s ∈ (generate directory (resolve unit).scopes unit).1,
        s.Valid (contextOf (resolve unit) g) accepted := by
  obtain ⟨step, inner⟩ := Passes.rootStmts unit {} .start
  obtain ⟨_, _, facts⟩ := inner clean _ _ step.sound.tree (.refl _) (.start _ directory)
  obtain ⟨carries, valid⟩ :=
    facts (contextOf (resolve unit) _) accepted ⟨rfl, .refl _, .refl _, .refl _, fine⟩ trivial
  refine ⟨carries ⟨fun f member => ?_, fun k held => ?_, fun f member => ?_⟩, valid⟩
  · cases Array.mem_toList_iff.2 member
  · cases Array.mem_toList_iff.2 held
  · cases Array.mem_toList_iff.2 member

end
end ScriptMachine
