import ScriptMachine.Proofs.Code.Operands
import ScriptMachine.Proofs.Scopes.Outcome

/-!
The two passes agree on scopes. When the first pass finds nothing to complain about, the second
one walks into every scope the first one opened, once and in the same order, each time for the
same part of the unit, and ends at the root, whether or not it complains itself. So every method
gets the slots and, where it is loaded, the closure that its scope calls for.
-/

namespace ScriptMachine

/-- The second pass, which left `code` and `g` behind, has replayed the scopes of the first. -/
structure Replay (resolved : Resolver) (code : List Linked.Root) (g : Generator) : Prop where
  /-- Each part of the unit that has a scope walked into the scope opened for it. -/
  entered : g.entered = resolved.opened
  /-- Every scope below the root was opened, and so walked into, exactly once. -/
  once : g.entered.toList.map Prod.snd = List.range' 1 (resolved.scopes.scopes.size - 1)
  /-- No scope was opened afresh. -/
  size : g.scopes.scopes.size = resolved.scopes.scopes.size
  /-- The scopes are those of the first pass, and the children of all have been walked into. -/
  scopes : ∀ j, g.scopes.scope j =
    { resolved.scopes.scope j with visited := (resolved.scopes.scope j).children.length }
  /-- The walk ends at the root. -/
  back : g.scopes.current = ScopeTable.root
  /-- A method has as many slots as the boundary of its scope handed out in the end. -/
  counted : ∀ f ∈ g.functions, f.localCount
    = (resolved.scopes.scope (resolved.scopes.boundaryOf f.scope)).slotCount
  /-- In the code of every method, nested functions and lambdas whose scope is not a boundary,
  and only they, are made closures. -/
  methods : ∀ f ∈ g.functions,
    LoadsMethods (contextOf resolved g) f.localCount f.method.body.toList
  /-- So they are at module level. -/
  topLevel : LoadsMethods (contextOf resolved g) 0 (Linked.codeUnit code).body.toList

/-- A scope that belongs to something is not the root. -/
theorem Resolver.Sound.opened_pos {r : Resolver} (sound : r.Sound) {owner : ScopeOwner} {j : Nat}
    (logged : (owner, j) ∈ r.opened) : j ≠ 0 := by
  have member : j ∈ r.opened.toList.map Prod.snd :=
    List.mem_map.2 ⟨_, Array.mem_toList_iff.2 logged, rfl⟩
  rw [sound.numbered, List.mem_range'_1] at member
  omega

/-- The second pass replays the scopes of the first if that one has no complaints. -/
theorem generate_replays {unit : List Stmt} (clean : (resolve unit).errors = [])
    (directory : String) :
    Replay (resolve unit) (generate directory (resolve unit).scopes unit).1
      (generate directory (resolve unit).scopes unit).2 := by
  have step := resolve_advances unit
  have inStep := generate_inStep clean directory
  obtain ⟨carries, valid⟩ := @generate_fits _ clean directory false nofun
  refine ⟨inStep.entered, ?_, inStep.again.size, inStep.again.scopes,
    inStep.current.trans step.current, fun f member => ?_, fun f member => ?_, ?_⟩
  · rw [inStep.entered]
    exact step.sound.numbered
  · obtain ⟨_, counted, owner, logged⟩ := carries.functions f member
    rw [counted, ScopeTable.slotsOf, if_neg (step.sound.opened_pos logged)]
    rfl
  · exact (Linked.Body.tidy (carries.functions f member).valid).loadsMethods
  · exact (Linked.codeUnit_tidy valid).loadsMethods

/-- A unit with a lambda at module level, and one inside a block of a function that it shares
its slots with. -/
def nestedLambdas : List Stmt :=
  [.expr {} (.assign {} (.name {} "twice") none
      (.lambda {} (.mk { name := "outer", params := ["x"] } [.ret {} (some (.name {} "x"))]))),
    .function {} (.mk { name := "count", params := ["n"] }
      [.block {} [.expr {} (.assign {} (.name {} "step") none
        (.lambda {} (.mk { name := "inner" } [.ret {} (some (.name {} "n"))])))]])]

theorem replays_nestedLambdas : (resolve nestedLambdas).errors = [] ∧
    Replay (resolve nestedLambdas) (generate "" (resolve nestedLambdas).scopes nestedLambdas).1
      (generate "" (resolve nestedLambdas).scopes nestedLambdas).2 := by
  have clean : (resolve nestedLambdas).errors = [] := by decide +kernel
  exact ⟨clean, generate_replays clean ""⟩

end ScriptMachine
