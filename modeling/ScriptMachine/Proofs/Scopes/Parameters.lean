import ScriptMachine.Code.Instruction
import ScriptMachine.Proofs.Scopes.Table
import ScriptMachine.Source.Resolution

/-!
Parameters and their slots. The first pass declares the parameters of a function in its scope, and
complains if two have the same name. So the scope gives each a number of its own, and the second
pass, which looks the names up there, puts each parameter into a slot of its own.
-/

namespace ScriptMachine

/-- What the head of a part with a scope of its own says. Only functions have parameters. -/
def ScopeOwner.signature : ScopeOwner → Signature
  | .function decl => decl.sig
  | .impliedConstructor decl | .fields decl => { name := decl.name }
  | .stmt _ => { name := "" }

/-- The method has the parameters that the signature says, in order, each in a slot of its own. -/
structure Method.Follows (code : Method) (sig : Signature) : Prop where
  names : code.parameters.map Prod.fst = sig.parameterNames
  arity : code.arity = sig.params.length
  variadic : code.variadic = sig.varargs.isSome
  acceptsKeywords : code.acceptsKeywords = sig.kwargs.isSome
  distinct : (code.parameters.map Prod.snd).Nodup
  inside : ∀ p ∈ code.parameters, p.2 < code.localCount

/-- A method without parameters follows a signature without any. -/
theorem Method.Follows.nothing {code : Method} {name : String} (parameters : code.parameters = [])
    (arity : code.arity = 0) (variadic : code.variadic = false)
    (acceptsKeywords : code.acceptsKeywords = false) : code.Follows { name } := by
  refine ⟨?_, arity, variadic, acceptsKeywords, ?_, ?_⟩ <;> rw [parameters]
  · rfl
  · exact .nil
  · exact nofun

namespace ScopeTable

variable {t : ScopeTable} {name : String} {symbol : Symbol}

/-- A name that the current scope declares is found there. -/
theorem lookup_of_find? (declared : (t.scope t.current).find? name = some symbol) :
    t.lookup name = some symbol := by
  rw [lookup, enclosing, pathUp, List.findSome?_cons, declared]

/-- Looking up distinct names that a scope declares gives each a number of its own. -/
theorem Tree.distinct_numbers (tree : t.Tree) {here : Nat} (inside : here < t.scopes.size)
    {names : List String} (distinct : names.Nodup) {find : String → Option Symbol}
    (found : ∀ name ∈ names, ∃ symbol, (t.scope here).find? name = some symbol ∧
      find name = some symbol) :
    let slots := names.filterMap fun name => (find name).map fun symbol => (name, symbol.index)
    slots.map Prod.fst = names ∧ (slots.map Prod.snd).Nodup ∧
      ∀ p ∈ slots, p.2 < (t.scope (t.boundaryOf here)).slotCount := by
  intro slots
  have declared : ∀ p ∈ slots, ∃ symbol, (t.scope here).find? p.1 = some symbol ∧
      p.2 = symbol.index := by
    intro p member
    obtain ⟨name, listed, is⟩ := List.mem_filterMap.1 member
    obtain ⟨symbol, declares, finds⟩ := found name listed
    rw [finds, Option.map_some, Option.some.injEq] at is
    cases is
    exact ⟨symbol, declares, rfl⟩
  have same : slots.map Prod.fst = names := by
    have named : ∀ name ∈ names,
        ((find name).map fun symbol => (name, symbol.index)).map Prod.fst = some name := by
      intro name listed
      obtain ⟨symbol, _, finds⟩ := found name listed
      rw [finds]
      rfl
    rw [List.map_filterMap, List.filterMap_congr named, List.filterMap_some]
  refine ⟨same, List.Nodup.map_on (fun p member q member' level => ?_)
    (List.Nodup.of_map Prod.fst (same ▸ distinct)), fun p member => ?_⟩
  · obtain ⟨symbol, declares, is⟩ := declared p member
    obtain ⟨other, declares', is'⟩ := declared q member'
    refine Prod.ext (tree.index_inj inside declares declares' ?_) level
    rw [← is, ← is', level]
  · obtain ⟨symbol, declares, is⟩ := declared p member
    rw [is]
    exact tree.handed here inside symbol (List.mem_of_find?_eq_some declares)

end ScopeTable

end ScriptMachine
