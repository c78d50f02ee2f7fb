import ScriptMachine.Heap.Basic

/-!
Equality of values: data is compared by structure, objects by identity. Lists and
maps may contain themselves, so comparison follows nesting only to a fixed depth
and has no answer beyond it.
-/

namespace ScriptMachine.Heap

/-- Every entry has a partner with an equal key and an equal value. -/
def entriesAgree (compare : Value → Value → Option Bool) (other : Table) :
    Entries Value Value → Option Bool
  | [] => some true
  | (key, value) :: rest =>
      match other.find? key with
      | none => some false
      | some partner =>
          match compare value partner with
          | some true => entriesAgree compare other rest
          | answer => answer

/-- Equality of values whose containers are nested at most `budget` deep; `none`
when they are nested deeper. Sequences of different length are unequal at once,
and an object is equal to itself at once. -/
def equalsWithin (h : Heap) (budget : Nat) (a b : Value) : Option Bool :=
  match a, b with
  | .tuple xs, .tuple ys =>
      if xs.length ≠ ys.length then some false
      else
        match budget with
        | 0 => none
        | budget + 1 => Value.pairwise (fun x y => equalsWithin h budget x y) xs ys
  | .list i, .list j =>
      if i = j then some true
      else if (h.list i).size ≠ (h.list j).size then some false
      else
        match budget with
        | 0 => none
        | budget + 1 =>
            Value.pairwise (fun x y => equalsWithin h budget x y) (h.list i).toList
              (h.list j).toList
  | .map i, .map j =>
      if i = j then some true
      else if (h.map i).size ≠ (h.map j).size then some false
      else
        match budget with
        | 0 => none
        | budget + 1 =>
            entriesAgree (fun x y => equalsWithin h budget x y) (h.map j) (h.map i).toList
  | a, b => some (Value.atomEquals a b)

/-- Equality for operators, which has no answer for containers nested too deep. -/
def equals? (h : Heap) (a b : Value) : Option Bool :=
  h.equalsWithin Value.maxNesting a b

/-- Equality where containers nested too deep count as unequal. -/
def equals (h : Heap) (a b : Value) : Bool :=
  (h.equals? a b).getD false

end ScriptMachine.Heap
