import ScriptMachine.Heap.Basic

/-!
Stepping through built-in data. An iterator stands before its first item, moves
with `moveNext` as long as there are items, and shows the item it stands on.
-/

namespace ScriptMachine

namespace Iter

/-- Visits the items of a list, those added meanwhile included. -/
def overList (id : ListId) : Iter :=
  .list id 0 .null

/-- Visits the items of a fixed sequence. -/
def overItems (items : List Value) : Iter :=
  .items items items .null

/-- Visits `first`, `first + step`, ... up to but not including `stop`. -/
def overRange (first stop step : Int64) : Iter :=
  .range first stop step first .null

/-- Returns to the place before the first item. -/
def reset : Iter → Iter
  | .list id _ _ => .list id 0 .null
  | .items all _ _ => .items all all .null
  | .range first stop step _ _ => .range first stop step first .null

/-- The item the iterator stands on; null before the first. -/
def current : Iter → Value
  | .list _ _ item => item
  | .items _ _ item => item
  | .range _ _ _ _ item => item

/-- A progression still has to visit `next`. -/
def inRange (stop step next : Int64) : Bool :=
  if 0 < step then next < stop else stop < next

/-- Moves to the next item and tells whether there was one. A progression that
would leave the range of words ends there. -/
def moveNext (h : Heap) : Iter → Bool × Iter
  | .list id index item =>
      match (h.list id)[index]? with
      | some next => (true, .list id (index + 1) next)
      | none => (false, .list id index item)
  | .items all rest item =>
      match rest with
      | next :: rest => (true, .items all rest next)
      | [] => (false, .items all [] item)
  | .range first stop step next item =>
      if inRange stop step next then
        (true, .range first stop step ((Word.ofInt? (next.toInt + step.toInt)).getD stop) (.int next))
      else (false, .range first stop step next item)

end Iter
end ScriptMachine
