import ScriptMachine.Trace.Profile

/-!
Observers of a run. An observer is told every event and keeps what it is for; it
has no influence on the run.
-/

namespace ScriptMachine

/-- A readable log of a run, which may end after a number of instructions. -/
structure Log where
  limit : Option Nat := none
  /-- Instructions logged so far. -/
  count : Nat := 0
  stopped : Bool := false
  text : String := ""
deriving Repr, DecidableEq, Inhabited

/-- Adds a line for an event. The instruction that reaches the limit is the last
thing logged. -/
def Log.note (l : Log) (event : Event) : Log :=
  if l.stopped then l
  else
    match event.logLine? with
    | none => l
    | some line =>
        let l := { l with text := l.text ++ line ++ "\n" }
        if event.isInstruction then
          let l := { l with count := l.count + 1 }
          match l.limit with
          | none => l
          | some limit =>
              if limit ≤ l.count then
                { l with
                  text := l.text ++ s!"--- trace limit reached ({limit} instructions) ---\n"
                  stopped := true }
              else l
        else l

/-- The events of a run, oldest first, up to a number of them. -/
structure Recording where
  limit : Option Nat := none
  events : Array Event := #[]
deriving Repr, DecidableEq, Inhabited

/-- Adds an event unless the recording is full. -/
def Recording.note (r : Recording) (event : Event) : Recording :=
  if r.limit.any (· ≤ r.events.size) then r else { r with events := r.events.push event }

/-- An observer of a run. -/
inductive Observer where
  | silent
  | log (log : Log)
  | profile (profile : Profile)
  | record (recording : Recording)
deriving Repr, DecidableEq, Inhabited

namespace Observer

/-- Nothing needs to be told to the observer. -/
def isSilent : Observer → Bool
  | silent => true
  | _ => false

/-- Tells an event. -/
def note : Observer → Event → Observer
  | silent, _ => silent
  | log l, event => log (l.note event)
  | profile p, event => profile (p.note event)
  | record r, event => record (r.note event)

end Observer
end ScriptMachine
