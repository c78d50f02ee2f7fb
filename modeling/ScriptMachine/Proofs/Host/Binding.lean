import ScriptMachine.Proofs.Host.Environments
import ScriptMachine.Proofs.Code.WellFormed

/-!
How arguments reach parameters. A method with a keyword parameter takes the last argument for its
keyword map if that is a map and there are more arguments than positional parameters. What remains
must be as many as the positional parameters, or at least as many if the method is variadic. If so,
each argument is put into the slot of its parameter and no other variable changes; if not, no
variable changes at all.
-/

namespace ScriptMachine

open ScriptMachine.Action

/-! ## Reading arguments -/

namespace Method

variable {code : Method} {args positional : List Value} {keywords : Option MapId}

/-- How a method reads arguments: which of them are positional, and what map they end with. -/
inductive Reads (code : Method) : List Value → List Value → Option MapId → Prop
  | lastMap {positional : List Value} {id : MapId} (accepts : code.acceptsKeywords)
      (more : code.arity < (positional ++ [Value.map id]).length) :
      code.Reads (positional ++ [.map id]) positional (some id)
  | all {args : List Value}
      (other : ¬ (code.acceptsKeywords ∧ code.arity < args.length ∧
        ∃ front id, args = front ++ [Value.map id])) :
      code.Reads args args none

/-- That many positional arguments fit. -/
def Admits (code : Method) (count : Nat) : Prop :=
  code.arity ≤ count ∧ (code.variadic = false → count = code.arity)

theorem takes_iff {count : Nat} : code.takes count = true ↔ code.Admits count := by
  unfold takes Admits
  cases code.variadic
  · simp only [Bool.false_eq_true, if_false, beq_iff_eq, forall_const]
    omega
  · simp

theorem keywordArgument?_eq_some {id : MapId} : code.keywordArgument? args = some id ↔
    code.acceptsKeywords ∧ code.arity < args.length ∧ ∃ front, args = front ++ [.map id] := by
  have last : args.getLast? = some (.map id) ↔ ∃ front, args = front ++ [Value.map id] :=
    List.getLast?_eq_some_iff
  rw [← last]
  unfold keywordArgument?
  constructor
  · intro found
    split at found
    · next more =>
      obtain ⟨accepts, more⟩ := Bool.and_eq_true_iff.1 more
      split at found
      · next ends =>
        cases found
        exact ⟨accepts, of_decide_eq_true more, ends⟩
      · cases found
    · cases found
  · rintro ⟨accepts, more, ends⟩
    rw [if_pos (Bool.and_eq_true_iff.2 ⟨accepts, decide_eq_true more⟩), ends]

/-- What binding takes for positional arguments and for the keyword map is how the method reads
its arguments. -/
theorem reads (code : Method) (args : List Value) :
    code.Reads args (code.positionalArguments args) (code.keywordArgument? args) := by
  unfold positionalArguments
  cases found : code.keywordArgument? args with
  | some id =>
      obtain ⟨accepts, more, front, rfl⟩ := keywordArgument?_eq_some.1 found
      rw [Option.isSome_some, if_pos rfl, List.dropLast_concat]
      exact .lastMap accepts more
  | none =>
      refine .all ?_
      rintro ⟨accepts, more, front, id, is⟩
      rw [keywordArgument?_eq_some.2 ⟨accepts, more, front, is⟩] at found
      cases found

theorem Reads.unique (reads : code.Reads args positional keywords) {positional' : List Value}
    {keywords' : Option MapId} (reads' : code.Reads args positional' keywords') :
    positional' = positional ∧ keywords' = keywords := by
  cases reads with
  | lastMap accepts more =>
      generalize is : _ ++ [_] = args at reads'
      cases reads' with
      | lastMap =>
          obtain ⟨front, last⟩ := List.append_inj' is rfl
          cases last
          exact ⟨front.symm, rfl⟩
      | all other => exact absurd ⟨accepts, is ▸ more, _, _, is.symm⟩ other
  | all other =>
      cases reads' with
      | lastMap accepts more => exact absurd ⟨accepts, more, _, _, rfl⟩ other
      | all => exact ⟨rfl, rfl⟩

theorem Reads.eqs (reads : code.Reads args positional keywords) :
    code.positionalArguments args = positional ∧ code.keywordArgument? args = keywords :=
  reads.unique (code.reads args)

/-! ## Placing arguments -/

/-- The values of the parameters in order. -/
def values (code : Method) (positional : List Value) (keywords : MapId) : List Value :=
  positional.take code.arity ++
    (if code.variadic then [.tuple (positional.drop code.arity)] else []) ++
    if code.acceptsKeywords then [.map keywords] else []

section

variable (id : MapId) (admits : code.Admits positional.length)

include admits

theorem getElem?_values {i : Nat} (small : i < code.arity) :
    (code.values positional id)[i]? = positional[i]? := by
  have arity : (positional.take code.arity).length = code.arity := List.length_take_of_le admits.1
  rw [values, List.append_assoc, List.getElem?_append_left (by rwa [arity]),
    List.getElem?_take_of_lt small]

theorem getElem?_values_arity (variadic : code.variadic) :
    (code.values positional id)[code.arity]? = some (.tuple (positional.drop code.arity)) := by
  have arity : (positional.take code.arity).length = code.arity := List.length_take_of_le admits.1
  rw [values, if_pos variadic, List.append_assoc, List.getElem?_append_right (by rw [arity]), arity,
    Nat.sub_self]
  rfl

theorem getElem?_values_keywords (accepts : code.acceptsKeywords) :
    (code.values positional id)[code.arity + code.variadic.toNat]? = some (.map id) := by
  have front : (positional.take code.arity ++
      if code.variadic then [Value.tuple (positional.drop code.arity)] else []).length =
        code.arity + code.variadic.toNat := by
    rw [List.length_append, List.length_take_of_le admits.1]
    cases code.variadic <;> rfl
  rw [values, if_pos accepts, List.getElem?_append_right (by rw [front]), front, Nat.sub_self]
  rfl

end

/-- The map that the keyword parameter gets is the one that was given, or a new and empty one. -/
def Supplies (code : Method) (keywords : Option MapId) (id : MapId) (before after : Heap) : Prop :=
  code.acceptsKeywords →
    keywords = some id ∨ keywords = none ∧ id = before.maps.size ∧ after.map id = .empty

/-- The slots hold the arguments, each in the place of its parameter, and otherwise what was found
in them, or null where nothing was. -/
structure Holds (code : Method) (positional : List Value) (id : MapId)
    (found slots : Array Value) : Prop where
  size : slots.size = max found.size code.localCount
  arguments : ∀ i < code.arity, ∃ name slot v, code.parameters[i]? = some (name, slot) ∧
    positional[i]? = some v ∧ slots[slot]? = some v
  surplus : code.variadic → ∃ name slot, code.parameters[code.arity]? = some (name, slot) ∧
    slots[slot]? = some (.tuple (positional.drop code.arity))
  keywords : code.acceptsKeywords → ∃ name slot,
    code.parameters[code.arity + code.variadic.toNat]? = some (name, slot) ∧
      slots[slot]? = some (.map id)
  others : ∀ slot < slots.size, ¬ code.HoldsParameter slot →
    slots[slot]? = some (found[slot]?.getD .null)

/-- A parameter gets the value at its position, if no other parameter has its slot. -/
theorem getElem?_place_self {values : List Value} {slots : Array Value} {i : Nat}
    {p : String × Nat} {v : Value} (distinct : (code.parameters.map Prod.snd).Nodup)
    (parameter : code.parameters[i]? = some p) (value : values[i]? = some v)
    (inside : p.2 < slots.size) : (code.place values slots)[p.2]? = some v := by
  unfold place
  generalize code.parameters = parameters at distinct parameter
  induction parameters generalizing values slots i with
  | nil => cases parameter
  | cons q parameters ih =>
      obtain ⟨new, distinct⟩ := List.nodup_cons.1 distinct
      cases values with
      | nil => cases value
      | cons w values =>
          rw [List.zip_cons_cons, List.foldl_cons]
          cases i with
          | zero =>
              cases parameter
              cases value
              have kept := @getElem?_place { code with parameters } values
                (slots.setIfInBounds p.2 v) _ new
              exact kept.trans (Array.getElem?_setIfInBounds_self_of_lt inside)
          | succ i =>
              exact ih value (by rwa [Array.size_setIfInBounds]) distinct parameter

/-- There is a parameter for every argument that is one, for the surplus and for the keyword map. -/
theorem Follows.length_parameters {sig : Signature} (follows : code.Follows sig) :
    code.parameters.length =
      code.arity + code.variadic.toNat + code.acceptsKeywords.toNat := by
  have named := congrArg List.length follows.names
  rw [List.length_map, Signature.parameterNames, List.length_append, List.length_append,
    ← follows.arity] at named
  rw [named, follows.variadic, follows.acceptsKeywords]
  cases sig.varargs <;> cases sig.kwargs <;> rfl

/-- Placing the values of the parameters puts every argument where it belongs. -/
theorem Follows.holds {sig : Signature} (follows : code.Follows sig)
    (admits : code.Admits positional.length) (id : MapId) (found : Array Value) :
    code.Holds positional id found
      (code.place (code.values positional id) (code.widen found)) := by
  have length := follows.length_parameters
  have placed : ∀ {i v}, (code.values positional id)[i]? = some v → i < code.parameters.length →
      ∃ name slot, code.parameters[i]? = some (name, slot) ∧
        (code.place (code.values positional id) (code.widen found))[slot]? = some v := by
    intro i v value small
    have parameter := List.getElem?_eq_getElem small
    have inside := follows.inside _ (List.mem_of_getElem? parameter)
    exact ⟨_, _, parameter, getElem?_place_self follows.distinct parameter value
      (Nat.lt_of_lt_of_le inside (localCount_le_widen code found))⟩
  have size : (code.widen found).size = max found.size code.localCount := by
    rw [widen, Array.size_append, Array.size_replicate]
    omega
  refine ⟨(size_place ..).trans size, fun i small => ?_, fun variadic => ?_, fun accepts => ?_,
    fun slot small other => ?_⟩
  · have given := List.getElem?_eq_getElem (Nat.lt_of_lt_of_le small admits.1)
    obtain ⟨name, slot, parameter, holds⟩ :=
      placed ((getElem?_values id admits small).trans given) (by omega)
    exact ⟨name, slot, _, parameter, given, holds⟩
  · refine placed (getElem?_values_arity id admits variadic) ?_
    rw [variadic] at length
    change _ = _ + 1 + _ at length
    omega
  · refine placed (getElem?_values_keywords id admits accepts) ?_
    rw [accepts] at length
    change _ = _ + 1 at length
    omega
  · rw [getElem?_place other]
    rw [size_place, size] at small
    by_cases there : slot < found.size
    · rw [getElem?_widen there, Array.getElem?_eq_getElem there, Option.getD_some]
    · rw [Array.getElem?_eq_none (Nat.le_of_not_lt there), widen,
        Array.getElem?_append_right (Nat.le_of_not_lt there), Array.getElem?_replicate,
        if_pos (by omega), Option.getD_none]

/-! ## Binding -/

variable {h : Heap}

/-- Arguments that fit are bound, and at most a map is made. -/
theorem Reads.binds (reads : code.Reads args positional keywords)
    (admits : code.Admits positional.length) :
    ∃ id h', (code.bind args).result h = (.ok (code.values positional id), h') ∧
      h'.envs = h.envs ∧ code.Supplies keywords id h h' := by
  obtain ⟨rest, last⟩ := reads.eqs
  have fits := takes_iff.2 admits
  unfold Method.bind values Supplies
  dsimp only
  rw [rest, if_pos fits]
  cases code.acceptsKeywords with
  | false => exact ⟨0, h, rfl, rfl, nofun⟩
  | true =>
      rw [last]
      cases keywords with
      | some id => exact ⟨id, h, rfl, rfl, fun _ => .inl rfl⟩
      | none =>
          refine ⟨h.maps.size, (h.newMap .empty).2, rfl, rfl, fun _ => .inr ⟨rfl, rfl, ?_⟩⟩
          simp [Heap.newMap, Heap.map]

/-- Arguments that do not fit are not bound, and nothing changes. -/
theorem Reads.rejects (reads : code.Reads args positional keywords)
    (other : ¬ code.Admits positional.length) :
    (code.bind args).result h =
      (.error (.argumentCount code.name code.arity positional.length), h) := by
  obtain ⟨rest, -⟩ := reads.eqs
  have misfit : code.takes positional.length = false :=
    Bool.eq_false_iff.2 fun fits => other (takes_iff.1 fits)
  unfold Method.bind
  dsimp only
  rw [rest, misfit]
  rfl

end Method

/-! ## Calls -/

/-- The environment that a call brings, if it was ever handed out. -/
def Call.brings? (call : Call) (h : Heap) : Option EnvId :=
  call.env.filter (· < h.envs.size)

/-- The variables that a call finds. -/
def Call.found (call : Call) (h : Heap) : Array Value :=
  ((call.brings? h).map h.env).getD #[]

/-- The activation has the environment that its call brings, or else a new one. The arguments are in
the slots of their parameters, other slots of that environment are as they were, and so are all
slots of other environments. -/
structure Call.Binds (call : Call) (f : Frame) (positional : List Value) (keywords : Option MapId)
    (before after : Heap) : Prop where
  env : f.env = (call.brings? before).getD before.envs.size
  holds : ∃ id, f.method.code.Holds positional id (call.found before) (after.env f.env) ∧
    f.method.code.Supplies keywords id before after
  others : ∀ id < before.envs.size, id ≠ f.env → after.env id = before.env id

/-- No variable is changed: all that may be new are empty slots in the environment that the call
brings, and no more than the method needs. -/
structure Call.Untouched (call : Call) (code : Method) (before after : Heap) : Prop where
  rest : after = { before with envs := after.envs }
  slots : ∀ id slot, slot < (before.env id).size →
    (after.env id)[slot]? = (before.env id)[slot]?
  added : ∀ id slot v, (after.env id)[slot]? = some v → (before.env id).size ≤ slot →
    v = .null ∧ call.env = some id ∧ slot < code.localCount

namespace Call

variable (call : Call)

theorem env_makeRoom (code : Method) (h : Heap) (id : EnvId) :
    (h.makeRoom code call.env).env id =
      if call.brings? h = some id then code.widen (h.env id) else h.env id := by
  unfold brings?
  cases call.env with
  | none => rfl
  | some own =>
      by_cases known : own < h.envs.size
      · rw [Option.filter_some_pos (by simpa using known)]
        split
        · next same =>
          cases same
          exact Heap.env_modifyEnv_self known
        · next other => exact Heap.env_modifyEnv_of_ne (fun same => other (congrArg some same)) _
      · rw [Option.filter_some_neg (by simpa using known), if_neg nofun]
        have outside : h.envs[own]? = none := Array.getElem?_eq_none (Nat.le_of_not_lt known)
        simp only [Heap.makeRoom, Heap.modifyEnv, Heap.env, Array.getD_eq_getD_getElem?,
          Array.getElem?_modify]
        split
        · next same => rw [← same, outside, Option.map_none]
        · rfl

/-- Making room changes no variable. -/
theorem untouched_makeRoom (code : Method) (h : Heap) :
    call.Untouched code h (h.makeRoom code call.env) := by
  refine ⟨by cases call.env <;> rfl, fun id slot there => ?_, fun id slot v there new => ?_⟩
  · rw [call.env_makeRoom]
    split
    · exact Method.getElem?_widen there
    · rfl
  · rw [call.env_makeRoom] at there
    split at there
    · next brought =>
      have small := (Array.getElem?_eq_some_iff.1 there).1
      rw [Method.widen, Array.size_append, Array.size_replicate] at small
      rw [Method.widen, Array.getElem?_append_right new, Array.getElem?_replicate,
        if_pos (by omega)] at there
      exact ⟨(Option.some.inj there).symm, (Option.filter_eq_some_iff.1 brought).1, by omega⟩
    · exact absurd (Array.getElem?_eq_some_iff.1 there).1 (Nat.not_lt.2 new)

/-- The parameters are placed in the environment of the call, and nothing else is changed. -/
theorem environment_places (code : Method) (values : List Value) {h h₁ : Heap}
    (same : h₁.envs = (h.makeRoom code call.env).envs) :
    let env := (call.brings? h).getD h.envs.size
    ∃ h₂, (environment code call.env values).result h₁ = (.ok env, h₂) ∧ h₂.maps = h₁.maps ∧
      h₂.env env = code.place values (code.widen (call.found h)) ∧
      ∀ id < h.envs.size, id ≠ env → h₂.env id = h.env id := by
  have size : h₁.envs.size = h.envs.size := by
    rw [same]
    cases call.env with
    | none => rfl
    | some id => exact Array.size_modify
  have brings : call.env.filter (· < h₁.envs.size) = call.brings? h := by
    rw [size, brings?]
  unfold found environment
  cases brought : call.brings? h with
  | some id =>
      obtain ⟨given, small⟩ := Option.filter_eq_some_iff.1 brought
      have known : id < h.envs.size := of_decide_eq_true small
      have wide : h₁.env id = code.widen (h.env id) := by
        rw [Heap.env_of_envs same, call.env_makeRoom, if_pos brought]
      refine ⟨h₁.modifyEnv id (code.place values),
        (Primitive.result_bind_ask (brings.trans brought)).trans rfl, rfl, ?_,
        fun other _ (ne : other ≠ id) => ?_⟩
      · rw [Option.getD_some, Heap.env_modifyEnv_self (size ▸ known), wide]
        rfl
      · rw [Heap.env_modifyEnv_of_ne (Ne.symm ne), Heap.env_of_envs same, call.env_makeRoom,
          if_neg fun same => ne (Option.some.inj (brought.symm.trans same)).symm]
  | none =>
      refine ⟨(h₁.newEnv (code.place values (code.widen #[]))).2,
        (Primitive.result_bind_ask (brings.trans brought)).trans ?_, rfl, ?_, fun other known _ => ?_⟩
      · rw [← size]
        rfl
      · rw [← size]
        exact Heap.env_newEnv _
      · rw [Heap.env_newEnv_of_lt (size ▸ known), Heap.env_of_envs same]
        rw [call.env_makeRoom, brought, if_neg nofun]

variable {m : Machine} {code : Method} {positional : List Value} {keywords : Option MapId}

/-- There is no room for a frame. -/
theorem activate_crowded (returns : Returns) (full : m.limits.frames ≤ m.frames.length) :
    (activate call returns).result m = (.error (.fault (.frameLimit m.limits.frames)), m) := by
  have depth : m.limits.frames ≤ m.calls.depth := m.calls.depth_eq ▸ full
  unfold activate newFrame
  rw [result_bind, result_bind_ok (result_ask _ m), result_bind_ok (result_ask _ m)]
  dsimp only
  rw [if_pos depth]
  rfl

section

variable (returns : Returns) (room : m.frames.length < m.limits.frames)
  (calls : (m.heap.method call.method).code = code)
  (reads : code.Reads call.args positional keywords)

include room calls reads

/-- The arguments do not fit. -/
theorem activate_rejects (other : ¬ code.Admits positional.length) :
    (activate call returns).result m =
      (.error (.fault (.argumentCount code.name code.arity positional.length)),
        { m with heap := m.heap.makeRoom code call.env }) := by
  have depth : ¬ m.limits.frames ≤ m.calls.depth := by
    rw [m.calls.depth_eq]
    exact Nat.not_le_of_lt room
  subst calls
  unfold activate newFrame
  rw [result_bind, result_bind_ok (result_ask _ m), result_bind_ok (result_ask _ m)]
  dsimp only
  rw [if_neg depth, result_bind_ok (result_askHeap _ m), result_bind_ok (result_changeHeap _ m),
    result_bind, result_primitive, reads.rejects other]

/-- The arguments fit, and a frame is put on top. -/
theorem activate_binds {sig : Signature} (follows : code.Follows sig)
    (admits : code.Admits positional.length) :
    ∃ f n, (activate call returns).result m = (.ok (), n) ∧ n.frames = f :: m.frames ∧
      n.handlers = m.handlers ∧ f.method = m.heap.method call.method ∧
      call.Binds f positional keywords m.heap n.heap := by
  have depth : ¬ m.limits.frames ≤ m.calls.depth := by
    rw [m.calls.depth_eq]
    exact Nat.not_le_of_lt room
  subst calls
  let h₀ := m.heap.makeRoom (m.heap.method call.method).code call.env
  obtain ⟨id, h, bound, same, supplies⟩ := reads.binds (h := h₀) admits
  obtain ⟨h', placed, maps, here, elsewhere⟩ :=
    call.environment_places (m.heap.method call.method).code
      ((m.heap.method call.method).code.values positional id) same
  have before : h₀.maps = m.heap.maps :=
    (congrArg Heap.maps (call.untouched_makeRoom (m.heap.method call.method).code m.heap).rest :)
  let f : Frame := { method := m.heap.method call.method, receiver := call.receiver
                     env := (call.brings? m.heap).getD m.heap.envs.size
                     owner := call.owner, returns }
  have made : (newFrame call returns).result m = (.ok f, { m with heap := h' }) := by
    unfold newFrame
    rw [result_bind_ok (result_ask _ m), result_bind_ok (result_ask _ m)]
    dsimp only
    rw [if_neg depth, result_bind_ok (result_askHeap _ m), result_bind_ok (result_changeHeap _ m),
      result_bind, result_primitive, bound]
    dsimp only
    rw [result_bind, result_primitive, placed]
    rfl
  have noted := Machine.keeps_note
    { m with heap := h', calls := m.calls.push f, control := .running }
    fun _ => .call f.method.code.name (m.calls.push f).depth
  refine ⟨f, _, result_bind_ok made, noted.frames, noted.handlers, rfl, ?_⟩
  rw [Machine.heap_note]
  refine ⟨rfl, ⟨id, here ▸ follows.holds admits id _, fun accepts => ?_⟩, elsewhere⟩
  rcases supplies accepts with given | ⟨none, new, empty⟩
  · exact .inl given
  · exact .inr ⟨none, new.trans (congrArg Array.size before),
      by rw [← empty, Heap.map, Heap.map, maps]⟩

end

end Call

/-- What a compiled method has for parameters are those of the part of the unit that it was made
for. -/
theorem compile_follows {name file : String} {unit : List Stmt} {u : CompiledUnit}
    (compiled : compile name file unit = .ok u) {code : Method}
    (made : code = u.topLevel ∨ code ∈ u.methods) : ∃ sig, code.Follows sig := by
  obtain ⟨directory, clean, fine, _, methods, topLevel⟩ := compile_ok compiled
  rcases made with rfl | member
  · rw [topLevel]
    exact ⟨{ name := "" }, .nothing rfl rfl rfl rfl⟩
  · obtain ⟨carries, _⟩ := @generate_fits _ clean directory true fun _ => fine
    rw [methods] at member
    obtain ⟨f, added, rfl⟩ := Array.mem_map.1 member
    obtain ⟨owner, _, follows⟩ := carries.seated f added
    exact ⟨owner.signature, follows⟩

/-- Arguments are bound exactly or not at all. The method takes its keyword map from the end of the
arguments or gets a new one. If what remains fits and there is room for a frame, a frame is pushed
whose variables hold the arguments, each where its parameter is, and no other variable is changed.
Otherwise no variable is changed at all, and the machine is as it was before the call. -/
theorem compile_binds {name file : String} {unit : List Stmt} {u : CompiledUnit}
    (compiled : compile name file unit = .ok u) {code : Method}
    (made : code = u.topLevel ∨ code ∈ u.methods) (m : Machine) (call : Call) (returns : Returns)
    (calls : (m.heap.method call.method).code = code) :
    ∃ positional keywords, code.Reads call.args positional keywords ∧
      (m.frames.length < m.limits.frames → code.Admits positional.length →
        ∃ f n, (activate call returns).result m = (.ok (), n) ∧ n.frames = f :: m.frames ∧
          n.handlers = m.handlers ∧ f.method = m.heap.method call.method ∧
          call.Binds f positional keywords m.heap n.heap) ∧
      (m.frames.length < m.limits.frames → ¬ code.Admits positional.length →
        ∃ heap, call.Untouched code m.heap heap ∧ (activate call returns).result m =
          (.error (.fault (.argumentCount code.name code.arity positional.length)),
            { m with heap })) ∧
      (m.limits.frames ≤ m.frames.length →
        (activate call returns).result m = (.error (.fault (.frameLimit m.limits.frames)), m)) := by
  obtain ⟨sig, follows⟩ := compile_follows compiled made
  have reads := code.reads call.args
  exact ⟨_, _, reads, fun room => call.activate_binds returns room calls reads follows,
    fun room other => ⟨_, call.untouched_makeRoom code m.heap,
      call.activate_rejects returns room calls reads other⟩, call.activate_crowded returns⟩

/-- A function with a parameter of each kind. -/
def gathering : List Stmt :=
  [.function {} (.mk { name := "f", params := ["a"], varargs := some "rest", kwargs := some "opts" }
    [.ret {} (some (.name {} "rest"))])]

/-- It is called with two arguments and a map. -/
theorem compile_binds_gathering :
    let m := (Engine.loaded (compiledUnit gathering)).machine
    let call : Call := { method := 0, args := [.int 1, .int 2, .map 0] }
    ∃ f n, (activate call .value).result m = (.ok (), n) ∧ n.frames = f :: m.frames ∧
      call.Binds f [.int 1, .int 2] (some 0) m.heap n.heap := by
  intro m call
  have compiled : compile "m" "m" gathering = .ok (compiledUnit gathering) :=
    compile_compiledUnit (by decide +kernel)
  have made : (m.heap.method 0).code ∈ (compiledUnit gathering).methods := by decide +kernel
  have room : m.frames.length < m.limits.frames := by decide +kernel
  have shape : (m.heap.method 0).code.acceptsKeywords = true ∧ (m.heap.method 0).code.arity = 1 ∧
      (m.heap.method 0).code.variadic = true := by decide +kernel
  obtain ⟨accepts, arity, variadic⟩ := shape
  obtain ⟨positional, keywords, reads, fits, _⟩ :=
    compile_binds compiled (.inr made) m call .value rfl
  have splits : (m.heap.method 0).code.Reads ([.int 1, .int 2] ++ [.map 0]) _ _ :=
    .lastMap accepts (by rw [arity]; decide)
  obtain ⟨rfl, rfl⟩ := reads.unique splits
  obtain ⟨f, n, done, frames, _, _, binds⟩ :=
    fits room ⟨by rw [arity]; decide, by rw [variadic]; exact nofun⟩
  exact ⟨f, n, done, frames, binds⟩

end ScriptMachine
