import ScriptMachine.Proofs.Machine.Disciplines

/-!
What actions do, for all disciplines at once. What a machine does by itself looks at no positions,
leaves alone the exceptions and iterators that are there, and comes up with no value that it did not
find or make. So it keeps to any discipline. Only what makes an iterator may be too late: the
iterator may be one that the discipline rules out.
-/

namespace ScriptMachine

open ScriptMachine.Action
open Discipline (Instructs)

variable {D : Discipline} [D.Instructs] {E : Standard}

namespace Action

variable {pending : Pending} {returns : Returns} {call : Call} {v : Value} {args : List Value}

/-! ## Calls of methods -/

/-- Parameters get arguments, a tuple of those that are left over, and the map of keywords, which
may be a new one. -/
@[grind ←] theorem bind_heeds (code : Method) (given : D.Allows args) :
    Heeds D (code.bind args) := by
  unfold Method.bind
  extract_lets positional surplus finish rest
  have known : D.Allows positional := by
    dsimp only [positional, Method.positionalArguments]
    split
    · exact passes_of_subset given (List.dropLast_subset args)
    · exact given
  have extra : D.Allows surplus := by
    dsimp only [surplus]
    grind
  have done (keywords : List Value) (fine : D.Allows keywords) : Heeds D (finish keywords) :=
    .pure (passes_append.2 ⟨passes_append.2 ⟨Value.passes_take known _, extra⟩, fine⟩)
  have kept : Heeds D (rest ()) := by
    dsimp only [rest]
    split
    · split
      · exact .bind (.pure (by grind)) done
      · exact .bind (.make (fun _ => rfl) (by grind) (by grind)) fun v known =>
          .bind (.pure (by grind)) done
    · exact .bind (.pure passes_nil) done
  split
  · exact kept
  · exact .bind (.throw _) fun _ _ => kept

omit [D.Instructs] in
/-- A slot gets an argument or keeps what it had. -/
@[grind ←] theorem passes_place (code : Method) {values : List Value} {slots : Array Value}
    (given : Passes E values) (old : Passes E slots) : Passes E (code.place values slots) := by
  unfold Method.place
  refine List.foldlRecOn (motive := fun slots : Array Value => Passes E slots) _ _ old ?_
  intro slots before p member
  exact passes_setIfInBounds before (given _ (List.of_mem_zip member).2) _

omit [D.Instructs] in
/-- Empty slots hold null. -/
@[grind ←] theorem passes_widen [E.Lawful] (code : Method) {slots : Array Value}
    (old : Passes E slots) : Passes E (code.widen slots) := by
  unfold Method.widen
  refine passes_append_array.2 ⟨old, fun v member => ?_⟩
  rw [(Array.mem_replicate.1 member).2]
  exact Value.passes_of_isPlain rfl

@[grind ←] theorem environment_heeds (code : Method) (env : Option EnvId) {values : List Value}
    (given : D.Allows values) : Heeds D (environment code env values) := by
  have placed (slots : Array Value) (old : D.Allows slots) : D.Allows (code.place values slots) :=
    passes_place code given old
  have wide : D.Allows (code.widen #[]) :=
    passes_widen code fun _ member => absurd member (Array.not_mem_empty _)
  unfold environment
  grind

/-- An environment that a call brings gets empty slots. -/
@[grind ←] theorem makeRoom_keeps {h : Heap} (on : D.MetBy h) (code : Method)
    (env : Option EnvId) : D.MetBy (h.makeRoom code env) := by
  cases env with
  | none => exact on
  | some id => exact on.modifyEnv id fun _ old => passes_widen code old

/-- The frame of a call is given nothing but the arguments and the receiver. -/
@[grind ←] theorem activate_obeys (given : D.Allows call) (waits : D.Allows returns) :
    Obeys D (activate call returns) := by
  have start (method : LoadedMethod) (env : EnvId) :
      Parallels D (pushFrame ⟨method, call.receiver, env, [], 0, call.owner, returns⟩)
        (pushFrame ⟨method.viewed D.blind, call.receiver, env, [], 0, call.owner, returns⟩) := by
    have passes : D.Allows (⟨method, call.receiver, env, [], 0, call.owner, returns⟩ : Frame) :=
      ⟨given.1, passes_nil, waits⟩
    exact .pushFrame passes
  have room (code : Method) : Obeys D (changeHeap (·.makeRoom code call.env)) :=
    .changeHeap (fun h => makeRoom_unplaced h _ _) fun h on => makeRoom_keeps on _ _
  unfold activate newFrame
  simp only [bind_assoc]
  refine Obeys.bind (by grind) fun limit _ => .bind (by grind) fun depth _ => ?_
  split
  · exact Obeys.throw _
  · simp only [bind_assoc, pure_bind]
    refine Parallels.asking (LoadedMethod.viewed D.blind) (fun m => m.method_viewed _) fun method => ?_
    refine Parallels.bind (room method.code) fun _ _ => ?_
    refine Parallels.bind (Obeys.primitive (bind_heeds method.code given.2)) fun values known => ?_
    exact Parallels.bind (Obeys.primitive (environment_heeds method.code call.env known)) fun env _ =>
      start method env

/-- A nested call waits with what remains of the operation. -/
@[grind ←] theorem enter_obeys (given : D.Allows call) (waits : D.Allows pending) :
    Obeys D (enter call pending) := by
  unfold enter
  grind

/-- A method that an instance offers is given the instance and the arguments. -/
@[grind ←] theorem hook_obeys (name : String) {otherwise : Action Unit} (known : D.Allows v)
    (given : D.Allows args) (waits : D.Allows pending) (other : Obeys D otherwise) :
    Obeys D (hook v name args pending otherwise) := by
  unfold hook
  grind

@[grind ←] theorem hook_careful (name : String) {otherwise : Action Unit} (known : D.Allows v)
    (given : D.Allows args) (waits : D.Allows pending) (other : Careful D otherwise) :
    Careful D (hook v name args pending otherwise) := by
  unfold hook
  grind

/-! ## Attributes and classes -/

omit [D.Instructs] in
/-- A global variable is one of the module or one of all. -/
@[grind ←] theorem global_obeys (module : ModuleId) (name : String) :
    Obeys D (global module name) := by
  have known (m : Machine) (kept : D.Kept m) : D.Allows (m.global? module name) := by
    have own := Bindings.passes_get? (kept.heap.globals module) name
    unfold Machine.global?
    cases found : m.globals.get? name with
    | none => exact own
    | some v =>
        have common := Bindings.passes_get? kept.globals name
        rw [found] at common
        exact common
  refine .bind (.ask (fun m => m.global?_unplaced module name) known) fun found visible => ?_
  grind

/-- A class that is used for the first time is marked before anything of it runs. -/
@[grind ←] theorem prepare_obeys (c : ClassId) (waits : D.Allows pending) :
    Obeys D (prepare c pending) := by
  have marked (h : Heap) (on : D.MetBy h) :
      D.MetBy (h.modifyClass c ({ · with prepared := true })) :=
    on.modifyClass c fun _ old => old
  unfold prepare
  grind

/-- The method that sets the fields of a class takes nothing. -/
@[grind ←] theorem setFields_obeys (c : ClassId) (waits : D.Allows pending) :
    Obeys D (setFields c pending) := by
  unfold setFields
  refine .bind (.askHeap (fun _ => rfl) fun _ _ => passes_number _) fun setter known => ?_
  cases setter with
  | none => exact .deliver (Value.passes_of_isPlain rfl) waits
  | some method => exact enter_obeys (by grind) waits

@[grind ←] theorem linkBases_obeys (c : ClassId) (paths : List String)
    (waits : D.Allows pending) : Obeys D (linkBases c paths pending) := by
  unfold linkBases
  grind

/-- What was found for a base is linked if it is a class, whatever else it is. -/
@[grind ←] theorem baseFound_obeys (c : ClassId) (paths : List String) (v : Value)
    (waits : D.Allows pending) : Obeys D (baseFound c paths v pending) := by
  unfold baseFound
  grind

omit [D.Instructs] in
/-- What a value has under a name is held by some object, or is a text or a number. -/
@[grind ←] theorem passes_ownAttribute? [E.Lawful] {h : Heap} (meets : h.Meets E) (v : Value)
    (name : String) : Passes E (ownAttribute? h v name) := by
  cases v with
  | «instance» id =>
      have own := Bindings.passes_get? (meets.instances id) name
      have member := meets.findMember? (h.inst id).cls name
      dsimp only [ownAttribute?]
      split
      · next v found => exact found ▸ own
      · cases found : h.findMember? (h.inst id).cls name with
        | none => exact passes_none
        | some other =>
            rw [found] at member
            have known := passes_some.1 member
            cases other with
            | method id => exact passes_some.2 (Value.passes_of_isPlain rfl)
            | «attribute» v => exact passes_some.2 known
  | module id => exact Bindings.passes_get? (meets.globals id) name
  | enum id =>
      dsimp only [ownAttribute?]
      cases (h.enum id).members.lookup name with
      | none => exact passes_none
      | some k => exact passes_some.2 (Value.passes_of_isPlain rfl)
  | exception id =>
      dsimp only [ownAttribute?]
      grind
  | _ => exact passes_none

/-- A method of a built-in value is a new object that is bound to the value. -/
@[grind ←] theorem readAttribute_obeys (name : String) (known : D.Allows v)
    (waits : D.Allows pending) : Obeys D (readAttribute v name pending) := by
  unfold readAttribute
  split
  · grind
  · refine .bind (.askHeap (fun h => ownAttribute?_unplaced h _ name) fun h meets =>
      passes_ownAttribute? meets v name) fun own known => ?_
    cases own with
    | some value => exact .deliver (passes_some.1 known) waits
    | none =>
        dsimp only
        split
        · next receiver fn _ =>
          refine .bind (.make (fun _ => rfl) (fun h on => on.newNative fn) fun _ _ => trivial)
            fun object _ => ?_
          exact .deliver (Value.passes_of_isPlain rfl) waits
        · exact .faultWith fun h => congrArg (Fault.noAttribute · name) (h.typeName_unplaced v)

@[grind ←] theorem readClassAttribute_obeys (c : ClassId) (name : String)
    (waits : D.Allows pending) : Obeys D (readClassAttribute c name pending) := by
  unfold readClassAttribute
  grind

/-- An attribute may be set to what passes. -/
@[grind ←] theorem writeAttribute_obeys (target : Value) (name : String) (known : D.Allows v) :
    Obeys D (writeAttribute target name v) := by
  unfold writeAttribute
  grind

/-! ## Iteration and texts -/

omit [D.Instructs] in
/-- A new iterator shows null. It walks over items of the value, characters or keys. -/
theorem passes_iterOver? [E.Lawful] {h : Heap} (meets : h.Meets E) (known : Passes E v) :
    Passes E (iterOver? h v) := by
  have null : Passes E Value.null := Value.passes_of_isPlain rfl
  cases v with
  | list id => exact passes_some.2 null
  | tuple items =>
      have items := (Value.passes_tuple items).1 known
      exact passes_some.2 ⟨items, items, null⟩
  | str text => exact passes_some.2 ⟨Value.passes_strs _ _, Value.passes_strs _ _, null⟩
  | map id =>
      have keys := Table.passes_keys (meets.maps id)
      exact passes_some.2 ⟨keys, keys, null⟩
  | _ => exact passes_none

/-- Here it may become too late. Otherwise the new iterator passes like any other value. -/
theorem deliver_newIterator_careful {it : Iter} (visits : D.Allows it)
    (waits : D.Allows pending) :
    Careful D (make (·.newIterator it) >>= fun v => deliver v pending) := by
  intro m kept
  rcases kept.heap.newIterator visits with lost | ⟨on, passes⟩
  · exact .inr lost
  · refine .inl ⟨?_, { kept with heap := on, control := ⟨passes, waits⟩ }⟩
    cases D.blind <;> rfl

/-- A value that is no built-in iterable is asked for an iterator of its own. -/
@[grind ←] theorem iterate_careful (left : Nat) (known : D.Allows v)
    (waits : D.Allows pending) : Careful D (iterate v left pending) := by
  unfold iterate
  refine .bind (.askHeap (fun h => iterOver?_unplaced h v) fun h meets =>
    passes_iterOver? meets known) fun found visits => ?_
  cases found with
  | none => grind
  | some it => exact deliver_newIterator_careful (passes_some.1 visits) waits

@[grind ←] theorem iterated_careful (subject : InstanceId) (left : Nat) (known : D.Allows v)
    (waits : D.Allows pending) : Careful D (iterated subject left v pending) := by
  unfold iterated
  grind

@[grind ←] theorem resetIter_obeys (known : D.Allows v) (waits : D.Allows pending) :
    Obeys D (resetIter v pending) := by
  unfold resetIter
  grind

/-- An iterator that is moved is one that was known. -/
@[grind ←] theorem moveIter_obeys (known : D.Allows v) (waits : D.Allows pending) :
    Obeys D (moveIter v pending) := by
  unfold moveIter
  split
  · next id =>
    refine .bind (.make (fun _ => rfl) (fun h on => ?_) fun _ _ => trivial) fun moved _ => ?_
    · exact on.setIterator known (on.toMeets.moveNext (on.iterators id))
    · exact .deliver (Value.passes_of_isPlain rfl) waits
  · grind

@[grind ←] theorem iterItem_obeys (known : D.Allows v) (waits : D.Allows pending) :
    Obeys D (iterItem v pending) := by
  unfold iterItem
  grind

/-- Collecting a value begins with an iterator for it. -/
@[grind ←] theorem collect_careful (known : D.Allows v) (waits : D.Allows pending) :
    Careful D (collect v pending) := by
  unfold collect
  grind

@[grind ←] theorem text_obeys (known : D.Allows v) (waits : D.Allows pending) :
    Obeys D (text v pending) := by
  unfold text
  grind

/-- The texts that are shown are plain values. -/
@[grind ←] theorem showRest_obeys (texts : List String) {rest : List Value}
    (known : D.Allows rest) (waits : D.Allows pending) :
    Obeys D (showRest texts rest pending) := by
  have shown : D.Allows (texts.reverse.map Value.str) := Value.passes_strs id _
  unfold showRest
  grind

/-! ## Calls -/

omit [D.Instructs] in
/-- What was printed is not read again. -/
@[grind ←] theorem print_obeys (texts : List String) : Obeys D (print texts) := by
  have written : Obeys D (modifyGet fun m : Machine =>
      ((m.sink.writeAll (texts.intersperse " " ++ ["\n"])).1,
        { m with sink := (m.sink.writeAll (texts.intersperse " " ++ ["\n"])).2 }) :
      Action (Option Fault)) := by
    refine fun m kept => ⟨?_, { kept with }, fun _ _ _ _ => trivial⟩
    cases D.blind <;> rfl
  unfold print
  refine .bind written fun refused _ => ?_
  grind

omit [D.Instructs] in
/-- A progression shows null before it is moved. -/
theorem passes_rangeOf [E.Lawful] (words : List Int64) : Passes E (Operation.rangeOf words) := by
  have between (first stop step : Int64) : Passes E (Operation.progression first stop step) := by
    unfold Operation.progression
    split
    · exact passes_error
    · exact passes_ok.2 (Value.passes_of_isPlain rfl)
  unfold Operation.rangeOf
  split <;> first | exact between _ _ _ | exact passes_error

omit [D.Instructs] in
/-- A type is a plain value. -/
@[grind .] theorem passes_typeOf [E.Lawful] (h : Heap) (v : Value) : Passes E (typeOf h v) := by
  cases v <;> exact Value.passes_of_isPlain rfl

/-- Built-in functions give numbers and texts. A range makes an iterator, and the others hand on
what they were given. -/
@[grind ←] theorem callBuiltin_careful (fn : Builtin) (given : D.Allows args)
    (waits : D.Allows pending) : Careful D (callBuiltin fn args pending) := by
  have first := Value.passes_headD given
  have checks : Obeys D (consult fun _ => Operation.checkKey (args.headD .null)) :=
    .consult (fun _ => rfl) fun _ _ => passes_plain_except _
  unfold callBuiltin
  cases fn with
  | range =>
      refine .bind (.consult (fun h => ?_) fun h _ => ?_) fun it visits =>
        deliver_newIterator_careful visits waits
      · rw [Operation.rangeWords_unplaced]
      · exact passes_bind (fun _ _ _ _ => trivial) fun words _ => passes_rangeOf words
  | _ => grind

@[grind ←] theorem callHostFunction_obeys (fn : HostFunction) {receiver : Option Value}
    (known : D.Allows receiver) (given : D.Allows args) (waits : D.Allows pending) :
    Obeys D (callHostFunction fn receiver args pending) := by
  have first := Value.passes_headD given
  unfold callHostFunction
  cases fn <;> grind

/-- What a function of the host does is for the discipline to allow. Each of its calls waits for the
value of the one before. The induction is on what is left to do. -/
theorem carryOut_careful {routine : Routine} (fine : D.routine routine)
    (waits : D.Allows pending) : Careful D (carryOut pending routine) := by
  induction routine with
  | give v => exact (Obeys.deliver (Instructs.give fine) waits).careful
  | fail type message => exact (Obeys.bind (.makeException rfl) fun id _ => .throw _).careful
  | raise id => exact (Obeys.throw _).careful
  | edit change next ih =>
      intro m kept
      rcases Instructs.edit fine kept.heap with ⟨on, rest⟩ | lost
      · -- the edit and what follows it are the same in either view, so the rest starts alike
        have after : D.Kept { m with heap := change.apply m.heap } := { kept with heap := on }
        obtain ⟨edits, goes⟩ := Instructs.overlooks fine m.heap
        have same : (carryOut pending (.edit change next)).result (m.viewed D.blind)
            = (carryOut pending (next (change.apply m.heap))).result
                ({ m with heap := change.apply m.heap }.viewed D.blind) := by
          change (carryOut pending (next (change.apply (m.viewed D.blind).heap))).result
            { m.viewed D.blind with heap := change.apply (m.viewed D.blind).heap } = _
          rw [m.heap_viewed, edits, (Instructs.overlooks fine (change.apply m.heap)).2]
          exact congrArg _ (m.withHeap_viewed _)
        rw [same]
        exact ih _ rest _ after
      · exact .inr (lost pending { m with heap := change.apply m.heap } rfl)
  | «global» name next ih =>
      refine .bind (.ask (fun _ => rfl) fun m kept => Bindings.passes_get? kept.globals name)
        fun v known => ih v (Instructs.global fine known)
  | setGlobal name v next ih =>
      have given := Instructs.setGlobal fine
      refine .bind (.change (fun _ => rfl) fun m kept => ?_) fun _ _ => ih given.2
      exact { kept with globals := Bindings.passes_set kept.globals given.1 }
  | call callee args next =>
      obtain ⟨known, given, goes⟩ := Instructs.call fine
      have rest : (Task.proceed next).Held D.toStandard := goes
      refine (Obeys.deliver known ?_).careful
      grind

/-- A function of the host is asked for what it does with its arguments. The others work on their
receiver and their arguments. -/
@[grind ←] theorem callNative_careful (fn : Native) {receiver : Option Value}
    (known : D.Allows receiver) (given : D.Allows args) (waits : D.Allows pending) :
    Careful D (callNative fn receiver args pending) := by
  have first := Value.passes_headD given
  have foreign (id : ForeignFunction) :
      Careful D (do carryOut pending (← ask (·.foreign id receiver args))) :=
    .bind (.ask (fun _ => rfl) fun m kept => kept.foreign id receiver args known given)
      fun routine fine => carryOut_careful fine waits
  unfold callNative
  extract_lets rest
  have does : Careful D (rest ()) := by
    dsimp only [rest]
    split
    case h_3 id => exact foreign id
    all_goals grind
  grind

/-- A collection is made of what a value is made of, which takes an iterator. -/
@[grind ←] theorem constructType_careful (tag : TypeTag) (given : D.Allows args)
    (waits : D.Allows pending) : Careful D (constructType tag args pending) := by
  unfold constructType
  split <;> grind

@[grind ←] theorem constructException_obeys (type : ExceptionType) (given : D.Allows args)
    (waits : D.Allows pending) : Obeys D (constructException type args pending) := by
  unfold constructException
  grind

/-- The constructor of a class is called on a new instance with the arguments. -/
@[grind ←] theorem construction_obeys (c : ClassId) (given : D.Allows args) :
    Obeys D (construction c args) := by
  unfold construction
  grind

omit [D.Instructs] in
/-- The receiver of a call is the one that a closure or a bound method holds. -/
theorem passes_callOf? [E.Lawful] {h : Heap} (meets : h.Meets E) (callee : Value)
    (given : Passes E args) : Passes E (callOf? h callee args) := by
  cases callee with
  | closure id => exact passes_some.2 ⟨meets.closures id, given⟩
  | bound receiver target =>
      cases target with
      | method id => exact passes_some.2 ⟨passes_some.2 (Value.passes_toValue receiver), given⟩
      | native object => exact passes_none
  | method id => exact passes_some.2 ⟨passes_none, given⟩
  | _ => exact passes_none

/-- Whatever is called gets the arguments and nothing else. -/
@[grind ←] theorem call_careful {callee : Value} (known : D.Allows callee)
    (given : D.Allows args) (waits : D.Allows pending) :
    Careful D (Action.call callee args pending) := by
  unfold Action.call
  refine .bind (.askHeap (fun h => callOf?_unplaced h callee args) fun h meets =>
    passes_callOf? meets callee given) fun found fine => ?_
  cases found with
  | some call => exact (enter_obeys (passes_some.1 fine) waits).careful
  | none => grind

@[grind ←] theorem invoke_careful {callee : Value} (known : D.Allows callee)
    (given : D.Allows args) : Careful D (invoke callee args) := by
  unfold invoke
  refine .bind (.askHeap (fun h => callOf?_unplaced h callee args) fun h meets =>
    passes_callOf? meets callee given) fun found fine => ?_
  cases found with
  | some call => exact (activate_obeys (passes_some.1 fine) Returns.passes_value).careful
  | none => grind

omit [D.Instructs] in
@[grind ←] theorem receiver_obeys : Obeys D (askFrame (·.receiver) none) :=
  .askFrame (fun _ => rfl) (fun _ _ held => held.receiver) passes_none

/-- The constructor of a base runs on the receiver of the topmost frame. -/
@[grind ←] theorem invokeSuper_obeys (base : Value) (given : D.Allows args) :
    Obeys D (invokeSuper base args) := by
  have owner : Obeys D underConstruction := by
    refine .ask (fun m => ?_) fun _ _ => passes_number _
    rw [Machine.frames_unplaced]
    cases m.frames <;> rfl
  unfold invokeSuper
  refine .bind owner fun owner _ => ?_
  split
  · grind
  · extract_lets rest
    have does : Obeys D (rest ()) := by
      dsimp only [rest]
      refine .bind receiver_obeys fun receiver known => ?_
      split <;> grind
    grind
  · grind

/-! ## Modules -/

/-- A module is a plain value. It is remembered before its code runs. -/
@[grind ←] theorem loadModule_obeys (name : String) (waits : D.Allows pending) :
    Obeys D (loadModule name pending) := by
  have remember (id : ModuleId) : Obeys D (change fun m =>
      { m with modules := m.modules.set name id }.note fun _ => .load name) := by
    refine .change (fun m =>
      Machine.note_unplaced { m with modules := m.modules.set name id } rfl) fun m kept => ?_
    have named : D.Kept { m with modules := m.modules.set name id } := { kept with }
    exact named.note _
  unfold loadModule
  refine .bind (.ask (fun _ => rfl) fun _ _ => passes_number _) fun known _ => ?_
  cases known with
  | some id => exact .deliver (Value.passes_of_isPlain rfl) waits
  | none =>
      refine .bind (.ask (fun _ => rfl) fun _ _ => passes_number _) fun found _ => ?_
      cases found with
      | none => exact .fault _
      | some id =>
          refine .bind (remember id) fun _ _ => ?_
          grind

/-- Where no frame is live nothing is bound. -/
@[grind ←] theorem bindHere_obeys (name : String) (known : D.Allows v) :
    Obeys D (bindHere name v) := by
  refine .change (fun m => ?_) fun m kept => ?_
  · rw [Machine.frames_unplaced]
    cases m.frames <;> rfl
  · split
    · exact kept
    · exact { kept with heap := kept.heap.setModuleAttribute _ name known }

/-- The names are bound one after the other up to the first that is not found. -/
@[grind ←] theorem bindNames_obeys (source : String) (module : ModuleId) (names : List String) :
    Obeys D (bindNames source module names) := by
  induction names with
  | nil => exact .pure trivial
  | cons name rest ih =>
      unfold bindNames
      grind

@[grind ←] theorem bindAll_obeys {bindings : Bindings Value} (known : D.Allows bindings) :
    Obeys D (bindAll bindings) := by
  induction bindings with
  | nil => exact .pure trivial
  | cons binding rest ih =>
      obtain ⟨first, others⟩ := passes_cons.1 known
      exact .bind (bindHere_obeys _ first.2) fun _ _ => ih others

/-! ## Exceptions -/

/-- An exception that is made to be raised has no trace yet. -/
@[grind ←] theorem exceptionOf_obeys (v : Value) : Obeys D (exceptionOf v) := by
  cases v with
  | exception id => exact .pure trivial
  | exceptionType type => exact .makeException rfl
  | «instance» id =>
      refine .bind (.ask (fun m => ?_) fun _ _ => passes_number _) fun known _ => ?_
      · simp only [Machine.current_unplaced, Machine.heap_unplaced, Heap.unplaced_exception,
          ExceptionObject.payload_unplaced]
      cases known with
      | some e => exact .pure trivial
      | none => exact .newException (fun h => wrapped_unplaced h id) fun _ => rfl
  | _ => exact .faultWith fun h => congrArg Fault.notRaisable (h.typeName_unplaced _)

/-- Exceptions and instances are plain values. -/
@[grind .] theorem caught_obeys : Obeys D caught := by
  refine .ask (fun m => ?_) fun m _ => ?_
  · rw [Machine.current_unplaced]
    cases m.current with
    | none => rfl
    | some e =>
        simp only [Machine.heap_unplaced, Heap.unplaced_exception,
          ExceptionObject.payload_unplaced]
  · grind

/-! ## The rest of an operation -/

/-- A task works on what it has at hand and the value that it waited for. -/
theorem performTask_careful {task : Task} (first : D.Allows task) (known : D.Allows v)
    (waits : D.Allows pending) : Careful D (performTask task v pending) := by
  unfold performTask
  cases task with
  | proceed next => exact carryOut_careful (first v known) waits
  | follow path => cases path <;> grind
  | _ => grind

/-- The value that an operation comes to is pushed, dropped or given to the host, or a constructor
is called. -/
theorem conclude_obeys {finish : Finish} (waits : D.Allows finish) (known : D.Allows v) :
    Obeys D (conclude finish v) := by
  unfold conclude
  cases finish with
  | halt => exact .control known
  | _ => grind

/-- An operation goes on with the value it waited for. -/
theorem resume_careful (known : D.Allows v) (waits : D.Allows pending) :
    Careful D (resume v pending) := by
  unfold resume
  split
  · exact (conclude_obeys waits.2 known).careful
  · next first rest tasks =>
      have both : D.Allows (first :: rest) := by
        rw [← tasks]
        exact waits.1
      exact performTask_careful (passes_cons.1 both).1 known ⟨(passes_cons.1 both).2, waits.2⟩

/-- A frame that has ended gives its caller a value, or what it has constructed. -/
theorem handOver_obeys (waits : D.Allows returns) (known : D.Allows v) :
    Obeys D (handOver returns v) := by
  unfold handOver
  cases returns with
  | resume pending => exact .deliver known waits
  | _ => grind

end Action
end ScriptMachine
