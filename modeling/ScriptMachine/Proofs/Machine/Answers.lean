import ScriptMachine.Proofs.Machine.Quiet

/-!
How operations end. An operation is carried out for somebody: the topmost frame, which waits
for a number of values, or the host. `Answers` says that an action, after quiet work, gives
what is waited for, or calls something that will, or raises. All operations of the machine
answer the demand that their pending rest states; what a run preserves is derived from this
once, by induction on `Answers`.
-/

namespace ScriptMachine

/-- Who waits for the end of an operation. -/
inductive Demand where
  | host
  /-- The topmost frame, for this many values. -/
  | frame (count : Nat)
deriving DecidableEq

def Finish.demand : Finish → Demand
  | .halt => .host
  | .push | .construct _ _ => .frame 1
  | .discard | .constructBase _ _ => .frame 0

def Returns.demand : Returns → Demand
  | .value | .instance _ => .frame 1
  | .nothing => .frame 0
  | .resume pending => pending.finish.demand

@[simp] theorem Pending.finish_before (pending : Pending) (task : Task) :
    (pending.before task).finish = pending.finish := rfl

@[simp] theorem Pending.finish_push : Pending.push.finish = .push := rfl

@[simp] theorem Pending.finish_discard : Pending.discard.finish = .discard := rfl

open ScriptMachine.Action in
/-- The action meets a demand. `live` tells that the topmost frame is known to be running. -/
inductive Answers : (live : Bool) → Demand → Action Unit → Prop where
  | deliver {live : Bool} {demand : Demand} {pending : Pending} (v : Value) :
      pending.finish.demand = demand → Answers live demand (deliver v pending)
  | activate {live : Bool} {demand : Demand} {returns : Returns} (call : Call) :
      returns.demand = demand → returns.isNested = false → Answers live demand (activate call returns)
  /-- A nested call, which also depends on how many there are. -/
  | enter {live : Bool} {demand : Demand} {pending : Pending} (call : Call) :
      pending.finish.demand = demand → Answers live demand (enter call pending)
  | quietly {live : Bool} {demand : Demand} {α : Type} {a : Action α} {f : α → Action Unit} :
      Quiet a → (∀ x, Answers live demand (f x)) → Answers live demand (a >>= f)
  | fault {live : Bool} {demand : Demand} (cause : Fault) : Answers live demand (fault cause)
  | exception {live : Bool} {demand : Demand} (id : ExceptionId) :
      Answers live demand (throw (.exception id))
  | push (v : Value) : Answers true (.frame 1) (push v)
  | nothing : Answers true (.frame 0) (pure ())
  | proceed {live : Bool} : Answers live (.frame 0) proceed
  | proceedWith {live : Bool} (v : Value) :
      Answers live (.frame 1) (proceed >>= fun _ => push v)
  | halt {live : Bool} (v : Value) :
      Answers live .host (change ({ · with control := .returned v }))

namespace Answers

open ScriptMachine.Action

variable {live : Bool} {demand : Demand}

/-- A fault may tell what the heap looks like. -/
theorem faultWith (cause : Heap → Fault) : Answers live demand (faultWith cause) :=
  .quietly (.askHeap cause) fun c => .fault c

/-- Quiet work is all there is to do. -/
theorem done {a : Action Unit} (quiet : Quiet a) : Answers true (.frame 0) a := by
  rw [← bind_pure_unit (x := a)]
  exact .quietly quiet fun _ => .nothing

/-- Whether the instance offers the method or not, somebody gives what is waited for. -/
theorem hook {pending : Pending} {otherwise : Action Unit} (v : Value) (name : String)
    (args : List Value) (meets : pending.finish.demand = demand)
    (other : Answers live demand otherwise) :
    Answers live demand (hook v name args pending otherwise) := by
  refine .quietly (.askHeap _) fun found => ?_
  cases found with
  | some method => exact .enter _ meets
  | none => exact other

end Answers

namespace Action

variable {live : Bool} {demand : Demand} {pending : Pending}

/-! ## Attributes and classes -/

theorem global_quiet (module : ModuleId) (name : String) : Quiet (global module name) := by
  refine .bind (.ask fun alike => ?_) fun found => ?_
  · rw [Machine.global?, Machine.global?, alike.globals, alike.heap]
  · cases found with
    | some v => exact .pure v
    | none => exact .fault _

/-- The bases are still to be linked and the fields to be set, and the operation waits for both. -/
theorem prepare_answers (c : ClassId) (meets : pending.finish.demand = demand) :
    Answers live demand (prepare c pending) := by
  refine .quietly (.askHeap _) fun prepared => ?_
  split
  · exact .deliver _ meets
  · refine .quietly (.changeHeap fun _ => Heap.keeps_modifyClass fun _ => rfl) fun _ => ?_
    exact .quietly (.askHeap _) fun paths => .deliver _ meets

/-- A class without fields is ready at once. -/
theorem setFields_answers (c : ClassId) (meets : pending.finish.demand = demand) :
    Answers live demand (setFields c pending) := by
  refine .quietly (.askHeap _) fun setter => ?_
  cases setter with
  | some method => exact .enter _ meets
  | none => exact .deliver _ meets

/-- After the last base the fields are set. -/
theorem linkBases_answers (c : ClassId) (paths : List String)
    (meets : pending.finish.demand = demand) : Answers live demand (linkBases c paths pending) := by
  cases paths with
  | nil => exact setFields_answers c meets
  | cons path paths =>
      refine .quietly (.askHeap _) fun module => ?_
      exact .quietly (global_quiet _ _) fun first => .deliver _ meets

/-- The class that was found is prepared before the next base is looked for. -/
theorem baseFound_answers (c : ClassId) (paths : List String) (v : Value)
    (meets : pending.finish.demand = demand) :
    Answers live demand (baseFound c paths v pending) := by
  unfold baseFound
  split
  · exact .quietly (.changeHeap fun h => h.keeps_linkBase _ _) fun _ => prepare_answers _ meets
  · exact .quietly (.changeHeap fun _ => Heap.keeps_modifyClass fun _ => rfl) fun _ => .deliver _ meets
  · exact .deliver _ meets

/-- A class may have to be prepared before it is asked for an attribute. -/
theorem readAttribute_answers (v : Value) (name : String) (meets : pending.finish.demand = demand) :
    Answers live demand (readAttribute v name pending) := by
  unfold readAttribute
  split
  · exact prepare_answers _ meets
  · refine .quietly (.askHeap _) fun own => ?_
    split
    · exact .deliver _ meets
    · split
      · exact .quietly (.make fun _ => .of_tables rfl rfl rfl rfl) fun object => .deliver _ meets
      · exact .faultWith _

theorem readClassAttribute_answers (c : ClassId) (name : String)
    (meets : pending.finish.demand = demand) :
    Answers live demand (readClassAttribute c name pending) := by
  refine .quietly (.askHeap _) fun found => ?_
  cases found with
  | some v => exact .deliver v meets
  | none => exact .faultWith _

/-- Setting an attribute calls nothing. -/
theorem writeAttribute_quiet (target : Value) (name : String) (v : Value) :
    Quiet (writeAttribute target name v) := by
  unfold writeAttribute
  split
  · exact .changeHeap fun _ => .of_tables rfl rfl rfl rfl
  · exact .changeHeap fun _ => Heap.keeps_modifyClass fun _ => rfl
  · exact .changeHeap fun h => h.keeps_setModuleAttribute _ _ _
  · exact .faultWith _

/-! ## Iteration and texts -/

/-- A value with an iterator of its own calls for it, and may do so again. -/
theorem iterate_answers (v : Value) (left : Nat) (meets : pending.finish.demand = demand) :
    Answers live demand (iterate v left pending) := by
  refine .quietly (.askHeap _) fun builtin => ?_
  split
  · exact .quietly (.make fun _ => .of_tables rfl rfl rfl rfl) fun it => .deliver it meets
  · split
    · exact .deliver _ meets
    · refine .hook _ _ _ meets ?_
      refine .quietly (.askHeap _) fun moves => ?_
      split
      · exact .deliver _ meets
      · exact .faultWith _
    · exact .faultWith _

theorem iterated_answers (subject : InstanceId) (left : Nat) (v : Value)
    (meets : pending.finish.demand = demand) :
    Answers live demand (iterated subject left v pending) := by
  unfold iterated
  split
  · split
    · exact .deliver _ meets
    · split
      · exact iterate_answers _ _ meets
      · exact .fault _
  · exact iterate_answers _ _ meets
  · exact .fault _

theorem resetIter_answers (it : Value) (meets : pending.finish.demand = demand) :
    Answers live demand (resetIter it pending) := by
  unfold resetIter
  split
  · exact .quietly (.changeHeap fun _ => .of_tables rfl rfl rfl rfl) fun _ => .deliver _ meets
  · exact .hook _ _ _ meets (.deliver _ meets)

/-- An instance moves by a method, which gives the answer. -/
theorem moveIter_answers (it : Value) (meets : pending.finish.demand = demand) :
    Answers live demand (moveIter it pending) := by
  unfold moveIter
  split
  · exact .quietly (.make fun _ => .of_tables rfl rfl rfl rfl) fun moved => .deliver _ meets
  · exact .hook _ _ _ meets (.faultWith _)

theorem iterItem_answers (it : Value) (meets : pending.finish.demand = demand) :
    Answers live demand (iterItem it pending) := by
  unfold iterItem
  split
  · exact .quietly (.askHeap _) fun item => .deliver _ meets
  · exact .hook _ _ _ meets (.faultWith _)

/-- Collecting begins with an iterator and goes on with it later. -/
theorem collect_answers (v : Value) (meets : pending.finish.demand = demand) :
    Answers live demand (collect v pending) := by
  unfold collect
  split
  · exact .quietly (.askHeap _) fun items => .deliver _ meets
  · exact .deliver _ meets
  · exact iterate_answers _ _ meets

theorem text_answers (v : Value) (meets : pending.finish.demand = demand) :
    Answers live demand (text v pending) :=
  .hook _ _ _ meets (.quietly (.askHeap _) fun _ => .deliver _ meets)

/-- The texts are shown one by one, each by an operation of its own. -/
theorem showRest_answers (texts : List String) (rest : List Value)
    (meets : pending.finish.demand = demand) :
    Answers live demand (showRest texts rest pending) := by
  cases rest with
  | nil => exact .deliver _ meets
  | cons v rest => exact text_answers v meets

/-! ## Calls -/

/-- To print is not to call. -/
theorem print_quiet (texts : List String) : Quiet (print texts) := by
  refine .bind (Quiet.mk (fun m => ⟨rfl, rfl, rfl, rfl, rfl, .refl _⟩)
    (fun m => .of_same rfl rfl) (fun alike => ?_) fun _ _ wrong => nomatch wrong) fun refused => ?_
  · simp only [result_modifyGet, alike.sink, true_and]
    exact { alike with sink := rfl }
  · split
    · exact .fault _
    · exact .pure _

/-- Functions that need a text or an item call for it and are done later. -/
theorem callBuiltin_answers (fn : Builtin) (args : List Value)
    (meets : pending.finish.demand = demand) :
    Answers live demand (callBuiltin fn args pending) := by
  cases fn with
  | print => exact showRest_answers _ _ meets
  | len =>
      refine .quietly (.askHeap _) fun size => ?_
      cases size with
      | some n => exact .deliver _ meets
      | none => exact .hook _ _ _ meets (.faultWith _)
  | repr => exact .quietly (.askHeap _) fun _ => .deliver _ meets
  | str => exact text_answers _ meets
  | typeof => exact .quietly (.askHeap _) fun _ => .deliver _ meets
  | hash => exact .quietly (.consult _) fun _ => .deliver _ meets
  | range =>
      refine .quietly (.consult _) fun it => ?_
      exact .quietly (.make fun _ => .of_tables rfl rfl rfl rfl) fun _ => .deliver _ meets

theorem callHostFunction_answers (fn : HostFunction) (receiver : Option Value) (args : List Value)
    (meets : pending.finish.demand = demand) :
    Answers live demand (callHostFunction fn receiver args pending) := by
  cases fn with
  | apply => exact .deliver _ meets
  | add =>
      dsimp only [callHostFunction]
      split
      · exact .deliver _ meets
      · exact .fault _
  | fail => exact text_answers _ meets
  | receiver => exact .deliver _ meets

/-- A function of the host gives, raises or calls, after any number of edits. The induction is on
what it does. -/
theorem carryOut_answers (routine : Routine) (meets : pending.finish.demand = demand) :
    Answers live demand (carryOut pending routine) := by
  induction routine with
  | give v => exact .deliver v meets
  | fail type message =>
      exact .quietly (.make fun _ => .of_tables rfl rfl rfl rfl) fun id => .exception id
  | raise id => exact .exception id
  | edit change next ih =>
      refine .quietly (.changeHeap change.keeps) fun _ => ?_
      exact .quietly (.askHeap _) fun h => ih h
  | «global» name next ih =>
      exact .quietly (.ask fun alike => by rw [alike.globals]) fun v => ih v
  | setGlobal name v next ih =>
      refine .quietly (.change (fun m => ⟨rfl, rfl, rfl, rfl, rfl, .refl _⟩) fun alike => ?_) fun _ => ih
      exact { alike with globals := congrArg (·.set name v) alike.globals }
  | call callee args next => exact .deliver _ meets

/-- The number of arguments is looked at first. -/
theorem callNative_answers (fn : Native) (receiver : Option Value) (args : List Value)
    (meets : pending.finish.demand = demand) :
    Answers live demand (callNative fn receiver args pending) := by
  unfold callNative
  extract_lets rest
  have answers : Answers live demand (rest ()) := by
    dsimp only [rest]
    split
    · exact callBuiltin_answers _ _ meets
    · exact callHostFunction_answers _ _ _ meets
    · refine .quietly (.ask fun alike => by rw [alike.foreign]) fun routine => ?_
      exact carryOut_answers routine meets
    · exact collect_answers _ meets
    · exact collect_answers _ meets
    · exact .quietly (.primitive (Operation.listMethod_keeps _ _ _)) fun _ => .deliver _ meets
    · exact .quietly (.primitive (Operation.mapMethod_keeps _ _ _)) fun _ => .deliver _ meets
    · exact .quietly (.primitive (Operation.textMethod_keeps _ _ _)) fun _ => .deliver _ meets
  split
  · split
    · exact .quietly (.fault _) fun _ => answers
    · exact answers
  · exact answers

theorem constructType_answers (tag : TypeTag) (args : List Value)
    (meets : pending.finish.demand = demand) :
    Answers live demand (constructType tag args pending) := by
  unfold constructType
  split
  · exact .fault _
  · exact .deliver _ meets
  · exact .quietly (.consult _) fun _ => .deliver _ meets
  · exact .deliver _ meets
  · exact .quietly (.consult _) fun _ => .deliver _ meets
  · exact .deliver _ meets
  · exact text_answers _ meets
  · exact .deliver _ meets
  · exact .quietly (.askHeap _) fun _ => .deliver _ meets
  · exact .quietly (.make fun _ => .of_tables rfl rfl rfl rfl) fun _ => .deliver _ meets
  · exact collect_answers _ meets
  · exact .deliver _ meets
  · exact collect_answers _ meets
  · exact .quietly (.make fun _ => .of_tables rfl rfl rfl rfl) fun _ => .deliver _ meets
  · exact .quietly (.make fun _ => .of_tables rfl rfl rfl rfl) fun _ => .deliver _ meets
  · exact .fault _

theorem constructException_answers (type : ExceptionType) (args : List Value)
    (meets : pending.finish.demand = demand) :
    Answers live demand (constructException type args pending) := by
  unfold constructException
  split
  · exact .quietly (.make fun _ => .of_tables rfl rfl rfl rfl) fun _ => .deliver _ meets
  · exact text_answers _ meets
  · exact .fault _

/-- An instance is made before its constructor is called. -/
theorem construction_quiet (c : ClassId) (args : List Value) : Quiet (construction c args) := by
  refine .bind (.make fun _ => .of_tables rfl rfl rfl rfl) fun id => ?_
  exact .bind (.askHeap _) fun method => .pure _

/-- A value that cannot be called is a fault. -/
theorem call_answers (callee : Value) (args : List Value) (meets : pending.finish.demand = demand) :
    Answers live demand (call callee args pending) := by
  refine .quietly (.askHeap _) fun found => ?_
  split
  · exact .enter _ meets
  · split
    · exact callNative_answers _ _ _ meets
    · exact callNative_answers _ _ _ meets
    · exact prepare_answers _ meets
    · exact constructType_answers _ _ meets
    · exact constructException_answers _ _ meets
    · exact .hook _ _ _ meets (.faultWith _)

/-- An instruction that calls pushes one value, whatever it calls. -/
theorem invoke_answers (callee : Value) (args : List Value) :
    Answers live (.frame 1) (invoke callee args) := by
  refine .quietly (.askHeap _) fun found => ?_
  split
  · exact .activate _ rfl rfl
  · split
    · exact prepare_answers _ rfl
    · exact call_answers _ _ rfl

theorem underConstruction_quiet : Quiet underConstruction := by
  refine .ask fun {m m'} alike => ?_
  have faces := alike.faces
  rw [← alike.heap]
  cases first : m.frames with
  | nil =>
      rw [first] at faces
      rw [List.map_eq_nil_iff.1 faces.symm]
  | cons f rest =>
      rw [first, List.map_cons] at faces
      obtain ⟨f', rest', second, face, -⟩ := List.map_eq_cons_iff.1 faces.symm
      obtain ⟨receiver, _, owner, _⟩ := Face.mk.inj face
      rw [second]
      dsimp only
      rw [owner, receiver]

/-- The constructor of a base gives nothing to the constructor that calls it. -/
theorem invokeSuper_answers (base : Value) (args : List Value) :
    Answers true (.frame 0) (invokeSuper base args) := by
  refine .quietly underConstruction_quiet fun owner => ?_
  split
  · have rest (base : ClassId) : Answers true (.frame 0)
        (prepare base { finish := .constructBase base args }) := prepare_answers _ rfl
    cases owner with
    | some c => exact .quietly (.changeHeap fun h => h.keeps_linkBase _ _) fun _ => rest _
    | none => exact rest _
  · extract_lets rest
    have answers : Answers true (.frame 0) (rest ()) := by
      refine .quietly (.askFrame (·.receiver) fun _ => rfl) fun receiver => ?_
      split
      · cases args with
        | cons v _ => exact text_answers v rfl
        | nil => exact .deliver _ rfl
      · exact .nothing
    cases owner with
    | some c => exact .quietly (.changeHeap fun _ => Heap.keeps_modifyClass fun _ => rfl) fun _ => answers
    | none => exact answers
  · exact .faultWith _

/-! ## Modules -/

/-- Finds the module of a name: one that is remembered, or else one that the loader knows, which is
remembered from now on. -/
def findModule (name : String) : Action (Option (ModuleId × Bool)) :=
  modifyGet fun m =>
    match m.modules.get? name, m.loader name with
    | some id, _ => (some (id, true), m)
    | none, some id =>
        (some (id, false), { m with modules := m.modules.set name id }.note fun _ => .load name)
    | none, none => (none, m)

/-- To load a module is to find it, and to run it if it has just been found. -/
theorem loadModule_eq (name : String) (pending : Pending) :
    loadModule name pending = findModule name >>= fun
      | some (id, true) => deliver (.module id) pending
      | some (id, false) => do
          let method ← askHeap fun h => (h.module id).topLevel
          enter { method } (pending.before (.answer (.module id)))
      | none => fault (.moduleNotFound name) := by
  apply ExceptT.ext
  apply StateT.ext
  intro m
  change (loadModule name pending).result m = Action.result _ m
  unfold loadModule findModule
  rw [result_bind_ok (result_ask _ m), result_bind_ok (result_modifyGet _ m)]
  cases known : m.modules.get? name with
  | some id => rfl
  | none =>
      dsimp only
      rw [result_bind_ok (result_ask _ m)]
      cases found : m.loader name with
      | none => rfl
      | some id =>
          dsimp only
          rw [result_bind_ok (result_change _ m)]

/-- A module that the loader finds is remembered before it runs. -/
theorem findModule_quiet (name : String) : Quiet (findModule name) where
  keeps m := by
    unfold findModule
    rw [result_modifyGet]
    split
    · exact .refl m
    · next id _ _ =>
        have kept : m.Keeps { m with modules := m.modules.set name id } :=
          ⟨rfl, rfl, rfl, rfl, rfl, .refl _⟩
        exact kept.trans (Machine.keeps_note _ fun _ => .load name)
    · exact .refl m
  acquires m := by
    unfold findModule
    rw [result_modifyGet]
    split
    · exact .refl m
    · next new _ => exact .load new _
    · exact .refl m
  alike {m m'} alike := by
    unfold findModule
    rw [result_modifyGet, result_modifyGet, alike.modules, alike.loader]
    split
    · exact ⟨rfl, alike⟩
    · next id _ _ =>
        have remembered : Machine.Alike
            { m with modules := m'.modules.set name id, loader := m'.loader }
            { m' with modules := m'.modules.set name id } :=
          { alike with modules := rfl, loader := rfl }
        exact ⟨rfl, Machine.alike_note remembered (fun _ => .load name) fun _ => .load name⟩
    · exact ⟨rfl, alike⟩
  sound _ _ wrong := nomatch wrong

/-- A module that was loaded before is there at once. -/
theorem loadModule_answers (name : String) (meets : pending.finish.demand = demand) :
    Answers live demand (loadModule name pending) := by
  rw [loadModule_eq]
  refine .quietly (findModule_quiet name) fun found => ?_
  match found with
  | some (id, true) => exact .deliver _ meets
  | some (id, false) => exact .quietly (.askHeap _) fun method => .enter _ meets
  | none => exact .fault _

theorem bindHere_quiet (name : String) (v : Value) : Quiet (bindHere name v) := by
  refine .change (fun m => ?_) (fun {m m'} alike => ?_) fun m => ?_
  · split
    · exact .refl m
    · exact ⟨rfl, rfl, rfl, rfl, rfl, Heap.keeps_setModuleAttribute _ _ _ _⟩
  · have same := alike.frames (fun face => some face.module) none
    cases first : m.frames with
    | nil =>
        cases second : m'.frames with
        | nil => exact alike
        | cons g _ =>
            rw [first, second] at same
            cases same
    | cons f _ =>
        cases second : m'.frames with
        | nil =>
            rw [first, second] at same
            cases same
        | cons g _ =>
            rw [first, second] at same
            have modules : f.method.module = g.method.module := Option.some.inj same
            have heaps : m.heap.setModuleAttribute f.method.module name v
                = m'.heap.setModuleAttribute g.method.module name v := by
              rw [alike.heap, modules]
            exact { alike with heap := heaps }
  · split
    · exact .refl m
    · exact .of_same rfl rfl

/-- Binding names ends at the first that is missing. -/
theorem bindNames_quiet (source : String) (module : ModuleId) (names : List String) :
    Quiet (bindNames source module names) := by
  induction names with
  | nil => exact .pure _
  | cons name rest ih =>
      refine .bind (.askHeap _) fun found => ?_
      cases found with
      | some v => exact .bind (bindHere_quiet name v) fun _ => ih
      | none => exact .bind (.fault _) fun _ => ih

theorem bindAll_quiet (bindings : List (String × Value)) : Quiet (bindAll bindings) := by
  induction bindings with
  | nil => exact .pure _
  | cons binding rest ih => exact .bind (bindHere_quiet _ _) fun _ => ih

/-! ## Exceptions -/

/-- An exception may have to be made for what is raised. -/
theorem exceptionOf_quiet (v : Value) : Quiet (exceptionOf v) := by
  unfold exceptionOf
  split
  · exact .pure _
  · exact .make fun _ => .of_tables rfl rfl rfl rfl
  · refine .bind (.ask fun alike => by rw [alike.current, alike.heap]) fun known => ?_
    cases known with
    | some e => exact .pure e
    | none => exact .make fun _ => .of_tables rfl rfl rfl rfl
  · exact .faultWith _

theorem caught_quiet : Quiet caught :=
  .ask fun alike => by rw [alike.current, alike.heap]

/-! ## The rest of an operation -/

/-- Every task goes on with the operation it belongs to, so the demand stays. -/
theorem performTask_answers (task : Task) (v : Value) (meets : pending.finish.demand = demand) :
    Answers live demand (performTask task v pending) := by
  cases task with
  | apply args => exact call_answers v args meets
  | answer value => exact .deliver value meets
  | text => exact .quietly (.askHeap _) fun _ => .deliver _ meets
  | truth => exact .quietly (.askHeap _) fun _ => .deliver _ meets
  | linkBases c paths => exact linkBases_answers c paths meets
  | follow path =>
      cases path with
      | nil => exact .deliver v meets
      | cons name path => exact readAttribute_answers v name meets
  | baseFound c paths => exact baseFound_answers c paths v meets
  | classAttribute c name => exact readClassAttribute_answers c name meets
  | construct c args => exact .quietly (construction_quiet c args) fun _ => .enter _ meets
  | iterate subject left => exact iterated_answers subject left v meets
  | collect => exact resetIter_answers v meets
  | collectMove it items => exact moveIter_answers it meets
  | collectTest it items =>
      refine .quietly (.askHeap _) fun more => ?_
      split
      · exact iterItem_answers it meets
      · exact .deliver _ meets
  | collectItem it items => exact moveIter_answers it meets
  | showItems => exact showRest_answers _ _ meets
  | showRest texts rest => exact .quietly (.askHeap _) fun _ => showRest_answers _ _ meets
  | makeList =>
      exact .quietly (.make fun _ => .of_tables rfl rfl rfl rfl) fun _ => .deliver _ meets
  | makeException type =>
      refine .quietly (.askHeap _) fun message => ?_
      exact .quietly (.make fun _ => .of_tables rfl rfl rfl rfl) fun _ => .deliver _ meets
  | setMessage target =>
      exact .quietly (.changeHeap fun _ => .of_tables rfl rfl rfl rfl) fun _ => .deliver _ meets
  | fail => exact .faultWith _
  | appendItems receiver =>
      exact .quietly (.primitive (Operation.listMethod_keeps _ _ _)) fun _ => .deliver _ meets
  | joinTexts receiver =>
      exact .quietly (.primitive (Operation.textMethod_keeps _ _ _)) fun _ => .deliver _ meets
  | print => exact .quietly (print_quiet _) fun _ => .deliver _ meets
  | bindModule name => exact .quietly (bindHere_quiet name v) fun _ => .deliver _ meets
  | importNames source names =>
      dsimp only [performTask]
      split
      · exact .quietly (bindNames_quiet _ _ _) fun _ => .deliver _ meets
      · exact .deliver _ meets
  | importAll =>
      dsimp only [performTask]
      split
      · refine .quietly (.askHeap _) fun bindings => ?_
        exact .quietly (bindAll_quiet bindings) fun _ => .deliver _ meets
      · exact .deliver _ meets
  | proceed next => exact carryOut_answers (next v) meets

/-- What an operation comes to is what was waited for. -/
theorem conclude_answers (finish : Finish) (v : Value) :
    Answers false finish.demand (conclude finish v) := by
  cases finish with
  | halt => exact .halt v
  | push => exact .proceedWith v
  | discard => exact .proceed
  | construct c args => exact .quietly (construction_quiet c args) fun _ => .activate _ rfl rfl
  | constructBase c args =>
      refine .quietly (.askHeap _) fun method => ?_
      exact .quietly (.askFrame (·.receiver) fun _ => rfl) fun receiver => .activate _ rfl rfl

/-- An operation that goes on meets the demand that its end states. -/
theorem resume_answers (v : Value) (pending : Pending) :
    Answers false pending.finish.demand (resume v pending) := by
  unfold resume
  split
  · exact conclude_answers pending.finish v
  · exact performTask_answers _ v rfl

/-- A frame that ends gives its caller what the caller waits for. -/
theorem handOver_answers (returns : Returns) (v : Value) :
    Answers true returns.demand (handOver returns v) := by
  cases returns with
  | value => exact .push v
  | «instance» id => exact .push _
  | nothing => exact .nothing
  | resume pending => exact .deliver v rfl

/-! ## What instructions do with their operands -/

/-- An operator pushes its value, or calls a method that gives it. -/
theorem binary_answers (op : BinaryOp) (left right : Value) :
    Answers true (.frame 1) (binary op left right) := by
  have builtin : Answers true (.frame 1) (do push (← primitive (Operation.binary op left right))) :=
    .quietly (.primitive (Operation.binary_keeps op left right)) fun v => .push v
  unfold binary
  dsimp only
  split
  · exact .hook _ _ _ rfl builtin
  · exact builtin

theorem unary_answers (op : UnaryOp) (v : Value) : Answers true (.frame 1) (unary op v) :=
  .hook _ _ _ rfl (.quietly (.consult _) fun w => .push w)

theorem readItem_answers (container index : Value) :
    Answers true (.frame 1) (readItem container index) := by
  refine .quietly (.askHeap _) fun found => ?_
  split
  · exact .push _
  · exact .fault _
  · exact .hook _ _ _ rfl (.faultWith _)

/-- A container of one's own is told by a method, whose value is dropped. -/
theorem writeItem_answers (container index v : Value) :
    Answers true (.frame 0) (writeItem container index v) := by
  unfold writeItem
  split
  · next set found => exact .done (.primitive (Operation.setItem?_keeps found))
  · exact .hook _ _ _ rfl (.faultWith _)

theorem readSelf_answers : Answers true (.frame 1) readSelf :=
  .quietly (.askFrame (·.receiver) fun _ => rfl) fun _ => .push _

theorem readGlobal_answers (name : String) : Answers true (.frame 1) (readGlobal name) := by
  refine .quietly (.askFrame (·.module) fun _ => rfl) fun module => ?_
  exact .quietly (global_quiet module name) fun v => .push v

theorem setGlobal_quiet (module : ModuleId) (name : String) (v : Value) :
    Quiet (change (·.setGlobal module name v)) := by
  refine .change (fun m => ?_) (fun {m m'} alike => ?_) fun m => ?_
  · unfold Machine.setGlobal
    split
    · exact ⟨rfl, rfl, rfl, rfl, rfl, Heap.keeps_setModuleAttribute _ _ _ _⟩
    · exact ⟨rfl, rfl, rfl, rfl, rfl, .refl _⟩
  · have heaps := alike.heap
    unfold Machine.setGlobal
    rw [heaps]
    split
    · exact { alike with heap := rfl }
    · exact { alike with heap := rfl, globals := congrArg (·.set name v) alike.globals }
  · unfold Machine.setGlobal
    split <;> exact .of_same rfl rfl

/-- Setting a variable calls nothing and gives nothing. -/
theorem writeGlobal_answers (name : String) (v : Value) :
    Answers true (.frame 0) (writeGlobal name v) :=
  .quietly (.askFrame (·.module) fun _ => rfl) fun module => .done (setGlobal_quiet module name v)

theorem buildList_answers (items : List Value) : Answers true (.frame 1) (buildList items) :=
  .quietly (.make fun _ => .of_tables rfl rfl rfl rfl) fun v => .push v

theorem buildMap_answers (items : List Value) : Answers true (.frame 1) (buildMap items) :=
  .quietly (.primitive (Operation.newMap_keeps items)) fun v => .push v

theorem testType_answers (v type : Value) : Answers true (.frame 1) (testType v type) :=
  .quietly (.consult _) fun _ => .push _

/-- A cast gives the value itself or raises. -/
theorem castType_answers (v type : Value) : Answers true (.frame 1) (castType v type) :=
  .quietly (.consult _) fun _ => .push _

/-- Whatever is waited for, it does not come. -/
theorem raiseValue_answers {live : Bool} {demand : Demand} (v : Value) :
    Answers live demand (raiseValue v) :=
  .quietly (exceptionOf_quiet v) fun id => .exception id

theorem readCaught_answers : Answers true (.frame 1) readCaught :=
  .quietly caught_quiet fun v => .push v

/-- A closure is made of a method and nothing else. -/
theorem captureLocals_answers (method : MethodId) :
    Answers true (.frame 1) (captureLocals (.method method)) := by
  refine .quietly (.change (fun m => m.keeps_note _) (fun alike => ?_) fun m => ?_) fun _ => ?_
  · exact Machine.alike_note alike _ _
  · exact (Machine.Acquires.refl m).noted _ fun _ => Event.noConfusion
  refine .quietly (.askFrame (·.env) fun _ => rfl) fun env => ?_
  refine .quietly (.askFrame (·.receiver) fun _ => rfl) fun receiver => ?_
  exact .quietly (.make fun _ => .of_tables rfl rfl rfl rfl) fun closure => .push closure

theorem writeLocal_quiet (slot : Nat) (v : Value) : Quiet (writeLocal slot v) := by
  refine .bind (.askFrame (·.env) fun _ => rfl) fun env => ?_
  refine .changeHeap fun h => Heap.keeps_modifyEnv fun slots => ?_
  rw [Array.size_setIfInBounds, Array.size_append]
  exact Nat.le_add_right _ _

end Action
end ScriptMachine
