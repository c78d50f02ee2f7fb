import ScriptMachine.Machine.Activation
import ScriptMachine.Operation.Arithmetic
import ScriptMachine.Operation.MapMethods
import ScriptMachine.Operation.TextMethods

/-!
What no operation takes away from the heap. Objects are never removed; of those that running
code relies on, methods and constants are never changed either, environments only get more
slots, and classes get bases only by linking.
-/

namespace ScriptMachine

namespace Heap

theorem Keeps.refl (h : Heap) : h.Keeps h :=
  ⟨rfl, fun _ => rfl, fun _ => Nat.le_refl _, Nat.le_refl _, .same fun _ => rfl⟩

/-- What is kept twice is kept. -/
theorem Keeps.trans {h₁ h₂ h₃ : Heap} (first : h₁.Keeps h₂) (second : h₂.Keeps h₃) :
    h₁.Keeps h₃ where
  methods := second.methods.trans first.methods
  constants id := (second.constants id).trans (first.constants id)
  slots id := Nat.le_trans (first.slots id) (second.slots id)
  classes := Nat.le_trans first.classes second.classes
  links := first.links.trans second.links

/-- The other tables of the heap do not matter. -/
theorem Keeps.of_tables {h h' : Heap} (methods : h'.methods = h.methods)
    (modules : h'.modules = h.modules) (envs : h'.envs = h.envs)
    (classes : h'.classes = h.classes) : h.Keeps h' where
  methods := methods
  constants id := by rw [Heap.module, Heap.module, modules]
  slots id := Nat.le_of_eq (by rw [Heap.env, Heap.env, envs])
  classes := Nat.le_of_eq (by rw [classes])
  links := .same fun c => by rw [Heap.cls, Heap.cls, classes]

/-- A new environment takes no slots from those that are there. -/
theorem keeps_newEnv (h : Heap) (slots : Array Value) : h.Keeps (h.newEnv slots).2 where
  methods := rfl
  constants _ := rfl
  slots id := by
    simp only [env, newEnv, Array.getD_eq_getD_getElem?, Array.getElem?_push]
    split
    · next last => simp [last]
    · exact Nat.le_refl _
  classes := Nat.le_refl _
  links := .same fun _ => rfl

/-- An environment that is there can be read back after a change. -/
theorem env_modifyEnv_self {h : Heap} {id : EnvId} {change : Array Value → Array Value}
    (known : id < h.envs.size) : (h.modifyEnv id change).env id = change (h.env id) := by
  simp [env, modifyEnv, Array.getElem_modify, known]

/-- Environments may be changed if they do not lose slots. -/
theorem keeps_modifyEnv {h : Heap} {id : EnvId} {change : Array Value → Array Value}
    (grows : ∀ slots, slots.size ≤ (change slots).size) : h.Keeps (h.modifyEnv id change) where
  methods := rfl
  constants _ := rfl
  slots other := by
    by_cases known : other < h.envs.size
    · simp only [env, modifyEnv, Array.getD_eq_getD_getElem?, Array.getElem?_modify]
      split
      · simpa [known] using grows _
      · exact Nat.le_refl _
    · simp [env, modifyEnv, known]
  classes := Nat.le_refl _
  links := .same fun _ => rfl

/-- A module's attributes may change, but not its constants. -/
theorem keeps_setModuleAttribute (h : Heap) (id : ModuleId) (name : String) (v : Value) :
    h.Keeps (h.setModuleAttribute id name v) where
  methods := rfl
  constants other := by
    by_cases known : other < h.modules.size
    · simp only [module, setModuleAttribute, Array.getD_eq_getD_getElem?, Array.getElem?_modify]
      split <;> simp [known]
    · simp [module, setModuleAttribute, known]
  slots _ := Nat.le_refl _
  classes := Nat.le_refl _
  links := .same fun _ => rfl

/-- Only bases are part of the class graph. -/
theorem keeps_modifyClass {h : Heap} {id : ClassId} {change : ClassObject → ClassObject}
    (bases : ∀ k, (change k).bases = k.bases) : h.Keeps (h.modifyClass id change) where
  methods := rfl
  constants _ := rfl
  slots _ := Nat.le_refl _
  classes := by simp [modifyClass]
  links := by
    apply Links.same
    intro c
    by_cases known : c < h.classes.size
    · by_cases here : id = c
      · simp [cls, modifyClass, Array.getElem_modify, known, here, bases]
      · simp [cls, modifyClass, Array.getElem_modify, known, here]
    · simp [cls, modifyClass, known]

/-- A class gets one more base. -/
theorem keeps_linkBase (h : Heap) (c base : ClassId) : h.Keeps (h.linkBase c base) := by
  have tables : (h.linkBase c base).methods = h.methods ∧
      (h.linkBase c base).modules = h.modules ∧ (h.linkBase c base).envs = h.envs ∧
      (h.linkBase c base).classes.size = h.classes.size := by
    unfold linkBase modifyClass
    split <;> simp
  obtain ⟨methods, modules, envs, classes⟩ := tables
  exact ⟨methods, fun id => by rw [module, module, modules],
    fun id => Nat.le_of_eq (by rw [env, env, envs]), Nat.le_of_eq classes.symm, .link h c base⟩

end Heap

/-! ## Primitives -/

/-- What a primitive gives or fails with, and the heap after it. -/
def Primitive.result {α : Type} (p : Primitive α) (h : Heap) : Except Fault α × Heap :=
  p.run.run h

theorem Primitive.result_bind_ask {α β : Type} {question : Heap → α} {f : α → Primitive β} {h : Heap}
    {x : α} (answer : question h = x) : (Primitive.ask question >>= f).result h = (f x).result h := by
  rw [← answer]
  rfl

/-- The heap loses nothing, whether the primitive succeeds or not. -/
def KeepsHeap {ε α : Type} (p : ExceptT ε (StateM Heap) α) : Prop :=
  ∀ h : Heap, h.Keeps (p.run.run h).2

namespace KeepsHeap

variable {ε α β : Type}

theorem pure (x : α) : KeepsHeap (pure x : ExceptT ε (StateM Heap) α) :=
  fun h => .refl h

theorem throw (cause : ε) : KeepsHeap (throw cause : ExceptT ε (StateM Heap) α) :=
  fun h => .refl h

/-- What is kept by both parts is kept by the whole. -/
theorem bind {p : ExceptT ε (StateM Heap) α} {f : α → ExceptT ε (StateM Heap) β} (first : KeepsHeap p)
    (next : ∀ x, KeepsHeap (f x)) : KeepsHeap (p >>= f) := by
  intro h
  have kept := first h
  change h.Keeps (match p.run.run h with | (r, h') => (ExceptT.bindCont f r) h' :
    Except ε β × Heap).2
  rcases done : p.run.run h with ⟨e | x, h'⟩ <;> rw [done] at kept
  · exact kept
  · exact kept.trans (next x h')

theorem ask (question : Heap → α) : KeepsHeap (Primitive.ask question) :=
  fun h => .refl h

theorem consult (question : Heap → Except Fault α) : KeepsHeap (Primitive.consult question) := by
  refine .bind (.ask question) fun answer => ?_
  cases answer with
  | ok x => exact .pure x
  | error cause => exact .throw cause

/-- Making an object keeps the heap if the heap with the object in it is kept. -/
theorem make {action : Heap → α × Heap} (keeps : ∀ h : Heap, h.Keeps (action h).2) :
    KeepsHeap (Primitive.make action) :=
  keeps

theorem change {action : Heap → Heap} (keeps : ∀ h : Heap, h.Keeps (action h)) :
    KeepsHeap (Primitive.change action) :=
  keeps

theorem lift (answer : Except Fault α) : KeepsHeap (liftM answer : Primitive α) := by
  cases answer with
  | ok x => exact .pure x
  | error cause => exact .throw cause

end KeepsHeap

namespace Operation

open Primitive

theorem arithmetic_keeps (op : BinaryOp) (left right : Value) :
    KeepsHeap (arithmetic op left right) := by
  unfold arithmetic
  split
  · exact .lift _
  · split
    · exact .pure _
    · exact .bind (.ask _) fun cause => .throw cause
  · exact .pure _
  · exact .lift _
  · exact .make fun _ => .of_tables rfl rfl rfl rfl
  · exact .pure _
  · split
    · split
      · exact .pure _
      · exact .bind (.ask _) fun cause => .throw cause
    · exact .bind (.ask _) fun cause => .throw cause

/-- An operator may make a new object and changes none. -/
theorem binary_keeps (op : BinaryOp) (left right : Value) : KeepsHeap (binary op left right) := by
  unfold binary
  split
  · exact .bind (.consult _) fun answer => .pure _
  · exact .bind (.consult _) fun answer => .pure _
  · exact .bind (.ask _) fun answer => .pure _
  · exact .bind (.ask _) fun answer => .pure _
  · exact .bind (.consult _) fun answer => .pure _
  · exact .bind (.consult _) fun answer => .pure _
  · exact .bind (.consult _) fun answer => .pure _
  · exact .bind (.consult _) fun answer => .pure _
  · exact arithmetic_keeps op left right

/-- A map that is changed is neither a method nor an environment. -/
theorem store_keeps (id : MapId) (key v : Value) : KeepsHeap (store id key v) :=
  .bind (.lift _) fun _ => .change fun _ => .of_tables rfl rfl rfl rfl

/-- Setting an item changes the container only. -/
theorem setItem?_keeps {container index v : Value} {set : Primitive Unit}
    (found : setItem? container index v = some set) : KeepsHeap set := by
  unfold setItem? at found
  split at found <;> cases found
  · exact .bind (.consult _) fun i => .change fun _ => .of_tables rfl rfl rfl rfl
  · exact store_keeps _ _ _

/-- The entries are stored in a new map one after the other. -/
theorem newMap_keeps (items : List Value) : KeepsHeap (newMap items) :=
  .bind (.lift _) fun _ => .make fun _ => .of_tables rfl rfl rfl rfl

theorem extend_keeps (id : ListId) (items : List Value) : KeepsHeap (extend id items) :=
  .change fun _ => .of_tables rfl rfl rfl rfl

theorem removeAt_keeps (id : ListId) (i : Nat) : KeepsHeap (removeAt id i) :=
  .change fun _ => .of_tables rfl rfl rfl rfl

theorem listReceiver_keeps (receiver : Option Value) : KeepsHeap (listReceiver receiver) := by
  unfold listReceiver
  split
  · exact .pure _
  · exact .bind (.ask _) fun name => .throw _

theorem mapReceiver_keeps (receiver : Option Value) : KeepsHeap (mapReceiver receiver) := by
  unfold mapReceiver
  split
  · exact .pure _
  · exact .bind (.ask _) fun name => .throw _

theorem textReceiver_keeps (receiver : Option Value) : KeepsHeap (textReceiver receiver) := by
  unfold textReceiver
  split
  · exact .pure _
  · exact .bind (.ask _) fun name => .throw _

theorem textArgument_keeps (args : List Value) (i : Nat) : KeepsHeap (textArgument args i) := by
  unfold textArgument
  split
  · exact .pure _
  · exact .bind (.ask _) fun name => .throw _
  · exact .throw _

theorem wordArgument_keeps (args : List Value) (i : Nat) : KeepsHeap (wordArgument args i) := by
  unfold wordArgument
  split
  · exact .pure _
  · exact .bind (.ask _) fun name => .throw _
  · exact .throw _

/-- Methods of lists change the list they are called on. -/
theorem listMethod_keeps (fn : ListMethod) (receiver : Option Value) (args : List Value) :
    KeepsHeap (listMethod fn receiver args) := by
  unfold listMethod
  refine .bind (listReceiver_keeps receiver) fun id => ?_
  cases fn with
  | append => exact .bind (extend_keeps id _) fun _ => .pure _
  | prepend => exact .bind (.change fun _ => .of_tables rfl rfl rfl rfl) fun _ => .pure _
  | appendrange => exact .bind (extend_keeps id _) fun _ => .pure _
  | discard =>
      refine .bind (.ask _) fun found => ?_
      cases found with
      | some i => exact .bind (removeAt_keeps id i) fun _ => .pure _
      | none => exact .pure _
  | remove => exact .bind (.consult _) fun i => .bind (removeAt_keeps id i) fun _ => .pure _
  | removeat =>
      exact .bind (.consult _) fun i => .bind (.ask _) fun removed =>
        .bind (removeAt_keeps id i) fun _ => .pure _
  | clear => exact .bind (.change fun _ => .of_tables rfl rfl rfl rfl) fun _ => .pure _
  | index | rindex => exact .bind (.consult _) fun i => .pure _
  | contains | find | rfind => exact .bind (.ask _) fun found => .pure _

/-- Methods of maps change the map they are called on. -/
theorem mapMethod_keeps (fn : MapMethod) (receiver : Option Value) (args : List Value) :
    KeepsHeap (mapMethod fn receiver args) := by
  unfold mapMethod
  refine .bind (mapReceiver_keeps receiver) fun id => ?_
  cases fn with
  | contains => exact .bind (.consult _) fun found => .pure _
  | getSize => exact .bind (.ask _) fun size => .pure _
  | clear => exact .bind (.change fun _ => .of_tables rfl rfl rfl rfl) fun _ => .pure _
  | set => exact .bind (store_keeps id _ _) fun _ => .pure _
  | get =>
      dsimp only
      split
      · exact .consult _
      · exact .bind (.consult _) fun found => .pure _
      · exact .throw _
  | remove =>
      exact .bind (.consult _) fun removed =>
        .bind (.change fun _ => .of_tables rfl rfl rfl rfl) fun _ => .pure _
  | keys | values => exact .make fun _ => .of_tables rfl rfl rfl rfl

/-- Methods of texts change nothing, since texts never change. -/
theorem textMethod_keeps (fn : TextMethod) (receiver : Option Value) (args : List Value) :
    KeepsHeap (textMethod fn receiver args) := by
  unfold textMethod
  refine .bind (textReceiver_keeps receiver) fun s => ?_
  cases fn with
  | substr =>
      have rest (first : Int64) : KeepsHeap (do
          let stop ← if args.length = 2 then wordArgument args 1 else pure (Int64.ofNat s.length)
          substring s first stop) := by
        dsimp only
        split
        · exact .bind (wordArgument_keeps args 1) fun stop => .lift _
        · exact .lift _
      dsimp only
      split
      · exact .bind (.throw _) fun _ => .bind (wordArgument_keeps args 0) rest
      · exact .bind (wordArgument_keeps args 0) rest
  | toLower | toUpper | join | trim => exact .pure _
  | indexOf | contains | startsWith | endsWith =>
      exact .bind (textArgument_keeps args 0) fun text => .pure _
  | replace =>
      exact .bind (textArgument_keeps args 0) fun found =>
        .bind (textArgument_keeps args 1) fun put => .pure _
  | split =>
      refine .bind (textArgument_keeps args 0) fun separator => ?_
      split
      · exact .throw _
      · exact .make fun _ => .of_tables rfl rfl rfl rfl

end Operation
end ScriptMachine
