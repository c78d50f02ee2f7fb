import ScriptMachine.Proofs.Heap.Contents
import ScriptMachine.Proofs.Heap.Keeping
import ScriptMachine.Proofs.Heap.Positions

/-!
Disciplines. A discipline is a standard for values and a demand on the heap. Primitives change the
heap in few ways: they make objects out of values that they are given, and put such values into
objects that are there. What a discipline has to say about these few ways it says about every
primitive. A discipline may also be blind to positions. Then a primitive does the same on a heap
without them.
-/

namespace ScriptMachine

/-- A standard for values, a demand on the heap, and what is left out of account. -/
structure Discipline extends Standard where
  /-- What is asked of the heap besides. -/
  heap : Heap → Prop := fun _ => True
  /-- It is too late: an iterator has been made that the demand on the heap rules out. -/
  lost : Heap → Prop := fun _ => False
  /-- Positions are not looked at. -/
  blind : Bool := false
  /-- With so many frames below it, a frame has these lowest operands, which need not pass. -/
  depth : Nat := 0
  operands : List Value := []

namespace Discipline

/-- The demand on the heap is about exceptions and iterators, and new exceptions meet it. -/
class Lawful (D : Discipline) : Prop extends standard : D.toStandard.Lawful where
  same {h h' : Heap} : h'.iterators = h.iterators → h'.exceptions = h.exceptions → D.heap h →
    D.heap h'
  newException {h : Heap} {e : ExceptionObject} : e.trace = [] → D.heap h →
    D.heap (h.newException e).2
  newIterator {h : Heap} (it : Iter) : D.heap h → D.lost (h.newIterator it).2 ∨
    D.heap (h.newIterator it).2 ∧ D.value (.iterator h.iterators.size)
  setIterator {h : Heap} {id : IteratorId} (it : Iter) : D.value (.iterator id) → D.heap h →
    D.heap (h.setIterator id it)

/-- The data passes the standard. -/
abbrev Allows (D : Discipline) {α : Type} [Holder α] (x : α) : Prop :=
  Passes D.toStandard x

/-- The heap is as the discipline has it. -/
structure MetBy (D : Discipline) (h : Heap) : Prop extends h.Meets D.toStandard where
  own : D.heap h

variable {D : Discipline} [D.Lawful]

/-! ## Changes of the heap -/

namespace MetBy

variable {h : Heap}

attribute [grind →] MetBy.toMeets

/-- What is changed is neither an exception nor an iterator. -/
theorem still (on : D.MetBy h) {h' : Heap} (meets : h'.Meets D.toStandard)
    (iterators : h'.iterators = h.iterators) (exceptions : h'.exceptions = h.exceptions) :
    D.MetBy h' :=
  { meets with own := Lawful.same iterators exceptions on.own }

/-- An object may be made of what passes. A list is made of its items. -/
@[grind ←] theorem newList (on : D.MetBy h) {items : Array Value} (new : D.Allows items) :
    D.MetBy (h.newList items).2 :=
  on.still { on with lists := forall_getD_push on.lists new } rfl rfl

/-- A map is made of the keys and values of its table. -/
@[grind ←] theorem newMap (on : D.MetBy h) {table : Table} (new : D.Allows table) :
    D.MetBy (h.newMap table).2 :=
  on.still { on with maps := forall_getD_push on.maps new } rfl rfl

/-- An environment is made of the local variables of a call. -/
@[grind ←] theorem newEnv (on : D.MetBy h) {slots : Array Value} (new : D.Allows slots) :
    D.MetBy (h.newEnv slots).2 :=
  on.still { on with envs := forall_getD_push on.envs new } rfl rfl

/-- A closure holds a receiver. Its local variables lie in the environment it shares. -/
@[grind ←] theorem newClosure (on : D.MetBy h) {c : Closure} (new : D.Allows c.receiver) :
    D.MetBy (h.newClosure c).2 :=
  have all := forall_getD_push (P := fun c : Closure => D.Allows c.receiver) on.closures new
  on.still { on with closures := all } rfl rfl

/-- A new instance has no attributes yet. -/
@[grind ←] theorem newInstance (on : D.MetBy h) (c : ClassId) :
    D.MetBy (h.newInstance c).2 :=
  have all := forall_getD_push (P := fun o : InstanceObject => D.Allows o.attributes)
    on.instances passes_nil
  on.still { on with instances := all } rfl rfl

@[grind ←] theorem newNative (on : D.MetBy h) (fn : Native) : D.MetBy (h.newNative fn).2 :=
  on.still { on with } rfl rfl

/-- Data on the heap may be changed so that it passes if it did before. -/
@[grind ←] theorem modifyList (on : D.MetBy h) (id : ListId)
    {change : Array Value → Array Value} (kept : ∀ items, D.Allows items → D.Allows (change items)) :
    D.MetBy (h.modifyList id change) :=
  on.still { on with lists := forall_getD_modify on.lists kept id } rfl rfl

@[grind ←] theorem modifyMap (on : D.MetBy h) (id : MapId) {change : Table → Table}
    (kept : ∀ t, D.Allows t → D.Allows (change t)) : D.MetBy (h.modifyMap id change) :=
  on.still { on with maps := forall_getD_modify on.maps kept id } rfl rfl

@[grind ←] theorem modifyEnv (on : D.MetBy h) (id : EnvId)
    {change : Array Value → Array Value} (kept : ∀ slots, D.Allows slots → D.Allows (change slots)) :
    D.MetBy (h.modifyEnv id change) :=
  on.still { on with envs := forall_getD_modify on.envs kept id } rfl rfl

/-- Of a class only the attributes hold values. -/
theorem modifyClass (on : D.MetBy h) (id : ClassId) {change : ClassObject → ClassObject}
    (kept : ∀ c, D.Allows c.attributes → D.Allows (change c).attributes) :
    D.MetBy (h.modifyClass id change) :=
  have all := forall_getD_modify (P := fun c : ClassObject => D.Allows c.attributes)
    on.classes kept id
  on.still { on with classes := all } rfl rfl

@[grind ←] theorem setInstanceAttribute (on : D.MetBy h) (id : InstanceId) (name : String)
    {v : Value} (new : D.Allows v) : D.MetBy (h.setInstanceAttribute id name v) :=
  have all := forall_getD_modify (P := fun o : InstanceObject => D.Allows o.attributes)
    on.instances (fun _ old => Bindings.passes_set old new) id
  on.still { on with instances := all } rfl rfl

@[grind ←] theorem setClassAttribute (on : D.MetBy h) (id : ClassId) (name : String)
    {v : Value} (new : D.Allows v) : D.MetBy (h.setClassAttribute id name v) :=
  on.modifyClass id fun _ old => Bindings.passes_set old new

/-- A module holds attributes besides the constants of its code, which are not changed. -/
@[grind ←] theorem setModuleAttribute (on : D.MetBy h) (id : ModuleId) (name : String)
    {v : Value} (new : D.Allows v) : D.MetBy (h.setModuleAttribute id name v) :=
  have both := forall_getD_modify
    (P := fun m : ModuleObject => D.Allows m.constants ∧ D.Allows m.attributes)
    (f := fun m => { m with attributes := m.attributes.set name v })
    (fun id => ⟨on.constants id, on.globals id⟩)
    (fun _ old => ⟨old.1, Bindings.passes_set old.2 new⟩) id
  on.still { on with constants := fun id => (both id).1, globals := fun id => (both id).2 } rfl rfl

@[grind ←] theorem setExceptionBase (on : D.MetBy h) (c : ClassId) (type : ExceptionType) :
    D.MetBy (h.setExceptionBase c type) :=
  on.modifyClass c fun _ old => old

/-- Linking a class to a base changes nothing that either of them holds. -/
@[grind ←] theorem linkBase (on : D.MetBy h) (c base : ClassId) :
    D.MetBy (h.linkBase c base) := by
  unfold Heap.linkBase
  split
  · exact on
  · refine on.modifyClass c fun k old => ?_
    split <;> exact old

/-- A new exception has no trace and refers to the object it was raised with by its identity. -/
@[grind ←] theorem newException (on : D.MetBy h) {e : ExceptionObject} (untraced : e.trace = []) :
    D.MetBy (h.newException e).2 :=
  { on with own := Lawful.newException untraced on.own }

/-- A new iterator passes, or comes too late. -/
theorem newIterator (on : D.MetBy h) {it : Iter} (new : D.Allows it) :
    D.lost (h.newIterator it).2 ∨
      D.MetBy (h.newIterator it).2 ∧ D.Allows (Value.iterator h.iterators.size) :=
  (Lawful.newIterator it on.own).imp_right fun ⟨own, passes⟩ =>
    ⟨⟨on.toMeets.newIterator new, own⟩, passes⟩

/-- An iterator that passes may be set to one that holds what passes. -/
@[grind ←] theorem setIterator (on : D.MetBy h) {id : IteratorId} {it : Iter}
    (known : D.Allows (Value.iterator id)) (new : D.Allows it) : D.MetBy (h.setIterator id it) :=
  ⟨on.toMeets.setIterator id new, Lawful.setIterator it known on.own⟩

end MetBy
end Discipline

/-! ## Primitives -/

/-- The primitive keeps to the discipline: it leaves the heap as it should be, and gives what
passes. Positions make no difference to it, if the discipline is blind to them. -/
def Heeds (D : Discipline) {α : Type} [Holder α] (p : Primitive α) : Prop :=
  ∀ h : Heap, D.MetBy h →
    p.result (h.viewed D.blind) = ((p.result h).1, (p.result h).2.viewed D.blind) ∧
      D.MetBy (p.result h).2 ∧ D.Allows (p.result h).1

variable {D : Discipline}

namespace Heeds

variable {α β : Type} [Holder α] [Holder β]

@[grind ←] theorem pure {x : α} (passes : D.Allows x) : Heeds D (Pure.pure x) :=
  fun _ on => ⟨rfl, on, passes_ok.2 passes⟩

@[grind ←] theorem throw (cause : Fault) : Heeds D (MonadExcept.throw cause : Primitive α) :=
  fun _ on => ⟨rfl, on, passes_error⟩

/-- What comes first hands on what passes. -/
@[grind ←] theorem bind {p : Primitive α} {f : α → Primitive β} (first : Heeds D p)
    (next : ∀ x, D.Allows x → Heeds D (f x)) : Heeds D (p >>= f) := by
  intro h on
  obtain ⟨same, after, given⟩ := first h on
  have unfolds (h : Heap) : (p >>= f).result h =
      match p.result h with | (r, h') => (ExceptT.bindCont f r) h' := rfl
  rw [unfolds, unfolds, same]
  rcases done : p.result h with ⟨e | x, h'⟩ <;> rw [done] at after given
  · exact ⟨rfl, after, passes_error⟩
  · exact next x (passes_ok.1 given) h' after

/-- A primitive may look at the heap, but only for what passes and not for positions. -/
@[grind ←] theorem ask {question : Heap → α} (same : ∀ h : Heap, question h.unplaced = question h)
    (passes : ∀ h : Heap, h.Meets D.toStandard → D.Allows (question h)) :
    Heeds D (Primitive.ask question) :=
  fun h on => ⟨Prod.ext (congrArg Except.ok (Heap.ask_viewed same h)) rfl, on,
    passes_ok.2 (passes h on.toMeets)⟩

@[grind ←] theorem consult {question : Heap → Except Fault α}
    (same : ∀ h : Heap, question h.unplaced = question h)
    (passes : ∀ h : Heap, h.Meets D.toStandard → D.Allows (question h)) :
    Heeds D (Primitive.consult question) := by
  refine .bind (.ask same passes) fun answer known => ?_
  cases answer with
  | ok x => exact .pure (passes_ok.1 known)
  | error cause => exact .throw cause

/-- A primitive may make an object if the heap with the object in it is as it should be. -/
@[grind ←] theorem make {action : Heap → α × Heap}
    (same : ∀ h : Heap, action h.unplaced = ((action h).1, (action h).2.unplaced))
    (keeps : ∀ h : Heap, D.MetBy h → D.MetBy (action h).2)
    (passes : ∀ h : Heap, D.MetBy h → D.Allows (action h).1) :
    Heeds D (Primitive.make action) := by
  intro h on
  have made (h : Heap) : (Primitive.make action).result h
      = (.ok (action h).1, (action h).2) := rfl
  refine ⟨?_, keeps h on, passes_ok.2 (passes h on)⟩
  rw [made, made, Heap.make_viewed same]

/-- A primitive may change the heap if it is as it should be afterwards. -/
@[grind ←] theorem change {action : Heap → Heap}
    (same : ∀ h : Heap, action h.unplaced = (action h).unplaced)
    (keeps : ∀ h : Heap, D.MetBy h → D.MetBy (action h)) :
    Heeds D (Primitive.change action) :=
  fun h on => ⟨Prod.ext rfl (Heap.change_viewed same h), keeps h on, fun _ _ => trivial⟩

/-- What is known without the heap may be given if it passes. -/
@[grind ←] theorem lift {answer : Except Fault α} (passes : D.Allows answer) :
    Heeds D (liftM answer : Primitive α) := by
  cases answer with
  | ok x => exact .pure (passes_ok.1 passes)
  | error cause => exact .throw cause

end Heeds

/-! ## What operations answer -/

section

variable {E : Standard} [E.Lawful] {h : Heap} {container index : Value}

/-- Objects are handed out by their identities, which are plain values. -/
@[grind .] theorem Heap.passes_newList (h : Heap) (items : Array Value) :
    Passes E (h.newList items).1 :=
  Value.passes_of_isPlain rfl

@[grind .] theorem Heap.passes_newMap (h : Heap) (table : Table) : Passes E (h.newMap table).1 :=
  Value.passes_of_isPlain rfl

@[grind .] theorem Heap.passes_newClosure (h : Heap) (c : Closure) : Passes E (h.newClosure c).1 :=
  Value.passes_of_isPlain rfl

namespace Operation

/-- A number that fits a word is one, and any other is a fault. -/
@[grind ←] theorem exact_passes (k : Int) : Passes E (exact k) := by
  unfold exact
  grind

@[grind ←] theorem onWords_passes (op : BinaryOp) (a b : Int64) : Passes E (onWords op a b) := by
  unfold onWords quotient modulo shiftLeft shiftRight
  grind

/-- A repeated text is a text. -/
@[grind ←] theorem repeated_passes (s : String) (n : Int64) : Passes E (repeated s n) := by
  unfold repeated
  grind

@[grind .] theorem unary_passes (h : Heap) (op : UnaryOp) (v : Value) :
    Passes E (unary h op v) := by
  unfold unary
  grind

@[grind .] theorem substring_passes (s : String) (first stop : Int64) :
    Passes E (substring s first stop) := by
  unfold substring
  grind

/-- An index is a number, and null where nothing was found. -/
@[grind .] theorem indexValue_passes (found : Option Nat) : Passes E (indexValue found) := by
  cases found <;> exact Value.passes_of_isPlain rfl

omit [E.Lawful] in
/-- A key that cannot be hashed is a fault. Any other finds a value of the map, if it finds one. -/
@[grind ←] theorem lookup?_passes (meets : h.Meets E) (id : MapId) (key : Value) :
    Passes E (lookup? h id key) :=
  passes_bind (passes_plain_except _) fun _ _ => passes_ok.2 (Table.passes_find? (meets.maps id) key)

omit [E.Lawful] in
/-- A key that is not there is a fault. -/
@[grind ←] theorem lookup_passes (meets : h.Meets E) (id : MapId) (key : Value) :
    Passes E (lookup h id key) := by
  refine passes_bind (lookup?_passes meets id key) fun found known => ?_
  cases found with
  | none => exact passes_error
  | some v => exact passes_ok.2 (passes_some.1 known)

/-- An item is one of the values that the container holds, or a character. -/
@[grind ←] theorem item?_passes (meets : h.Meets E) (first : Passes E container) :
    Passes E (item? h container index) := by
  have at_ (size : Nat) {f : Nat → Value} (passes : ∀ k, Passes E (f k)) :
      Passes E (do return f (← position h index size) : Except Fault Value) :=
    passes_bind (passes_plain_except _) fun k _ => passes_ok.2 (passes k)
  cases container with
  | list id =>
      exact passes_some.2 (at_ _ fun k => Value.passes_getD_array (meets.lists id) k)
  | tuple items =>
      exact passes_some.2 (at_ _ fun k =>
        Value.passes_getD_list ((Value.passes_tuple items).1 first) k)
  | str s => exact passes_some.2 (at_ _ fun k => Value.passes_of_isPlain rfl)
  | map id => exact passes_some.2 (lookup_passes meets id index)
  | _ => exact passes_none

omit [E.Lawful] in
/-- A table filled with what passes passes. -/
theorem addAll_passes {table : Table} {items : List Value} (old : Passes E table)
    (new : Passes E items) : Passes E (addAll table items) := by
  induction table, items using addAll.induct with
  | case1 table key value rest ih =>
      rw [addAll]
      simp only [passes_cons] at new
      exact passes_bind (passes_plain_except _) fun _ _ =>
        ih (Table.passes_insert old new.1 new.2.1) new.2.2
  | case2 table items other =>
      rw [addAll]
      · exact passes_ok.2 old
      · exact other

end Operation

end

/-! ## What operations do -/

namespace Operation

open Primitive

variable [D.Lawful] {left right container index key v : Value} {args : List Value}

/-- Arithmetic makes numbers, texts and tuples, and lists out of the items of two lists. -/
@[grind ←] theorem arithmetic_heeds (op : BinaryOp) (first : D.Allows left)
    (second : D.Allows right) : Heeds D (arithmetic op left right) := by
  unfold arithmetic
  grind

/-- Comparisons and tests for membership give truth values. -/
@[grind ←] theorem binary_heeds (op : BinaryOp) (first : D.Allows left)
    (second : D.Allows right) : Heeds D (binary op left right) := by
  unfold binary
  grind

/-- An entry is made of the key and the value that are given. -/
@[grind ←] theorem store_heeds (id : MapId) (first : D.Allows key) (second : D.Allows v) :
    Heeds D (store id key v) := by
  unfold store
  grind

/-- An item of a list is replaced, or an entry of a map is set. -/
theorem setItem?_heeds {set : Primitive Unit} (first : D.Allows index) (second : D.Allows v)
    (found : setItem? container index v = some set) : Heeds D set := by
  unfold setItem? at found
  grind

/-- A new map is filled with the keys and values that are given. -/
@[grind ←] theorem newMap_heeds {items : List Value} (new : D.Allows items) :
    Heeds D (newMap items) := by
  unfold newMap
  refine .bind (.lift (addAll_passes Table.passes_empty new)) fun table known => ?_
  grind

/-- A list gets the items of a tuple behind its own. -/
@[grind ←] theorem extend_heeds (id : ListId) {items : List Value} (new : D.Allows items) :
    Heeds D (extend id items) := by
  unfold extend
  grind

/-- A list loses an item. -/
@[grind ←] theorem removeAt_heeds (id : ListId) (k : Nat) : Heeds D (removeAt id k) := by
  unfold removeAt
  grind

section

omit [D.Lawful]

/-- The method of a list is called on a list, or it fails. -/
@[grind ←] theorem listReceiver_heeds (receiver : Option Value) :
    Heeds D (listReceiver receiver) := by
  unfold listReceiver
  grind

@[grind ←] theorem mapReceiver_heeds (receiver : Option Value) :
    Heeds D (mapReceiver receiver) := by
  unfold mapReceiver
  grind

@[grind ←] theorem textReceiver_heeds (receiver : Option Value) :
    Heeds D (textReceiver receiver) := by
  unfold textReceiver
  grind

/-- An argument is of the type that the method asks for, or the method fails. -/
@[grind ←] theorem textArgument_heeds (args : List Value) (k : Nat) :
    Heeds D (textArgument args k) := by
  unfold textArgument
  grind

@[grind ←] theorem wordArgument_heeds (args : List Value) (k : Nat) :
    Heeds D (wordArgument args k) := by
  unfold wordArgument
  grind

end

/-- The methods of lists take items out of the list or put arguments in. -/
@[grind ←] theorem listMethod_heeds (fn : ListMethod) (receiver : Option Value)
    (given : D.Allows args) : Heeds D (listMethod fn receiver args) := by
  have first := Value.passes_headD given
  unfold listMethod
  refine .bind (listReceiver_heeds receiver) fun id _ => ?_
  cases fn
  case prepend =>
    refine .bind (.change (fun _ => rfl) fun h on => on.modifyList id fun items old => ?_)
      fun _ _ => ?_
    · exact passes_append_array.2 ⟨passes_toArray.2 (passes_cons.2 ⟨first, passes_nil⟩), old⟩
    · grind
  case removeat =>
    refine .bind (.consult (fun _ => rfl) fun _ _ => passes_plain_except _) fun k _ =>
      .bind (.ask (fun _ => rfl) fun h meets => ?_)
      fun removed known => .bind (removeAt_heeds id k) fun _ _ => .pure known
    exact Value.passes_getD_array (meets.lists id) k
  all_goals grind

/-- The methods of maps take keys and values out of the map, remove entries, or put arguments in. -/
@[grind ←] theorem mapMethod_heeds (fn : MapMethod) (receiver : Option Value)
    (given : D.Allows args) : Heeds D (mapMethod fn receiver args) := by
  have first := Value.passes_headD given
  unfold mapMethod
  cases fn <;> grind

/-- The methods of strings make texts and numbers. -/
@[grind ←] theorem textMethod_heeds (fn : TextMethod) (receiver : Option Value)
    (args : List Value) : Heeds D (textMethod fn receiver args) := by
  unfold textMethod
  refine .bind (textReceiver_heeds receiver) fun s _ => ?_
  cases fn
  case split =>
    refine .bind (textArgument_heeds args 0) fun separator _ => ?_
    split
    · exact .throw _
    · exact .make (fun _ => rfl)
        (fun h on => on.newList (passes_toArray.2 (Value.passes_strs _ _)))
        fun h _ => h.passes_newList _
  all_goals grind

end Operation
end ScriptMachine
