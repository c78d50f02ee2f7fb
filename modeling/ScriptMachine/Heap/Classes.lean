import ScriptMachine.Heap.Basic

/-!
The class graph. Members are looked up depth first: in a class, then in its linked
bases in order. Linking refuses a base that already derives from the class, so the
graph has no cycles and no path visits a class twice.
-/

namespace ScriptMachine

/-- A member found on the way up. -/
inductive Member where
  /-- An instance method, bound to the receiver when read from an instance. -/
  | method (id : MethodId)
  /-- A class attribute, given as it is. -/
  | attribute (value : Value)
deriving Inhabited

namespace Heap

/-- The first answer on a depth-first walk from a class along its bases, on paths
of at most `fuel` classes. -/
def searchUp {α : Type} (h : Heap) (ask : ClassId → Option α) : (fuel : Nat) → ClassId → Option α
  | 0, _ => none
  | fuel + 1, c =>
      match ask c with
      | some answer => some answer
      | none => (h.cls c).bases.findSome? fun base => searchUp h ask fuel base

/-- The first answer on a depth-first walk from a class along its bases. Only the last
class of a path can be one that is not there. -/
def search {α : Type} (h : Heap) (ask : ClassId → Option α) (c : ClassId) : Option α :=
  h.searchUp ask (h.classes.size + 1) c

/-- What a class itself declares under a name, instance methods first. -/
def ownMember? (h : Heap) (name : String) (c : ClassId) : Option Member :=
  match (h.cls c).instanceMethods.get? name with
  | some id => some (.method id)
  | none => ((h.cls c).attributes.get? name).map .attribute

/-- What a class or one of its bases declares under a name. -/
def findMember? (h : Heap) (c : ClassId) (name : String) : Option Member :=
  h.search (h.ownMember? name) c

/-- A member read from the class itself: methods are not bound. -/
def findAttribute? (h : Heap) (c : ClassId) (name : String) : Option Value :=
  (h.findMember? c name).map fun
    | .method id => .method id
    | .attribute value => value

/-- The instance method of a given name, unless an attribute hides it. -/
def findInstanceMethod? (h : Heap) (c : ClassId) (name : String) : Option MethodId :=
  match h.findMember? c name with
  | some (.method id) => some id
  | _ => none

/-- The class is `other` or derives from it. -/
def isSubclass (h : Heap) (c other : ClassId) : Bool :=
  (h.search (fun x => if x = other then some () else none) c).isSome

/-- The built-in exception type the class derives from, directly or through a base. -/
def exceptionBase? (h : Heap) (c : ClassId) : Option ExceptionType :=
  h.search (fun x => (h.cls x).exceptionBase) c

/-- Links a base, unless it is linked already or derives from the class. -/
def linkBase (h : Heap) (c base : ClassId) : Heap :=
  if h.isSubclass base c then h
  else h.modifyClass c fun k =>
    if k.bases.contains base then k else { k with bases := k.bases ++ [base] }

/-- Records a built-in exception type as a direct base. -/
def setExceptionBase (h : Heap) (c : ClassId) (type : ExceptionType) : Heap :=
  h.modifyClass c fun k => { k with exceptionBase := some type }

/-- Every method the interface requires is an instance method with that many
positional parameters. -/
def implements (h : Heap) (c : ClassId) (i : InterfaceId) : Bool :=
  (h.interface i).methods.all fun required =>
    match h.findInstanceMethod? c required.name with
    | some id => (h.method id).code.arity == required.arity
    | none => false

/-- The method an instance offers under a name. -/
def instanceMethod? (h : Heap) (v : Value) (name : String) : Option MethodId :=
  match v with
  | .instance id => h.findInstanceMethod? (h.inst id).cls name
  | _ => none

/-! ## Changes -/

/-- What becomes of the class graph: classes are linked to bases, one after the other. Whatever
else there is to a class may change, and new classes may come, without bases. -/
inductive Links : Heap → Heap → Prop
  | same {h h' : Heap} : (∀ c, (h'.cls c).bases = (h.cls c).bases) → Links h h'
  | link (h : Heap) (c base : ClassId) : Links h (h.linkBase c base)
  | trans {h₁ h₂ h₃ : Heap} : Links h₁ h₂ → Links h₂ h₃ → Links h₁ h₃

/-- Nothing that running code relies on is lost: methods, constants and classes stay,
environments only grow, and classes get bases only by linking. -/
structure Keeps (h h' : Heap) : Prop where
  methods : h'.methods = h.methods
  constants : ∀ id, (h'.module id).constants = (h.module id).constants
  slots : ∀ id, (h.env id).size ≤ (h'.env id).size
  classes : h.classes.size ≤ h'.classes.size
  links : h.Links h'

/-- A change of objects that takes nothing away from running code. -/
structure Edit where
  apply : Heap → Heap
  keeps : ∀ h : Heap, h.Keeps (apply h)

end Heap
end ScriptMachine
