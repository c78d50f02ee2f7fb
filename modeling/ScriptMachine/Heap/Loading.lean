import ScriptMachine.Heap.Basic

/-!
Loading modules. A compiled unit refers to its methods, classes, enums and
interfaces by position; loading puts them behind those on the heap already, so a
position becomes an identity by adding how many there were before.
-/

namespace ScriptMachine

/-- Where the tables of a unit start on the heap. -/
structure Offsets where
  methods : Nat
  classes : Nat
  enums : Nat
  interfaces : Nat
deriving Repr, DecidableEq, Inhabited

namespace Offsets

/-- The value of a declared name. -/
def value (o : Offsets) : Binding → Value
  | .method index => .method (o.methods + index)
  | .cls index => .cls (o.classes + index)
  | .enum index => .enum (o.enums + index)
  | .interface index => .interface (o.interfaces + index)

/-- The value of a constant. -/
def constant (o : Offsets) : Constant → Value
  | .int i => .int i
  | .float f => .float f
  | .str s => .str s
  | .names items => .tuple (items.map .str)
  | .method index => .method (o.methods + index)

/-- A class that was not used yet. -/
def cls (o : Offsets) (code : ClassCode) : ClassObject :=
  { name := code.name
    constructor := o.methods + code.constructor
    fieldSetter := code.fieldSetter.map (o.methods + ·)
    instanceMethods := code.instanceMethods.map fun (name, index) => (name, o.methods + index)
    attributes := code.attributes.map fun (name, binding) => (name, o.value binding)
    declaredBases := code.declaredBases }

end Offsets

namespace Heap

/-- Where the tables of the next unit will start. -/
def offsets (h : Heap) : Offsets :=
  { methods := h.methods.size
    classes := h.classes.size
    enums := h.enums.size
    interfaces := h.interfaces.size }

/-- Loads a compiled unit as a module. Its top level comes behind its methods. -/
def load (h : Heap) (u : CompiledUnit) : ModuleId × Heap :=
  let o := h.offsets
  let id := h.modules.size
  (id,
    { h with
      methods :=
        (h.methods ++ u.methods.toList.map (LoadedMethod.mk · id)).push
          { code := u.topLevel, module := id }
      classes := h.classes ++ u.classes.toList.map o.cls
      enums := h.enums ++ u.enums
      interfaces := h.interfaces ++ u.interfaces
      modules := h.modules.push
        { name := u.name
          file := u.file
          constants := (u.constants.toList.map o.constant).toArray
          attributes := u.attributes.map fun (name, binding) => (name, o.value binding)
          topLevel := o.methods + u.methods.size } })

/-- New objects for functions, under their names. -/
def newNatives (h : Heap) (fns : List Native) : Bindings Value × Heap :=
  fns.foldl (fun (bindings, h) fn =>
    let (object, h) := h.newNative fn
    (bindings ++ [(fn.name, .native object)], h)) ([], h)

/-- A module that holds functions and does nothing when it is run. -/
def loadNatives (h : Heap) (name : String) (fns : List Native) : ModuleId × Heap :=
  let (attributes, h) := h.newNatives fns
  let id := h.modules.size
  (id,
    { h with
      methods := h.methods.push
        { code := Method.moduleBody #[{ op := .loadNull }], module := id }
      modules := h.modules.push
        { name, file := "", attributes, topLevel := h.methods.size } })

end Heap
end ScriptMachine
