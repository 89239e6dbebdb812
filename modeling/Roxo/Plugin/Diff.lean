import Roxo.Plugin.Reify

/-!
# Diff

Compares virtual instances with the DOM and computes the patch that makes the DOM match them.
-/

namespace Roxo.Plugin

open AssocMap

variable {V E : Type} [Engine V] [Decoder E V]

def shouldDeleteUnknownInstances (virtualInstance : VirtualInstance E) : Bool :=
  match virtualInstance.metadata with
  | some metadata => !(metadata.ignoreUnknownInstances.getD false)
  | none => true

/-- The live value of a reference differs from the virtual one. -/
def refChanged (map : InstanceMap) (existingValue : LuaValue V) (refId : String) : Bool :=
  match existingValue with
  | .inst target => map.fromInstances.lookup target ≠ some refId
  | .other value => !(Engine.isNil value && refId == "00000000000000000000000000000000")

/-- A property has to be changed. One that cannot be read or decoded is left alone. -/
def propertyChanged (dom : Dom V) (map : InstanceMap) (inst : Handle) (propertyName : String)
    (virtualValue : EncodedValue E) : Bool :=
  match dom.getProperty inst propertyName with
  | none => false
  | some existingValue =>
    match virtualValue with
    | .ref refId => refChanged map existingValue refId
    | .other _ =>
      match decodeValue virtualValue map with
      | none => false
      | some decodedValue => !Engine.trueEquals existingValue decodedValue

def changedProperties (dom : Dom V) (map : InstanceMap) (inst : Handle)
    (virtualInstance : VirtualInstance E) : Map String (EncodedValue E) :=
  retain (propertyChanged dom map inst) virtualInstance.properties

/-- The update of a mapped instance, if there is anything to update. -/
def diffInstance (dom : Dom V) (map : InstanceMap) (inst : Handle) (id : String)
    (virtualInstance : VirtualInstance E) : Option (Update E) :=
  let existing := dom.instances inst
  let changedName :=
    if virtualInstance.name ≠ existing.name then some virtualInstance.name else none
  let changedClassName :=
    if virtualInstance.className ≠ existing.className then some virtualInstance.className else none
  let changed := changedProperties dom map inst virtualInstance
  if changedName.isSome || changedClassName.isSome || !changed.entries.isEmpty then
    some ⟨id, changedName, changedClassName, changed, none⟩
  else none

/-- Add a virtual instance and all of its descendants to the patch, marked as being added: the walk
of `addAllToPatch`. -/
def markIdAdded (virtualInstances : Map String (VirtualInstance E)) (levels : ℕ)
    (patch : PatchSet E) (id : String) : Option (PatchSet E) :=
  addAllToPatch virtualInstances levels patch id

/-- An instance that is not mapped: it is removed unless it is not saved anyway, or the user has
asked not to delete unknown instances. -/
def diffUnknown (dom : Dom V) (virtualInstance : VirtualInstance E) (patch : PatchSet E)
    (child : Handle) : PatchSet E :=
  if (dom.instances child).accessible && !(dom.instances child).archivable then patch
  else if shouldDeleteUnknownInstances virtualInstance then
    { patch with removed := patch.removed ++ [.inst child] }
  else patch

def diffInternal (dom : Dom V) (map : InstanceMap)
    (virtualInstances : Map String (VirtualInstance E)) :
    ℕ → PatchSet E → String → Option (PatchSet E)
  | 0, _, _ => none
  | levels + 1, patch, id => do
    let virtualInstance ← virtualInstances.lookup id
    let inst ← map.fromIds.lookup id
    let patch := { patch with
      updated := patch.updated ++ (diffInstance dom map inst id virtualInstance).toList }
    let patch ← (dom.getChildren inst).foldlM (fun patch child =>
      match map.fromInstances.lookup child with
      | none => some (diffUnknown dom virtualInstance patch child)
      | some childId => diffInternal dom map virtualInstances levels patch childId) patch
    virtualInstance.children.foldlM (fun patch childId =>
      match map.fromIds.lookup childId with
      | none => markIdAdded virtualInstances (levels + 1) patch childId
      | some _ => some patch) patch

def diff (dom : Dom V) (map : InstanceMap) (virtualInstances : Map String (VirtualInstance E))
    (rootId : String) : Option (PatchSet E) :=
  diffInternal dom map virtualInstances virtualInstances.keys.length .newEmpty rootId

end Roxo.Plugin
