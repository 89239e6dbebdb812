import Roxo.Plugin.PatchSet

/-!
# Reify

Constructs instances of the engine with the shape of virtual instances. The state of the plugin is
passed along; `created` records for which id an instance has been created, which the plugin itself
keeps no track of. The recursion is given a number of levels that it may go down.
-/

namespace Roxo.Plugin

open AssocMap

/-- A reference to assign when all instances have been created. -/
structure DeferredRef where
  id : String
  instance' : Handle
  propertyName : String
  refId : String
  deriving DecidableEq, Repr

/-- What `reify` and `applyPatch` work on. -/
structure Work (V E : Type) where
  dom : Dom V
  map : InstanceMap
  deferredRefs : List DeferredRef
  unapplied : PatchSet E
  created : List (String × Handle)

variable {V E : Type}

/-- Add the given id and all of its descendants in `virtualInstances` to the given patch, marked
for addition. -/
def addAllToPatch (virtualInstances : Map String (VirtualInstance E)) :
    ℕ → PatchSet E → String → Option (PatchSet E)
  | 0, _, _ => none
  | levels + 1, patchSet, id => do
    let virtualInstance ← virtualInstances.lookup id
    let patchSet := { patchSet with added := patchSet.added.insert id virtualInstance }
    virtualInstance.children.foldlM (addAllToPatch virtualInstances levels) patchSet

variable [Engine V] [Decoder E V]

/-- What assigning the properties of a virtual instance leaves: the DOM, the references to assign
later and the properties that could not be assigned. -/
structure Assigned (V E : Type) where
  dom : Dom V
  deferredRefs : List DeferredRef
  unappliedProperties : Map String (EncodedValue E)

/-- Assign one property, or defer it. -/
def assignProperty (map : InstanceMap) (id : String) (inst : Handle) (state : Assigned V E)
    (propertyName : String) (virtualValue : EncodedValue E) : Assigned V E :=
  match virtualValue with
  | .ref refId =>
    { state with deferredRefs := state.deferredRefs ++ [⟨id, inst, propertyName, refId⟩] }
  | .other _ =>
    let unapplied :=
      { state with
        unappliedProperties := state.unappliedProperties.insert propertyName virtualValue }
    match decodeValue virtualValue map with
    | none => unapplied
    | some value =>
      match state.dom.setProperty inst propertyName value with
      | (true, dom) => { state with dom }
      | (false, _) => unapplied

/-- Assign the properties of a table. -/
def assignProperties (map : InstanceMap) (id : String) (inst : Handle) (dom : Dom V)
    (deferredRefs : List DeferredRef) (properties : Map String (EncodedValue E)) : Assigned V E :=
  properties.entries.foldl (fun state e => assignProperty map id inst state e.1 e.2)
    ⟨dom, deferredRefs, ∅⟩

def reifyInstanceInner (virtualInstances : Map String (VirtualInstance E)) :
    ℕ → String → Option Handle → Work V E → Option (Work V E)
  | 0, _, _, _ => none
  | levels + 1, id, parentInstance, w => do
    let virtualInstance ← virtualInstances.lookup id
    if Engine.creatable V virtualInstance.className then
      let (inst, dom) := w.dom.create virtualInstance.className
      let assigned := assignProperties w.map id inst (dom.setName inst virtualInstance.name)
        w.deferredRefs virtualInstance.properties
      let w := { w with
        dom := assigned.dom
        deferredRefs := assigned.deferredRefs
        unapplied :=
          if assigned.unappliedProperties.entries.isEmpty then w.unapplied
          else { w.unapplied with
            updated := w.unapplied.updated ++ [⟨id, none, none, assigned.unappliedProperties, none⟩] }
        created := w.created ++ [(id, inst)] }
      let w ← virtualInstance.children.foldlM
        (fun w childId => reifyInstanceInner virtualInstances levels childId (some inst) w) w
      let dom := w.dom.setParent inst parentInstance
      some { w with dom, map := w.map.insert dom id inst }
    else
      let unapplied ← addAllToPatch virtualInstances (levels + 1) w.unapplied id
      some { w with unapplied }

/-- Reify a tree of virtual instances. What could not be done comes back as a patch of its own. -/
def reifyInstance (virtualInstances : Map String (VirtualInstance E)) (rootId : String)
    (parentInstance : Option Handle) (w : Work V E) : Option (PatchSet E × Work V E) := do
  let w' ← reifyInstanceInner virtualInstances virtualInstances.keys.length rootId parentInstance
    { w with unapplied := .newEmpty }
  some (w'.unapplied, { w' with unapplied := w.unapplied })

/-- Put a reference that could not be assigned into the unapplied patch, under the update of the
id that is there already if there is one. -/
def markFailed (entry : DeferredRef) : List (Update E) → List (Update E)
  | [] => [⟨entry.id, none, none, AList.singleton entry.propertyName (.ref entry.refId), none⟩]
  | update :: rest =>
    if update.id = entry.id then
      { update with
        changedProperties :=
          update.changedProperties.insert entry.propertyName (.ref entry.refId) } :: rest
    else update :: markFailed entry rest

/-- Assign one deferred reference. -/
def applyDeferredRef (w : Work V E) (entry : DeferredRef) : Work V E :=
  let failed :=
    { w with unapplied := { w.unapplied with updated := markFailed entry w.unapplied.updated } }
  match w.map.fromIds.lookup entry.refId with
  | none => failed
  | some target =>
    match w.dom.setProperty entry.instance' entry.propertyName (.inst target) with
    | (true, dom) => { w with dom }
    | (false, _) => failed

def applyDeferredRefs (w : Work V E) : Work V E := w.deferredRefs.foldl applyDeferredRef w

end Roxo.Plugin
