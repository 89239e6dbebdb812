import Roxo.Plugin.Reify

/-!
# Applying a patch to the DOM

`applyPatch` takes the order in which `pairs` goes through the added instances. It fails where the
plugin raises an error, and returns the portions of the patch that were not possible to apply
within the state that it leaves.
-/

namespace Roxo.Plugin

open AssocMap

variable {V E : Type} [Engine V] [Decoder E V]

/-- One entry of `patch.removed`. -/
def applyRemoved (w : Work V E) (removed : Removed) : Work V E :=
  let result := match removed with
    | .id id => w.map.destroyId w.dom id
    | .inst inst => w.map.destroyInstance w.dom inst
  match result with
  | .ok (dom, map) => { w with dom, map }
  | .error (dom, map) =>
    { w with
      dom
      map
      unapplied := { w.unapplied with removed := w.unapplied.removed ++ [removed] } }

/-- Find the first ancestor of an instance that is marked for an addition. -/
def topmostAdded (added : Map String (VirtualInstance E)) :
    ℕ → String → VirtualInstance E → String × VirtualInstance E
  | 0, id, virtualInstance => (id, virtualInstance)
  | levels + 1, id, virtualInstance =>
    match virtualInstance.parent.bind fun parent => (added.lookup parent).map (parent, ·) with
    | some (parent, above) => topmostAdded added levels parent above
    | none => (id, virtualInstance)

/-- One entry of `patch.added`. -/
def applyAdded (added : Map String (VirtualInstance E)) (w : Work V E) (id : String) :
    Option (Work V E) :=
  match added.lookup id with
  | none => some w
  | some virtualInstance => do
    if (w.map.fromIds.lookup id).isSome then some w
    else
      let (id, virtualInstance) := topmostAdded added added.keys.length id virtualInstance
      let parentInstance ← virtualInstance.parent.bind w.map.fromIds.lookup
      let (failedToReify, w) ← reifyInstance added id (some parentInstance) w
      some (if failedToReify.isEmpty then w
        else { w with unapplied := w.unapplied.assign failedToReify })

/-- Recreate an instance whose class has changed and move its children to the new one. -/
def applyClassChange (w : Work V E) (update : Update E) (inst : Handle) (className : String) :
    Option (Work V E) := do
  let newName := update.changedName.getD (w.dom.instances inst).name
  let mockVirtualInstance : VirtualInstance E :=
    { id := update.id
      parent := none
      name := newName
      className
      properties := update.changedProperties
      metadata := none
      children := [] }
  let (failedToReify, w) ← reifyInstance (AList.singleton update.id mockVirtualInstance) update.id
    (w.dom.parent inst) w
  let newInstance ← w.map.fromIds.lookup update.id
  if inst = newInstance ∨ (w.dom.instances newInstance).name ≠ newName then
    some { w with unapplied := { w.unapplied with updated := w.unapplied.updated ++ [update] } }
  else
    let w := if failedToReify.isEmpty then w
      else { w with unapplied := w.unapplied.assign failedToReify }
    let dom := (w.dom.getChildren inst).foldl (fun dom child => dom.setParent child newInstance) w.dom
    some { w with dom := dom.setParent inst none }

/-- Set the name of an instance, if it has changed and can be set. -/
def Dom.applyName (dom : Dom V) (inst : Handle) (changedName : Option String) : Dom V :=
  match changedName with
  | some name => if (dom.instances inst).accessible then dom.setName inst name else dom
  | none => dom

/-- One entry of `patch.updated`. -/
def applyUpdated (w : Work V E) (update : Update E) : Option (Work V E) :=
  match w.map.fromIds.lookup update.id with
  | none =>
    some { w with unapplied := { w.unapplied with updated := w.unapplied.updated ++ [update] } }
  | some inst =>
    let w := { w with map := w.map.pauseInstance inst }
    match update.changedClassName with
    | some className => applyClassChange w update inst className
    | none =>
      let unnamed :=
        if (w.dom.instances inst).accessible then none else update.changedName
      let assigned := assignProperties w.map update.id inst
        (w.dom.applyName inst update.changedName) w.deferredRefs update.changedProperties
      let partiallyApplied := unnamed.isSome || update.changedMetadata.isSome ||
        !assigned.unappliedProperties.entries.isEmpty
      some { w with
        dom := assigned.dom
        deferredRefs := assigned.deferredRefs
        unapplied :=
          if partiallyApplied then
            { w.unapplied with
              updated := w.unapplied.updated ++
                [⟨update.id, unnamed, none, assigned.unappliedProperties, update.changedMetadata⟩] }
          else w.unapplied }

/-- What `applyPatch` starts with. -/
def Work.start (dom : Dom V) (map : InstanceMap) : Work V E where
  dom := dom
  map := map
  deferredRefs := []
  unapplied := .newEmpty
  created := []

def applyPatch (dom : Dom V) (map : InstanceMap) (patch : PatchSet E) (order : List String) :
    Option (Work V E) := do
  let w := patch.removed.foldl applyRemoved (.start dom map)
  let w ← order.foldlM (applyAdded patch.added) w
  let w ← patch.updated.foldlM applyUpdated w
  some (applyDeferredRefs w)

end Roxo.Plugin
