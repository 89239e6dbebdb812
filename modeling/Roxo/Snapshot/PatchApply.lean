import Roxo.Snapshot.Patch

/-!
# Applying a patch

`applyPatchSet` removes, adds and updates instances, in this order, and records what it did. The
`Ref` properties of added instances, and those that attributes set, are written at the end, when
every instance has its id.
-/

namespace Roxo

open AssocMap WeakDom RojoTree

/-- All of the ephemeral state needed during application of a patch. -/
structure PatchApplyContext where
  /-- From the snapshot ids of added instances to their instance ids. -/
  snapshotIdToInstanceId : Map Ref Ref
  /-- The added instances that have refs to be rewritten. -/
  hasRefsToRewrite : List Ref
  /-- The ref properties that were specified using attributes. -/
  attributeRefsToRewrite : MultiMap Ref (String × String)
  appliedPatchSet : AppliedPatchSet

namespace PatchApplyContext

def default : PatchApplyContext where
  snapshotIdToInstanceId := ∅
  hasRefsToRewrite := []
  attributeRefsToRewrite := MultiMap.new
  appliedPatchSet := AppliedPatchSet.new

def recordRemoved (context : PatchApplyContext) (id : Ref) : PatchApplyContext :=
  { context with appliedPatchSet := { context.appliedPatchSet with
      removed := context.appliedPatchSet.removed ++ [id] } }

def recordAdded (context : PatchApplyContext) (id : Ref) : PatchApplyContext :=
  { context with appliedPatchSet := { context.appliedPatchSet with
      added := context.appliedPatchSet.added ++ [id] } }

def recordUpdated (context : PatchApplyContext) (update : AppliedPatchUpdate) :
    PatchApplyContext :=
  { context with appliedPatchSet := { context.appliedPatchSet with
      updated := context.appliedPatchSet.updated ++ [update] } }

/-- Notes the ref properties that attributes set. -/
def deferPointers (context : PatchApplyContext) (id : Ref) (pointers : List (String × String)) :
    PatchApplyContext :=
  { context with
    attributeRefsToRewrite :=
      pointers.foldl (fun m pointer => m.insert id pointer) context.attributeRefsToRewrite }

/-- Notes that an added instance has refs to be rewritten. -/
def noteRefs (context : PatchApplyContext) (id : Ref) (hasRefs : Bool) : PatchApplyContext :=
  if hasRefs then { context with hasRefsToRewrite := context.hasRefsToRewrite.insert id }
  else context

/-- Notes the instance that has been made of a snapshot with an id. -/
def noteSnapshotId (context : PatchApplyContext) (snapshotId id : Ref) : PatchApplyContext :=
  if snapshotId.isSome then
    { context with
      snapshotIdToInstanceId := context.snapshotIdToInstanceId.insert snapshotId id }
  else context

end PatchApplyContext

variable {D : Type} [WeakDom D]

def applyRemoveInstance (context : PatchApplyContext) (tree : RojoTree D) (removedId : Ref) :
    MayPanic (PatchApplyContext × RojoTree D) := do
  let tree ← tree.remove removedId
  some (context.recordRemoved removedId, tree)

/-- Notes the ref properties that the attributes of an instance set, and gives the instance the id
that they name it by. -/
def deferRefProperties (tree : RojoTree D) (id : Ref) (context : PatchApplyContext) :
    MayPanic (PatchApplyContext × RojoTree D) := do
  let inst ← (tree.getInstance id).join
  let attributes := attributesOf inst.inst.properties
  let context := context.deferPointers id (refPointers attributes)
  match attributeId attributes with
  | some specifiedId => some (context, tree.setSpecifiedId id specifiedId)
  | none => some (context, tree)

/-- Some property of the snapshot is a `Ref` that is not null. -/
def hasRefs (properties : UstrMap Variant) : Bool :=
  properties.entries.any fun ⟨_, value⟩ =>
    match value with
    | .ref referent => referent.isSome
    | _ => false

mutual

def applyAddChild (context : PatchApplyContext) (tree : RojoTree D) (parentId : Ref) :
    InstanceSnapshot → MayPanic (PatchApplyContext × RojoTree D)
  | ⟨snapshotId, metadata, name, className, properties, children⟩ => do
    let (id, tree) ← tree.insertInstance parentId
      ⟨snapshotId, metadata, name, className, properties, []⟩
    let context := context.recordAdded id
    let context := context.noteRefs id (hasRefs properties)
    let context := context.noteSnapshotId snapshotId id
    let (context, tree) ← applyAddChildren context tree id children
    deferRefProperties tree id context

def applyAddChildren (context : PatchApplyContext) (tree : RojoTree D) (parentId : Ref) :
    List InstanceSnapshot → MayPanic (PatchApplyContext × RojoTree D)
  | [] => some (context, tree)
  | child :: children => do
    let (context, tree) ← applyAddChild context tree parentId child
    applyAddChildren context tree parentId children

end

/-- Writes one changed property. A null `Ref` is skipped. -/
def applyProperty (ids : Map Ref Ref) (properties : UstrMap Variant) (key : String)
    (propertyEntry : Option Variant) : UstrMap Variant :=
  match propertyEntry with
  | some (.ref referent) =>
    if referent.isNone then properties
    else properties.insert key (.ref ((ids.lookup referent).getD referent))
  | some value => properties.insert key value
  | none => properties.erase key

/-- A changed property is recorded as it stands in the patch. A null `Ref` is not recorded. -/
def recordProperty (recorded : UstrMap (Option Variant)) (key : String)
    (propertyEntry : Option Variant) : UstrMap (Option Variant) :=
  match propertyEntry with
  | some (.ref referent) =>
    if referent.isNone then recorded else recorded.insert key propertyEntry
  | _ => recorded.insert key propertyEntry

/-- What an update makes of the properties of an instance. -/
def updatedProperties (ids : Map Ref Ref) (changed : UstrMap (Option Variant))
    (properties : UstrMap Variant) : UstrMap Variant :=
  changed.entries.foldl (fun properties entry => applyProperty ids properties entry.1 entry.2)
    properties

/-- What is recorded of an update. -/
def recordUpdate (patch : PatchUpdate) : AppliedPatchUpdate where
  id := patch.id
  changedName := patch.changedName
  changedClassName := patch.changedClassName
  changedProperties := patch.changedProperties.entries.foldl
    (fun recorded entry => recordProperty recorded entry.1 entry.2) ∅
  changedMetadata := patch.changedMetadata

/-- What an update makes of an instance. -/
def updatedInstance (ids : Map Ref Ref) (patch : PatchUpdate) (inst : Instance) : Instance :=
  { inst with
    name := patch.changedName.getD inst.name
    className := patch.changedClassName.getD inst.className
    properties := updatedProperties ids patch.changedProperties inst.properties }

/-- Replaces the metadata of an instance if it has changed. -/
def applyMetadata (tree : RojoTree D) (id : Ref) (changed : Option InstanceMetadata) :
    RojoTree D :=
  match changed with
  | some metadata => tree.updateMetadata id metadata
  | none => tree

def applyUpdateChild (context : PatchApplyContext) (tree : RojoTree D) (patch : PatchUpdate) :
    MayPanic (PatchApplyContext × RojoTree D) := do
  let tree := applyMetadata tree patch.id patch.changedMetadata
  let changed ← tree.getInstanceMut patch.id
    (updatedInstance context.snapshotIdToInstanceId patch)
  match changed with
  | none => some (context, tree)
  | some tree => do
    let (context, tree) ← deferRefProperties tree patch.id context
    some (context.recordUpdated (recordUpdate patch), tree)

/-- Writes to an instance that is expected to exist. -/
def expectInstanceMut (tree : RojoTree D) (id : Ref) (f : UstrMap Variant → UstrMap Variant) :
    MayPanic (RojoTree D) :=
  (tree.getInstanceMut id fun inst => { inst with properties := f inst.properties }).join

/-- The deferred refs of one instance that resolve. -/
def realRewrites (tree : RojoTree D) (deferred : List (String × String)) :
    List (String × Variant) :=
  deferred.filterMap fun (propName, target) =>
    (tree.getSpecifiedId ⟨target⟩).map fun referent => (propName, Variant.ref referent)

/-- Applies the deferred property updates and returns what has been applied. -/
def finalizePatchApplication (context : PatchApplyContext) (tree : RojoTree D) :
    MayPanic (RojoTree D × AppliedPatchSet) := do
  let tree ← context.hasRefsToRewrite.foldlM (fun tree id =>
    expectInstanceMut tree id
      (mapVal fun _ value => rewriteRef context.snapshotIdToInstanceId value)) tree
  let tree ← context.attributeRefsToRewrite.inner.entries.foldlM (fun tree entry =>
    expectInstanceMut tree entry.1 fun properties =>
      extend properties (realRewrites tree entry.2)) tree
  some (tree, context.appliedPatchSet)

/-- Applies all of the prescribed changes of a patch to the tree. -/
def applyPatchSet (tree : RojoTree D) (patchSet : PatchSet) :
    MayPanic (RojoTree D × AppliedPatchSet) := do
  let state ← patchSet.removedInstances.foldlM
    (fun state removedId => applyRemoveInstance state.1 state.2 removedId)
    (PatchApplyContext.default, tree)
  let state ← patchSet.addedInstances.foldlM
    (fun state addPatch => applyAddChild state.1 state.2 addPatch.parentId addPatch.inst) state
  let state ← patchSet.updatedInstances.foldlM
    (fun state updatePatch => applyUpdateChild state.1 state.2 updatePatch) state
  finalizePatchApplication state.1 state.2

end Roxo
