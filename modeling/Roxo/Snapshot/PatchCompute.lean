import Roxo.Snapshot.Patch

/-!
# Computing a patch

`computePatchSet` compares a snapshot with an instance: it records how the properties differ,
pairs each child of the snapshot with the first free child of the instance that has its name and
class, goes on below the pairs, and adds or removes the children that are left.
-/

namespace Roxo

open AssocMap WeakDom RojoTree

section Properties

variable {D : Type}

/-- The `Ref` properties that the attributes of a snapshot set, each with the instance that its id
resolves to. -/
def computeRefProperties (snapshot : InstanceSnapshot) (tree : RojoTree D) :
    UstrMap (Option Variant) :=
  extend ∅ ((pointersOf snapshot.properties).map fun (propName, target) =>
    (propName, (tree.getSpecifiedId ⟨target⟩).map Variant.ref))

variable [FloatCmp]

/-- The loop over the properties of the snapshot. -/
def changedBySnapshot (snapshotProperties instanceProperties : UstrMap Variant) :
    MayPanic (UstrMap (Option Variant)) :=
  snapshotProperties.entries.foldlM (fun changed ⟨name, snapshotValue⟩ =>
    match instanceProperties.lookup name with
    | some instanceValue => do
      if ← variantEq snapshotValue instanceValue then some changed
      else some (changed.insert name (some snapshotValue))
    | none => some (changed.insert name (some snapshotValue))) ∅

/-- The loop over the properties of the instance, which removes those not visited. -/
def removeUnvisited (snapshotProperties instanceProperties : UstrMap Variant)
    (changed : UstrMap (Option Variant)) : UstrMap (Option Variant) :=
  instanceProperties.entries.foldl (fun changed ⟨name, _⟩ =>
    if name ∈ snapshotProperties then changed else changed.insert name none) changed

/-- The loop over the properties that attributes set. -/
def changeByAttributes (attributeRefs : UstrMap (Option Variant))
    (instanceProperties : UstrMap Variant) (changed : UstrMap (Option Variant)) :
    UstrMap (Option Variant) :=
  attributeRefs.entries.foldl (fun changed ⟨name, refValue⟩ =>
    match refValue, instanceProperties.lookup name with
    | some referent, some instanceValue =>
      if referent ≠ instanceValue then changed.insert name refValue else changed.erase name
    | some _, none => changed.insert name refValue
    | none, some _ => changed.insert name refValue
    | none, none => changed.erase name) changed

/-- The special case for the classes that inherit from `Model`. -/
def changePivot (actualClass : String) (instanceProperties : UstrMap Variant)
    (changed : UstrMap (Option Variant)) : UstrMap (Option Variant) :=
  if actualClass ∈ pivotClasses then
    let changed :=
      if needsPivotMigration ∉ instanceProperties then
        changed.insert needsPivotMigration (some (.bool false))
      else changed
    match changed.lookup needsPivotMigration with
    | some (some (.bool _)) => changed
    | some none => changed.erase needsPivotMigration
    | _ => changed.insert needsPivotMigration (some (.bool false))
  else changed

/-- The changed properties of an instance that is paired with a snapshot. -/
def computeChangedProperties (snapshot : InstanceSnapshot) (inst : InstanceWithMeta)
    (tree : RojoTree D) : MayPanic (UstrMap (Option Variant)) := do
  let properties := inst.inst.properties
  let changed ← changedBySnapshot snapshot.properties properties
  let changed := removeUnvisited snapshot.properties properties changed
  let changed := changeByAttributes (computeRefProperties snapshot tree) properties changed
  some (changePivot snapshot.className properties changed)

/-- The new value of a field if it differs from the old one. -/
def changedTo {α : Type} [DecidableEq α] (new old : α) : Option α :=
  if new = old then none else some new

/-- The update of an instance that is paired with a snapshot, or `none` inside if nothing about it
changes. -/
def computeUpdate (snapshot : InstanceSnapshot) (inst : InstanceWithMeta) (tree : RojoTree D) :
    MayPanic (Option PatchUpdate) := do
  let changedName := changedTo snapshot.name inst.inst.name
  let changedClassName := changedTo snapshot.className inst.inst.className
  let changedMetadata := changedTo snapshot.metadata inst.metadata
  let changedProperties ← computeChangedProperties snapshot inst tree
  if changedProperties.keys = [] ∧ changedName = none ∧ changedClassName = none ∧
      changedMetadata = none then
    some none
  else
    some (some ⟨inst.inst.referent, changedName, changedClassName, changedProperties,
      changedMetadata⟩)

def computePropertyPatches (snapshot : InstanceSnapshot) (inst : InstanceWithMeta)
    (patchSet : PatchSet) (tree : RojoTree D) : MayPanic PatchSet := do
  let update ← computeUpdate snapshot inst tree
  some { patchSet with updatedInstances := patchSet.updatedInstances ++ update.toList }

end Properties

section Children

variable {D : Type} [WeakDom D]

/-- The instance with the given id, which is expected to exist. -/
def expectInstance (tree : RojoTree D) (id : Ref) : MayPanic InstanceWithMeta :=
  (tree.getInstance id).join

/-- The search for the first child that is not paired yet and has the name and the class of the
snapshot. What it finds it marks as paired. -/
def findMatching (tree : RojoTree D) (snapshotChild : InstanceSnapshot) :
    List (Ref × Bool) → MayPanic (Option Ref × List (Ref × Bool))
  | [] => some (none, [])
  | (childId, paired) :: rest =>
    if paired then do
      let (found, rest) ← findMatching tree snapshotChild rest
      some (found, (childId, paired) :: rest)
    else do
      let instanceChild ← expectInstance tree childId
      if snapshotChild.name = instanceChild.inst.name ∧
          snapshotChild.className = instanceChild.inst.className then
        some (some childId, (childId, true) :: rest)
      else do
        let (found, rest) ← findMatching tree snapshotChild rest
        some (found, (childId, paired) :: rest)

variable [FloatCmp]

mutual

def computePatchSetInternal (tree : RojoTree D) (context : Map Ref Ref) :
    InstanceSnapshot → Ref → PatchSet → MayPanic (Map Ref Ref × PatchSet)
  | ⟨snapshotId, metadata, name, className, properties, children⟩, id, patchSet => do
    let context := if snapshotId.isSome then context.insert snapshotId id else context
    let inst ← expectInstance tree id
    let patchSet ← computePropertyPatches
      ⟨snapshotId, metadata, name, className, properties, children⟩ inst patchSet tree
    let pairedInstances := inst.inst.children.map fun childId => (childId, false)
    let (context, pairedInstances, patchSet) ←
      computeChildrenPatches tree context children id pairedInstances patchSet
    let unpaired := (pairedInstances.filter fun child => !child.2).map Prod.fst
    some (context, { patchSet with
      removedInstances := patchSet.removedInstances ++ unpaired })

/-- The loop over the children of a snapshot. -/
def computeChildrenPatches (tree : RojoTree D) (context : Map Ref Ref) :
    List InstanceSnapshot → Ref → List (Ref × Bool) → PatchSet →
      MayPanic (Map Ref Ref × List (Ref × Bool) × PatchSet)
  | [], _, pairedInstances, patchSet => some (context, pairedInstances, patchSet)
  | snapshotChild :: children, id, pairedInstances, patchSet => do
    let (matching, pairedInstances) ← findMatching tree snapshotChild pairedInstances
    match matching with
    | some instanceChildId =>
      let (context, patchSet) ←
        computePatchSetInternal tree context snapshotChild instanceChildId patchSet
      computeChildrenPatches tree context children id pairedInstances patchSet
    | none =>
      computeChildrenPatches tree context children id pairedInstances { patchSet with
        addedInstances := patchSet.addedInstances ++ [⟨id, snapshotChild⟩] }

end

end Children

section Rewriting

def rewriteRefsInUpdate (ids : Map Ref Ref) (update : PatchUpdate) : PatchUpdate :=
  { update with
    changedProperties := mapVal (fun _ value => value.map (rewriteRef ids))
      update.changedProperties }

mutual

def rewriteRefsInSnapshot (ids : Map Ref Ref) : InstanceSnapshot → InstanceSnapshot
  | ⟨snapshotId, metadata, name, className, properties, children⟩ =>
    ⟨snapshotId, metadata, name, className, mapVal (fun _ value => rewriteRef ids value) properties,
      rewriteRefsInChildren ids children⟩

def rewriteRefsInChildren (ids : Map Ref Ref) : List InstanceSnapshot → List InstanceSnapshot
  | [] => []
  | child :: children => rewriteRefsInSnapshot ids child :: rewriteRefsInChildren ids children

end

def rewriteRefsInAddition (ids : Map Ref Ref) (addition : PatchAdd) : PatchAdd :=
  { addition with inst := rewriteRefsInSnapshot ids addition.inst }

end Rewriting

/-- The patch that turns the instance `id` into what the snapshot describes; without a snapshot the
instance is removed, unless it is the root. -/
def computePatchSet {D : Type} [WeakDom D] [FloatCmp] (snapshot : Option InstanceSnapshot)
    (tree : RojoTree D) (id : Ref) : MayPanic PatchSet :=
  match snapshot with
  | some snapshot => do
    let (context, patchSet) ← computePatchSetInternal tree ∅ snapshot id PatchSet.new
    some { patchSet with
      updatedInstances := patchSet.updatedInstances.map (rewriteRefsInUpdate context)
      addedInstances := patchSet.addedInstances.map (rewriteRefsInAddition context) }
  | none =>
    if id ≠ tree.getRootId then some { PatchSet.new with removedInstances := [id] }
    else some PatchSet.new

end Roxo
