import Roxo.Snapshot.InstanceSnapshot
import Roxo.Snapshot.MultiMap

/-!
# The tree

`RojoTree` is a DOM together with the metadata of its instances and two indexes over it: from
source paths to the instances they can change, and from user-specified ids to the instances that
carry them.
-/

namespace Roxo

open AssocMap WeakDom

structure RojoTree (D : Type) where
  inner : D
  /-- Kept up to date with the set of actual instances. -/
  metadataMap : Map Ref InstanceMetadata
  pathToIds : MultiMap PathBuf Ref
  specifiedIdToRefs : MultiMap RojoRef Ref

/-- An instance and its metadata, which are stored in different places. -/
structure InstanceWithMeta where
  inst : Instance
  metadata : InstanceMetadata

/-- The classes that inherit from `Model`. -/
def pivotClasses : List String :=
  ["Model", "Actor", "Tool", "HopperBin", "Flag", "WorldModel", "Workspace", "Status"]

def needsPivotMigration : String := "NeedsPivotMigration"

/-- The property that an inserted instance gets when its snapshot does not have it. -/
def hackNeedsPivotMigration (snapshot : InstanceSnapshot) : List (String × Variant) :=
  if snapshot.className ∈ pivotClasses ∧ needsPivotMigration ∉ snapshot.properties then
    [(needsPivotMigration, .bool false)]
  else []

/-- The builder that `insert_instance` makes of a snapshot. -/
def snapshotBuilder (snapshot : InstanceSnapshot) : InstanceBuilder :=
  (((InstanceBuilder.empty.withClass snapshot.className).withName snapshot.name).withProperties
    (hackNeedsPivotMigration snapshot)).withProperties (toList snapshot.properties)

namespace RojoTree

variable {D : Type} [WeakDom D]

def getRootId (tree : RojoTree D) : Ref := rootRef tree.inner

/-- The instance with the given id. An instance without metadata makes it panic. -/
def getInstance (tree : RojoTree D) (id : Ref) : MayPanic (Option InstanceWithMeta) :=
  match getByRef tree.inner id with
  | some inst => do
    let metadata ← tree.metadataMap.lookup id
    some (some ⟨inst, metadata⟩)
  | none => some none

/-- What is done to an instance through `get_instance_mut`, or `none` inside if there is no such
instance. -/
def getInstanceMut (tree : RojoTree D) (id : Ref) (f : Instance → Instance) :
    MayPanic (Option (RojoTree D)) :=
  match getByRef tree.inner id with
  | some _ => do
    let _metadata ← tree.metadataMap.lookup id
    some (some { tree with inner := write tree.inner id f })
  | none => some none

def getIdsAtPath (tree : RojoTree D) (path : PathBuf) : List Ref := tree.pathToIds.get path

def getMetadata (tree : RojoTree D) (id : Ref) : Option InstanceMetadata :=
  tree.metadataMap.lookup id

/-- The backing id of a user-specified id, if there is exactly one. -/
def getSpecifiedId (tree : RojoTree D) (specified : RojoRef) : Option Ref :=
  match tree.specifiedIdToRefs.get specified with
  | [referent] => some referent
  | _ => none

def setSpecifiedId (tree : RojoTree D) (id : Ref) (specified : RojoRef) : RojoTree D :=
  let tree :=
    match tree.metadataMap.lookup id with
    | some metadata =>
      { tree with
        metadataMap := tree.metadataMap.insert id { metadata with specifiedId := some specified }
        specifiedIdToRefs :=
          match metadata.specifiedId with
          | some old => (tree.specifiedIdToRefs.remove old id).2
          | none => tree.specifiedIdToRefs }
    | none => tree
  { tree with specifiedIdToRefs := tree.specifiedIdToRefs.insert specified id }

def insertMetadata (tree : RojoTree D) (id : Ref) (metadata : InstanceMetadata) : RojoTree D :=
  let tree := { tree with
    pathToIds := metadata.relevantPaths.foldl (fun m path => m.insert path id) tree.pathToIds }
  let tree :=
    match metadata.specifiedId with
    | some specifiedId => tree.setSpecifiedId id specifiedId
    | none => tree
  { tree with metadataMap := tree.metadataMap.insert id metadata }

/-- Drops the metadata of an instance from the map and the indexes. -/
def removeMetadata (tree : RojoTree D) (id : Ref) : MayPanic (RojoTree D) := do
  let metadata ← tree.metadataMap.lookup id
  some
    { tree with
      metadataMap := tree.metadataMap.erase id
      specifiedIdToRefs :=
        match metadata.specifiedId with
        | some specified => (tree.specifiedIdToRefs.remove specified id).2
        | none => tree.specifiedIdToRefs
      pathToIds :=
        metadata.relevantPaths.foldl (fun m path => (m.remove path id).2) tree.pathToIds }

mutual

def insertInstance (tree : RojoTree D) (parentRef : Ref) :
    InstanceSnapshot → MayPanic (Ref × RojoTree D)
  | ⟨snapshotId, metadata, name, className, properties, children⟩ => do
    let builder :=
      snapshotBuilder ⟨snapshotId, metadata, name, className, properties, children⟩
    let (referent, inner) ← WeakDom.insert tree.inner parentRef builder
    let tree := insertMetadata { tree with inner := inner } referent metadata
    let tree ← insertChildren tree referent children
    some (referent, tree)

def insertChildren (tree : RojoTree D) (parentRef : Ref) :
    List InstanceSnapshot → MayPanic (RojoTree D)
  | [] => some tree
  | child :: children => do
    let (_, tree) ← insertInstance tree parentRef child
    insertChildren tree parentRef children

end

def new (snapshot : InstanceSnapshot) : MayPanic (RojoTree D) :=
  let rootBuilder := ((InstanceBuilder.new snapshot.className).withName snapshot.name).withProperties
    (toList snapshot.properties)
  let tree : RojoTree D :=
    { inner := WeakDom.new rootBuilder
      metadataMap := ∅
      pathToIds := MultiMap.new
      specifiedIdToRefs := MultiMap.new }
  let rootRef := rootRef tree.inner
  let tree := tree.insertMetadata rootRef snapshot.metadata
  tree.insertChildren rootRef snapshot.children

/-- The queue loop of `remove`. Every round takes an entry out of the metadata map or panics, so
there are at most as many as the map has entries. -/
def removeLoop : ℕ → RojoTree D → List Ref → MayPanic (RojoTree D)
  | _, tree, [] => some tree
  | 0, _, _ :: _ => none
  | fuel + 1, tree, id :: toMove => do
    let tree ← tree.removeMetadata id
    removeLoop fuel tree (toMove ++ kids tree.inner id)

/-- Removes an instance and everything below it. -/
def remove (tree : RojoTree D) (id : Ref) : MayPanic (RojoTree D) := do
  let tree ← removeLoop (tree.metadataMap.keys.length + 1) tree [id]
  let inner ← WeakDom.destroy tree.inner id
  some { tree with inner := inner }

/-- Replaces the metadata of an instance and moves it in the indexes where it changed. -/
def updateMetadata (tree : RojoTree D) (id : Ref) (metadata : InstanceMetadata) : RojoTree D :=
  match tree.metadataMap.lookup id with
  | some existing =>
    let pathToIds :=
      if existing.relevantPaths ≠ metadata.relevantPaths then
        metadata.relevantPaths.foldl (fun m path => m.insert path id)
          (existing.relevantPaths.foldl (fun m path => (m.remove path id).2) tree.pathToIds)
      else tree.pathToIds
    let specifiedIdToRefs :=
      if existing.specifiedId ≠ metadata.specifiedId then
        let inserted :=
          match metadata.specifiedId with
          | some new => tree.specifiedIdToRefs.insert new id
          | none => tree.specifiedIdToRefs
        match existing.specifiedId with
        | some old => (inserted.remove old id).2
        | none => inserted
      else tree.specifiedIdToRefs
    { tree with
      metadataMap := tree.metadataMap.insert id metadata
      pathToIds := pathToIds
      specifiedIdToRefs := specifiedIdToRefs }
  | none => { tree with metadataMap := tree.metadataMap.insert id metadata }

end RojoTree

end Roxo
