import Roxo.Library.Lowercase
import Roxo.Syncback.Hash
import Roxo.Syncback.Snapshot

/-!
# Directories

`syncback_dir_no_meta` gives every child of an instance a place in the directory of the instance.
-/

namespace Roxo

open AssocMap Lowercase WeakDom

/-- A simple representation of what is written to a file system. -/
structure FsSnapshot where
  addedFiles : Map PathBuf (List UInt8) := ∅
  addedDirs : List PathBuf := []
  removedFiles : List PathBuf := []
  removedDirs : List PathBuf := []

structure SyncbackReturn (D : Type) where
  fsSnapshot : FsSnapshot
  children : List (SyncbackSnapshot D)
  removedChildren : List InstanceWithMeta

variable {D : Type} [WeakDom D]

section Names

variable [CaseTables]

/-- The loop that looks for names which occur twice, up to case. -/
def duplicateNames (dom : D) : List Ref → List String → Fallible (List String)
  | [], _ => .ok []
  | childRef :: children, childNames => do
    let child ← Fallible.unwrap (getByRef dom childRef)
    let name := lowercase child.name
    if name ∈ childNames then do
      let duplicates ← duplicateNames dom children childNames
      .ok (child.name :: duplicates.filter (· ≠ child.name))
    else duplicateNames dom children (name :: childNames)

/-- Unique child names are enforced for the file system. The order in which the names are reported
is that of a hash set. -/
def checkNames (dom : D) (children : List Ref) : Fallible Unit := do
  let duplicates ← duplicateNames dom children []
  if duplicates = [] then .ok ()
  else if duplicates.length ≤ 25 then
    Fallible.bail ("Instance has children with duplicate name (case may not exactly match):\n " ++
      ", ".intercalate duplicates)
  else Fallible.bail "Instance has more than 25 children with duplicate names"

end Names

/-- The old children by their names. -/
def oldChildMap (tree : RojoTree D) : List Ref → Map String InstanceWithMeta →
    Fallible (Map String InstanceWithMeta)
  | [], map => .ok map
  | child :: children, map => do
    let inst ← (Fallible.unwrap (tree.getInstance child)) >>= Fallible.unwrap
    oldChildMap tree children (map.insert inst.inst.name inst)

/-- The instance originates in a project file. -/
def InstanceMetadata.fromProjectNode (metadata : InstanceMetadata) : Bool :=
  match metadata.instigatingSource with
  | some (.projectNode ..) => true
  | _ => false

/-- The loop over the new children: the snapshots for them, and the old children without a new
one. -/
def assignChildren (snapshot : SyncbackSnapshot D) :
    List Ref → Map String InstanceWithMeta →
      Fallible (List (SyncbackSnapshot D) × Map String InstanceWithMeta)
  | [], map => .ok ([], map)
  | newChildRef :: newChildren, map => do
    let newChild ← Fallible.unwrap (getByRef snapshot.data.newTree newChildRef)
    match map.lookup newChild.name with
    | some oldChild =>
      if oldChild.metadata.relevantPaths = [] then
        -- it doesn't exist on the disk
        assignChildren snapshot newChildren (map.erase newChild.name)
      else if oldChild.metadata.fromProjectNode then
        assignChildren snapshot newChildren (map.erase newChild.name)
      else do
        let child ← snapshot.withJoinedPath newChildRef (some oldChild.inst.referent)
        let (children, map) ← assignChildren snapshot newChildren (map.erase newChild.name)
        .ok (child :: children, map)
    | none => do
      let child ← snapshot.withJoinedPath newChildRef none
      let (children, map) ← assignChildren snapshot newChildren map
      .ok (child :: children, map)

/-- The children of the old instance, none if there is no old instance. -/
def oldChildren (snapshot : SyncbackSnapshot D) : Fallible (Map String InstanceWithMeta) := do
  match ← snapshot.oldInst with
  | some oldInst => oldChildMap snapshot.data.oldTree oldInst.inst.children ∅
  | none => .ok ∅

section Hashed

variable [ReflectionDatabase] [FloatCmp] [Hashing]

/-- The directory is added unless it is there and its instance has not changed. -/
def addsDir (snapshot : SyncbackSnapshot D) : Fallible Bool :=
  match snapshot.old with
  | some oldRef => do
    let newHash ← (Fallible.unwrap (hashInstance snapshot.data.rules snapshot.data.newTree
      snapshot.new)) >>= Fallible.unwrap
    let oldHash ← (Fallible.unwrap (hashInstance snapshot.data.rules
      snapshot.data.oldTree.inner oldRef)) >>= Fallible.unwrap
    .ok (oldHash ≠ newHash)
  | none => .ok true

/-- Syncback of a directory without its meta file. -/
def syncbackDirNoMeta [CaseTables] (snapshot : SyncbackSnapshot D) :
    Fallible (SyncbackReturn D) := do
  let newInst ← snapshot.newInst
  checkNames snapshot.data.newTree newInst.children
  let oldMap ← oldChildren snapshot
  let (children, removed) ← assignChildren snapshot newInst.children oldMap
  let added ← addsDir snapshot
  .ok
    { fsSnapshot := { addedDirs := if added then [snapshot.path] else [] }
      children := children
      removedChildren := (toList removed).map Prod.snd }

end Hashed

/-! ## The children that are assigned a path -/

/-- Every child is joined to the path of the directory. -/
theorem assignChildren_joined {snapshot child : SyncbackSnapshot D} {newChildren : List Ref}
    {map removed : Map String InstanceWithMeta} {children : List (SyncbackSnapshot D)}
    (h : assignChildren snapshot newChildren map = .ok (children, removed))
    (hc : child ∈ children) :
    ∃ newRef ∈ newChildren, ∃ oldRef, snapshot.withJoinedPath newRef oldRef = .ok child := by
  induction newChildren generalizing map children removed with
  | nil =>
    obtain ⟨rfl, -⟩ := Prod.mk.inj (Except.ok.inj h)
    cases hc
  | cons newRef newChildren ih =>
    have hlater : ∀ {map children}, assignChildren snapshot newChildren map =
        .ok (children, removed) → child ∈ children →
        ∃ ref ∈ newRef :: newChildren, ∃ oldRef,
          snapshot.withJoinedPath ref oldRef = .ok child := by
      intro map children h hc
      obtain ⟨ref, hmem, hjoined⟩ := ih h hc
      exact ⟨ref, List.mem_cons_of_mem _ hmem, hjoined⟩
    have hnow : ∀ {oldRef map}, (do
        let child ← snapshot.withJoinedPath newRef oldRef
        let (children, map) ← assignChildren snapshot newChildren map
        .ok (child :: children, map)) = .ok (children, removed) →
        ∃ ref ∈ newRef :: newChildren, ∃ oldRef,
          snapshot.withJoinedPath ref oldRef = .ok child := by
      intro oldRef map h
      obtain ⟨first, hfirst, h⟩ := Except.bind_eq_ok.mp h
      obtain ⟨⟨rest, map'⟩, hrest, h⟩ := Except.bind_eq_ok.mp h
      obtain ⟨rfl, rfl⟩ := Prod.mk.inj (Except.ok.inj h)
      rcases List.mem_cons.mp hc with rfl | hc
      · exact ⟨newRef, List.mem_cons_self, oldRef, hfirst⟩
      · exact hlater hrest hc
    unfold assignChildren at h
    obtain ⟨newChild, -, h⟩ := Except.bind_eq_ok.mp h
    cases hold : map.lookup newChild.name with
    | none =>
      rw [hold] at h
      exact hnow h
    | some oldChild =>
      rw [hold] at h
      dsimp only at h
      split_ifs at h
      · exact hlater h hc
      · exact hlater h hc
      · exact hnow h

section Hashed

variable [ReflectionDatabase] [FloatCmp] [Hashing] [CaseTables]

theorem syncbackDirNoMeta_eq_ok {snapshot : SyncbackSnapshot D} {ret : SyncbackReturn D}
    (h : syncbackDirNoMeta snapshot = .ok ret) :
    ∃ inst map removed, snapshot.newInst = .ok inst ∧
      checkNames snapshot.data.newTree inst.children = .ok () ∧
      oldChildren snapshot = .ok map ∧
      assignChildren snapshot inst.children map = .ok (ret.children, removed) := by
  unfold syncbackDirNoMeta at h
  obtain ⟨inst, hinst, h⟩ := Except.bind_eq_ok.mp h
  obtain ⟨_, hnames, h⟩ := Except.bind_eq_ok.mp h
  obtain ⟨map, hmap, h⟩ := Except.bind_eq_ok.mp h
  obtain ⟨⟨children, removed⟩, hassign, h⟩ := Except.bind_eq_ok.mp h
  obtain ⟨added, -, h⟩ := Except.bind_eq_ok.mp h
  obtain rfl := Except.ok.inj h
  exact ⟨inst, map, removed, hinst, hnames, hmap, hassign⟩

/-- Every child of a directory is joined to its path. -/
theorem syncbackDirNoMeta_joined {snapshot child : SyncbackSnapshot D} {ret : SyncbackReturn D}
    (h : syncbackDirNoMeta snapshot = .ok ret) (hc : child ∈ ret.children) :
    ∃ newRef oldRef, snapshot.withJoinedPath newRef oldRef = .ok child := by
  obtain ⟨inst, map, removed, -, -, -, hassign⟩ := syncbackDirNoMeta_eq_ok h
  obtain ⟨newRef, -, oldRef, hjoined⟩ := assignChildren_joined hassign hc
  exact ⟨newRef, oldRef, hjoined⟩

end Hashed

end Roxo
