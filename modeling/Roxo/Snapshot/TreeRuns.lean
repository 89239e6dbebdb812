import Roxo.Library.Transition
import Roxo.Snapshot.Computed
import Roxo.Snapshot.MapDom

/-!
# Runs of the tree

The tree starts as the snapshot of the root and changes by the operations of its interface and by
patches computed on it. Its indexes agree with the metadata of its instances in every state of
every run (`indexesAgree_of_reachable`).
-/

namespace Roxo

open AssocMap WeakDom RojoTree Transition

namespace RojoTree

variable {D : Type} [WeakDom D] [FloatCmp]

/-- A new tree. -/
def Initial (tree : RojoTree D) : Prop := ∃ snapshot, RojoTree.new snapshot = some tree

/-- The operations on a tree that return. A patch is applied to the tree that it was computed
on. -/
inductive Step (tree : RojoTree D) : RojoTree D → Prop
  | insertInstance {parentRef referent snapshot tree'} :
    tree.insertInstance parentRef snapshot = some (referent, tree') → Step tree tree'
  | remove {id tree'} : (getByRef tree.inner id).isSome → id ≠ tree.getRootId →
    tree.remove id = some tree' → Step tree tree'
  | updateMetadata {id} (metadata : InstanceMetadata) : (getByRef tree.inner id).isSome →
    Step tree (tree.updateMetadata id metadata)
  | setSpecifiedId {id} (specified : RojoRef) : (getByRef tree.inner id).isSome →
    Step tree (tree.setSpecifiedId id specified)
  | applyPatchSet {snapshot id patchSet tree' applied} :
    computePatchSet snapshot tree id = some patchSet →
    applyPatchSet tree patchSet = some (tree', applied) → Step tree tree'

omit [FloatCmp] in
/-- The indexes over the metadata are what a scan of the metadata would give. -/
structure IndexesAgree (tree : RojoTree D) : Prop where
  keys : ∀ id, id ∈ tree.metadataMap ↔ (getByRef tree.inner id).isSome
  nodup_path : ∀ path, (tree.getIdsAtPath path).Nodup
  mem_path : ∀ path id, id ∈ tree.getIdsAtPath path ↔
    ∃ metadata, tree.getMetadata id = some metadata ∧ path ∈ metadata.relevantPaths
  nodup_specified : ∀ specified, (tree.specifiedIdToRefs.get specified).Nodup
  mem_specified : ∀ specified id, id ∈ tree.specifiedIdToRefs.get specified ↔
    ∃ metadata, tree.getMetadata id = some metadata ∧ metadata.specifiedId = some specified
  getSpecifiedId : ∀ specified id, tree.getSpecifiedId specified = some id ↔
    ∀ x, (∃ metadata, tree.getMetadata x = some metadata ∧
      metadata.specifiedId = some specified) ↔ x = id

omit [FloatCmp] in
theorem Inv.indexesAgree {tree : RojoTree D} (h : Inv tree) : IndexesAgree tree where
  keys := h.keys
  nodup_path path := tree.pathToIds.nodup_get path
  mem_path path id := h.paths path id
  nodup_specified specified := tree.specifiedIdToRefs.nodup_get specified
  mem_specified _ _ := h.toIndexed.mem_specifiedIdToRefs
  getSpecifiedId _ _ := h.toIndexed.getSpecifiedId_iff

variable [LawfulWeakDom D] {tree tree' : RojoTree D} {id : Ref} {patchSet : PatchSet}
  {snapshot : Option InstanceSnapshot} {record : AppliedPatchSet}

omit [FloatCmp] in
/-- What a patch that fits the tree does, whenever it returns. -/
theorem Inv.applied (h : Inv tree) (hok : PatchOk tree patchSet)
    (heq : Roxo.applyPatchSet tree patchSet = some (tree', record)) :
    ∃ tops created, Applied tree patchSet tops created tree' record := by
  obtain ⟨tops, created, tree₁, record₁, heq₁, happ⟩ := applyPatchSet_applied h hok
  obtain ⟨rfl, rfl⟩ := Prod.mk.inj (Option.some.inj (heq₁.symm.trans heq))
  exact ⟨tops, created, happ⟩

omit [LawfulWeakDom D] in
/-- A snapshot can only be compared with an instance that is there. -/
theorem present_of_computePatchSet {S : InstanceSnapshot}
    (hp : computePatchSet (some S) tree id = some patchSet) :
    ∃ i, getByRef tree.inner id = some i := by
  cases hi : getByRef tree.inner id with
  | some i => exact ⟨i, rfl⟩
  | none =>
    cases S with
    | mk snapshotId metadata name className properties children =>
      obtain ⟨_, hc, -⟩ := Option.bind_eq_some_iff.mp hp
      unfold computePatchSetInternal expectInstance at hc
      dsimp only at hc
      rw [getInstance_none hi] at hc
      cases hc

omit [FloatCmp] [LawfulWeakDom D] in
/-- Only an instance with metadata can be removed. -/
theorem Inv.present_of_remove (h : Inv tree) (heq : tree.remove id = some tree') :
    ∃ i, getByRef tree.inner id = some i := by
  cases hi : getByRef tree.inner id with
  | some i => exact ⟨i, rfl⟩
  | none =>
    unfold RojoTree.remove removeLoop removeMetadata at heq
    rw [h.metadata_of_absent hi] at heq
    cases heq

/-- A patch that was computed for an instance of a tree fits the tree. -/
theorem Inv.patchOk_of_present (h : Inv tree) {i : Instance} (hi : getByRef tree.inner id = some i)
    (hp : computePatchSet snapshot tree id = some patchSet) : PatchOk tree patchSet := by
  cases snapshot with
  | some S => exact (computePatchSet_computed h hi hp).patchOk h hi
  | none =>
    unfold computePatchSet at hp
    dsimp only at hp
    split_ifs at hp with hroot
    · obtain rfl := Option.some.inj hp
      refine ⟨⟨?_, ?_, List.nodup_singleton _, ?_⟩, ?_, ?_, List.nodup_nil⟩
      · intro x hx
        rw [List.mem_singleton.mp hx]
        exact Option.isSome_of_eq_some hi
      · intro x hx
        rw [List.mem_singleton.mp hx]
        exact hroot
      · intro x hx y hy _
        rw [List.mem_singleton.mp hx, List.mem_singleton.mp hy]
      · exact fun _ ha => absurd ha List.not_mem_nil
      · exact fun _ hu => absurd hu List.not_mem_nil
    · obtain rfl := Option.some.inj hp
      exact ⟨⟨fun _ hx => absurd hx List.not_mem_nil, fun _ hx => absurd hx List.not_mem_nil,
        List.nodup_nil, fun _ hx => absurd hx List.not_mem_nil⟩,
        fun _ ha => absurd ha List.not_mem_nil, fun _ hu => absurd hu List.not_mem_nil,
        List.nodup_nil⟩

/-- A patch that was computed on a tree fits it, if applying the patch returns. -/
theorem Inv.patchOk (h : Inv tree) (hp : computePatchSet snapshot tree id = some patchSet)
    (heq : Roxo.applyPatchSet tree patchSet = some (tree', record)) : PatchOk tree patchSet := by
  have hpresent : ∃ i, getByRef tree.inner id = some i := by
    cases snapshot with
    | some S => exact present_of_computePatchSet hp
    | none =>
      unfold computePatchSet at hp
      dsimp only at hp
      split_ifs at hp with hroot
      · obtain rfl := Option.some.inj hp
        unfold Roxo.applyPatchSet at heq
        obtain ⟨state, hs, -⟩ := Option.bind_eq_some_iff.mp heq
        obtain ⟨_, hr, -⟩ := Option.bind_eq_some_iff.mp hs
        obtain ⟨tree₁, hr, -⟩ := Option.bind_eq_some_iff.mp hr
        exact h.present_of_remove hr
      · rw [not_not.mp hroot]
        obtain ⟨root, hroot, -⟩ := LawfulWeakDom.root_spec tree.inner
        exact ⟨root, hroot⟩
  obtain ⟨i, hi⟩ := hpresent
  exact h.patchOk_of_present hi hp

theorem Inv.step (h : Inv tree) (hstep : Step tree tree') : Inv tree' := by
  cases hstep with
  | insertInstance heq => exact h.insertInstance heq
  | remove hid hroot heq =>
    obtain ⟨i, hi⟩ := Option.isSome_iff_exists.mp hid
    obtain ⟨tree₁, heq₁, hr⟩ := h.remove hi hroot
    rw [← Option.some.inj (heq₁.symm.trans heq)]
    exact hr.inv
  | updateMetadata metadata hid =>
    obtain ⟨i, hi⟩ := Option.isSome_iff_exists.mp hid
    exact h.updateMetadata hi metadata
  | setSpecifiedId specified hid =>
    obtain ⟨i, hi⟩ := Option.isSome_iff_exists.mp hid
    exact h.setSpecifiedId hi specified
  | applyPatchSet hp heq =>
    obtain ⟨tops, created, happ⟩ := h.applied (h.patchOk hp heq) heq
    exact happ.inv

/-- The representation invariant holds of every tree of every run. -/
theorem inv_of_reachable (h : Reachable Initial Step tree) : Inv tree :=
  h.invariant (fun _ ⟨_, hnew⟩ => Inv.new hnew) fun _ _ _ hinv hstep => hinv.step hstep

/-- **The indexes of a tree agree with its metadata**, whatever has been done to it. -/
theorem indexesAgree_of_reachable (h : Reachable Initial Step tree) : IndexesAgree tree :=
  (inv_of_reachable h).indexesAgree

/-- A root with one child that has a path and a user-specified id. -/
def oneChild : InstanceSnapshot :=
  { InstanceSnapshot.new with
    name := "Root"
    className := "Folder"
    children := [{ InstanceSnapshot.new with
      name := "Child"
      className := "Folder"
      metadata := { relevantPaths := [⟨true, ["child"]⟩], specifiedId := some ⟨"id"⟩ } }] }

def oneChildTree : RojoTree MapDom := (RojoTree.new oneChild).get rfl

omit [FloatCmp] in
/-- The tree after its child has been renamed to another user-specified id. -/
theorem indexesAgree_oneChild :
    IndexesAgree (oneChildTree.setSpecifiedId (Ref.some MapDom.firstFree) ⟨"other"⟩) := by
  let _ : FloatCmp := FloatCmp.exact
  exact indexesAgree_of_reachable ((Reachable.init ⟨oneChild, (Option.some_get _).symm⟩).step
    (.setSpecifiedId ⟨"other"⟩ rfl))

end RojoTree

end Roxo
