import Roxo.Server.ServeSession
import Roxo.SnapshotMiddleware.DirectPaths

/-!
# The change processor

An event about a path affects the instances of the nearest ancestor of the path that has any.
Each of them is snapshotted again from where it came, and the tree is patched to what the snapshot
describes; the ids are listed before the first of them is handled. What the filesystem answers may
change from one instance to the next.

The loop looks up an id that is gone exactly if an earlier iteration removed it
(`applyPatches_ne_metadataMissing_iff`). A patch removes the root exactly if the path that the root
came from is gone when the root is handled (`removesRoot_iff`).
-/

namespace Roxo

open AssocMap WeakDom RojoTree Transition Forest

/-- What the filesystem answers while one instance is handled. -/
structure Reads where
  metadata : PathBuf → Except IoError Metadata
  snapshotFromVfs : SnapshotPath
  snapshotProjectNode : InstanceContext → PathBuf → String → Option String → ProjectNode →
    Fallible (Option InstanceSnapshot)

/-- The answers of a filesystem that stands still, with room for `n` nested snapshots. -/
def Vfs.reads [Environment] (vfs : Vfs) (n : ℕ) : Reads where
  metadata := vfs.metadata
  snapshotFromVfs := Roxo.snapshotFromVfs vfs n
  snapshotProjectNode := Roxo.snapshotProjectNode (Roxo.snapshotFromVfs vfs n)

/-- What kills the processor. -/
inductive Panic where
  /-- `metadata missing for instance present in tree`. -/
  | metadataMissing
  | other
  deriving DecidableEq, Repr

def orPanic {α : Type} : MayPanic α → Except Panic α
  | some v => .ok v
  | none => .error .other

/-- What comes of looking at the source of an instance again. -/
inductive Resnapshot where
  /-- An error, which is logged. -/
  | failed
  /-- The path that the instance was made from is gone. -/
  | missing
  | snapshot (snapshot : Option InstanceSnapshot)

def Resnapshot.ofResult : Fallible (Option InstanceSnapshot) → Except Panic Resnapshot
  | .ok found => .ok (.snapshot found)
  | .error (.error _) => .ok .failed
  | .error .panic => .error .other
  | .error .stackOverflow => .error .other

/-- How a change is processed depends on what created the instance in the first place. -/
def resnapshot (reads : Reads) (metadata : InstanceMetadata) : Except Panic Resnapshot :=
  match metadata.instigatingSource with
  | none => .ok .failed
  | some (.path path) =>
    match withNotFound (reads.metadata path) with
    | .ok (some _) => Resnapshot.ofResult (reads.snapshotFromVfs metadata.context path)
    | .ok none => .ok .missing
    | .error _ => .ok .failed
  | some (.projectNode path name node parentClass) =>
    Resnapshot.ofResult (reads.snapshotProjectNode metadata.context path name parentClass node)

variable {D : Type} [WeakDom D] [FloatCmp]

/-- The patch for what came of the source of an instance. -/
def patchFor (tree : RojoTree D) (id : Ref) : Resnapshot → Except Panic (Option PatchSet)
  | .failed => .ok none
  | .missing => .ok (some { PatchSet.new with removedInstances := [id] })
  | .snapshot found => do
    let patch ← orPanic (computePatchSet found tree id)
    .ok (some patch)

/-- The patch that is made for an instance, if any. -/
def changesFor (reads : Reads) (tree : RojoTree D) (id : Ref) : Except Panic (Option PatchSet) :=
  match tree.getMetadata id with
  | some metadata => resnapshot reads metadata >>= patchFor tree id
  | none => .error .metadataMissing

def computeAndApplyChanges (reads : Reads) (tree : RojoTree D) (id : Ref) :
    Except Panic (RojoTree D × Option AppliedPatchSet) := do
  match ← changesFor reads tree id with
  | some patch => do
    let (tree, applied) ← orPanic (applyPatchSet tree patch)
    .ok (tree, some applied)
  | none => .ok (tree, none)

omit [WeakDom D] [FloatCmp] in
/-- The ids of the nearest ancestor of the path that has associated instances. -/
def affectedIds (tree : RojoTree D) (path : PathBuf) : List Ref :=
  ((path.ancestors.map tree.getIdsAtPath).find? fun ids => ids ≠ []).getD []

/-- The loop over the affected ids; the answers of the filesystem for each of them in turn. -/
def applyAffected (reads : ℕ → Reads) (tree : RojoTree D) :
    List Ref → Except Panic (RojoTree D × List AppliedPatchSet)
  | [] => .ok (tree, [])
  | id :: ids => do
    let (tree, applied) ← computeAndApplyChanges (reads 0) tree id
    let (tree, patches) ← applyAffected (fun n => reads (n + 1)) tree ids
    .ok (tree, applied.toList.filter (fun patch => !patch.isEmpty) ++ patches)

def applyPatches (reads : ℕ → Reads) (tree : RojoTree D) (path : PathBuf) :
    Except Panic (RojoTree D × List AppliedPatchSet) :=
  applyAffected reads tree (affectedIds tree path)

def VfsEvent.path : VfsEvent → PathBuf
  | .create path => path
  | .write path => path
  | .remove path => path

/-- Handles an event. A path without a canonical form is logged. -/
def handleVfsEvent (vfs : Vfs) (reads : ℕ → Reads) (tree : RojoTree D) (event : VfsEvent) :
    Except Panic (RojoTree D × List AppliedPatchSet) :=
  match canonicalizeEventPath vfs event.path with
  | .ok path => applyPatches reads tree path
  | .error _ => .ok (tree, [])

/-! ## What an iteration removes -/

omit [FloatCmp] in
/-- The source of `id` is gone or no longer describes `x`. -/
def Resnapshot.Drops (tree : RojoTree D) (id x : Ref) : Resnapshot → Prop
  | .failed => False
  | .missing => True
  | .snapshot none => id ≠ tree.getRootId
  | .snapshot (some S) => ∀ s, (s, x) ∉ (plan tree S id).pairs

omit [FloatCmp] in
/-- Handling `id` takes `x`, which is `id` or below it, out of the tree. -/
def Loses (reads : Reads) (tree : RojoTree D) (id x : Ref) : Prop :=
  Desc (kids tree.inner) id x ∧ ∃ metadata fresh, tree.getMetadata id = some metadata ∧
    resnapshot reads metadata = .ok fresh ∧ fresh.Drops tree id x

/-- One of the iterations over the ids takes `x` out of the tree. -/
def LosesAlong (reads : ℕ → Reads) (tree : RojoTree D) (x : Ref) : List Ref → Prop
  | [] => False
  | id :: ids => Loses (reads 0) tree id x ∨
    ∃ tree' applied, computeAndApplyChanges (reads 0) tree id = .ok (tree', applied) ∧
      LosesAlong (fun n => reads (n + 1)) tree' x ids

omit [WeakDom D] [FloatCmp] in
theorem orPanic_eq_ok {α : Type} {x : MayPanic α} {v : α} : orPanic x = .ok v ↔ x = some v := by
  cases x with
  | none => exact ⟨nofun, nofun⟩
  | some w => exact ⟨fun h => by cases h; rfl, fun h => by cases h; rfl⟩

section Iteration

variable {reads : Reads} {tree tree' : RojoTree D} {id x : Ref} {patch : PatchSet}
  {applied : Option AppliedPatchSet} {record : AppliedPatchSet}

/-- An iteration that returns leaves the tree as it is or applies the patch that it made. -/
theorem computeAndApplyChanges_eq_ok
    (heq : computeAndApplyChanges reads tree id = .ok (tree', applied)) :
    changesFor reads tree id = .ok none ∧ tree' = tree ∨
      ∃ patch record, changesFor reads tree id = .ok (some patch) ∧
        applyPatchSet tree patch = some (tree', record) := by
  unfold computeAndApplyChanges at heq
  obtain ⟨changes, hchanges, heq⟩ := Except.bind_eq_ok.mp heq
  cases changes with
  | none =>
    cases heq
    exact Or.inl ⟨hchanges, rfl⟩
  | some patch =>
    obtain ⟨⟨tree₁, record⟩, happly, heq⟩ := Except.bind_eq_ok.mp heq
    cases heq
    exact Or.inr ⟨patch, record, hchanges, orPanic_eq_ok.mp happly⟩

/-- The patch that is made, by what came of the source. -/
theorem changesFor_eq_some (heq : changesFor reads tree id = .ok (some patch)) :
    ∃ metadata, tree.getMetadata id = some metadata ∧
      (resnapshot reads metadata = .ok .missing ∧
          patch = { PatchSet.new with removedInstances := [id] } ∨
        ∃ found, resnapshot reads metadata = .ok (.snapshot found) ∧
          computePatchSet found tree id = some patch) := by
  unfold changesFor at heq
  cases hm : tree.getMetadata id with
  | none =>
    rw [hm] at heq
    cases heq
  | some metadata =>
    rw [hm] at heq
    obtain ⟨fresh, hfresh, heq⟩ := Except.bind_eq_ok.mp heq
    refine ⟨metadata, rfl, ?_⟩
    cases fresh with
    | failed => cases heq
    | missing =>
      cases heq
      exact Or.inl ⟨hfresh, rfl⟩
    | snapshot found =>
      obtain ⟨patch', hpatch, heq⟩ := Except.bind_eq_ok.mp heq
      cases heq
      exact Or.inr ⟨found, hfresh, orPanic_eq_ok.mp hpatch⟩

/-- No patch is made where the source cannot be looked at. -/
theorem changesFor_eq_none (heq : changesFor reads tree id = .ok none) :
    ∃ metadata, tree.getMetadata id = some metadata ∧ resnapshot reads metadata = .ok .failed := by
  unfold changesFor at heq
  cases hm : tree.getMetadata id with
  | none =>
    rw [hm] at heq
    cases heq
  | some metadata =>
    rw [hm] at heq
    obtain ⟨fresh, hfresh, heq⟩ := Except.bind_eq_ok.mp heq
    cases fresh with
    | failed => exact ⟨metadata, rfl, hfresh⟩
    | missing => cases heq
    | snapshot found =>
      obtain ⟨patch', hpatch, heq⟩ := Except.bind_eq_ok.mp heq
      cases heq

theorem origin_of_changesFor (heq : changesFor reads tree id = .ok (some patch)) :
    Origin tree patch := by
  obtain ⟨metadata, -, ⟨-, rfl⟩ | ⟨found, -, hpatch⟩⟩ := changesFor_eq_some heq
  · exact .missing id
  · exact .computed hpatch

omit [FloatCmp] in
theorem loses_iff {metadata : InstanceMetadata} {fresh : Resnapshot}
    (hm : tree.getMetadata id = some metadata) (hfresh : resnapshot reads metadata = .ok fresh) :
    Loses reads tree id x ↔ Desc (kids tree.inner) id x ∧ fresh.Drops tree id x := by
  unfold Loses
  refine and_congr_right fun _ => ⟨?_, fun hcase => ⟨metadata, fresh, hm, hfresh, hcase⟩⟩
  rintro ⟨metadata', fresh', hm', hfresh', hcase⟩
  obtain rfl := Option.some.inj (hm.symm.trans hm')
  obtain rfl := Except.ok.inj (hfresh.symm.trans hfresh')
  exact hcase

variable [LawfulWeakDom D]

omit [FloatCmp] in
/-- What a fresh snapshot does not describe is below what its patch removes. -/
theorem below_removals_iff {S : InstanceSnapshot} : Below tree (plan tree S id).removals x ↔
    Desc (kids tree.inner) id x ∧ ∀ s, (s, x) ∉ (plan tree S id).pairs := by
  constructor
  · rintro ⟨y, hy, hyx⟩
    obtain ⟨s, r, hpair, hun⟩ := mem_removals_iff.mp hy
    have hdesc : Desc (kids tree.inner) id y :=
      (desc_of_mem_pairs _ _ hpair).tail (mem_kids_of_unpaired hun)
    exact ⟨hdesc.trans hyx, fun s hs => not_desc_removal hy _ _ hs hyx⟩
  · rintro ⟨hdesc, hnot⟩
    rcases paired_or_removed (S := S) hdesc with ⟨s, hs⟩ | ⟨y, hy, hyx⟩
    · exact absurd hs (hnot s)
    · exact ⟨y, hy, hyx⟩

/-- A patch removes what handling the id loses. -/
theorem below_iff_loses (h : Inv tree) (heq : changesFor reads tree id = .ok (some patch)) :
    Below tree patch.removedInstances x ↔ Loses reads tree id x := by
  obtain ⟨metadata, hm, ⟨hfresh, rfl⟩ | ⟨found, hfresh, hpatch⟩⟩ := changesFor_eq_some heq
  · rw [loses_iff hm hfresh]
    simp [Below, Resnapshot.Drops]
  · rw [loses_iff hm hfresh]
    cases found with
    | none =>
      unfold computePatchSet at hpatch
      dsimp only at hpatch
      split_ifs at hpatch with hroot
      · obtain rfl := Option.some.inj hpatch
        simp [Below, hroot, Resnapshot.Drops]
      · obtain rfl := Option.some.inj hpatch
        simp [Below, PatchSet.new, not_not.mp hroot, Resnapshot.Drops]
    | some S =>
      obtain ⟨i, hi⟩ := present_of_computePatchSet hpatch
      rw [(computePatchSet_computed h hi hpatch).removed, below_removals_iff]
      rfl

omit [FloatCmp] in
/-- `tree'` is `tree` without what is lost and with new instances. -/
structure Handled (tree : RojoTree D) (lost : Ref → Prop) (tree' : RojoTree D) : Prop where
  inv : Inv tree'
  root : tree'.getRootId = tree.getRootId
  issued : ∀ x, Issued tree.inner x → Issued tree'.inner x
  present : ∀ x, Issued tree.inner x → (Present tree' x ↔ Present tree x ∧ ¬ lost x)

omit [FloatCmp] in
theorem issued_of_present (hx : Present tree x) : Issued tree.inner x := by
  obtain ⟨i, hi⟩ := Option.isSome_iff_exists.mp hx
  exact LawfulWeakDom.issued_of_present _ hi

/-- What an iteration leaves in the tree. -/
theorem handled_computeAndApplyChanges (h : Inv tree)
    (heq : computeAndApplyChanges reads tree id = .ok (tree', applied)) :
    Handled tree (Loses reads tree id) tree' := by
  rcases computeAndApplyChanges_eq_ok heq with ⟨hnone, rfl⟩ | ⟨patch, record, hsome, happly⟩
  · obtain ⟨metadata, hm, hfresh⟩ := changesFor_eq_none hnone
    refine ⟨h, rfl, fun x hx => hx, fun x _ => ?_⟩
    rw [loses_iff hm hfresh]
    simp [Resnapshot.Drops]
  · have hleaves := (origin_of_changesFor hsome).leaves h happly
    refine ⟨hleaves.inv, hleaves.root, hleaves.issued, fun x hx => ?_⟩
    have hold : x ∉ record.added := fun hadded => hleaves.fresh x hadded hx
    rw [hleaves.present, below_iff_loses h hsome]
    simp [hold]

end Iteration

/-! ## The loop -/

section Loop

variable {reads : ℕ → Reads} {tree tree' : RojoTree D} {ids : List Ref} {id x : Ref}
  {path : PathBuf} {patches : List AppliedPatchSet}

theorem applyAffected_cons_eq_ok :
    applyAffected reads tree (id :: ids) = .ok (tree', patches) ↔
      ∃ tree₁ applied patches₁, computeAndApplyChanges (reads 0) tree id = .ok (tree₁, applied) ∧
        applyAffected (fun n => reads (n + 1)) tree₁ ids = .ok (tree', patches₁) ∧
        patches = applied.toList.filter (fun patch => !patch.isEmpty) ++ patches₁ := by
  rw [applyAffected, Except.bind_eq_ok]
  constructor
  · rintro ⟨⟨tree₁, applied⟩, h₁, h⟩
    obtain ⟨⟨tree₂, patches₁⟩, h₂, h⟩ := Except.bind_eq_ok.mp h
    cases h
    exact ⟨tree₁, applied, patches₁, h₁, h₂, rfl⟩
  · rintro ⟨tree₁, applied, patches₁, h₁, h₂, rfl⟩
    exact ⟨(tree₁, applied), h₁, Except.bind_eq_ok.mpr ⟨(tree', patches₁), h₂, rfl⟩⟩

theorem changesFor_of_absent {reads : Reads} (h : Inv tree) (hid : ¬ Present tree id) :
    changesFor reads tree id = .error .metadataMissing := by
  have hm : tree.getMetadata id = none := h.metadata_of_absent (by simpa [Present] using hid)
  unfold changesFor
  rw [hm]

theorem computeAndApplyChanges_of_absent {reads : Reads} (h : Inv tree)
    (hid : ¬ Present tree id) :
    computeAndApplyChanges reads tree id = .error .metadataMissing := by
  unfold computeAndApplyChanges
  rw [changesFor_of_absent h hid]
  rfl

omit [FloatCmp] [WeakDom D] in
theorem ofResult_ne_metadataMissing {result : Fallible (Option InstanceSnapshot)} :
    Resnapshot.ofResult result ≠ .error .metadataMissing := by
  unfold Resnapshot.ofResult
  split <;> simp

omit [FloatCmp] [WeakDom D] in
theorem resnapshot_ne_metadataMissing {reads : Reads} {metadata : InstanceMetadata} :
    resnapshot reads metadata ≠ .error .metadataMissing := by
  unfold resnapshot
  split
  · simp
  · split
    · exact ofResult_ne_metadataMissing
    · simp
    · simp
  · exact ofResult_ne_metadataMissing

omit [FloatCmp] [WeakDom D] in
theorem orPanic_ne_metadataMissing {α : Type} {v : MayPanic α} :
    orPanic v ≠ .error .metadataMissing := by
  cases v <;> simp [orPanic]

theorem changesFor_ne_metadataMissing {reads : Reads} (h : Inv tree) (hid : Present tree id) :
    changesFor reads tree id ≠ .error .metadataMissing := by
  obtain ⟨i, hi⟩ := Option.isSome_iff_exists.mp hid
  obtain ⟨metadata, hm⟩ := h.metadata_of_present hi
  have hm' : tree.getMetadata id = some metadata := hm
  unfold changesFor
  rw [hm']
  intro heq
  rcases Except.bind_eq_error.mp heq with heq | ⟨fresh, -, heq⟩
  · exact resnapshot_ne_metadataMissing heq
  · cases fresh with
    | failed => cases heq
    | missing => cases heq
    | snapshot found =>
      rcases Except.bind_eq_error.mp heq with heq | ⟨patch, -, heq⟩
      · exact orPanic_ne_metadataMissing heq
      · cases heq

/-- An iteration panics over missing metadata exactly if its id is not in the tree. -/
theorem computeAndApplyChanges_eq_metadataMissing_iff {reads : Reads} (h : Inv tree) :
    computeAndApplyChanges reads tree id = .error .metadataMissing ↔ ¬ Present tree id := by
  refine ⟨fun heq hid => ?_, computeAndApplyChanges_of_absent h⟩
  unfold computeAndApplyChanges at heq
  rcases Except.bind_eq_error.mp heq with heq | ⟨changes, -, heq⟩
  · exact changesFor_ne_metadataMissing h hid heq
  · cases changes with
    | none => cases heq
    | some patch =>
      rcases Except.bind_eq_error.mp heq with heq | ⟨result, -, heq⟩
      · exact orPanic_ne_metadataMissing heq
      · cases heq

variable [LawfulWeakDom D]

/-- What the iterations over some ids leave in the tree. -/
theorem handled_applyAffected (h : Inv tree)
    (heq : applyAffected reads tree ids = .ok (tree', patches)) :
    Handled tree (fun x => LosesAlong reads tree x ids) tree' := by
  induction ids generalizing reads tree patches with
  | nil =>
    cases heq
    exact ⟨h, rfl, fun x hx => hx, fun x _ => by simp [LosesAlong]⟩
  | cons id ids ih =>
    obtain ⟨tree₁, applied, patches₁, h₁, h₂, -⟩ := applyAffected_cons_eq_ok.mp heq
    have hfirst := handled_computeAndApplyChanges h h₁
    have hrest := ih hfirst.inv h₂
    refine ⟨hrest.inv, hrest.root.trans hfirst.root,
      fun x hx => hrest.issued x (hfirst.issued x hx), fun x hx => ?_⟩
    rw [hrest.present x (hfirst.issued x hx), hfirst.present x hx, LosesAlong, not_or, and_assoc]
    simp [h₁]

omit [LawfulWeakDom D] in
theorem applyAffected_cons_eq_metadataMissing_iff (h : Inv tree) :
    applyAffected reads tree (id :: ids) = .error .metadataMissing ↔ ¬ Present tree id ∨
      ∃ tree₁ applied, computeAndApplyChanges (reads 0) tree id = .ok (tree₁, applied) ∧
        applyAffected (fun n => reads (n + 1)) tree₁ ids = .error .metadataMissing := by
  rw [applyAffected, Except.bind_eq_error, computeAndApplyChanges_eq_metadataMissing_iff h]
  refine or_congr_right ⟨?_, ?_⟩
  · rintro ⟨⟨tree₁, applied⟩, h₁, h₂⟩
    rcases Except.bind_eq_error.mp h₂ with h₂ | ⟨result, -, h₂⟩
    · exact ⟨tree₁, applied, h₁, h₂⟩
    · cases h₂
  · rintro ⟨tree₁, applied, h₁, h₂⟩
    exact ⟨(tree₁, applied), h₁, Except.bind_eq_error.mpr (Or.inl h₂)⟩

/-- The loop panics over missing metadata exactly if it reaches an id that is gone. -/
theorem applyAffected_eq_metadataMissing_iff (h : Inv tree) :
    applyAffected reads tree ids = .error .metadataMissing ↔
      ∃ mid x post tree' patches, ids = mid ++ x :: post ∧
        applyAffected reads tree mid = .ok (tree', patches) ∧ ¬ Present tree' x := by
  induction ids generalizing reads tree with
  | nil =>
    refine ⟨(fun heq => nomatch heq), ?_⟩
    rintro ⟨mid, x, post, _, _, heq, -⟩
    cases mid <;> cases heq
  | cons id ids ih =>
    rw [applyAffected_cons_eq_metadataMissing_iff h]
    constructor
    · rintro (hid | ⟨tree₁, applied, h₁, h₂⟩)
      · exact ⟨[], id, ids, tree, [], rfl, rfl, hid⟩
      · obtain ⟨mid, x, post, tree', patches, rfl, hmid, hx⟩ :=
          (ih (handled_computeAndApplyChanges h h₁).inv).mp h₂
        exact ⟨id :: mid, x, post, tree', _, rfl,
          applyAffected_cons_eq_ok.mpr ⟨tree₁, applied, patches, h₁, hmid, rfl⟩, hx⟩
    · rintro ⟨mid, x, post, tree', patches, heq, hmid, hx⟩
      cases mid with
      | nil =>
        obtain ⟨rfl, -⟩ := List.cons.inj heq
        cases hmid
        exact Or.inl hx
      | cons y mid =>
        obtain ⟨rfl, hids⟩ := List.cons.inj heq
        obtain ⟨tree₁, applied, patches₁, h₁, h₂, -⟩ := applyAffected_cons_eq_ok.mp hmid
        exact Or.inr ⟨tree₁, applied, h₁, (ih (handled_computeAndApplyChanges h h₁).inv).mpr
          ⟨mid, x, post, tree', patches₁, hids, h₂, hx⟩⟩

omit [FloatCmp] [LawfulWeakDom D] in
theorem present_of_mem_affectedIds (h : Inv tree) (hx : x ∈ affectedIds tree path) :
    Present tree x := by
  unfold affectedIds at hx
  cases hfind : (path.ancestors.map tree.getIdsAtPath).find? fun ids => ids ≠ [] with
  | none =>
    rw [hfind] at hx
    cases hx
  | some ids =>
    rw [hfind] at hx
    obtain ⟨p, -, rfl⟩ := List.mem_map.mp (List.mem_of_find?_eq_some hfind)
    obtain ⟨metadata, hm, -⟩ := (h.paths p x).mp hx
    exact (h.keys x).mp (AList.lookup_isSome.mp (Option.isSome_of_eq_some hm))

/-- **An event panics over missing metadata exactly if the loop reaches an id that one of its
earlier iterations took out of the tree.** -/
theorem applyPatches_ne_metadataMissing_iff (h : Inv tree) :
    applyPatches reads tree path ≠ .error .metadataMissing ↔
      ∀ mid x post, affectedIds tree path = mid ++ x :: post →
        (∃ result, applyAffected reads tree mid = .ok result) → ¬ LosesAlong reads tree x mid := by
  unfold applyPatches
  rw [ne_eq, applyAffected_eq_metadataMissing_iff h]
  constructor
  · rintro hnot mid x post hids ⟨⟨tree', patches⟩, hmid⟩ hloses
    refine hnot ⟨mid, x, post, tree', patches, hids, hmid, fun hx' => ?_⟩
    have hx : Present tree x :=
      present_of_mem_affectedIds h (hids ▸ List.mem_append_right _ List.mem_cons_self)
    exact ((handled_applyAffected h hmid).present x (issued_of_present hx)).mp hx' |>.2 hloses
  · rintro hall ⟨mid, x, post, tree', patches, hids, hmid, hx'⟩
    have hx : Present tree x :=
      present_of_mem_affectedIds h (hids ▸ List.mem_append_right _ List.mem_cons_self)
    exact hx' (((handled_applyAffected h hmid).present x (issued_of_present hx)).mpr
      ⟨hx, hall mid x post hids ⟨_, hmid⟩⟩)

end Loop

/-! ## Two nodes for one directory -/

/-- The tree of a new session, from the snapshot of its start path. -/
def startTree (snapshot : Option InstanceSnapshot) : MayPanic (RojoTree D) := do
  let tree ← RojoTree.new InstanceSnapshot.new
  let patchSet ← computePatchSet snapshot tree tree.getRootId
  let (tree, _) ← applyPatchSet tree patchSet
  some tree

theorem inv_startTree [LawfulWeakDom D] {snapshot : Option InstanceSnapshot} {tree : RojoTree D}
    (heq : startTree snapshot = some tree) : Inv tree := by
  unfold startTree at heq
  obtain ⟨tree₀, h₀, heq⟩ := Option.bind_eq_some_iff.mp heq
  obtain ⟨patch, hpatch, heq⟩ := Option.bind_eq_some_iff.mp heq
  obtain ⟨⟨tree₁, record⟩, happly, heq⟩ := Option.bind_eq_some_iff.mp heq
  obtain rfl := Option.some.inj heq
  exact ((Origin.computed hpatch).leaves (Inv.new h₀) happly).inv

/-- What killed the processor. -/
def panicOf {α : Type} : Except Panic α → Option Panic
  | .ok _ => none
  | .error panic => some panic

omit [WeakDom D] [FloatCmp] in
theorem eq_error_of_panicOf {α : Type} {x : Except Panic α} {panic : Panic}
    (h : panicOf x = some panic) : x = .error panic := by
  cases x with
  | ok v => cases h
  | error e => rw [Option.some.inj h]

omit [WeakDom D] [FloatCmp] in
theorem ne_error_of_panicOf {α : Type} {x : Except Panic α} (panic : Panic)
    (h : panicOf x = none) : x ≠ .error panic := by
  rintro rfl
  cases h

def sharedText : String :=
  "\x7b\"tree\":\x7b\"$className\":\"Folder\",\"A\":\x7b\"$path\":\x7b\"optional\":\"src\"\x7d," ++
    "\"B\":\x7b\"$path\":\x7b\"optional\":\"src\"\x7d\x7d\x7d\x7d\x7d"

def srcNode : ProjectNode := pathNode (.optional ⟨false, ["src"]⟩)

/-- A project in which an instance and its child are made from one directory. -/
def sharedProject : Project := .ofTree
  { className := some "Folder"
    id := none
    children := [("A", { srcNode with children := [("B", srcNode)] })]
    properties := []
    attributes := []
    ignoreUnknownInstances := none
    path := none }

def sharedFile : List String × Option (List UInt8) :=
  (["proj", "default.project.json"], some sharedText.toUTF8.data.toList)

def sharedDisk : Disk where
  entries := [(["proj"], none), sharedFile, (["proj", "src"], none)]
  named := by decide

/-- The directory has been removed. -/
def unsharedDisk : Disk where
  entries := [(["proj"], none), sharedFile]
  named := by decide

/-- What a snapshot function found, if it did not fail. -/
def foundBy (result : Fallible (Option InstanceSnapshot)) : Option InstanceSnapshot :=
  result.toOption.join

/-- The tree of a session on a disk. -/
def sessionTree [Environment] (disk : Disk) (start : PathBuf) : MayPanic (RojoTree MapDom) :=
  startTree (foundBy (snapshotFromVfs disk.vfs 3 {} start))

/-- The directory of the session, which an event is about. -/
def srcPath : PathBuf := ⟨true, ["proj", "src"]⟩

omit [FloatCmp] in
/-- While the directory is there no iteration loses an id. -/
theorem applyPatches_shared : letI := Environment.ofProjects [(sharedText, sharedProject)]
    letI := FloatCmp.exact
    ∃ tree, sessionTree sharedDisk ⟨true, ["proj"]⟩ = some tree ∧
      (affectedIds tree srcPath).length = 2 ∧
      ∀ mid x post, affectedIds tree srcPath = mid ++ x :: post →
        (∃ result, applyAffected (fun _ => sharedDisk.vfs.reads 3) tree mid = .ok result) →
        ¬ LosesAlong (fun _ => sharedDisk.vfs.reads 3) tree x mid := by
  let _ := Environment.ofProjects [(sharedText, sharedProject)]
  let _ := FloatCmp.exact
  have hsome : (sessionTree sharedDisk ⟨true, ["proj"]⟩).isSome := by decide +kernel
  have hids : ((sessionTree sharedDisk ⟨true, ["proj"]⟩).map fun tree =>
      (affectedIds tree srcPath).length) = some 2 := by decide +kernel
  have halive : ((sessionTree sharedDisk ⟨true, ["proj"]⟩).map fun tree =>
      panicOf (applyPatches (fun _ => sharedDisk.vfs.reads 3) tree srcPath)) = some none := by
    decide +kernel
  obtain ⟨tree, htree⟩ := Option.isSome_iff_exists.mp hsome
  rw [htree] at hids halive
  have hne := ne_error_of_panicOf .metadataMissing (Option.some.inj halive)
  exact ⟨tree, htree, Option.some.inj hids,
    (applyPatches_ne_metadataMissing_iff (inv_startTree htree)).mp hne⟩

omit [FloatCmp] in
/-- The directory is removed: the instance is dropped together with its child, which the loop looks
up next. -/
theorem not_applyPatches_unshared : letI := Environment.ofProjects [(sharedText, sharedProject)]
    letI := FloatCmp.exact
    ¬ ∀ (tree : RojoTree MapDom) (reads : ℕ → Reads) (path : PathBuf), Inv tree →
      applyPatches reads tree path ≠ .error .metadataMissing := by
  let _ := Environment.ofProjects [(sharedText, sharedProject)]
  let _ := FloatCmp.exact
  intro hall
  have hsome : (sessionTree sharedDisk ⟨true, ["proj"]⟩).isSome := by decide +kernel
  have hdies : ((sessionTree sharedDisk ⟨true, ["proj"]⟩).map fun tree =>
      panicOf (applyPatches (fun _ => unsharedDisk.vfs.reads 3) tree srcPath)) =
        some (some .metadataMissing) := by decide +kernel
  obtain ⟨tree, htree⟩ := Option.isSome_iff_exists.mp hsome
  rw [htree] at hdies
  exact hall tree _ _ (inv_startTree htree) (eq_error_of_panicOf (Option.some.inj hdies))

end Roxo
