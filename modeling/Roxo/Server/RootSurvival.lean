import Roxo.Server.ChangeProcessor

/-!
# The root of a session

A session starts with the snapshot of its start path, and its processor handles events until one
kills it. A patch removes the root exactly if the path that the root came from is gone when the
root is handled (`removesRoot_iff`); so the root survives a run exactly if no event finds it gone
(`ChangeProcessor.rootSurvives_iff`).
-/

namespace Roxo

open AssocMap WeakDom RojoTree Transition

variable {D : Type} [WeakDom D] [FloatCmp]

/-! ## The patches of a loop -/

/-- A condition on every iteration that the loop reaches. -/
def Throughout (ok : Reads → RojoTree D → Ref → Prop) (reads : ℕ → Reads) (tree : RojoTree D) :
    List Ref → Prop
  | [] => True
  | id :: ids => ok (reads 0) tree id ∧
    ∀ tree' applied, computeAndApplyChanges (reads 0) tree id = .ok (tree', applied) →
      Throughout ok (fun n => reads (n + 1)) tree' ids

/-- The patches that the loop makes, the one that kills it included. -/
def patchesMade (reads : ℕ → Reads) (tree : RojoTree D) : List Ref → List PatchSet
  | [] => []
  | id :: ids => (changesFor (reads 0) tree id).toOption.join.toList ++
    match computeAndApplyChanges (reads 0) tree id with
    | .ok (tree', _) => patchesMade (fun n => reads (n + 1)) tree' ids
    | .error _ => []

/-- The tree that the iterations leave of which none panics. -/
def treeReached (reads : ℕ → Reads) (tree : RojoTree D) : List Ref → RojoTree D
  | [] => tree
  | id :: ids =>
    match computeAndApplyChanges (reads 0) tree id with
    | .ok (tree', _) => treeReached (fun n => reads (n + 1)) tree' ids
    | .error _ => tree

/-- The loop leaves the tree that its iterations reach, at the end and where one of them panics. -/
theorem applyAffected_treeReached (reads : ℕ → Reads) (tree : RojoTree D) (ids : List Ref) :
    ∃ before after patches, ids = before ++ after ∧
      applyAffected reads tree before = .ok (treeReached reads tree ids, patches) := by
  induction ids generalizing reads tree with
  | nil => exact ⟨[], [], [], rfl, rfl⟩
  | cons id ids ih =>
    unfold treeReached
    cases hc : computeAndApplyChanges (reads 0) tree id with
    | error panic => exact ⟨[], id :: ids, [], rfl, rfl⟩
    | ok result =>
      obtain ⟨tree₁, applied⟩ := result
      obtain ⟨before, after, patches, hids, heq⟩ := ih (fun n => reads (n + 1)) tree₁
      exact ⟨id :: before, after, _, congrArg (id :: ·) hids,
        applyAffected_cons_eq_ok.mpr ⟨tree₁, applied, patches, hc, heq, rfl⟩⟩

omit [FloatCmp] in
/-- The root is handled when the path that it was made from is gone. -/
def RootGone (reads : Reads) (tree : RojoTree D) (id : Ref) : Prop :=
  id = tree.getRootId ∧ ∃ metadata path err, tree.getMetadata id = some metadata ∧
    metadata.instigatingSource = some (.path path) ∧ reads.metadata path = .error err ∧
    err.kind = .notFound

section Root

variable {tree tree' : RojoTree D} {ids : List Ref} {id : Ref}

omit [FloatCmp] [WeakDom D] in
theorem resnapshot_eq_missing_iff {reads : Reads} {metadata : InstanceMetadata} :
    resnapshot reads metadata = .ok .missing ↔ ∃ path err,
      metadata.instigatingSource = some (.path path) ∧ reads.metadata path = .error err ∧
        err.kind = .notFound := by
  have hresult : ∀ result : Fallible (Option InstanceSnapshot),
      Resnapshot.ofResult result ≠ .ok .missing := by
    intro result
    unfold Resnapshot.ofResult
    split <;> simp
  unfold resnapshot
  cases hsource : metadata.instigatingSource with
  | none => simp
  | some source =>
    cases source with
    | projectNode path name node parentClass => simp [hresult]
    | path path =>
      cases hread : reads.metadata path with
      | ok found => simp [withNotFound, hresult, hread]
      | error err =>
        by_cases hkind : err.kind = .notFound
        · simp [withNotFound, hkind, hread]
        · simp [withNotFound, hkind, hread]

variable [LawfulWeakDom D]

/-- **A patch removes the root exactly if the path that the root came from is gone.** -/
theorem removesRoot_iff {reads : Reads} {patch : PatchSet} (h : Inv tree)
    (heq : changesFor reads tree id = .ok (some patch)) :
    tree.getRootId ∈ patch.removedInstances ↔ RootGone reads tree id := by
  obtain ⟨metadata, hm, ⟨hfresh, rfl⟩ | ⟨found, hfresh, hpatch⟩⟩ := changesFor_eq_some heq
  · obtain ⟨path, err, hsource, hread, hkind⟩ := resnapshot_eq_missing_iff.mp hfresh
    rw [List.mem_singleton, eq_comm]
    exact ⟨fun hid => ⟨hid, metadata, path, err, hm, hsource, hread, hkind⟩, fun hgone => hgone.1⟩
  · have hnot : ¬ RootGone reads tree id := by
      rintro ⟨-, metadata', path, err, hm', hsource, hread, hkind⟩
      obtain rfl := Option.some.inj (hm.symm.trans hm')
      have hmissing := resnapshot_eq_missing_iff.mpr ⟨path, err, hsource, hread, hkind⟩
      rw [hfresh] at hmissing
      cases hmissing
    refine iff_of_false (fun hmem => ?_) hnot
    cases found with
    | none =>
      unfold computePatchSet at hpatch
      dsimp only at hpatch
      split_ifs at hpatch with hroot
      · obtain rfl := Option.some.inj hpatch
        exact hroot (List.mem_singleton.mp hmem).symm
      · obtain rfl := Option.some.inj hpatch
        exact absurd hmem List.not_mem_nil
    | some S =>
      obtain ⟨i, hi⟩ := present_of_computePatchSet hpatch
      exact ((computePatchSet_computed h hi hpatch).patchOk h hi).removable.not_root _ hmem rfl

omit [LawfulWeakDom D] in
/-- Where the path of the root is gone a patch is made. -/
theorem changesFor_of_rootGone {reads : Reads} (h : RootGone reads tree id) :
    changesFor reads tree id = .ok (some { PatchSet.new with removedInstances := [id] }) := by
  obtain ⟨-, metadata, path, err, hm, hsource, hread, hkind⟩ := h
  have hmissing := resnapshot_eq_missing_iff.mpr ⟨path, err, hsource, hread, hkind⟩
  unfold changesFor
  rw [hm]
  dsimp only
  rw [hmissing]
  rfl

/-- None of the patches of a loop removes the root exactly if no iteration finds its path gone. -/
theorem patchesMade_spare_iff {reads : ℕ → Reads} (h : Inv tree) :
    (∀ patch ∈ patchesMade reads tree ids, tree.getRootId ∉ patch.removedInstances) ↔
      Throughout (fun reads tree id => ¬ RootGone reads tree id) reads tree ids := by
  induction ids generalizing reads tree with
  | nil => exact ⟨fun _ => trivial, fun _ _ hp => absurd hp List.not_mem_nil⟩
  | cons id ids ih =>
    have hself : (∀ patch ∈ (changesFor (reads 0) tree id).toOption.join.toList,
        tree.getRootId ∉ patch.removedInstances) ↔ ¬ RootGone (reads 0) tree id := by
      cases hchanges : changesFor (reads 0) tree id with
      | error e =>
        refine ⟨fun _ hgone => ?_, fun _ _ hp => absurd hp List.not_mem_nil⟩
        rw [changesFor_of_rootGone hgone] at hchanges
        cases hchanges
      | ok changes =>
        cases changes with
        | none =>
          refine ⟨fun _ hgone => ?_, fun _ _ hp => absurd hp List.not_mem_nil⟩
          rw [changesFor_of_rootGone hgone] at hchanges
          cases hchanges
        | some patch =>
          rw [← not_iff_not.mpr (removesRoot_iff h hchanges)]
          exact ⟨fun hall => hall patch List.mem_cons_self, fun hnot p hp => by
            rwa [List.mem_singleton.mp hp]⟩
    rw [patchesMade, Throughout, ← hself]
    simp only [List.mem_append, or_imp, forall_and]
    refine and_congr_right fun _ => ?_
    cases hc : computeAndApplyChanges (reads 0) tree id with
    | error e => exact ⟨(fun _ _ _ heq => nomatch heq), fun _ _ hp => absurd hp List.not_mem_nil⟩
    | ok result =>
      obtain ⟨tree₁, applied⟩ := result
      have hhandled := handled_computeAndApplyChanges h hc
      dsimp only
      rw [← hhandled.root, ih hhandled.inv]
      refine ⟨fun hall tree' applied' heq => ?_, fun hall => hall tree₁ applied rfl⟩
      obtain ⟨rfl, -⟩ := Prod.mk.inj (Except.ok.inj heq)
      exact hall

end Root

/-! ## Runs of the processor -/

/-- An event, with what the filesystem answers while it is handled. -/
structure FileEvent where
  vfs : Vfs
  reads : ℕ → Reads
  event : VfsEvent

namespace FileEvent

/-- The patches that are made for the event. -/
def made (e : FileEvent) (tree : RojoTree D) : List PatchSet :=
  match canonicalizeEventPath e.vfs e.event.path with
  | .ok path => patchesMade e.reads tree (affectedIds tree path)
  | .error _ => []

/-- The tree that the event leaves, up to the iteration that panics. -/
def reached (e : FileEvent) (tree : RojoTree D) : RojoTree D :=
  match canonicalizeEventPath e.vfs e.event.path with
  | .ok path => treeReached e.reads tree (affectedIds tree path)
  | .error _ => tree

/-- No instance handled for the event is the root with its path gone. -/
def SparesRoot (tree : RojoTree D) (e : FileEvent) : Prop :=
  ∀ path, canonicalizeEventPath e.vfs e.event.path = .ok path →
    Throughout (fun reads tree id => ¬ RootGone reads tree id) e.reads tree (affectedIds tree path)

end FileEvent

/-- The processor: its tree, whether its thread still runs, and the patches that it has made. The
tree of a dead processor is the one that it died over, with the patches of the iterations before
the one that panicked. -/
structure ChangeProcessor (D : Type) where
  tree : RojoTree D
  alive : Bool
  made : List PatchSet

namespace ChangeProcessor

def start (tree : RojoTree D) : ChangeProcessor D := ⟨tree, true, []⟩

/-- An event is handled, or kills the processor. -/
inductive Act (s : ChangeProcessor D) (e : FileEvent) : ChangeProcessor D → Prop
  | handled {tree : RojoTree D} {patches : List AppliedPatchSet} : s.alive = true →
      handleVfsEvent e.vfs e.reads s.tree e.event = .ok (tree, patches) →
      Act s e ⟨tree, true, s.made ++ e.made s.tree⟩
  | died {panic : Panic} : s.alive = true →
      handleVfsEvent e.vfs e.reads s.tree e.event = .error panic →
      Act s e ⟨e.reached s.tree, false, s.made ++ e.made s.tree⟩

/-- No patch that was made removes the root. -/
def RootSurvives (s : ChangeProcessor D) : Prop :=
  ∀ patch ∈ s.made, s.tree.getRootId ∉ patch.removedInstances

variable [LawfulWeakDom D] {s t : ChangeProcessor D} {e : FileEvent} {tree : RojoTree D}

theorem Act.inv (hst : Act s e t) (h : Inv s.tree) :
    Inv t.tree ∧ t.tree.getRootId = s.tree.getRootId := by
  cases hst with
  | died halive heq =>
    dsimp only
    unfold FileEvent.reached
    cases hpath : canonicalizeEventPath e.vfs e.event.path with
    | error err => exact ⟨h, rfl⟩
    | ok path =>
      obtain ⟨before, after, patches, -, hbefore⟩ :=
        applyAffected_treeReached e.reads s.tree (affectedIds s.tree path)
      have hhandled := handled_applyAffected h hbefore
      exact ⟨hhandled.inv, hhandled.root⟩
  | handled halive heq =>
    unfold handleVfsEvent at heq
    cases hpath : canonicalizeEventPath e.vfs e.event.path with
    | error err =>
      rw [hpath] at heq
      cases heq
      exact ⟨h, rfl⟩
    | ok path =>
      rw [hpath] at heq
      have hhandled := handled_applyAffected h heq
      exact ⟨hhandled.inv, hhandled.root⟩

omit [LawfulWeakDom D] in
theorem made_of_act (hst : Act s e t) : t.made = s.made ++ e.made s.tree := by
  cases hst <;> rfl

/-- An event leaves the root alone exactly if the path of the root is not found gone. -/
theorem Act.rootSurvives_step (hst : Act s e t) (h : Inv s.tree) (hs : s.RootSurvives) :
    t.RootSurvives ↔ e.SparesRoot s.tree := by
  have hmade : t.RootSurvives ↔
      ∀ patch ∈ e.made s.tree, s.tree.getRootId ∉ patch.removedInstances := by
    unfold RootSurvives
    rw [made_of_act hst, (hst.inv h).2]
    simp only [List.mem_append, or_imp, forall_and]
    exact and_iff_right hs
  rw [hmade]
  unfold FileEvent.made FileEvent.SparesRoot
  cases hpath : canonicalizeEventPath e.vfs e.event.path with
  | error err => exact ⟨(fun _ _ heq => nomatch heq), fun _ _ hp => absurd hp List.not_mem_nil⟩
  | ok path =>
    simp only [Except.ok.injEq, forall_eq']
    exact patchesMade_spare_iff h

/-- **The root survives a run of events exactly if none of them finds the path of the root gone
when the root is handled.** -/
theorem rootSurvives_iff {snapshot : Option InstanceSnapshot}
    (hstart : startTree snapshot = some tree) {run : List (FileEvent × ChangeProcessor D)}
    (hrun : Run Act (start tree) run) :
    (∀ x ∈ run, x.2.RootSurvives) ↔
      Run (When Act fun s e => e.SparesRoot s.tree) (start tree) run :=
  Run.forall_iff (I := fun s => Inv s.tree) (fun _ _ _ h hst => (hst.inv h).1)
    (fun _ _ _ h hs hst => hst.rootSurvives_step h hs) hrun (inv_startTree hstart)
    (fun _ hp => absurd hp List.not_mem_nil)

/-! ### A project file -/

/-- The project file of the session is removed. -/
def emptyDisk : Disk where
  entries := [(["proj"], none)]
  named := by decide

def projectPath : PathBuf := ⟨true, ["proj", "default.project.json"]⟩

/-- The project file is written again. -/
def writeProject [Environment] : FileEvent :=
  ⟨sharedDisk.vfs, fun _ => sharedDisk.vfs.reads 3, .write projectPath⟩

def removeProject [Environment] : FileEvent :=
  ⟨emptyDisk.vfs, fun _ => emptyDisk.vfs.reads 3, .remove projectPath⟩

/-- The events that the processor survives, and the patches that it makes for them. -/
def removedBy (tree : RojoTree D) (e : FileEvent) : Option Panic × List (List Ref) :=
  (panicOf (handleVfsEvent e.vfs e.reads tree e.event),
    (e.made tree).map PatchSet.removedInstances)

omit [FloatCmp] in
/-- A session in which the project file is written again. -/
theorem rootSurvives_write : letI := Environment.ofProjects [(sharedText, sharedProject)]
    letI := FloatCmp.exact
    ∃ (tree : RojoTree MapDom) (run : List (FileEvent × ChangeProcessor MapDom)),
      startTree (foundBy (snapshotFromVfs sharedDisk.vfs 3 {} ⟨true, ["proj"]⟩)) = some tree ∧
      run.length = 1 ∧ Run Act (start tree) run ∧
      Run (When Act fun s e => e.SparesRoot s.tree) (start tree) run := by
  let _ := Environment.ofProjects [(sharedText, sharedProject)]
  let _ := FloatCmp.exact
  have hsome : (sessionTree sharedDisk ⟨true, ["proj"]⟩).isSome := by decide +kernel
  have hremoved : ((sessionTree sharedDisk ⟨true, ["proj"]⟩).map fun tree =>
      removedBy tree writeProject) = some (none, [[]]) := by decide +kernel
  obtain ⟨tree, htree⟩ := Option.isSome_iff_exists.mp hsome
  rw [htree] at hremoved
  obtain ⟨halive, hpatches⟩ := Prod.mk.inj (Option.some.inj hremoved)
  cases hhandle : handleVfsEvent writeProject.vfs writeProject.reads tree writeProject.event with
  | error panic =>
    rw [hhandle] at halive
    cases halive
  | ok result =>
    obtain ⟨tree', patches⟩ := result
    have hrun : Run Act (start tree) [(writeProject, ⟨tree', true, writeProject.made tree⟩)] :=
      .cons (.handled rfl hhandle) (.nil _)
    refine ⟨tree, _, htree, rfl, hrun, (rootSurvives_iff htree hrun).mp fun x hx patch hp => ?_⟩
    rw [List.mem_singleton.mp hx] at hp ⊢
    have hmem := List.mem_map_of_mem (f := PatchSet.removedInstances) hp
    dsimp only at hmem
    rw [hpatches] at hmem
    rw [List.mem_singleton.mp hmem]
    exact List.not_mem_nil

omit [FloatCmp] in
/-- The project file is removed: the patch for the root removes it. -/
theorem not_rootSurvives_remove : letI := Environment.ofProjects [(sharedText, sharedProject)]
    letI := FloatCmp.exact
    ¬ ∀ (vfs : Vfs) (n : ℕ) (start : PathBuf) (found : Option InstanceSnapshot)
      (tree : RojoTree MapDom) (run : List (FileEvent × ChangeProcessor MapDom)),
      snapshotFromVfs vfs n {} start = .ok found → startTree found = some tree →
      Run Act (ChangeProcessor.start tree) run → ∀ x ∈ run, x.2.RootSurvives := by
  let _ := Environment.ofProjects [(sharedText, sharedProject)]
  let _ := FloatCmp.exact
  intro hall
  have hsome : (sessionTree sharedDisk ⟨true, ["proj"]⟩).isSome := by decide +kernel
  have hok : (snapshotFromVfs sharedDisk.vfs 3 {} ⟨true, ["proj"]⟩).toBool := by decide +kernel
  have hremoved : ((sessionTree sharedDisk ⟨true, ["proj"]⟩).map fun tree =>
      (removedBy tree removeProject, tree.getRootId)) =
        some ((some .other, [[Ref.some 0]]), Ref.some 0) := by decide +kernel
  obtain ⟨tree, htree⟩ := Option.isSome_iff_exists.mp hsome
  rw [htree] at hremoved
  obtain ⟨hboth, hroot⟩ := Prod.mk.inj (Option.some.inj hremoved)
  obtain ⟨hdead, hpatches⟩ := Prod.mk.inj hboth
  cases hfound : snapshotFromVfs sharedDisk.vfs 3 {} ⟨true, ["proj"]⟩ with
  | error e =>
    rw [hfound] at hok
    cases hok
  | ok found =>
    have hstart : startTree found = some tree := by
      unfold sessionTree foundBy at htree
      rw [hfound] at htree
      exact htree
    have hact : Act (ChangeProcessor.start tree) removeProject
        ⟨removeProject.reached tree, false, removeProject.made tree⟩ :=
      .died rfl (eq_error_of_panicOf hdead)
    have hsurvives := hall _ _ _ found tree _ hfound hstart (.cons hact (.nil _)) _
      List.mem_cons_self
    have hmem : [Ref.some 0] ∈ (removeProject.made tree).map PatchSet.removedInstances := by
      rw [hpatches]
      exact List.mem_cons_self
    obtain ⟨patch, hpatch, heq⟩ := List.mem_map.mp hmem
    refine hsurvives patch hpatch ?_
    rw [heq, (hact.inv (inv_startTree htree)).2]
    change tree.getRootId ∈ _
    rw [hroot]
    exact List.mem_cons_self

end ChangeProcessor

end Roxo
