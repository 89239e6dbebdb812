import Roxo.Server.RootSurvival
import Roxo.Server.SentReplica

/-!
# What an event leaves alone

An event changes the tree at and below the instances that the path of the event affects, and
nowhere else. `Untouched` says so of two trees and a list of ids; it holds of one iteration of the
loop over the affected ids (`untouched_computeAndApplyChanges`), it composes (`Untouched.trans`),
and so it holds of whole runs with all the ids that they affect (`untouched_of_run`).
-/

namespace Roxo

open AssocMap WeakDom RojoTree Forest Transition

section

variable {D : Type} [WeakDom D]

/-- The instance is not at or below one of the ids. -/
def Outside (tree : RojoTree D) (ids : List Ref) (x : Ref) : Prop :=
  ∀ id ∈ ids, ¬ Desc (kids tree.inner) id x

/-- An instance without the children that are not in the tree. -/
def withChildrenIn (tree : RojoTree D) (i : Instance) : Instance :=
  { i with children := i.children.filter fun y => (getByRef tree.inner y).isSome }

/-- `tree'` is `tree` with changes at and below the ids only. -/
structure Untouched (tree : RojoTree D) (ids : List Ref) (tree' : RojoTree D) : Prop where
  inv : RojoTree.Inv tree'
  issued : ∀ x, Issued tree.inner x → Issued tree'.inner x
  /-- Any other instance is still there, with its fields, its metadata and its place. -/
  kept : ∀ x i, getByRef tree.inner x = some i → Outside tree ids x →
    getByRef tree'.inner x = some (withChildrenIn tree' i) ∧
      tree'.getMetadata x = tree.getMetadata x
  /-- No instance is moved. -/
  parent : ∀ x i i', getByRef tree.inner x = some i → getByRef tree'.inner x = some i' →
    i'.parent = i.parent
  fresh : ∀ x, Present tree' x → ¬ Present tree x → ¬ Issued tree.inner x
  /-- A new instance is below one of the ids. -/
  new : ∀ x, Present tree' x → ¬ Present tree x → ∃ id ∈ ids, Desc (kids tree'.inner) id x

variable [LawfulWeakDom D] {tree tree₁ tree' : RojoTree D} {ids ids' : List Ref} {id x : Ref}
  {i : Instance}

omit [LawfulWeakDom D] in
theorem withChildrenIn_eq (h : ∀ y ∈ i.children, Present tree y) : withChildrenIn tree i = i := by
  unfold withChildrenIn
  rw [List.filter_eq_self.mpr h]

theorem present_of_mem_children (hi : getByRef tree.inner x = some i) {y : Ref}
    (hy : y ∈ i.children) : Present tree y := by
  rw [← kids_eq hi] at hy
  obtain ⟨j, hj, -⟩ := LawfulWeakDom.child_present tree.inner hy
  exact Option.isSome_of_eq_some hj

/-- No instance is a child of the null reference. -/
theorem not_mem_kids_none {y : Ref} : y ∉ kids tree.inner Ref.none := by
  intro hy
  have hnone := present_of_mem_kids hy
  unfold Present at hnone
  rw [LawfulWeakDom.getByRef_null] at hnone
  cases hnone

namespace Untouched

theorem refl (h : RojoTree.Inv tree) (ids : List Ref) : Untouched tree ids tree where
  inv := h
  issued _ hx := hx
  kept x i hi _ := by
    rw [withChildrenIn_eq fun y => present_of_mem_children hi]
    exact ⟨hi, rfl⟩
  parent x i i' hi hi' := by rw [Option.some.inj (hi.symm.trans hi')]
  fresh x hx hx' := absurd hx hx'
  new x hx hx' := absurd hx hx'

omit [LawfulWeakDom D] in
/-- What was handed out and is there was there. -/
theorem present (h : Untouched tree ids tree') (hx : Present tree' x)
    (hissued : Issued tree.inner x) : Present tree x :=
  not_not.mp fun hnot => h.fresh x hx hnot hissued

/-- The ancestors of an instance that is left alone are its ancestors of before. -/
theorem desc_of_desc (h : Untouched tree ids tree') (hi : getByRef tree.inner x = some i)
    (hx : Outside tree ids x) {a : Ref} (hd : Desc (kids tree'.inner) a x) :
    Desc (kids tree.inner) a x := by
  induction hd using Relation.ReflTransGen.head_induction_on with
  | refl => exact .refl
  | @head a c hac _ hcx =>
    refine .head ?_ hcx
    -- `c` is left alone too, so its parent has not changed
    have hc : Present tree c := by
      rcases hcx.cases_head with rfl | ⟨b, hcb, -⟩
      · exact Option.isSome_of_eq_some hi
      · exact present_of_mem_kids hcb
    obtain ⟨j, hj⟩ := Option.isSome_iff_exists.mp hc
    obtain ⟨hj', -⟩ := h.kept c j hj fun id hid hdesc => hx id hid (hdesc.trans hcx)
    obtain ⟨j', hj'', hparent⟩ := LawfulWeakDom.child_present tree'.inner hac
    obtain rfl := Option.some.inj (hj'.symm.trans hj'')
    change j.parent = a at hparent
    have hnull : j.parent ≠ Ref.none := by
      rw [hparent]
      rintro rfl
      exact not_mem_kids_none hac
    exact hparent ▸ LawfulWeakDom.mem_kids_of_parent tree.inner hj hnull

/-- The ancestors of an instance that stays are there and stay its ancestors. -/
theorem desc_after (h : Untouched tree ids tree') {a : Ref} (hd : Desc (kids tree.inner) a x)
    (hx : Present tree' x) : Desc (kids tree'.inner) a x := by
  induction hd with
  | refl => exact .refl
  | @tail p x _ hpx ih =>
    obtain ⟨i', hi'⟩ := Option.isSome_iff_exists.mp hx
    obtain ⟨i, hi, hparent⟩ := LawfulWeakDom.child_present tree.inner hpx
    have hparent' : i'.parent = p := (h.parent x i i' hi hi').trans hparent
    have hnull : p ≠ Ref.none := by
      rintro rfl
      exact not_mem_kids_none hpx
    have hmem : x ∈ kids tree'.inner p :=
      hparent' ▸ LawfulWeakDom.mem_kids_of_parent tree'.inner hi' (hparent'.symm ▸ hnull)
    exact (ih (present_of_mem_kids hmem)).tail hmem

/-- What two changes leave alone is what both of them leave alone. -/
theorem trans (h : Untouched tree ids tree₁) (h' : Untouched tree₁ ids' tree') :
    Untouched tree (ids ++ ids') tree' where
  inv := h'.inv
  issued x hx := h'.issued x (h.issued x hx)
  kept x i hi hx := by
    have hfirst : Outside tree ids x := fun id hid => hx id (List.mem_append_left _ hid)
    obtain ⟨hi₁, hm₁⟩ := h.kept x i hi hfirst
    have hsecond : Outside tree₁ ids' x := fun id hid hd =>
      hx id (List.mem_append_right _ hid) (h.desc_of_desc hi hfirst hd)
    obtain ⟨hi', hm'⟩ := h'.kept x _ hi₁ hsecond
    refine ⟨?_, hm'.trans hm₁⟩
    rw [hi']
    unfold withChildrenIn
    rw [List.filter_filter]
    -- a child that is there in the end was there in between
    refine congrArg (fun children => some { i with children }) (List.filter_congr fun y hy => ?_)
    have hbetween : Present tree' y → Present tree₁ y := fun hy' =>
      h'.present hy' (h.issued y (issued_of_present (present_of_mem_children hi hy)))
    unfold Present at hbetween
    rw [Bool.and_eq_left_iff_imp]
    exact hbetween
  parent x i i' hi hi' := by
    have hx₁ : Present tree₁ x := h'.present (Option.isSome_of_eq_some hi')
      (h.issued x (issued_of_present (Option.isSome_of_eq_some hi)))
    obtain ⟨i₁, hi₁⟩ := Option.isSome_iff_exists.mp hx₁
    exact (h'.parent x i₁ i' hi₁ hi').trans (h.parent x i i₁ hi hi₁)
  fresh x hx' hx hissued := hx (h.present (h'.present hx' (h.issued x hissued)) hissued)
  new x hx' hx := by
    by_cases hx₁ : Present tree₁ x
    · obtain ⟨id, hid, hd⟩ := h.new x hx₁ hx
      exact ⟨id, List.mem_append_left _ hid, h'.desc_after hd hx'⟩
    · obtain ⟨id, hid, hd⟩ := h'.new x hx' hx₁
      exact ⟨id, List.mem_append_right _ hid, hd⟩

end Untouched

/-! ## One patch -/

variable {patch : PatchSet} {record : AppliedPatchSet} {tops : List Ref} {created : List Creation}

/-- A patch that only names instances at or below one leaves all others alone. -/
theorem Applied.untouched (h : RojoTree.Inv tree)
    (ha : Applied tree patch tops created tree' record) (hleaves : Leaves tree patch tree' record)
    (hremoved : ∀ y ∈ patch.removedInstances, Desc (kids tree.inner) id y)
    (hupdated : ∀ u ∈ patch.updatedInstances, Desc (kids tree.inner) id u.id)
    (hadded : ∀ a ∈ patch.addedInstances, Desc (kids tree.inner) id a.parentId)
    (hcreated : ∀ c ∈ created, Desc (kids tree'.inner) id c.id) : Untouched tree [id] tree' := by
  have hnew : ∀ x, Present tree' x → ¬ Present tree x → x ∈ record.added := fun x hx' hx =>
    ((hleaves.present x).mp hx').resolve_left fun hold => hx hold.1
  refine
    { inv := ha.inv
      issued := ha.issued
      kept := fun x i hi hx => ?_
      parent := fun x i i' hi hi' => ?_
      fresh := fun x hx' hx => hleaves.fresh x (hnew x hx' hx)
      new := fun x hx' hx => ⟨id, List.mem_singleton_self id, ?_⟩ }
  · have hid := hx id (List.mem_singleton_self id)
    have hbelow : ¬ Below tree patch.removedInstances x := by
      rintro ⟨y, hy, hd⟩
      exact hid ((hremoved y hy).trans hd)
    have hnot : x ∉ patch.updatedInstances.map PatchUpdate.id := by
      intro hmem
      obtain ⟨u, hu, rfl⟩ := List.mem_map.mp hmem
      exact hid (hupdated u hu)
    obtain ⟨hi', hm'⟩ := ha.kept x i hi hbelow hnot
    refine ⟨?_, hm'⟩
    rw [hi']
    unfold childrenAfter withChildrenIn
    have htops : topsBelow patch.addedInstances tops i.referent = [] := by
      rw [LawfulWeakDom.referent_eq _ hi]
      refine topsBelow_eq_nil ?_
      rintro a hmem rfl
      exact hid (hadded a hmem)
    rw [htops, List.append_nil]
    refine congrArg (fun children => some { i with children }) (List.filter_congr fun y hy => ?_)
    have hpresent := present_of_mem_children hi hy
    rw [Bool.eq_iff_iff, decide_eq_true_iff]
    change y ∉ patch.removedInstances ↔ Present tree' y
    rw [hleaves.present]
    constructor
    · refine fun hkept => Or.inl ⟨hpresent, ?_⟩
      rintro ⟨z, hz, hd⟩
      rcases hd.cases_tail with rfl | ⟨p, hzp, hpy⟩
      · exact hkept hz
      · have hp : p = x := (LawfulWeakDom.forest tree.inner).unique hpy ((kids_eq hi).symm ▸ hy)
        exact hid ((hremoved z hz).trans (hp ▸ hzp))
    · rintro (⟨-, hkept⟩ | hmem) hgone
      · exact hkept ⟨y, hgone, .refl⟩
      · exact hleaves.fresh y hmem (issued_of_present hpresent)
  · have hbelow : ¬ Below tree patch.removedInstances x := by
      intro hbelow
      have hnone := ha.gone x hbelow
      rw [hi'] at hnone
      cases hnone
    by_cases hmem : x ∈ patch.updatedInstances.map PatchUpdate.id
    · obtain ⟨u, hu, rfl⟩ := List.mem_map.mp hmem
      obtain ⟨m, hm⟩ := h.metadata_of_present hi
      obtain ⟨properties, heq, -⟩ := ha.updated u hu i m hi hm
      rw [Option.some.inj (hi'.symm.trans heq)]
      rfl
    · rw [Option.some.inj (hi'.symm.trans (ha.kept x i hi hbelow hmem).1)]
  · have hmem := hnew x hx' hx
    rw [ha.recorded] at hmem
    obtain ⟨c, hc, rfl⟩ := List.mem_map.mp hmem
    exact hcreated c hc

variable [FloatCmp]

/-- A patch that was computed for an instance. -/
theorem untouched_of_computed {snapshot : Option InstanceSnapshot} (h : RojoTree.Inv tree)
    (hp : computePatchSet snapshot tree id = some patch)
    (happly : applyPatchSet tree patch = some (tree', record)) : Untouched tree [id] tree' := by
  obtain ⟨tops, created, ha⟩ := h.applied (h.patchOk hp happly) happly
  have hleaves := (Origin.computed hp).leaves h happly
  cases snapshot with
  | none =>
    have hpatch : patch.addedInstances = [] ∧ patch.updatedInstances = [] ∧
        ∀ y ∈ patch.removedInstances, y = id := by
      unfold computePatchSet at hp
      dsimp only at hp
      split_ifs at hp
      · obtain rfl := Option.some.inj hp
        exact ⟨rfl, rfl, fun y hy => List.mem_singleton.mp hy⟩
      · obtain rfl := Option.some.inj hp
        exact ⟨rfl, rfl, fun y hy => absurd hy List.not_mem_nil⟩
    obtain ⟨hadded, hupdated, hremoved⟩ := hpatch
    have hrecord := added_eq_nil h hadded (by rw [hupdated]; exact fun u hu => by cases hu) happly
    rw [ha.recorded] at hrecord
    refine ha.untouched h hleaves (fun y hy => hremoved y hy ▸ .refl) ?_ ?_ ?_
    · rw [hupdated]
      exact fun u hu => absurd hu List.not_mem_nil
    · rw [hadded]
      exact fun a hmem => absurd hmem List.not_mem_nil
    · rw [List.map_eq_nil_iff.mp hrecord]
      exact fun c hc => absurd hc List.not_mem_nil
  | some S =>
    obtain ⟨i, hi⟩ := present_of_computePatchSet hp
    have hc := computePatchSet_computed h hi hp
    refine ha.untouched h hleaves (fun y hy => ?_) (fun u hu => ?_) (fun a hmem => ?_)
      (desc_of_created h hc ha hi)
    · rw [hc.removed] at hy
      obtain ⟨s, r, hs, hun⟩ := mem_removals_iff.mp hy
      exact (desc_of_mem_pairs s r hs).tail (mem_kids_of_unpaired hun)
    · obtain ⟨s, r, u', hs, hu', rfl⟩ := hc.mem_updated.mp hu
      have hid : u'.id = r := id_of_pairUpdate h hu'
      exact hid ▸ desc_of_mem_pairs s r hs
    · rw [hc.added] at hmem
      obtain ⟨b, hb, rfl⟩ := List.mem_map.mp hmem
      obtain ⟨s, hs, -⟩ := parent_of_addition b hb
      exact desc_of_mem_pairs s b.parentId hs

/-- **One iteration** changes the tree at and below its id only. -/
theorem untouched_computeAndApplyChanges {reads : Reads} {applied : Option AppliedPatchSet}
    (h : RojoTree.Inv tree)
    (heq : computeAndApplyChanges reads tree id = .ok (tree', applied)) :
    Untouched tree [id] tree' := by
  rcases computeAndApplyChanges_eq_ok heq with ⟨-, rfl⟩ | ⟨patch, record, hsome, happly⟩
  · exact .refl h _
  obtain ⟨metadata, hm, ⟨hfresh, rfl⟩ | ⟨found, -, hp⟩⟩ := changesFor_eq_some hsome
  · have hnot : id ≠ tree.getRootId := by
      -- a tree without its root cannot come out
      rintro rfl
      have hleaves := (Origin.missing tree.getRootId).leaves h happly
      obtain ⟨i, hi, -⟩ := LawfulWeakDom.root_spec tree'.inner
      obtain ⟨j, hj, -⟩ := LawfulWeakDom.root_spec tree.inner
      have hthere : Present tree' tree.getRootId := by
        rw [← hleaves.root]
        exact Option.isSome_of_eq_some hi
      rcases (hleaves.present _).mp hthere with ⟨-, hbelow⟩ | hadded
      · exact hbelow ⟨_, List.mem_singleton_self _, .refl⟩
      · exact hleaves.fresh _ hadded (LawfulWeakDom.issued_of_present _ hj)
    have hp : computePatchSet none tree id =
        some { PatchSet.new with removedInstances := [id] } := if_pos hnot
    exact untouched_of_computed h hp happly
  · exact untouched_of_computed h hp happly

/-! ## Events -/

theorem untouched_applyAffected {reads : ℕ → Reads} {patches : List AppliedPatchSet}
    (h : RojoTree.Inv tree) (heq : applyAffected reads tree ids = .ok (tree', patches)) :
    Untouched tree ids tree' := by
  induction ids generalizing reads tree patches with
  | nil =>
    cases heq
    exact .refl h _
  | cons id ids ih =>
    obtain ⟨tree₁, applied, patches₁, h₁, h₂, -⟩ := applyAffected_cons_eq_ok.mp heq
    have hfirst := untouched_computeAndApplyChanges h h₁
    exact hfirst.trans (ih hfirst.inv h₂)

end

/-- The ids that an event affects. -/
def FileEvent.affected {D : Type} (e : FileEvent) (tree : RojoTree D) : List Ref :=
  match canonicalizeEventPath e.vfs e.event.path with
  | .ok path => affectedIds tree path
  | .error _ => []

namespace ChangeProcessor

variable {D : Type} [WeakDom D] [FloatCmp] {s t : ChangeProcessor D} {e : FileEvent}
  {run : List (FileEvent × ChangeProcessor D)}

omit [WeakDom D] [FloatCmp] in
/-- The ids that the events of a run affect, each in the tree of its time. -/
def affectedBy (s : ChangeProcessor D) : List (FileEvent × ChangeProcessor D) → List Ref
  | [] => []
  | (e, t) :: run => e.affected s.tree ++ affectedBy t run

variable [LawfulWeakDom D]

/-- What one event leaves alone, also if the processor dies over it. -/
theorem Act.untouched (hst : Act s e t) (h : RojoTree.Inv s.tree) :
    Untouched s.tree (e.affected s.tree) t.tree := by
  cases hst with
  | died _ _ =>
    dsimp only
    unfold FileEvent.reached FileEvent.affected
    cases hpath : canonicalizeEventPath e.vfs e.event.path with
    | error err => exact .refl h _
    | ok path =>
      obtain ⟨before, after, patches, hids, hbefore⟩ :=
        applyAffected_treeReached e.reads s.tree (affectedIds s.tree path)
      have hfirst := untouched_applyAffected h hbefore
      -- the iterations that are not reached leave everything alone
      have hboth := hfirst.trans (.refl hfirst.inv after)
      rwa [← hids] at hboth
  | handled _ heq =>
    unfold handleVfsEvent at heq
    unfold FileEvent.affected
    cases hpath : canonicalizeEventPath e.vfs e.event.path with
    | error err =>
      rw [hpath] at heq
      cases heq
      exact .refl h _
    | ok path =>
      rw [hpath] at heq
      exact untouched_applyAffected h heq

/-- **A run changes the tree at and below the instances that its events affect**, and nowhere
else: any other instance keeps its fields, its metadata, its place and those children that are
still there, nothing is moved, and what is new is below an affected instance. -/
theorem untouched_of_run (h : RojoTree.Inv s.tree) (hrun : Run Act s (run ++ [(e, t)])) :
    Untouched s.tree (affectedBy s (run ++ [(e, t)])) t.tree := by
  induction run generalizing s with
  | nil =>
    cases hrun with
    | cons hst _ =>
      exact (hst.untouched h).trans (.refl (hst.untouched h).inv [])
  | cons step run ih =>
    cases hrun with
    | cons hst hrest =>
      exact (hst.untouched h).trans (ih (hst.untouched h).inv hrest)

/-! ### A folder beside another one -/

def filledPath : PathBuf := ⟨true, ["proj", "src"]⟩

def emptyFolder : InstanceSnapshot :=
  { InstanceSnapshot.new with
    name := "src"
    className := "Folder"
    metadata := { instigatingSource := some (.path filledPath), relevantPaths := [filledPath] } }

def otherFolder : InstanceSnapshot :=
  { InstanceSnapshot.new with
    name := "other"
    className := "Folder" }

def twoFolders : InstanceSnapshot :=
  { InstanceSnapshot.new with
    name := "proj"
    className := "Folder"
    children := [emptyFolder, otherFolder] }

def twoFoldersTree : RojoTree MapDom := (RojoTree.new twoFolders).get rfl

/-- A file was added to the first folder. -/
def fillFolder : FileEvent where
  vfs := sharedDisk.vfs
  reads _ :=
    { metadata _ := .ok ⟨false⟩
      snapshotFromVfs _ _ := .ok (some { emptyFolder with
        children := [{ InstanceSnapshot.new with name := "new", className := "StringValue" }] })
      snapshotProjectNode _ _ _ _ _ := .ok none }
  event := .write filledPath

omit [FloatCmp] in
/-- The folder gets a child, and the rest of the tree is left alone. -/
theorem untouched_fillFolder : letI := FloatCmp.exact
    ∃ t : ChangeProcessor MapDom, Run Act (start twoFoldersTree) [(fillFolder, t)] ∧
      kids t.tree.inner (Ref.some 100) = [Ref.some 102] ∧
      Untouched twoFoldersTree [Ref.some 100] t.tree := by
  let _ := FloatCmp.exact
  have haffected : fillFolder.affected twoFoldersTree = [Ref.some 100] := by decide +kernel
  have hkids : ((handleVfsEvent fillFolder.vfs fillFolder.reads twoFoldersTree
      fillFolder.event).toOption.map fun result => kids result.1.inner (Ref.some 100)) =
        some [Ref.some 102] := by decide +kernel
  cases hhandle : handleVfsEvent fillFolder.vfs fillFolder.reads twoFoldersTree
      fillFolder.event with
  | error panic =>
    rw [hhandle] at hkids
    cases hkids
  | ok result =>
    obtain ⟨tree', patches⟩ := result
    rw [hhandle] at hkids
    have hrun : Run Act (start twoFoldersTree)
        ([] ++ [(fillFolder, ⟨tree', true, fillFolder.made twoFoldersTree⟩)]) :=
      .cons (.handled rfl hhandle) (.nil _)
    have hinv : RojoTree.Inv twoFoldersTree := RojoTree.Inv.new (Option.some_get _).symm
    have huntouched := untouched_of_run hinv hrun
    change Untouched twoFoldersTree (fillFolder.affected twoFoldersTree ++ []) tree'
      at huntouched
    rw [haffected] at huntouched
    exact ⟨_, hrun, Option.some.inj hkids, huntouched⟩

end ChangeProcessor

end Roxo
