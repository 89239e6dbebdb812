import Roxo.Snapshot.TreeRuns

/-!
# Which instances a patch leaves in the tree

For any patch whose application returns, whether or not it was computed on the tree: an instance is
there afterwards if it was there before and is not below a removed one, or if the patch created
it (`applyPatchSet_present`).
-/

namespace Roxo

open AssocMap WeakDom RojoTree Forest

variable {D : Type} [WeakDom D] [LawfulWeakDom D] {tree tree₁ tree' : RojoTree D} {x y : Ref}
  {context context' : PatchApplyContext} {new new' : List Ref}

/-- The instance is in the tree. -/
def Present (tree : RojoTree D) (x : Ref) : Prop := (getByRef tree.inner x).isSome = true

/-- `tree'` has the instances of `tree` and new ones. -/
structure Kept (tree : RojoTree D) (new : List Ref) (tree' : RojoTree D) : Prop where
  inv : Inv tree'
  root : tree'.getRootId = tree.getRootId
  issued : ∀ x, Issued tree.inner x → Issued tree'.inner x
  fresh : ∀ x ∈ new, ¬ Issued tree.inner x
  present : ∀ x, Present tree' x ↔ Present tree x ∨ x ∈ new

omit [LawfulWeakDom D] in
theorem Kept.refl (h : Inv tree) : Kept tree [] tree :=
  ⟨h, rfl, fun _ => id, fun _ hx => absurd hx List.not_mem_nil,
    fun _ => by simp only [List.not_mem_nil, or_false]⟩

omit [LawfulWeakDom D] in
theorem Kept.trans (h₁ : Kept tree new tree₁) (h₂ : Kept tree₁ new' tree') :
    Kept tree (new ++ new') tree' where
  inv := h₂.inv
  root := h₂.root.trans h₁.root
  issued x hx := h₂.issued x (h₁.issued x hx)
  fresh x hx := by
    rcases List.mem_append.mp hx with hx | hx
    · exact h₁.fresh x hx
    · exact fun hi => h₂.fresh x hx (h₁.issued x hi)
  present x := by rw [h₂.present, h₁.present, List.mem_append, or_assoc]

omit [LawfulWeakDom D] in
/-- Writing to one instance. -/
theorem RojoTree.Written.kept {f : Instance → Instance} (h : Written tree x f tree') :
    Kept tree [] tree' := by
  refine ⟨h.inv, h.root, h.issued, fun _ hx => absurd hx List.not_mem_nil, fun y => ?_⟩
  unfold Present
  rw [h.getByRef]
  split_ifs
  · simp only [Option.isSome_map, List.not_mem_nil, or_false]
  · simp only [List.not_mem_nil, or_false]

omit [LawfulWeakDom D] in
/-- Changing only the metadata. -/
theorem Kept.of_inner (h : Inv tree') (hinner : tree'.inner = tree.inner) : Kept tree [] tree' :=
  ⟨h, congrArg rootRef hinner, fun x hx => hinner ▸ hx, fun _ hx => absurd hx List.not_mem_nil,
    fun y => by unfold Present; rw [hinner]; simp only [List.not_mem_nil, or_false]⟩

omit [LawfulWeakDom D] in
/-- A loop whose steps add nothing. -/
theorem foldlM_kept {α : Type} {f : RojoTree D → α → MayPanic (RojoTree D)} {l : List α}
    (hf : ∀ (t : RojoTree D) a t', Inv t → f t a = some t' → Kept t [] t') (h : Inv tree)
    (heq : l.foldlM f tree = some tree') : Kept tree [] tree' := by
  induction l generalizing tree with
  | nil => exact Option.some.inj heq ▸ Kept.refl h
  | cons a l ih =>
    rw [List.foldlM_cons] at heq
    obtain ⟨tree₁, h₁, heq⟩ := Option.bind_eq_some_iff.mp heq
    have hkept := hf tree a tree₁ h h₁
    exact hkept.trans (ih hkept.inv heq)

/-! ### The phases of a patch -/

omit [LawfulWeakDom D] in
theorem inner_removeLoop {n : ℕ} {queue : List Ref} (heq : removeLoop n tree queue = some tree') :
    tree'.inner = tree.inner := by
  induction n generalizing tree queue with
  | zero =>
    cases queue with
    | nil => exact congrArg inner (Option.some.inj heq).symm
    | cons id queue => cases heq
  | succ n ih =>
    cases queue with
    | nil => exact congrArg inner (Option.some.inj heq).symm
    | cons id queue =>
      rw [removeLoop] at heq
      obtain ⟨tree₁, hr, heq⟩ := Option.bind_eq_some_iff.mp heq
      unfold removeMetadata at hr
      obtain ⟨m, -, hr⟩ := Option.bind_eq_some_iff.mp hr
      rw [ih heq, ← Option.some.inj hr]

/-- What is removed was there and is not the root. -/
theorem removed_of_remove (h : Inv tree) (heq : tree.remove x = some tree') :
    x ≠ tree.getRootId ∧ Removed tree x tree' := by
  obtain ⟨i, hi⟩ := h.present_of_remove heq
  have hroot : x ≠ tree.getRootId := by
    rintro rfl
    -- the DOM would have no root afterwards
    unfold RojoTree.remove at heq
    obtain ⟨tree₁, h₁, heq⟩ := Option.bind_eq_some_iff.mp heq
    obtain ⟨inner, hd, -⟩ := Option.bind_eq_some_iff.mp heq
    rw [inner_removeLoop h₁] at hd
    obtain ⟨hroot, -, hgone, -⟩ := LawfulWeakDom.destroy_spec _ hd
    obtain ⟨j, hj, -⟩ := LawfulWeakDom.root_spec inner
    have hnone := hgone _ (Relation.ReflTransGen.refl (a := tree.getRootId))
    rw [hroot] at hj
    exact Option.some_ne_none j (hj.symm.trans hnone)
  obtain ⟨tree₁, heq₁, hr⟩ := h.remove hi hroot
  rw [← Option.some.inj (heq₁.symm.trans heq)]
  exact ⟨hroot, hr⟩

omit [LawfulWeakDom D] in
theorem RojoTree.Removed.present (h : Removed tree x tree') :
    Present tree' y ↔ Present tree y ∧ ¬ Desc (kids tree.inner) x y := by
  unfold Present
  by_cases hy : Desc (kids tree.inner) x y
  · simp only [h.gone y hy, Option.isSome_none, Bool.false_eq_true, hy, not_true, and_false]
  · simp only [h.kept y hy, Option.isSome_map, hy, not_false_eq_true, and_true]

/-- `tree'` is `tree` without what is below the removed instances. -/
structure Left (tree : RojoTree D) (removed : List Ref) (tree' : RojoTree D) : Prop where
  inv : Inv tree'
  root : tree'.getRootId = tree.getRootId
  issued : ∀ x, Issued tree.inner x → Issued tree'.inner x
  present : ∀ x, Present tree' x ↔ Present tree x ∧ ¬ Below tree removed x

/-- The removals of a patch, in any order, some perhaps below others. -/
theorem applyRemovals_left {removed : List Ref} (h : Inv tree)
    (heq : removed.foldlM (fun state removedId =>
      applyRemoveInstance state.1 state.2 removedId) (context, tree) = some (context', tree')) :
    Left tree removed tree' ∧
      context' = removed.foldl PatchApplyContext.recordRemoved context := by
  induction removed generalizing tree context with
  | nil =>
    obtain ⟨rfl, rfl⟩ := Prod.mk.inj (Option.some.inj heq)
    refine ⟨⟨h, rfl, fun _ => id, fun x => (and_iff_left ?_).symm⟩, rfl⟩
    rintro ⟨_, hx, _⟩
    exact List.not_mem_nil hx
  | cons x removed ih =>
    rw [List.foldlM_cons] at heq
    obtain ⟨⟨context₁, tree₁⟩, h₁, heq⟩ := Option.bind_eq_some_iff.mp heq
    obtain ⟨tree₂, hr, h₁⟩ := Option.bind_eq_some_iff.mp h₁
    obtain ⟨rfl, rfl⟩ := Prod.mk.inj (Option.some.inj h₁)
    obtain ⟨-, hrem⟩ := removed_of_remove h hr
    obtain ⟨hleft, hcontext⟩ := ih hrem.inv heq
    refine ⟨⟨hleft.inv, hleft.root.trans hrem.root,
      fun y hy => hleft.issued y (hrem.issued y hy), fun y => ?_⟩, hcontext⟩
    rw [hleft.present, hrem.present, and_assoc]
    refine and_congr_right fun _ => ?_
    unfold Below
    simp only [List.mem_cons, exists_eq_or_imp, not_or]
    refine and_congr_right fun hxy => not_congr (exists_congr fun z => and_congr_right fun _ => ?_)
    rw [kids_removed hrem]
    exact desc_prune hxy

omit [LawfulWeakDom D] in
/-- Deferring the refs of an instance changes its metadata at most. -/
theorem deferRefProperties_kept (h : Inv tree)
    (heq : deferRefProperties tree x context = some (context', tree')) :
    Kept tree [] tree' ∧ context'.appliedPatchSet = context.appliedPatchSet := by
  cases hi : getByRef tree.inner x with
  | none =>
    unfold deferRefProperties at heq
    rw [getInstance_none hi] at heq
    cases heq
  | some i =>
    obtain ⟨m, hm⟩ := h.metadata_of_present hi
    obtain ⟨tree₁, heq₁, hinv, hinner, -⟩ := deferRefProperties_eq context h hi hm
    obtain ⟨rfl, rfl⟩ := Prod.mk.inj (Option.some.inj (heq₁.symm.trans heq))
    exact ⟨Kept.of_inner hinv hinner, rfl⟩

theorem insertOne_kept {p r : Ref} {s : InstanceSnapshot} (h : Inv tree)
    (heq : tree.insertOne p s = some (r, tree')) : Kept tree [r] tree' := by
  have hins := h.insertOne heq
  obtain ⟨_, -, hnew⟩ := hins.new
  refine ⟨hins.inv, hins.root, hins.issued, fun x hx => ?_, fun x => ?_⟩
  · rw [List.mem_singleton.mp hx]
    exact hins.fresh
  · unfold Present
    rw [List.mem_singleton]
    by_cases hx : x = r
    · simp only [hx, hnew, Option.isSome_some, or_true]
    · simp only [hins.old x hx, Option.isSome_map, hx, or_false]

/-- The instances `new` have been added and recorded. -/
structure Adds (context : PatchApplyContext) (tree : RojoTree D) (new : List Ref)
    (context' : PatchApplyContext) (tree' : RojoTree D) : Prop extends Kept tree new tree' where
  applied : context'.appliedPatchSet = { context.appliedPatchSet with
    added := context.appliedPatchSet.added ++ new }

omit [LawfulWeakDom D] in
theorem Adds.refl (h : Inv tree) : Adds context tree [] context tree :=
  ⟨Kept.refl h, by rw [List.append_nil]⟩

omit [LawfulWeakDom D] in
theorem Adds.trans {context₁ : PatchApplyContext} (h₁ : Adds context tree new context₁ tree₁)
    (h₂ : Adds context₁ tree₁ new' context' tree') :
    Adds context tree (new ++ new') context' tree' :=
  ⟨h₁.toKept.trans h₂.toKept, by rw [h₂.applied, h₁.applied, List.append_assoc]⟩

theorem applyAddChild_adds {p : Ref} {s : InstanceSnapshot} (h : Inv tree)
    (heq : applyAddChild context tree p s = some (context', tree')) :
    ∃ new, Adds context tree new context' tree' := by
  induction s using InstanceSnapshot.induct generalizing context tree context' tree' p with
  | snapshot s ih =>
    have hchildren : ∀ l, (∀ c ∈ l, c ∈ s.children) → ∀ {context context' : PatchApplyContext}
        {tree tree' : RojoTree D} {p : Ref}, Inv tree →
        applyAddChildren context tree p l = some (context', tree') →
        ∃ new, Adds context tree new context' tree' := by
      intro l
      induction l with
      | nil =>
        intro _ context context' tree tree' p h heq
        rw [applyAddChildren] at heq
        obtain ⟨rfl, rfl⟩ := Prod.mk.inj (Option.some.inj heq)
        exact ⟨[], Adds.refl h⟩
      | cons c l ihl =>
        intro hl context context' tree tree' p h heq
        rw [applyAddChildren] at heq
        obtain ⟨⟨context₁, tree₁⟩, h₁, heq⟩ := Option.bind_eq_some_iff.mp heq
        obtain ⟨new, hadds⟩ := ih c (hl c List.mem_cons_self) h h₁
        obtain ⟨new', hadds'⟩ := ihl (fun d hd => hl d (List.mem_cons_of_mem _ hd)) hadds.inv heq
        exact ⟨new ++ new', hadds.trans hadds'⟩
    rw [applyAddChild_eq] at heq
    obtain ⟨⟨r, tree₁⟩, h₁, heq⟩ := Option.bind_eq_some_iff.mp heq
    obtain ⟨⟨context₂, tree₂⟩, h₂, heq⟩ := Option.bind_eq_some_iff.mp heq
    have hone := insertOne_kept h h₁
    obtain ⟨new, hadds⟩ := hchildren s.children (fun _ hc => hc) hone.inv h₂
    obtain ⟨hdefer, happlied⟩ := deferRefProperties_kept hadds.inv heq
    have hall := (hone.trans hadds.toKept).trans hdefer
    rw [List.append_nil] at hall
    exact ⟨[r] ++ new, hall, by
      rw [happlied, hadds.applied, noteCreated_applied, ← List.append_assoc]⟩

theorem applyAdditions_adds {additions : List PatchAdd} (h : Inv tree)
    (heq : additions.foldlM (fun state addPatch =>
      applyAddChild state.1 state.2 addPatch.parentId addPatch.inst) (context, tree) =
        some (context', tree')) :
    ∃ new, Adds context tree new context' tree' := by
  induction additions generalizing context tree with
  | nil =>
    obtain ⟨rfl, rfl⟩ := Prod.mk.inj (Option.some.inj heq)
    exact ⟨[], Adds.refl h⟩
  | cons a additions ih =>
    rw [List.foldlM_cons] at heq
    obtain ⟨⟨context₁, tree₁⟩, h₁, heq⟩ := Option.bind_eq_some_iff.mp heq
    obtain ⟨new, hadds⟩ := applyAddChild_adds h h₁
    obtain ⟨new', hadds'⟩ := ih hadds.inv heq
    exact ⟨new ++ new', hadds.trans hadds'⟩

/-- The updates `updated` have been recorded, all of instances that are there. -/
structure Updates (context : PatchApplyContext) (tree : RojoTree D)
    (updated : List AppliedPatchUpdate) (context' : PatchApplyContext) (tree' : RojoTree D) :
    Prop extends Kept tree [] tree' where
  there : ∀ u ∈ updated, Present tree u.id
  applied : context'.appliedPatchSet = { context.appliedPatchSet with
    updated := context.appliedPatchSet.updated ++ updated }

omit [LawfulWeakDom D] in
theorem Updates.refl (h : Inv tree) : Updates context tree [] context tree :=
  ⟨Kept.refl h, fun _ hu => absurd hu List.not_mem_nil, by rw [List.append_nil]⟩

/-- An update without metadata may name an instance that is not there. -/
theorem applyUpdateChild_updates {u : PatchUpdate} (h : Inv tree)
    (hu : u.changedMetadata ≠ none → Present tree u.id)
    (heq : applyUpdateChild context tree u = some (context', tree')) :
    ∃ updated, Updates context tree updated context' tree' := by
  cases hi : getByRef tree.inner u.id with
  | some i =>
    obtain ⟨context₁, tree₁, heq₁, hup⟩ := applyUpdateChild_updated h hi context
    obtain ⟨rfl, rfl⟩ := Prod.mk.inj (Option.some.inj (heq₁.symm.trans heq))
    refine ⟨[recordUpdate u], ⟨hup.inv, hup.root, hup.issued,
      fun _ hx => absurd hx List.not_mem_nil, fun x => ?_⟩, fun v hv => ?_, hup.applied⟩
    · unfold Present
      simp only [List.not_mem_nil, or_false]
      by_cases hx : x = u.id
      · obtain ⟨m, hm⟩ := h.metadata_of_present hi
        rw [hx, (hup.changed u List.mem_cons_self i m hi hm).1, hi]
        simp only [Option.isSome_some]
      · rw [(hup.other x fun hmem => hx (List.mem_singleton.mp hmem)).1]
    · rw [List.mem_singleton.mp hv]
      exact Option.isSome_of_eq_some hi
  | none =>
    have hmeta : u.changedMetadata = none := by
      by_contra hne
      have hpresent := hu hne
      unfold Present at hpresent
      rw [hi] at hpresent
      cases hpresent
    unfold applyUpdateChild applyMetadata getInstanceMut at heq
    simp only [hmeta, hi, Option.bind_eq_bind, Option.bind_some] at heq
    obtain ⟨rfl, rfl⟩ := Prod.mk.inj (Option.some.inj heq)
    exact ⟨[], Updates.refl h⟩

theorem applyUpdates_updates {updates : List PatchUpdate} (h : Inv tree)
    (hu : ∀ u ∈ updates, u.changedMetadata ≠ none → Present tree u.id)
    (heq : updates.foldlM (fun state updatePatch =>
      applyUpdateChild state.1 state.2 updatePatch) (context, tree) = some (context', tree')) :
    ∃ updated, Updates context tree updated context' tree' := by
  induction updates generalizing context tree with
  | nil =>
    obtain ⟨rfl, rfl⟩ := Prod.mk.inj (Option.some.inj heq)
    exact ⟨[], Updates.refl h⟩
  | cons u updates ih =>
    rw [List.foldlM_cons] at heq
    obtain ⟨⟨context₁, tree₁⟩, h₁, heq⟩ := Option.bind_eq_some_iff.mp heq
    obtain ⟨updated, hup⟩ := applyUpdateChild_updates h (hu u List.mem_cons_self) h₁
    have hsame : ∀ x, Present tree₁ x ↔ Present tree x := fun x => by
      rw [hup.present]
      simp only [List.not_mem_nil, or_false]
    obtain ⟨updated', hup'⟩ := ih hup.inv (fun v hv hm =>
      (hsame _).mpr (hu v (List.mem_cons_of_mem _ hv) hm)) heq
    refine ⟨updated ++ updated', hup.toKept.trans hup'.toKept, fun v hv => ?_, ?_⟩
    · rcases List.mem_append.mp hv with hv | hv
      · exact hup.there v hv
      · exact (hsame _).mp (hup'.there v hv)
    · rw [hup'.applied, hup.applied, List.append_assoc]

theorem expectInstanceMut_kept {f : UstrMap Variant → UstrMap Variant} (h : Inv tree)
    (heq : expectInstanceMut tree x f = some tree') : Kept tree [] tree' := by
  cases hi : getByRef tree.inner x with
  | none =>
    unfold expectInstanceMut getInstanceMut at heq
    rw [hi] at heq
    cases heq
  | some i =>
    obtain ⟨tree₁, heq₁, hw⟩ := expectInstanceMut_eq h hi f
    rw [← Option.some.inj (heq₁.symm.trans heq)]
    exact hw.kept

theorem finalizePatchApplication_kept {applied : AppliedPatchSet} (h : Inv tree)
    (heq : finalizePatchApplication context tree = some (tree', applied)) :
    Kept tree [] tree' ∧ applied = context.appliedPatchSet := by
  unfold finalizePatchApplication at heq
  obtain ⟨tree₁, h₁, heq⟩ := Option.bind_eq_some_iff.mp heq
  obtain ⟨tree₂, h₂, heq⟩ := Option.bind_eq_some_iff.mp heq
  obtain ⟨rfl, rfl⟩ := Prod.mk.inj (Option.some.inj heq)
  have hkept := foldlM_kept (fun _ _ _ h h₁ => expectInstanceMut_kept h h₁) h h₁
  exact ⟨hkept.trans (foldlM_kept (fun _ _ _ h h₁ => expectInstanceMut_kept h h₁) hkept.inv h₂),
    rfl⟩

/-! ### A whole patch -/

/-- An update that changes metadata is of an instance that is not removed. -/
def MetadataOk (tree : RojoTree D) (patch : PatchSet) : Prop :=
  ∀ u ∈ patch.updatedInstances, u.changedMetadata ≠ none →
    Present tree u.id ∧ ¬ Below tree patch.removedInstances u.id

omit [LawfulWeakDom D] in
theorem PatchOk.metadataOk {patch : PatchSet} (h : PatchOk tree patch) : MetadataOk tree patch :=
  fun u hu _ => h.updated u hu

/-- What a patch leaves in the tree, and what it records. -/
structure Leaves (tree : RojoTree D) (patch : PatchSet) (tree' : RojoTree D)
    (applied : AppliedPatchSet) : Prop where
  inv : Inv tree'
  root : tree'.getRootId = tree.getRootId
  issued : ∀ x, Issued tree.inner x → Issued tree'.inner x
  fresh : ∀ x ∈ applied.added, ¬ Issued tree.inner x
  present : ∀ x, Present tree' x ↔
    Present tree x ∧ ¬ Below tree patch.removedInstances x ∨ x ∈ applied.added
  removed : applied.removed = patch.removedInstances
  updated : ∀ u ∈ applied.updated, Present tree' u.id

theorem applyPatchSet_leaves {patch : PatchSet} {applied : AppliedPatchSet} (h : Inv tree)
    (hu : MetadataOk tree patch) (heq : applyPatchSet tree patch = some (tree', applied)) :
    Leaves tree patch tree' applied := by
  unfold applyPatchSet at heq
  obtain ⟨⟨context₁, tree₁⟩, h₁, heq⟩ := Option.bind_eq_some_iff.mp heq
  obtain ⟨⟨context₂, tree₂⟩, h₂, heq⟩ := Option.bind_eq_some_iff.mp heq
  obtain ⟨⟨context₃, tree₃⟩, h₃, heq⟩ := Option.bind_eq_some_iff.mp heq
  obtain ⟨hleft, hcontext⟩ := applyRemovals_left h h₁
  obtain ⟨new, hadds⟩ := applyAdditions_adds hleft.inv h₂
  obtain ⟨updated, hup⟩ := applyUpdates_updates hadds.inv
    (fun u hmem hm => (hadds.present _).mpr (Or.inl ((hleft.present _).mpr (hu u hmem hm)))) h₃
  obtain ⟨hfinal, rfl⟩ := finalizePatchApplication_kept hup.inv heq
  have happlied : context₃.appliedPatchSet = ⟨patch.removedInstances, new, updated⟩ := by
    rw [hup.applied, hadds.applied, hcontext, foldl_recordRemoved]
    rfl
  have hlater := (hadds.toKept.trans hup.toKept).trans hfinal
  simp only [List.append_nil] at hlater
  have hpresent : ∀ x, Present tree' x ↔
      Present tree x ∧ ¬ Below tree patch.removedInstances x ∨ x ∈ new := fun x => by
    rw [hlater.present, hleft.present]
  rw [happlied]
  refine ⟨hlater.inv, hlater.root.trans hleft.root,
    fun x hx => hlater.issued x (hleft.issued x hx),
    fun x hx hi => hlater.fresh x hx (hleft.issued x hi), hpresent, rfl, fun u hmem => ?_⟩
  have hthere := (hup.toKept.trans hfinal).present u.id
  exact hthere.mpr (Or.inl (hup.there u hmem))

end Roxo
