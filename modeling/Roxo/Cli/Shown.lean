import Roxo.Server.Interface

/-!
# What a patch changes of an instance

For any patch that removes nothing and whose application returns: an instance of the tree keeps its
children before the new ones, and keeps its name, its class and its relevant paths unless an update
that changes them has been recorded. New instances have new children only (`applyPatchSet_shows`).
-/

namespace Roxo

open AssocMap WeakDom RojoTree Forest

/-- The instances with an update that the sourcemap shows. -/
def changedIds (updated : List AppliedPatchUpdate) : List Ref :=
  (updated.filter AppliedPatchUpdate.changesNode).map AppliedPatchUpdate.id

variable {D : Type} [WeakDom D] [LawfulWeakDom D] {tree tree₁ tree' : RojoTree D} {x y : Ref}
  {context context' : PatchApplyContext} {new new' changed changed' : List Ref}

/-- The instances `changed` may be shown differently, and `new` have been added. -/
structure Shows (tree : RojoTree D) (new changed : List Ref) (tree' : RojoTree D) : Prop
    extends Kept tree new tree' where
  old : ∀ x i m, getByRef tree.inner x = some i → tree.metadataMap.lookup x = some m →
    ∃ i' m' l, getByRef tree'.inner x = some i' ∧ tree'.metadataMap.lookup x = some m' ∧
      i'.children = i.children ++ l ∧ (∀ y ∈ l, y ∈ new) ∧
      (x ∉ changed → i'.name = i.name ∧ i'.className = i.className ∧
        m'.relevantPaths = m.relevantPaths)
  made : ∀ x ∈ new, ∀ y ∈ kids tree'.inner x, y ∈ new

omit [LawfulWeakDom D] in
theorem Shows.refl (h : Inv tree) : Shows tree [] [] tree where
  toKept := Kept.refl h
  old _ i m hi hm := ⟨i, m, [], hi, hm, (List.append_nil _).symm,
    fun _ hy => absurd hy List.not_mem_nil, fun _ => ⟨rfl, rfl, rfl⟩⟩
  made _ hx := absurd hx List.not_mem_nil

omit [LawfulWeakDom D] in
theorem Shows.trans (h₁ : Shows tree new changed tree₁) (h₂ : Shows tree₁ new' changed' tree') :
    Shows tree (new ++ new') (changed ++ changed') tree' where
  toKept := h₁.toKept.trans h₂.toKept
  old x i m hi hm := by
    obtain ⟨i₁, m₁, l, hi₁, hm₁, hchildren, hl, hsame⟩ := h₁.old x i m hi hm
    obtain ⟨i', m', l', hi', hm', hchildren', hl', hsame'⟩ := h₂.old x i₁ m₁ hi₁ hm₁
    refine ⟨i', m', l ++ l', hi', hm', ?_, fun y hy => ?_, fun hx => ?_⟩
    · rw [hchildren', hchildren, List.append_assoc]
    · rcases List.mem_append.mp hy with hy | hy
      · exact List.mem_append_left _ (hl y hy)
      · exact List.mem_append_right _ (hl' y hy)
    · obtain ⟨hname, hclass, hpaths⟩ := hsame fun hmem => hx (List.mem_append_left _ hmem)
      obtain ⟨hname', hclass', hpaths'⟩ := hsame' fun hmem => hx (List.mem_append_right _ hmem)
      exact ⟨hname'.trans hname, hclass'.trans hclass, hpaths'.trans hpaths⟩
  made x hx y hy := by
    rcases List.mem_append.mp hx with hx | hx
    · obtain ⟨i, hi⟩ := Option.isSome_iff_exists.mp ((h₁.present x).mpr (.inr hx))
      obtain ⟨m, hm⟩ := h₁.inv.metadata_of_present hi
      obtain ⟨i', -, l, hi', -, hchildren, hl, -⟩ := h₂.old x i m hi hm
      rw [kids_eq hi', hchildren] at hy
      rcases List.mem_append.mp hy with hy | hy
      · exact List.mem_append_left _ (h₁.made x hx y (by rwa [kids_eq hi]))
      · exact List.mem_append_right _ (hl y hy)
    · exact List.mem_append_right _ (h₂.made x hx y hy)

/-! ### The phases of a patch -/

omit [LawfulWeakDom D] in
/-- Changing the metadata of one instance, but not its paths. -/
theorem Shows.of_inner (h' : Inv tree') (hinner : tree'.inner = tree.inner)
    (hpaths : ∀ x m, tree.metadataMap.lookup x = some m →
      ∃ m', tree'.metadataMap.lookup x = some m' ∧ m'.relevantPaths = m.relevantPaths) :
    Shows tree [] [] tree' where
  toKept := Kept.of_inner h' hinner
  old x i m hi hm := by
    obtain ⟨m', hm', hsame⟩ := hpaths x m hm
    exact ⟨i, m', [], by rw [hinner, hi], hm', (List.append_nil _).symm,
      fun _ hy => absurd hy List.not_mem_nil, fun _ => ⟨rfl, rfl, hsame⟩⟩
  made _ hx := absurd hx List.not_mem_nil

omit [LawfulWeakDom D] in
theorem relevantPaths_deferredMetadata (properties : UstrMap Variant) (m : InstanceMetadata) :
    (deferredMetadata properties m).relevantPaths = m.relevantPaths := by
  unfold deferredMetadata
  cases attributeId (attributesOf properties) <;> rfl

omit [LawfulWeakDom D] in
theorem deferRefProperties_shows (h : Inv tree)
    (heq : deferRefProperties tree x context = some (context', tree')) :
    Shows tree [] [] tree' ∧ context'.appliedPatchSet = context.appliedPatchSet := by
  refine ⟨?_, (deferRefProperties_kept h heq).2⟩
  cases hi : getByRef tree.inner x with
  | none =>
    unfold deferRefProperties at heq
    rw [getInstance_none hi] at heq
    cases heq
  | some i =>
    obtain ⟨m, hm⟩ := h.metadata_of_present hi
    obtain ⟨tree₁, heq₁, hinv, hinner, hmap⟩ := deferRefProperties_eq context h hi hm
    obtain ⟨-, rfl⟩ := Prod.mk.inj (Option.some.inj (heq₁.symm.trans heq))
    refine Shows.of_inner hinv hinner fun y m' hm' => ?_
    rw [hmap]
    split
    · next hy =>
      rw [hy, hm] at hm'
      cases hm'
      exact ⟨_, rfl, relevantPaths_deferredMetadata _ _⟩
    · exact ⟨m', hm', rfl⟩

theorem insertOne_shows {p r : Ref} {s : InstanceSnapshot} (h : Inv tree)
    (heq : tree.insertOne p s = some (r, tree')) : Shows tree [r] [] tree' := by
  have hins := h.insertOne heq
  have hne : ∀ x i, getByRef tree.inner x = some i → x ≠ r := by
    rintro x i hi rfl
    exact hins.fresh (LawfulWeakDom.issued_of_present _ hi)
  refine { toKept := insertOne_kept h heq, old := fun x i m hi hm => ?_, made := fun x hx y hy => ?_ }
  · have hx := hne x i hi
    have hold := hins.old x hx
    have hmap := hins.metadata x
    rw [hi] at hold
    rw [if_neg hx, hm] at hmap
    by_cases hp : x = p
    · rw [Option.map_some, if_pos hp] at hold
      exact ⟨_, m, [r], hold, hmap, rfl, fun _ hy => hy, fun _ => ⟨rfl, rfl, rfl⟩⟩
    · rw [Option.map_some, if_neg hp] at hold
      exact ⟨i, m, [], hold, hmap, (List.append_nil _).symm,
        fun _ hy => absurd hy List.not_mem_nil, fun _ => ⟨rfl, rfl, rfl⟩⟩
  · obtain ⟨_, -, hnew⟩ := hins.new
    rw [List.mem_singleton.mp hx, kids_eq hnew] at hy
    exact absurd hy List.not_mem_nil

theorem applyAddChild_shows {p : Ref} {s : InstanceSnapshot} (h : Inv tree)
    (heq : applyAddChild context tree p s = some (context', tree')) :
    ∃ new, Shows tree new [] tree' ∧ context'.appliedPatchSet = { context.appliedPatchSet with
      added := context.appliedPatchSet.added ++ new } := by
  induction s using InstanceSnapshot.induct generalizing context tree context' tree' p with
  | snapshot s ih =>
    have hchildren : ∀ l, (∀ c ∈ l, c ∈ s.children) → ∀ {context context' : PatchApplyContext}
        {tree tree' : RojoTree D} {p : Ref}, Inv tree →
        applyAddChildren context tree p l = some (context', tree') →
        ∃ new, Shows tree new [] tree' ∧ context'.appliedPatchSet =
          { context.appliedPatchSet with added := context.appliedPatchSet.added ++ new } := by
      intro l
      induction l with
      | nil =>
        intro _ context context' tree tree' p h heq
        rw [applyAddChildren] at heq
        obtain ⟨rfl, rfl⟩ := Prod.mk.inj (Option.some.inj heq)
        exact ⟨[], Shows.refl h, by rw [List.append_nil]⟩
      | cons c l ihl =>
        intro hl context context' tree tree' p h heq
        rw [applyAddChildren] at heq
        obtain ⟨⟨context₁, tree₁⟩, h₁, heq⟩ := Option.bind_eq_some_iff.mp heq
        obtain ⟨new, hshows, hadded⟩ := ih c (hl c List.mem_cons_self) h h₁
        obtain ⟨new', hshows', hadded'⟩ :=
          ihl (fun d hd => hl d (List.mem_cons_of_mem _ hd)) hshows.inv heq
        exact ⟨new ++ new', hshows.trans hshows', by rw [hadded', hadded, List.append_assoc]⟩
    rw [applyAddChild_eq] at heq
    obtain ⟨⟨r, tree₁⟩, h₁, heq⟩ := Option.bind_eq_some_iff.mp heq
    obtain ⟨⟨context₂, tree₂⟩, h₂, heq⟩ := Option.bind_eq_some_iff.mp heq
    have hone := insertOne_shows h h₁
    obtain ⟨new, hshows, hadded⟩ := hchildren s.children (fun _ hc => hc) hone.inv h₂
    obtain ⟨hdefer, happlied⟩ := deferRefProperties_shows hshows.inv heq
    have hall := (hone.trans hshows).trans hdefer
    rw [List.append_nil] at hall
    exact ⟨[r] ++ new, hall, by
      rw [happlied, hadded, noteCreated_applied, ← List.append_assoc]⟩

theorem applyAdditions_shows {additions : List PatchAdd} (h : Inv tree)
    (heq : additions.foldlM (fun state addPatch =>
      applyAddChild state.1 state.2 addPatch.parentId addPatch.inst) (context, tree) =
        some (context', tree')) :
    ∃ new, Shows tree new [] tree' ∧ context'.appliedPatchSet = { context.appliedPatchSet with
      added := context.appliedPatchSet.added ++ new } := by
  induction additions generalizing context tree with
  | nil =>
    obtain ⟨rfl, rfl⟩ := Prod.mk.inj (Option.some.inj heq)
    exact ⟨[], Shows.refl h, by rw [List.append_nil]⟩
  | cons a additions ih =>
    rw [List.foldlM_cons] at heq
    obtain ⟨⟨context₁, tree₁⟩, h₁, heq⟩ := Option.bind_eq_some_iff.mp heq
    obtain ⟨new, hshows, hadded⟩ := applyAddChild_shows h h₁
    obtain ⟨new', hshows', hadded'⟩ := ih hshows.inv heq
    exact ⟨new ++ new', hshows.trans hshows', by rw [hadded', hadded, List.append_assoc]⟩

/-- An update that does not change what is shown leaves it. -/
theorem recordUpdate_changesNode {u : PatchUpdate} (h : (recordUpdate u).changesNode = false) :
    u.changedName = none ∧ u.changedClassName = none ∧ u.changedMetadata = none := by
  unfold AppliedPatchUpdate.changesNode recordUpdate at h
  simp only [Bool.or_eq_false_iff, Option.isSome_eq_false_iff, Option.isNone_iff_eq_none] at h
  exact ⟨h.1.2, h.1.1, h.2⟩

theorem applyUpdateChild_shows {u : PatchUpdate} (h : Inv tree)
    (hu : u.changedMetadata ≠ none → Present tree u.id)
    (heq : applyUpdateChild context tree u = some (context', tree')) :
    ∃ updated, Shows tree [] (changedIds updated) tree' ∧
      context'.appliedPatchSet = { context.appliedPatchSet with
        updated := context.appliedPatchSet.updated ++ updated } := by
  obtain ⟨recorded, hup⟩ := applyUpdateChild_updates h hu heq
  cases hi : getByRef tree.inner u.id with
  | some i =>
    obtain ⟨context₁, tree₁, heq₁, hone⟩ := applyUpdateChild_updated h hi context
    obtain ⟨rfl, rfl⟩ := Prod.mk.inj (Option.some.inj (heq₁.symm.trans heq))
    refine ⟨[recordUpdate u], ⟨hup.toKept, fun x j m hj hm => ?_,
      fun _ hx => absurd hx List.not_mem_nil⟩, hone.applied⟩
    by_cases hx : x = u.id
    · subst hx
      obtain ⟨hj', hm'⟩ := hone.changed u List.mem_cons_self j m hj hm
      refine ⟨_, _, [], hj', hm', (List.append_nil _).symm,
        fun _ hy => absurd hy List.not_mem_nil, fun hnot => ?_⟩
      have hsame : (recordUpdate u).changesNode = false := by
        rw [← Bool.not_eq_true]
        exact fun hchanges => hnot (List.mem_map.mpr
          ⟨recordUpdate u, List.mem_filter.mpr ⟨List.mem_cons_self, hchanges⟩, rfl⟩)
      obtain ⟨hname, hclass, hmeta⟩ := recordUpdate_changesNode hsame
      refine ⟨?_, ?_, ?_⟩
      · unfold updatedInstance
        rw [hname]
        rfl
      · unfold updatedInstance
        rw [hclass]
        rfl
      · unfold updatedMetadata
        rw [relevantPaths_deferredMetadata, hmeta]
        rfl
    · obtain ⟨hj', hm'⟩ := hone.other x fun hmem => hx (List.mem_singleton.mp hmem)
      exact ⟨j, m, [], hj'.trans hj, hm'.trans hm, (List.append_nil _).symm,
        fun _ hy => absurd hy List.not_mem_nil, fun _ => ⟨rfl, rfl, rfl⟩⟩
  | none =>
    have hmeta : u.changedMetadata = none := by
      by_contra hne
      have hpresent := hu hne
      unfold Present at hpresent
      rw [hi] at hpresent
      cases hpresent
    unfold applyUpdateChild applyMetadata getInstanceMut at heq
    simp only [hmeta, hi, Option.bind_eq_bind, Option.bind_some] at heq
    obtain ⟨rfl, rfl⟩ := Prod.mk.inj (Option.some.inj heq)
    exact ⟨[], Shows.refl h, by rw [List.append_nil]⟩

theorem applyUpdates_shows {updates : List PatchUpdate} (h : Inv tree)
    (hu : ∀ u ∈ updates, u.changedMetadata ≠ none → Present tree u.id)
    (heq : updates.foldlM (fun state updatePatch =>
      applyUpdateChild state.1 state.2 updatePatch) (context, tree) = some (context', tree')) :
    ∃ updated, Shows tree [] (changedIds updated) tree' ∧
      context'.appliedPatchSet = { context.appliedPatchSet with
        updated := context.appliedPatchSet.updated ++ updated } := by
  induction updates generalizing context tree with
  | nil =>
    obtain ⟨rfl, rfl⟩ := Prod.mk.inj (Option.some.inj heq)
    exact ⟨[], Shows.refl h, by rw [List.append_nil]⟩
  | cons u updates ih =>
    rw [List.foldlM_cons] at heq
    obtain ⟨⟨context₁, tree₁⟩, h₁, heq⟩ := Option.bind_eq_some_iff.mp heq
    obtain ⟨updated, hshows, happlied⟩ := applyUpdateChild_shows h (hu u List.mem_cons_self) h₁
    obtain ⟨updated', hshows', happlied'⟩ := ih hshows.inv (fun v hv hm =>
      (hshows.present _).mpr (.inl (hu v (List.mem_cons_of_mem _ hv) hm))) heq
    refine ⟨updated ++ updated', ?_, by rw [happlied', happlied, List.append_assoc]⟩
    unfold changedIds
    rw [List.filter_append, List.map_append]
    exact hshows.trans hshows'

theorem expectInstanceMut_shows {f : UstrMap Variant → UstrMap Variant} (h : Inv tree)
    (heq : expectInstanceMut tree x f = some tree') : Shows tree [] [] tree' := by
  have hkept := expectInstanceMut_kept h heq
  cases hi : getByRef tree.inner x with
  | none =>
    unfold expectInstanceMut getInstanceMut at heq
    rw [hi] at heq
    cases heq
  | some i =>
    obtain ⟨tree₁, heq₁, hw⟩ := expectInstanceMut_eq h hi f
    obtain rfl := Option.some.inj (heq₁.symm.trans heq)
    refine ⟨hkept, fun y j m hj hm => ?_, fun _ hx => absurd hx List.not_mem_nil⟩
    rw [← hw.metadata] at hm
    have hget := hw.getByRef y
    split at hget
    · rw [hj] at hget
      exact ⟨_, m, [], hget, hm, (List.append_nil _).symm,
        fun _ hy => absurd hy List.not_mem_nil, fun _ => ⟨rfl, rfl, rfl⟩⟩
    · exact ⟨j, m, [], hget.trans hj, hm, (List.append_nil _).symm,
        fun _ hy => absurd hy List.not_mem_nil, fun _ => ⟨rfl, rfl, rfl⟩⟩

omit [LawfulWeakDom D] in
theorem foldlM_shows {α : Type} {f : RojoTree D → α → MayPanic (RojoTree D)} {l : List α}
    (hf : ∀ (t : RojoTree D) a t', Inv t → f t a = some t' → Shows t [] [] t') (h : Inv tree)
    (heq : l.foldlM f tree = some tree') : Shows tree [] [] tree' := by
  induction l generalizing tree with
  | nil => exact Option.some.inj heq ▸ Shows.refl h
  | cons a l ih =>
    rw [List.foldlM_cons] at heq
    obtain ⟨tree₁, h₁, heq⟩ := Option.bind_eq_some_iff.mp heq
    have hshows := hf tree a tree₁ h h₁
    exact hshows.trans (ih hshows.inv heq)

theorem finalizePatchApplication_shows {applied : AppliedPatchSet} (h : Inv tree)
    (heq : finalizePatchApplication context tree = some (tree', applied)) :
    Shows tree [] [] tree' ∧ applied = context.appliedPatchSet := by
  unfold finalizePatchApplication at heq
  obtain ⟨tree₁, h₁, heq⟩ := Option.bind_eq_some_iff.mp heq
  obtain ⟨tree₂, h₂, heq⟩ := Option.bind_eq_some_iff.mp heq
  obtain ⟨rfl, rfl⟩ := Prod.mk.inj (Option.some.inj heq)
  have hshows := foldlM_shows (fun _ _ _ h h₁ => expectInstanceMut_shows h h₁) h h₁
  exact ⟨hshows.trans (foldlM_shows (fun _ _ _ h h₁ => expectInstanceMut_shows h h₁) hshows.inv h₂),
    rfl⟩

/-- **What a patch that removes nothing shows differently** is recorded as added or as updated. -/
theorem applyPatchSet_shows {patch : PatchSet} {applied : AppliedPatchSet} (h : Inv tree)
    (hu : MetadataOk tree patch) (heq : applyPatchSet tree patch = some (tree', applied))
    (hremoved : applied.removed = []) :
    Shows tree applied.added (changedIds applied.updated) tree' := by
  rw [(applyPatchSet_leaves h hu heq).removed] at hremoved
  unfold applyPatchSet at heq
  rw [hremoved] at heq
  obtain ⟨⟨context₁, tree₁⟩, h₁, heq⟩ := Option.bind_eq_some_iff.mp heq
  obtain ⟨rfl, rfl⟩ := Prod.mk.inj (Option.some.inj h₁)
  obtain ⟨⟨context₂, tree₂⟩, h₂, heq⟩ := Option.bind_eq_some_iff.mp heq
  obtain ⟨⟨context₃, tree₃⟩, h₃, heq⟩ := Option.bind_eq_some_iff.mp heq
  obtain ⟨new, hadds, hadded⟩ := applyAdditions_shows h h₂
  obtain ⟨updated, hup, hupdated⟩ := applyUpdates_shows hadds.inv
    (fun u hmem hm => (hadds.present _).mpr (Or.inl (hu u hmem hm).1)) h₃
  obtain ⟨hfinal, rfl⟩ := finalizePatchApplication_shows hup.inv heq
  rw [hupdated, hadded]
  have hall := (hadds.trans hup).trans hfinal
  simp only [List.append_nil, List.nil_append] at hall
  exact hall

end Roxo
