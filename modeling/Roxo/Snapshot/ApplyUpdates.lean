import Roxo.Snapshot.ApplyAdditions

/-!
# The updates of a patch and its end

What the third phase of `applyPatchSet` and the deferred writes at its end do to the instances.
-/

namespace Roxo

open AssocMap WeakDom RojoTree Forest

/-! ## Changed properties -/

/-- What a changed property is set to, if it is set. -/
def changedValue (ids : Map Ref Ref) (propertyEntry : Option Variant) (old : Option Variant) :
    Option Variant :=
  match propertyEntry with
  | some (.ref referent) =>
    if referent.isNone then old else some (.ref ((ids.lookup referent).getD referent))
  | some value => some value
  | none => none

theorem lookup_applyProperty (ids : Map Ref Ref) (properties : UstrMap Variant) (key k : String)
    (propertyEntry : Option Variant) :
    (applyProperty ids properties key propertyEntry).lookup k =
      if k = key then changedValue ids propertyEntry (properties.lookup k)
      else properties.lookup k := by
  cases propertyEntry with
  | none => exact lookup_erase_eq properties key k
  | some value =>
    cases value with
    | attributes a => exact lookup_insert_eq properties key k _
    | value v =>
      cases v with
      | ref referent =>
        unfold applyProperty changedValue
        cases hn : referent.isNone <;>
          simp only [hn, Bool.false_eq_true, if_true, if_false, lookup_insert_eq, ite_self]
      | _ => exact lookup_insert_eq properties key k _

/-- Only the changed properties differ. -/
theorem lookup_updatedProperties (ids : Map Ref Ref) (changed : UstrMap (Option Variant))
    (properties : UstrMap Variant) (k : String) :
    (updatedProperties ids changed properties).lookup k =
      (changed.lookup k).elim (properties.lookup k) fun propertyEntry =>
        changedValue ids propertyEntry (properties.lookup k) :=
  lookup_foldl (g := fun _ propertyEntry old => changedValue ids propertyEntry old)
    changed.nodupKeys (fun m e k => lookup_applyProperty ids m e.1 k e.2) properties k

/-- A changed property is recorded unless it is a null `Ref`. -/
def recordedValue (propertyEntry : Option Variant) (old : Option (Option Variant)) :
    Option (Option Variant) :=
  match propertyEntry with
  | some (.ref referent) => if referent.isNone then old else some propertyEntry
  | _ => some propertyEntry

theorem lookup_recordUpdate (patch : PatchUpdate) (k : String) :
    (recordUpdate patch).changedProperties.lookup k =
      (patch.changedProperties.lookup k).elim none fun propertyEntry =>
        recordedValue propertyEntry none := by
  refine lookup_foldl (g := fun _ propertyEntry old => recordedValue propertyEntry old)
    patch.changedProperties.nodupKeys (fun m e k => ?_) ∅ k
  cases e with
  | mk name propertyEntry =>
    cases propertyEntry with
    | none => exact lookup_insert_eq m name k _
    | some value =>
      cases value with
      | attributes a => exact lookup_insert_eq m name k _
      | value v =>
        cases v with
        | ref referent =>
          unfold recordProperty recordedValue
          cases hn : referent.isNone <;>
            simp only [hn, Bool.false_eq_true, if_true, if_false, lookup_insert_eq, ite_self]
        | _ => exact lookup_insert_eq m name k _

section

variable {D : Type} [WeakDom D] [LawfulWeakDom D] {tree tree' : RojoTree D} {x : Ref}
  {i : Instance} {m : InstanceMetadata} {context context' : PatchApplyContext}
  {updates : List PatchUpdate}

/-! ## Updates -/

/-- The metadata of an updated instance. -/
def updatedMetadata (ids : Map Ref Ref) (patch : PatchUpdate) (i : Instance)
    (m : InstanceMetadata) : InstanceMetadata :=
  deferredMetadata (updatedInstance ids patch i).properties (patch.changedMetadata.getD m)

/-- The updates have been applied and recorded. -/
structure Updated (context : PatchApplyContext) (tree : RojoTree D) (updates : List PatchUpdate)
    (context' : PatchApplyContext) (tree' : RojoTree D) : Prop where
  inv : Inv tree'
  root : tree'.getRootId = tree.getRootId
  issued : ∀ x, Issued tree.inner x → Issued tree'.inner x
  changed : ∀ u ∈ updates, ∀ i m, getByRef tree.inner u.id = some i →
    tree.metadataMap.lookup u.id = some m →
    getByRef tree'.inner u.id = some (updatedInstance context.snapshotIdToInstanceId u i) ∧
      tree'.metadataMap.lookup u.id =
        some (updatedMetadata context.snapshotIdToInstanceId u i m)
  other : ∀ x, x ∉ updates.map PatchUpdate.id → getByRef tree'.inner x = getByRef tree.inner x ∧
    tree'.metadataMap.lookup x = tree.metadataMap.lookup x
  ids : context'.snapshotIdToInstanceId = context.snapshotIdToInstanceId
  refs : context'.hasRefsToRewrite = context.hasRefsToRewrite
  pointers : ∀ x pointer, pointer ∈ context'.attributeRefsToRewrite.get x ↔
    pointer ∈ context.attributeRefsToRewrite.get x ∨ ∃ u ∈ updates, u.id = x ∧
      ∃ i, getByRef tree'.inner x = some i ∧ pointer ∈ pointersOf i.properties
  applied : context'.appliedPatchSet = { context.appliedPatchSet with
    updated := context.appliedPatchSet.updated ++ updates.map recordUpdate }

omit [LawfulWeakDom D] in
theorem applyMetadata_eq (h : Inv tree) (hi : getByRef tree.inner x = some i)
    (hm : tree.metadataMap.lookup x = some m) (changed : Option InstanceMetadata) :
    ∃ tree', applyMetadata tree x changed = tree' ∧ Inv tree' ∧ tree'.inner = tree.inner ∧
      ∀ y, tree'.metadataMap.lookup y =
        if y = x then some (changed.getD m) else tree.metadataMap.lookup y := by
  unfold applyMetadata
  cases changed with
  | none =>
    refine ⟨tree, rfl, h, rfl, fun y => ?_⟩
    split_ifs with hy
    · rw [hy, hm]
      rfl
    · rfl
  | some metadata =>
    refine ⟨_, rfl, h.updateMetadata hi metadata, inner_updateMetadata _ _ _, fun y => ?_⟩
    rw [metadataMap_updateMetadata, lookup_insert_eq]
    rfl

/-- **One update** writes to one instance. -/
theorem applyUpdateChild_updated (h : Inv tree) {u : PatchUpdate}
    (hi : getByRef tree.inner u.id = some i) (context : PatchApplyContext) :
    ∃ context' tree', applyUpdateChild context tree u = some (context', tree') ∧
      Updated context tree [u] context' tree' := by
  obtain ⟨m, hm⟩ := h.metadata_of_present hi
  obtain ⟨tree₁, heq₁, hinv₁, hinner₁, hmap₁⟩ := applyMetadata_eq h hi hm u.changedMetadata
  have hi₁ : getByRef tree₁.inner u.id = some i := by rw [hinner₁, hi]
  obtain ⟨tree₂, heq₂, hw⟩ :=
    hinv₁.getInstanceMut hi₁ (updatedInstance context.snapshotIdToInstanceId u)
  have hi₂ : getByRef tree₂.inner u.id =
      some (updatedInstance context.snapshotIdToInstanceId u i) := by
    rw [hw.getByRef, if_pos rfl, hi₁]
    rfl
  have hm₂ : tree₂.metadataMap.lookup u.id = some (u.changedMetadata.getD m) := by
    rw [hw.metadata, hmap₁, if_pos rfl]
  obtain ⟨tree₃, heq₃, hinv₃, hinner₃, hmap₃⟩ :=
    deferRefProperties_eq context hw.inv hi₂ hm₂
  refine ⟨(context.deferPointers u.id (pointersOf
      (updatedInstance context.snapshotIdToInstanceId u i).properties)).recordUpdated
        (recordUpdate u), tree₃, ?_,
    { inv := hinv₃
      root := ?_
      issued := fun x hx => ?_
      changed := ?_
      other := fun x hx => ?_
      ids := rfl
      refs := rfl
      pointers := fun x pointer => ?_
      applied := rfl }⟩
  · unfold applyUpdateChild
    simp only [heq₁, heq₂, Option.bind_eq_bind, Option.bind_some, heq₃]
  · unfold getRootId
    rw [hinner₃]
    exact hw.root.trans (congrArg rootRef hinner₁)
  · rw [hinner₃]
    exact hw.issued x (hinner₁ ▸ hx)
  · intro v hv j n hj hn
    rw [List.mem_singleton.mp hv] at hj hn ⊢
    obtain rfl := Option.some.inj (hi.symm.trans hj)
    obtain rfl := Option.some.inj (hm.symm.trans hn)
    refine ⟨hinner₃ ▸ hi₂, ?_⟩
    rw [hmap₃, if_pos rfl]
    rfl
  · have hne : x ≠ u.id := fun he => hx (List.mem_singleton.mpr he)
    refine ⟨?_, ?_⟩
    · rw [hinner₃, hw.getByRef, if_neg hne, hinner₁]
    · rw [hmap₃, if_neg hne, hw.metadata, hmap₁, if_neg hne]
  · change pointer ∈ (context.deferPointers u.id _).attributeRefsToRewrite.get x ↔ _
    rw [mem_deferPointers]
    simp only [List.mem_singleton, exists_eq_left]
    refine or_congr Iff.rfl ⟨?_, ?_⟩
    · rintro ⟨rfl, hmem⟩
      exact ⟨rfl, _, hinner₃ ▸ hi₂, hmem⟩
    · rintro ⟨rfl, j, hj, hmem⟩
      rw [hinner₃, hi₂] at hj
      exact ⟨rfl, Option.some.inj hj ▸ hmem⟩

omit [LawfulWeakDom D] in
theorem Updated.refl (h : Inv tree) : Updated context tree [] context tree where
  inv := h
  root := rfl
  issued _ := id
  changed _ hu := nomatch hu
  other _ _ := ⟨rfl, rfl⟩
  ids := rfl
  refs := rfl
  pointers x _ := by simp only [List.not_mem_nil, false_and, exists_false, or_false]
  applied := by rw [List.map_nil, List.append_nil]

/-- **The update phase**, when no instance is updated twice. -/
theorem applyUpdates (h : Inv tree) (hp : ∀ u ∈ updates, (getByRef tree.inner u.id).isSome)
    (hnodup : (updates.map PatchUpdate.id).Nodup) (context : PatchApplyContext) :
    ∃ context' tree', updates.foldlM
        (fun state updatePatch => applyUpdateChild state.1 state.2 updatePatch) (context, tree) =
        some (context', tree') ∧
      Updated context tree updates context' tree' := by
  induction updates generalizing tree context with
  | nil => exact ⟨context, tree, rfl, Updated.refl h⟩
  | cons u updates ih =>
    obtain ⟨hu, hnodup⟩ := List.nodup_cons.mp hnodup
    obtain ⟨i, hi⟩ := Option.isSome_iff_exists.mp (hp u List.mem_cons_self)
    obtain ⟨context₁, tree₁, heq₁, h₁⟩ := applyUpdateChild_updated h hi context
    have hne : ∀ v ∈ updates, v.id ∉ [u].map PatchUpdate.id := by
      intro v hv hmem
      rw [List.map_singleton, List.mem_singleton] at hmem
      exact hu (hmem ▸ List.mem_map_of_mem hv)
    have hp₁ : ∀ v ∈ updates, (getByRef tree₁.inner v.id).isSome := by
      intro v hv
      rw [(h₁.other _ (hne v hv)).1]
      exact hp v (List.mem_cons_of_mem _ hv)
    obtain ⟨context₂, tree₂, heq₂, h₂⟩ := ih h₁.inv hp₁ hnodup context₁
    refine ⟨context₂, tree₂, ?_,
      { inv := h₂.inv
        root := h₂.root.trans h₁.root
        issued := fun x hx => h₂.issued x (h₁.issued x hx)
        changed := ?_
        other := fun x hx => ?_
        ids := h₂.ids.trans h₁.ids
        refs := h₂.refs.trans h₁.refs
        pointers := fun x pointer => ?_
        applied := ?_ }⟩
    · rw [List.foldlM_cons, heq₁]
      exact heq₂
    · intro v hv j n hj hn
      rcases List.mem_cons.mp hv with rfl | hv
      · obtain ⟨hi₂, hm₂⟩ := h₂.other _ hu
        obtain ⟨hi₁, hm₁⟩ := h₁.changed v List.mem_cons_self j n hj hn
        exact ⟨hi₂.trans hi₁, hm₂.trans hm₁⟩
      · obtain ⟨hi₁, hm₁⟩ := h₁.other _ (hne v hv)
        rw [← h₁.ids]
        exact h₂.changed v hv j n (hi₁.trans hj) (hm₁.trans hn)
    · rw [List.map_cons, List.mem_cons, not_or] at hx
      obtain ⟨hi₂, hm₂⟩ := h₂.other _ hx.2
      obtain ⟨hi₁, hm₁⟩ := h₁.other x (mt List.mem_singleton.mp hx.1)
      exact ⟨hi₂.trans hi₁, hm₂.trans hm₁⟩
    · rw [h₂.pointers, h₁.pointers, or_assoc]
      simp only [List.mem_cons, List.not_mem_nil, or_false, or_and_right, exists_or,
        exists_eq_left]
      refine or_congr Iff.rfl (or_congr (and_congr_right fun hx => ?_) Iff.rfl)
      rw [← hx, (h₂.other _ hu).1]
    · rw [h₂.applied, h₁.applied, List.map_cons, List.append_assoc]
      rfl

/-! ## Deferred writes -/

theorem expectInstanceMut_eq (h : Inv tree) (hi : getByRef tree.inner x = some i)
    (f : UstrMap Variant → UstrMap Variant) :
    ∃ tree', expectInstanceMut tree x f = some tree' ∧
      Written tree x (fun inst => { inst with properties := f inst.properties }) tree' := by
  obtain ⟨tree', heq, hw⟩ :=
    h.getInstanceMut hi fun inst => { inst with properties := f inst.properties }
  refine ⟨tree', ?_, hw⟩
  unfold expectInstanceMut
  rw [heq]
  rfl

/-- The properties of some instances have been rewritten. -/
structure Rewritten {α : Type} (tree : RojoTree D) (key : α → Ref)
    (f : α → UstrMap Variant → UstrMap Variant) (l : List α) (tree' : RojoTree D) : Prop where
  inv : Inv tree'
  root : tree'.getRootId = tree.getRootId
  issued : ∀ x, Issued tree.inner x → Issued tree'.inner x
  metadata : tree'.metadataMap = tree.metadataMap
  specified : tree'.specifiedIdToRefs = tree.specifiedIdToRefs
  changed : ∀ a ∈ l, ∀ i, getByRef tree.inner (key a) = some i →
    getByRef tree'.inner (key a) = some { i with properties := f a i.properties }
  other : ∀ x, x ∉ l.map key → getByRef tree'.inner x = getByRef tree.inner x

/-- A loop of deferred writes that looks at the tree only for the user-specified ids. -/
theorem rewriteAll {α : Type} (key : α → Ref)
    {g : RojoTree D → α → UstrMap Variant → UstrMap Variant}
    {f : α → UstrMap Variant → UstrMap Variant} {l : List α} (h : Inv tree)
    (hg : ∀ tree' : RojoTree D, tree'.specifiedIdToRefs = tree.specifiedIdToRefs → ∀ a,
      g tree' a = f a)
    (hp : ∀ a ∈ l, (getByRef tree.inner (key a)).isSome) (hnodup : (l.map key).Nodup) :
    ∃ tree', l.foldlM (fun tree a => expectInstanceMut tree (key a) (g tree a)) tree =
      some tree' ∧ Rewritten tree key f l tree' := by
  induction l generalizing tree with
  | nil => exact ⟨tree, rfl, h, rfl, fun _ => id, rfl, rfl, fun _ ha => absurd ha List.not_mem_nil,
      fun _ _ => rfl⟩
  | cons a l ih =>
    obtain ⟨ha, hnodup⟩ := List.nodup_cons.mp hnodup
    obtain ⟨i, hi⟩ := Option.isSome_iff_exists.mp (hp a List.mem_cons_self)
    obtain ⟨tree₁, heq₁, hw⟩ := expectInstanceMut_eq h hi (g tree a)
    have hne : ∀ b ∈ l, key b ≠ key a := fun b hb he => ha (he ▸ List.mem_map_of_mem hb)
    obtain ⟨tree', heq, hr⟩ := ih hw.inv (fun t ht => hg t (ht.trans hw.specified))
      (fun b hb => by
        rw [hw.getByRef, if_neg (hne b hb)]
        exact hp b (List.mem_cons_of_mem _ hb)) hnodup
    refine ⟨tree', ?_, hr.inv, hr.root.trans hw.root, fun x hx => hr.issued x (hw.issued x hx),
      hr.metadata.trans hw.metadata, hr.specified.trans hw.specified, ?_, fun x hx => ?_⟩
    · rw [List.foldlM_cons, heq₁]
      exact heq
    · intro b hb j hj
      rcases List.mem_cons.mp hb with rfl | hb
      · rw [hr.other _ ha, hw.getByRef, if_pos rfl, hj, hg tree rfl]
        rfl
      · refine hr.changed b hb j ?_
        rw [hw.getByRef, if_neg (hne b hb), hj]
    · rw [List.map_cons, List.mem_cons, not_or] at hx
      rw [hr.other x hx.2, hw.getByRef, if_neg hx.1]

/-- The properties of an instance after the deferred writes. -/
def finalProperties (context : PatchApplyContext) (tree : RojoTree D) (x : Ref)
    (properties : UstrMap Variant) : UstrMap Variant :=
  extend
    (if x ∈ context.hasRefsToRewrite then
      mapVal (fun _ value => rewriteRef context.snapshotIdToInstanceId value) properties
    else properties)
    (realRewrites tree (context.attributeRefsToRewrite.get x))

/-- The deferred writes have been done. -/
structure Finalized (context : PatchApplyContext) (tree tree' : RojoTree D) : Prop where
  inv : Inv tree'
  root : tree'.getRootId = tree.getRootId
  issued : ∀ x, Issued tree.inner x → Issued tree'.inner x
  metadata : tree'.metadataMap = tree.metadataMap
  specified : tree'.specifiedIdToRefs = tree.specifiedIdToRefs
  getByRef : ∀ x, getByRef tree'.inner x = (getByRef tree.inner x).map fun i =>
    { i with properties := finalProperties context tree x i.properties }

omit [WeakDom D] [LawfulWeakDom D] in
theorem realRewrites_congr (h : tree'.specifiedIdToRefs = tree.specifiedIdToRefs) :
    realRewrites tree' = realRewrites tree := by
  funext deferred
  unfold realRewrites getSpecifiedId
  rw [h]

/-- **The end of a patch** writes the properties that had to wait. -/
theorem finalizePatchApplication_eq (h : Inv tree) (hnodup : context.hasRefsToRewrite.Nodup)
    (hrefs : ∀ x ∈ context.hasRefsToRewrite, (getByRef tree.inner x).isSome)
    (hpointers : ∀ x, context.attributeRefsToRewrite.get x ≠ [] → (getByRef tree.inner x).isSome) :
    ∃ tree', finalizePatchApplication context tree = some (tree', context.appliedPatchSet) ∧
      Finalized context tree tree' := by
  obtain ⟨tree₁, heq₁, h₁⟩ := rewriteAll id (l := context.hasRefsToRewrite)
    (g := fun _ _ => mapVal fun _ value => rewriteRef context.snapshotIdToInstanceId value)
    (f := fun _ => mapVal fun _ value => rewriteRef context.snapshotIdToInstanceId value) h
    (fun _ _ _ => rfl) hrefs (by rwa [List.map_id])
  have hbucket : ∀ e ∈ context.attributeRefsToRewrite.inner.entries,
      context.attributeRefsToRewrite.get e.1 = e.2 := by
    intro e he
    unfold MultiMap.get
    rw [Option.mem_def.mp (AList.mem_lookup_iff.mpr he)]
    rfl
  have hpresent : ∀ x, (getByRef tree.inner x).isSome → (getByRef tree₁.inner x).isSome := by
    intro x hx
    obtain ⟨i, hi⟩ := Option.isSome_iff_exists.mp hx
    by_cases hmem : x ∈ context.hasRefsToRewrite
    · rw [show x = id x from rfl, h₁.changed x hmem i hi]
      rfl
    · rw [h₁.other x (by rwa [List.map_id]), hi]
      rfl
  obtain ⟨tree₂, heq₂, h₂⟩ := rewriteAll Sigma.fst
    (l := context.attributeRefsToRewrite.inner.entries)
    (g := fun tree entry properties => extend properties (realRewrites tree entry.2))
    (f := fun entry properties => extend properties (realRewrites tree entry.2)) h₁.inv
    (fun t ht entry => by rw [realRewrites_congr (ht.trans h₁.specified)])
    (fun e he => hpresent _ (hpointers _ (by
      rw [hbucket e he]
      exact context.attributeRefsToRewrite.ne_nil _ _ (AList.mem_lookup_iff.mpr he))))
    context.attributeRefsToRewrite.inner.nodupKeys
  refine ⟨tree₂, ?_, h₂.inv, h₂.root.trans h₁.root, fun x hx => h₂.issued x (h₁.issued x hx),
    h₂.metadata.trans h₁.metadata, h₂.specified.trans h₁.specified, fun x => ?_⟩
  · unfold finalizePatchApplication
    simp only [id] at heq₁
    rw [heq₁]
    simp only [Option.bind_eq_bind, Option.bind_some]
    rw [heq₂]
    rfl
  · have hone : WeakDom.getByRef tree₁.inner x = (WeakDom.getByRef tree.inner x).map fun i =>
        { i with
          properties :=
            if x ∈ context.hasRefsToRewrite then
              mapVal (fun _ value => rewriteRef context.snapshotIdToInstanceId value) i.properties
            else i.properties } := by
      by_cases hmem : x ∈ context.hasRefsToRewrite
      · obtain ⟨i, hi⟩ := Option.isSome_iff_exists.mp (hrefs x hmem)
        simp only [if_pos hmem]
        rw [hi]
        exact h₁.changed x hmem i hi
      · simp only [if_neg hmem]
        rw [h₁.other x (by rwa [List.map_id])]
        exact Option.map_id'.symm
    unfold finalProperties
    by_cases hmem : x ∈ context.attributeRefsToRewrite.inner.entries.map Sigma.fst
    · obtain ⟨e, he, rfl⟩ := List.mem_map.mp hmem
      have hne : context.attributeRefsToRewrite.get e.1 ≠ [] := by
        rw [hbucket e he]
        exact context.attributeRefsToRewrite.ne_nil _ _ (AList.mem_lookup_iff.mpr he)
      obtain ⟨i, hi⟩ := Option.isSome_iff_exists.mp (hpointers e.1 hne)
      rw [hi] at hone ⊢
      rw [hbucket e he]
      exact h₂.changed e he _ hone
    · have hnil : context.attributeRefsToRewrite.get x = [] := by
        unfold MultiMap.get
        rw [AList.lookup_eq_none.mpr (mt AList.mem_keys.mp hmem)]
        rfl
      rw [h₂.other x hmem, hone, hnil]
      rfl

end

end Roxo
