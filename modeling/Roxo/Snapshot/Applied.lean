import Roxo.Snapshot.ApplyRemovals
import Roxo.Snapshot.ApplyUpdates

/-!
# What applying a patch does

`Applied` describes the tree after a patch instance by instance: those that are gone, created,
updated, or kept with at most other children. `applyPatchSet_applied` proves it of every patch
whose parts fit the tree (`PatchOk`).
-/

namespace Roxo

open AssocMap WeakDom RojoTree Forest

/-! ## Pointers -/

section Pointers

variable {D : Type} {tree tree' : RojoTree D} {pointers : List (String × String)} {k : String}

/-- The instance that a pointer to `target` sets a property to. -/
def pointee (tree : RojoTree D) (target : String) : Option Variant :=
  (tree.getSpecifiedId ⟨target⟩).map Variant.ref

/-- What the pointers set the property `k` to, if they do. -/
def resolved (tree : RojoTree D) (pointers : List (String × String)) (k : String) :
    Option Variant :=
  (pointers.lookup k).bind (pointee tree)

theorem lookup_eq_some_iff (h : (pointers.map Prod.fst).Nodup) {target : String} :
    pointers.lookup k = some target ↔ (k, target) ∈ pointers := by
  induction pointers with
  | nil => simp only [List.lookup_nil, reduceCtorEq, List.not_mem_nil]
  | cons e pointers ih =>
    obtain ⟨l, t⟩ := e
    obtain ⟨hl, h⟩ := List.nodup_cons.mp h
    rw [List.lookup_cons, List.mem_cons, Prod.mk.injEq]
    by_cases hk : k = l
    · subst hk
      have hnot : (k, target) ∉ pointers := fun hm => hl (List.mem_map.mpr ⟨_, hm, rfl⟩)
      simp only [BEq.rfl, Option.some.injEq, true_and, hnot, or_false]
      exact eq_comm
    · simp only [beq_eq_false_iff_ne.mpr hk, hk, false_and, false_or]
      exact ih h

theorem resolved_eq_some_iff (h : (pointers.map Prod.fst).Nodup) {v : Variant} :
    resolved tree pointers k = some v ↔
      ∃ target, (k, target) ∈ pointers ∧ pointee tree target = some v := by
  unfold resolved
  rw [Option.bind_eq_some_iff]
  simp only [lookup_eq_some_iff h]

/-- The deferred writes of an instance set its properties to what its pointers resolve to, in
whatever order they were noted. -/
theorem lookup_extend_realRewrites {deferred : List (String × String)}
    (h : (pointers.map Prod.fst).Nodup) (hd : deferred.Nodup)
    (hmem : ∀ p, p ∈ deferred ↔ p ∈ pointers) (properties : UstrMap Variant) :
    (extend properties (realRewrites tree deferred)).lookup k =
      (resolved tree pointers k).or (properties.lookup k) := by
  have hkeys : ((realRewrites tree deferred).map Prod.fst).Nodup := by
    have hperm : deferred.Perm pointers := (List.perm_ext_iff_of_nodup hd h.of_map).mpr hmem
    have hd' : (deferred.map Prod.fst).Nodup := (hperm.map _).nodup_iff.mpr h
    unfold realRewrites
    rw [List.Nodup, List.pairwise_map, List.pairwise_filterMap]
    refine (List.pairwise_map.mp hd').imp ?_
    rintro ⟨a, t⟩ ⟨b, t'⟩ hne e he e' he'
    obtain ⟨r, -, rfl⟩ := Option.map_eq_some_iff.mp he
    obtain ⟨r', -, rfl⟩ := Option.map_eq_some_iff.mp he'
    exact hne
  rw [lookup_extend]
  congr 1
  refine Option.ext fun v => ?_
  rw [lookup_extend_empty hkeys, resolved_eq_some_iff h]
  unfold realRewrites pointee
  rw [List.mem_filterMap]
  constructor
  · rintro ⟨⟨l, target⟩, hl, he⟩
    obtain ⟨r, hr, he⟩ := Option.map_eq_some_iff.mp he
    obtain ⟨rfl, rfl⟩ := Prod.mk.inj he
    exact ⟨target, (hmem _).mp hl, Option.map_eq_some_iff.mpr ⟨r, hr, rfl⟩⟩
  · rintro ⟨target, hl, hr⟩
    obtain ⟨r, hr', rfl⟩ := Option.map_eq_some_iff.mp hr
    exact ⟨(k, target), (hmem _).mpr hl, Option.map_eq_some_iff.mpr ⟨r, hr', rfl⟩⟩

theorem pointee_congr (h : tree'.specifiedIdToRefs = tree.specifiedIdToRefs) :
    pointee tree' = pointee tree := by
  funext target
  unfold pointee getSpecifiedId
  rw [h]

theorem resolved_congr (h : tree'.specifiedIdToRefs = tree.specifiedIdToRefs) :
    resolved tree' pointers k = resolved tree pointers k := by
  unfold resolved
  rw [pointee_congr h]

end Pointers

/-- The instances that the snapshot ids of added snapshots stand for. -/
def createdIds (created : List Creation) : Map Ref Ref :=
  extend ∅ (pairIds (created.map Creation.pair))

theorem isSome_of_mem_pairIds {pairs : List (InstanceSnapshot × Ref)} {e : Ref × Ref}
    (h : e ∈ pairIds pairs) : e.1.isSome = true := by
  unfold pairIds at h
  obtain ⟨p, hp, rfl⟩ := List.mem_map.mp h
  exact (List.mem_filter.mp hp).2

/-- The null `Ref` is never a snapshot id. -/
theorem lookup_pairIds_null (pairs : List (InstanceSnapshot × Ref)) :
    (extend (∅ : Map Ref Ref) (pairIds pairs)).lookup Ref.none = none := by
  rw [lookup_extend_of_not_mem]
  · exact AList.lookup_empty _
  · intro h
    obtain ⟨e, he, hnull⟩ := List.mem_map.mp h
    have := isSome_of_mem_pairIds he
    rw [hnull] at this
    cases this

/-- Without a `Ref` that is not null there is nothing to rewrite. -/
theorem rewriteRef_of_not_hasRefs {ids : Map Ref Ref} {properties : UstrMap Variant}
    (hnull : ids.lookup Ref.none = none) (h : hasRefs properties = false) {k : String}
    {v : Variant} (hv : properties.lookup k = some v) : rewriteRef ids v = v := by
  refine rewriteRef_of_lookup_none fun r hr => ?_
  have hmem : Sigma.mk k v ∈ properties.entries := AList.mem_lookup_iff.mp hv
  have hnot := List.any_eq_false.mp h _ hmem
  rw [hr] at hnot
  have hrn : r = Ref.none := by
    by_contra hne
    exact hnot (Ref.isSome_iff.mpr hne)
  rw [hrn, hnull]

/-! ## Patches that fit a tree -/

section

variable {D : Type} [WeakDom D] [LawfulWeakDom D] {tree tree' : RojoTree D} {patch : PatchSet}
  {x : Ref} {i : Instance}

/-- What is removed, what is added to and what is updated is in the tree, and nothing is added to
or updated below a removed instance. -/
structure PatchOk (tree : RojoTree D) (patch : PatchSet) : Prop where
  removable : Removable tree patch.removedInstances
  parents : ∀ a ∈ patch.addedInstances, (getByRef tree.inner a.parentId).isSome ∧
    ¬ Below tree patch.removedInstances a.parentId
  updated : ∀ u ∈ patch.updatedInstances, (getByRef tree.inner u.id).isSome ∧
    ¬ Below tree patch.removedInstances u.id
  nodup : (patch.updatedInstances.map PatchUpdate.id).Nodup

/-- The children of a surviving instance after a patch. -/
def childrenAfter (patch : PatchSet) (tops : List Ref) (i : Instance) : List Ref :=
  i.children.filter (· ∉ patch.removedInstances) ++ topsBelow patch.addedInstances tops i.referent

/-- **The tree after a patch**, instance by instance. -/
structure Applied (tree : RojoTree D) (patch : PatchSet) (tops : List Ref)
    (created : List Creation) (tree' : RojoTree D) (applied : AppliedPatchSet) : Prop where
  inv : Inv tree'
  root : tree'.getRootId = tree.getRootId
  issued : ∀ x, Issued tree.inner x → Issued tree'.inner x
  creates : CreatesAll patch.addedInstances tops created
  nodup : (created.map Creation.id).Nodup
  fresh : ∀ c ∈ created, ¬ Issued tree.inner c.id
  ne_null : ∀ c ∈ created, c.id ≠ Ref.none
  made : ∀ c ∈ created, ∃ properties,
    getByRef tree'.inner c.id = some { c.inst with properties := properties } ∧
    ∀ k, properties.lookup k = (resolved tree' (pointersOf c.snapshot.properties) k).or
      ((c.inst.properties.lookup k).map (rewriteRef (createdIds created)))
  madeMetadata : ∀ c ∈ created, tree'.metadataMap.lookup c.id =
    some (deferredMetadata c.snapshot.properties c.snapshot.metadata)
  gone : ∀ x, Below tree patch.removedInstances x → getByRef tree'.inner x = none
  absent : ∀ x, getByRef tree.inner x = none → x ∉ created.map Creation.id →
    getByRef tree'.inner x = none
  kept : ∀ x i, getByRef tree.inner x = some i → ¬ Below tree patch.removedInstances x →
    x ∉ patch.updatedInstances.map PatchUpdate.id →
    getByRef tree'.inner x = some { i with children := childrenAfter patch tops i } ∧
      tree'.metadataMap.lookup x = tree.metadataMap.lookup x
  updated : ∀ u ∈ patch.updatedInstances, ∀ i m, getByRef tree.inner u.id = some i →
    tree.metadataMap.lookup u.id = some m → ∃ properties,
    getByRef tree'.inner u.id = some { updatedInstance (createdIds created) u i with
      children := childrenAfter patch tops i
      properties := properties } ∧
    (∀ k, properties.lookup k = (resolved tree' (pointersOf
        (updatedInstance (createdIds created) u i).properties) k).or
      ((updatedInstance (createdIds created) u i).properties.lookup k)) ∧
    tree'.metadataMap.lookup u.id = some (updatedMetadata (createdIds created) u i m)
  recorded : applied =
    { removed := patch.removedInstances
      added := created.map Creation.id
      updated := patch.updatedInstances.map recordUpdate }

/-- The context after the removals knows only these. -/
def afterRemovals (removed : List Ref) : PatchApplyContext :=
  { PatchApplyContext.default with appliedPatchSet := ⟨removed, [], []⟩ }

omit [WeakDom D] [LawfulWeakDom D] in
theorem foldl_recordRemoved (context : PatchApplyContext) (removed : List Ref) :
    removed.foldl PatchApplyContext.recordRemoved context =
      { context with appliedPatchSet := { context.appliedPatchSet with
          removed := context.appliedPatchSet.removed ++ removed } } := by
  induction removed generalizing context with
  | nil => rw [List.append_nil]; rfl
  | cons x removed ih =>
    rw [List.foldl_cons, ih]
    unfold PatchApplyContext.recordRemoved
    rw [List.append_assoc]
    rfl

omit [WeakDom D] [LawfulWeakDom D] in
/-- A created instance without a `Ref` that is not null need not be rewritten. -/
theorem Creation.map_rewriteRef {ids : Map Ref Ref} {c : Creation}
    (hnull : ids.lookup Ref.none = none) (h : hasRefs c.snapshot.properties = false)
    (k : String) : (c.inst.properties.lookup k).map (rewriteRef ids) = c.inst.properties.lookup k := by
  change (c.properties.lookup k).map _ = c.properties.lookup k
  rcases c.stored k with heq | ⟨-, id, id', -, heq⟩
  swap
  · rw [heq]
    rfl
  rw [heq, lookup_snapshotBuilder]
  cases hv : c.snapshot.properties.lookup k with
  | none => split_ifs <;> rfl
  | some v => rw [Option.some_or, Option.map_some, rewriteRef_of_not_hasRefs hnull h hv]

theorem applyPatchSet_applied (h : Inv tree) (hok : PatchOk tree patch) :
    ∃ tops created tree' applied, applyPatchSet tree patch = some (tree', applied) ∧
      Applied tree patch tops created tree' applied := by
  obtain ⟨tree₁, heq₁, h₁⟩ := applyRemovals h hok.removable PatchApplyContext.default
  have hcontext : patch.removedInstances.foldl PatchApplyContext.recordRemoved
      PatchApplyContext.default = afterRemovals patch.removedInstances :=
    foldl_recordRemoved _ _
  rw [hcontext] at heq₁
  obtain ⟨tops, created, context₂, tree₂, heq₂, hc₂, h₂⟩ :=
    applyAdditions h₁.inv patch.addedInstances (fun a ha => by
      rw [h₁.kept _ (hok.parents a ha).2, Option.isSome_map]
      exact (hok.parents a ha).1) (afterRemovals patch.removedInstances)
  -- a created instance was not there before
  have hissued : ∀ x, Issued tree₁.inner x → x ∉ created.map Creation.id := by
    intro x hx hmem
    obtain ⟨c, hc, rfl⟩ := List.mem_map.mp hmem
    exact h₂.fresh c hc hx
  have hnew : ∀ x, (getByRef tree₁.inner x).isSome → x ∉ created.map Creation.id := by
    intro x hx
    obtain ⟨i, hi⟩ := Option.isSome_iff_exists.mp hx
    exact hissued x (LawfulWeakDom.issued_of_present _ hi)
  have hu₁ : ∀ u ∈ patch.updatedInstances, (getByRef tree₁.inner u.id).isSome := by
    intro u hu
    rw [h₁.kept _ (hok.updated u hu).2, Option.isSome_map]
    exact (hok.updated u hu).1
  have hu₂ : ∀ u ∈ patch.updatedInstances, (getByRef tree₂.inner u.id).isSome := by
    intro u hu
    rw [h₂.old _ (hnew _ (hu₁ u hu)), Option.isSome_map]
    exact hu₁ u hu
  obtain ⟨context₃, tree₃, heq₃, h₃⟩ := applyUpdates h₂.inv hu₂ hok.nodup context₂
  have hcu : ∀ c ∈ created, c.id ∉ patch.updatedInstances.map PatchUpdate.id := by
    intro c hc hmem
    obtain ⟨u, hu, heq⟩ := List.mem_map.mp hmem
    exact hnew _ (hu₁ u hu) (heq ▸ List.mem_map_of_mem hc)
  have hmade₃ : ∀ c ∈ created, getByRef tree₃.inner c.id = some c.inst := fun c hc =>
    (h₃.other _ (hcu c hc)).1.trans (h₂.made c hc)
  have hids : context₃.snapshotIdToInstanceId = createdIds created := by
    rw [h₃.ids, h₂.ids]
    rfl
  have hrefs : ∀ x, x ∈ context₃.hasRefsToRewrite ↔
      ∃ c ∈ created, c.id = x ∧ hasRefs c.snapshot.properties = true := by
    intro x
    rw [h₃.refs, h₂.refs]
    simp only [afterRemovals, PatchApplyContext.default, List.not_mem_nil, false_or]
  have hpointers : ∀ x pointer, pointer ∈ context₃.attributeRefsToRewrite.get x ↔
      (∃ c ∈ created, c.id = x ∧ pointer ∈ pointersOf c.snapshot.properties) ∨
        ∃ u ∈ patch.updatedInstances, u.id = x ∧
          ∃ i, getByRef tree₃.inner x = some i ∧ pointer ∈ pointersOf i.properties := by
    intro x pointer
    rw [h₃.pointers, h₂.pointers]
    simp only [afterRemovals, PatchApplyContext.default, MultiMap.get_new, List.not_mem_nil,
      false_or]
  obtain ⟨tree₄, heq₄, h₄⟩ := finalizePatchApplication_eq h₃.inv
    (h₃.refs ▸ h₂.refsNodup List.nodup_nil)
    (fun x hx => by
      obtain ⟨c, hc, rfl, -⟩ := (hrefs x).mp hx
      rw [hmade₃ c hc]
      rfl)
    (fun x hx => by
      obtain ⟨pointer, hmem⟩ := List.exists_mem_of_ne_nil _ hx
      rcases (hpointers x pointer).mp hmem with ⟨c, hc, rfl, -⟩ | ⟨u, -, -, i, hi, -⟩
      · rw [hmade₃ c hc]
        rfl
      · rw [hi]
        rfl)
  have habsent : ∀ x, getByRef tree₁.inner x = none → x ∉ created.map Creation.id →
      getByRef tree₄.inner x = none := by
    intro x hx hxc
    have hx₂ : getByRef tree₂.inner x = none := by
      rw [h₂.old x hxc, hx]
      rfl
    have hxu : x ∉ patch.updatedInstances.map PatchUpdate.id := by
      intro hmem
      obtain ⟨u, hu, rfl⟩ := List.mem_map.mp hmem
      have := hu₂ u hu
      rw [hx₂] at this
      cases this
    rw [h₄.getByRef, (h₃.other x hxu).1, hx₂]
    rfl
  have hsurvive : ∀ x i, getByRef tree.inner x = some i →
      ¬ Below tree patch.removedInstances x →
      getByRef tree₂.inner x = some { i with children := childrenAfter patch tops i } ∧
        x ∉ created.map Creation.id := by
    intro x i hi hx
    have hi₁ := h₁.kept x hx
    rw [hi] at hi₁
    have hxc := hnew x (by rw [hi₁]; rfl)
    obtain rfl := LawfulWeakDom.referent_eq _ hi
    refine ⟨?_, hxc⟩
    rw [h₂.old _ hxc, hi₁]
    rfl
  refine ⟨tops, created, tree₄, context₃.appliedPatchSet, ?_,
    { inv := h₄.inv
      root := h₄.root.trans (h₃.root.trans (h₂.root.trans h₁.root))
      issued := fun x hx => h₄.issued x (h₃.issued x (h₂.issued x (h₁.issued x hx)))
      creates := hc₂
      nodup := h₂.nodup
      fresh := fun c hc hi => h₂.fresh c hc (h₁.issued _ hi)
      ne_null := h₂.ne_null
      made := fun c hc => ?_
      madeMetadata := fun c hc => ?_
      gone := fun x hx => ?_
      absent := fun x hx hxc => ?_
      kept := fun x i hi hx hxu => ?_
      updated := fun u hu i m hi hm => ?_
      recorded := ?_ }⟩
  · unfold applyPatchSet
    rw [heq₁]
    simp only [Option.bind_eq_bind, Option.bind_some]
    rw [heq₂]
    simp only [Option.bind_some]
    rw [heq₃]
    exact heq₄
  · have hmem : ∀ pointer, pointer ∈ context₃.attributeRefsToRewrite.get c.id ↔
        pointer ∈ pointersOf c.snapshot.properties := by
      intro pointer
      rw [hpointers]
      refine ⟨?_, fun hp => Or.inl ⟨c, hc, rfl, hp⟩⟩
      rintro (⟨d, hd, heq, hp⟩ | ⟨u, hu, heq, -⟩)
      · rwa [List.inj_on_of_nodup_map h₂.nodup hd hc heq] at hp
      · exact absurd (heq ▸ List.mem_map_of_mem hu) (hcu c hc)
    refine ⟨_, by rw [h₄.getByRef, hmade₃ c hc]; rfl, fun k => ?_⟩
    unfold finalProperties
    rw [lookup_extend_realRewrites (nodup_pointersOf c.snapshot.properties)
      (MultiMap.nodup_get _ _) hmem, resolved_congr h₄.specified, hids]
    refine congrArg _ ?_
    split_ifs with hr
    · rw [lookup_mapVal]
    · refine (Creation.map_rewriteRef (lookup_pairIds_null _) ?_ k).symm
      rw [← Bool.not_eq_true]
      exact fun hrefs' => hr ((hrefs _).mpr ⟨c, hc, rfl, hrefs'⟩)
  · rw [h₄.metadata, (h₃.other _ (hcu c hc)).2, h₂.madeMetadata c hc]
  · obtain ⟨y, hy, hyx⟩ := hx
    obtain ⟨i, hi⟩ := Option.isSome_iff_exists.mp
      (present_of_desc (hok.removable.present y hy) hyx)
    exact habsent x (h₁.gone x ⟨y, hy, hyx⟩)
      (hissued x (h₁.issued x (LawfulWeakDom.issued_of_present _ hi)))
  · refine habsent x ?_ hxc
    by_cases hb : Below tree patch.removedInstances x
    · exact h₁.gone x hb
    · rw [h₁.kept x hb, hx]
      rfl
  · obtain ⟨hi₂, hxc⟩ := hsurvive x i hi hx
    have href : x ∉ context₃.hasRefsToRewrite := by
      rw [hrefs]
      rintro ⟨c, hc, rfl, -⟩
      exact hxc (List.mem_map_of_mem hc)
    have hnil : context₃.attributeRefsToRewrite.get x = [] := by
      refine List.eq_nil_iff_forall_not_mem.mpr fun pointer hp => ?_
      rcases (hpointers x pointer).mp hp with ⟨c, hc, rfl, -⟩ | ⟨u, hu, rfl, -⟩
      · exact hxc (List.mem_map_of_mem hc)
      · exact hxu (List.mem_map_of_mem hu)
    refine ⟨?_, ?_⟩
    · rw [h₄.getByRef, (h₃.other x hxu).1, hi₂]
      unfold finalProperties
      simp only [hnil, if_neg href]
      rfl
    · rw [h₄.metadata, (h₃.other x hxu).2, h₂.oldMetadata x hxc, h₁.metadata x hx]
  · obtain ⟨hi₂, hxc⟩ := hsurvive u.id i hi (hok.updated u hu).2
    have hm₂ : tree₂.metadataMap.lookup u.id = some m := by
      rw [h₂.oldMetadata _ hxc, h₁.metadata _ (hok.updated u hu).2, hm]
    obtain ⟨hi₃, hm₃⟩ := h₃.changed u hu _ m hi₂ hm₂
    have hids₂ : context₂.snapshotIdToInstanceId = createdIds created := h₃.ids ▸ hids
    rw [hids₂] at hi₃ hm₃
    have href : u.id ∉ context₃.hasRefsToRewrite := by
      rw [hrefs]
      rintro ⟨c, hc, heq, -⟩
      exact hxc (heq ▸ List.mem_map_of_mem hc)
    have hmem : ∀ pointer, pointer ∈ context₃.attributeRefsToRewrite.get u.id ↔
        pointer ∈ pointersOf (updatedInstance (createdIds created) u i).properties := by
      intro pointer
      rw [hpointers]
      constructor
      · rintro (⟨c, hc, heq, -⟩ | ⟨v, -, -, j, hj, hp⟩)
        · exact absurd (heq ▸ List.mem_map_of_mem hc) hxc
        · rw [hi₃] at hj
          rwa [← Option.some.inj hj] at hp
      · exact fun hp => Or.inr ⟨u, hu, rfl, _, hi₃, hp⟩
    refine ⟨_, by rw [h₄.getByRef, hi₃]; rfl, fun k => ?_, ?_⟩
    · unfold finalProperties
      rw [if_neg href, lookup_extend_realRewrites (nodup_pointersOf _) (MultiMap.nodup_get _ _) hmem,
        resolved_congr h₄.specified]
      rfl
    · rw [h₄.metadata, hm₃]
      rfl
  · rw [h₃.applied, h₂.applied]
    rfl

end

end Roxo
