import Roxo.Snapshot.PatchApply
import Roxo.Snapshot.TreeInvariant

/-!
# The additions of a patch

What the second phase of `applyPatchSet` does: the instances it creates, with their parents and
children, and what it notes about them for later.
-/

namespace Roxo

open AssocMap WeakDom RojoTree Forest

/-- An instance made of a snapshot. -/
structure Creation where
  snapshot : InstanceSnapshot
  parent : Ref
  id : Ref
  children : List Ref
  /-- What the DOM has made of the properties. -/
  properties : UstrMap Variant
  stored : Stored (snapshotBuilder snapshot).properties properties

namespace Creation

def inst (c : Creation) : Instance :=
  { (snapshotBuilder c.snapshot).build c.id c.parent with
    children := c.children
    properties := c.properties }

def pair (c : Creation) : InstanceSnapshot × Ref := (c.snapshot, c.id)

end Creation

/-- `Creates p l ids created`: the snapshots `l` have become the children `ids` of `p`, and
`created` are these and everything below them, parents first. -/
inductive Creates : Ref → List InstanceSnapshot → List Ref → List Creation → Prop
  | nil (p : Ref) : Creates p [] [] []
  | cons {p r : Ref} {s : InstanceSnapshot} {l : List InstanceSnapshot} {ids rest : List Ref}
      {below others : List Creation} {properties : UstrMap Variant}
      (stored : Stored (snapshotBuilder s).properties properties) :
      Creates r s.children ids below → Creates p l rest others →
      Creates p (s :: l) (r :: rest) (⟨s, p, r, ids, properties, stored⟩ :: (below ++ others))

/-- Metadata with the id that the attributes give. -/
def deferredMetadata (properties : UstrMap Variant) (m : InstanceMetadata) : InstanceMetadata :=
  match attributeId (attributesOf properties) with
  | some specifiedId => withSpecifiedId m specifiedId
  | none => m

/-- The special case for pivots leaves every other property alone. -/
theorem lookup_snapshotBuilder (s : InstanceSnapshot) (k : String) :
    (snapshotBuilder s).properties.lookup k = (s.properties.lookup k).or
      (if k = needsPivotMigration ∧ s.className ∈ pivotClasses then some (.bool false)
        else none) := by
  change (extend (extend ∅ (hackNeedsPivotMigration s)) (toList s.properties)).lookup k = _
  rw [lookup_extend_toList]
  cases hk : s.properties.lookup k with
  | some v => rfl
  | none =>
    unfold hackNeedsPivotMigration
    have hmem : k = needsPivotMigration → needsPivotMigration ∉ s.properties := by
      rintro rfl
      exact AList.lookup_eq_none.mp hk
    by_cases hc : s.className ∈ pivotClasses ∧ needsPivotMigration ∉ s.properties
    · rw [if_pos hc, extend_cons, extend_nil, lookup_insert_eq, AList.lookup_empty]
      simp only [hc.1, and_true]
    · rw [if_neg hc, extend_nil, AList.lookup_empty]
      have : ¬ (k = needsPivotMigration ∧ s.className ∈ pivotClasses) :=
        fun h => hc ⟨h.2, hmem h.1⟩
      rw [if_neg this]

theorem attributesOf_congr {a b : UstrMap Variant}
    (h : a.lookup "Attributes" = b.lookup "Attributes") : attributesOf a = attributesOf b := by
  unfold attributesOf
  rw [h]

theorem attributesOf_stored {s : InstanceSnapshot} {properties : UstrMap Variant}
    (h : Stored (snapshotBuilder s).properties properties) :
    attributesOf properties = attributesOf s.properties := by
  refine attributesOf_congr ?_
  rw [(h "Attributes").eq_of_ne (by decide), lookup_snapshotBuilder,
    if_neg fun h => absurd h.1 (by decide), Option.or_none]

section

variable {D : Type} [WeakDom D] [LawfulWeakDom D] {tree tree₁ tree₂ : RojoTree D} {p r x : Ref}
  {s : InstanceSnapshot} {i : Instance} {m : InstanceMetadata}
  {context context₁ context₂ : PatchApplyContext} {created created' : List Creation}
  {top top' : Ref → List Ref}

omit [LawfulWeakDom D] in
theorem deferRefProperties_eq (context : PatchApplyContext) (h : Inv tree)
    (hr : getByRef tree.inner r = some i) (hm : tree.metadataMap.lookup r = some m) :
    ∃ tree', deferRefProperties tree r context =
        some (context.deferPointers r (pointersOf i.properties), tree') ∧
      Inv tree' ∧ tree'.inner = tree.inner ∧ ∀ x, tree'.metadataMap.lookup x =
        if x = r then some (deferredMetadata i.properties m) else tree.metadataMap.lookup x := by
  unfold deferRefProperties deferredMetadata
  rw [getInstance_eq hr hm]
  simp only [Option.join_some, Option.bind_eq_bind, Option.bind_some]
  cases attributeId (attributesOf i.properties) with
  | none =>
    refine ⟨tree, rfl, h, rfl, fun x => ?_⟩
    split_ifs with hx
    · rw [hx, hm]
    · rfl
  | some specifiedId =>
    refine ⟨_, rfl, h.setSpecifiedId hr specifiedId, inner_setSpecifiedId _ _ _, fun x => ?_⟩
    rw [setSpecifiedId_eq hm, lookup_insert_eq]

/-- `created` have been added to the tree and noted in the context; `top x` are the new children
of an instance `x` that was there before. -/
structure Grew (context : PatchApplyContext) (tree : RojoTree D) (created : List Creation)
    (top : Ref → List Ref) (context' : PatchApplyContext) (tree' : RojoTree D) : Prop where
  inv : Inv tree'
  root : tree'.getRootId = tree.getRootId
  issued : ∀ x, Issued tree.inner x → Issued tree'.inner x
  nodup : (created.map Creation.id).Nodup
  fresh : ∀ c ∈ created, ¬ Issued tree.inner c.id
  ne_null : ∀ c ∈ created, c.id ≠ Ref.none
  made : ∀ c ∈ created, getByRef tree'.inner c.id = some c.inst
  madeMetadata : ∀ c ∈ created, tree'.metadataMap.lookup c.id =
    some (deferredMetadata c.snapshot.properties c.snapshot.metadata)
  old : ∀ x, x ∉ created.map Creation.id → getByRef tree'.inner x =
    (getByRef tree.inner x).map fun i => { i with children := i.children ++ top x }
  oldMetadata : ∀ x, x ∉ created.map Creation.id →
    tree'.metadataMap.lookup x = tree.metadataMap.lookup x
  ids : context'.snapshotIdToInstanceId =
    extend context.snapshotIdToInstanceId (pairIds (created.map Creation.pair))
  refs : ∀ x, x ∈ context'.hasRefsToRewrite ↔ x ∈ context.hasRefsToRewrite ∨
    ∃ c ∈ created, c.id = x ∧ hasRefs c.snapshot.properties = true
  refsNodup : context.hasRefsToRewrite.Nodup → context'.hasRefsToRewrite.Nodup
  pointers : ∀ x pointer, pointer ∈ context'.attributeRefsToRewrite.get x ↔
    pointer ∈ context.attributeRefsToRewrite.get x ∨
      ∃ c ∈ created, c.id = x ∧ pointer ∈ pointersOf c.snapshot.properties
  applied : context'.appliedPatchSet = { context.appliedPatchSet with
    added := context.appliedPatchSet.added ++ created.map Creation.id }

omit [LawfulWeakDom D] in
theorem map_children_nil (o : Option Instance) :
    (o.map fun i => { i with children := i.children ++ [] }) = o := by
  cases o with
  | none => rfl
  | some i => rw [Option.map_some, List.append_nil]

omit [LawfulWeakDom D] in
theorem Grew.refl (h : Inv tree) : Grew context tree [] (fun _ => []) context tree where
  inv := h
  root := rfl
  issued _ := id
  nodup := List.nodup_nil
  fresh _ hc := nomatch hc
  ne_null _ hc := nomatch hc
  made _ hc := nomatch hc
  madeMetadata _ hc := nomatch hc
  old x _ := (map_children_nil _).symm
  oldMetadata _ _ := rfl
  ids := rfl
  refs x := by simp only [List.not_mem_nil, false_and, exists_false, or_false]
  refsNodup := id
  pointers x _ := by simp only [List.not_mem_nil, false_and, exists_false, or_false]
  applied := by rw [List.map_nil, List.append_nil]

/-- One growth after another that adds nothing below the instances of the first. -/
theorem Grew.trans (h₁ : Grew context tree created top context₁ tree₁)
    (h₂ : Grew context₁ tree₁ created' top' context₂ tree₂)
    (htop : ∀ c ∈ created, top' c.id = []) :
    Grew context tree (created ++ created') (fun x => top x ++ top' x) context₂ tree₂ := by
  -- an instance of the first growth has been issued, so it is not one of the second
  have hold : ∀ c ∈ created, c.id ∉ created'.map Creation.id := by
    intro c hc hmem
    obtain ⟨c', hc', heq⟩ := List.mem_map.mp hmem
    exact h₂.fresh c' hc' (heq ▸ LawfulWeakDom.issued_of_present _ (h₁.made c hc))
  have hmem : ∀ x, x ∉ (created ++ created').map Creation.id →
      x ∉ created.map Creation.id ∧ x ∉ created'.map Creation.id := by
    intro x hx
    rw [List.map_append, List.mem_append, not_or] at hx
    exact hx
  refine
    { inv := h₂.inv
      root := h₂.root.trans h₁.root
      issued := fun x hx => h₂.issued x (h₁.issued x hx)
      nodup := ?_
      fresh := ?_
      ne_null := ?_
      made := ?_
      madeMetadata := ?_
      old := fun x hx => ?_
      oldMetadata := fun x hx => ?_
      ids := ?_
      refs := fun x => ?_
      refsNodup := fun h => h₂.refsNodup (h₁.refsNodup h)
      pointers := fun x pointer => ?_
      applied := ?_ }
  · rw [List.map_append]
    refine List.nodup_append.mpr ⟨h₁.nodup, h₂.nodup, ?_⟩
    rintro x hx y hy rfl
    obtain ⟨c, hc, rfl⟩ := List.mem_map.mp hx
    exact hold c hc hy
  · intro c hc
    rcases List.mem_append.mp hc with hc | hc
    · exact h₁.fresh c hc
    · exact fun hi => h₂.fresh c hc (h₁.issued _ hi)
  · intro c hc
    exact (List.mem_append.mp hc).elim (h₁.ne_null c) (h₂.ne_null c)
  · intro c hc
    rcases List.mem_append.mp hc with hc | hc
    · rw [h₂.old _ (hold c hc), h₁.made c hc, htop c hc, map_children_nil]
    · exact h₂.made c hc
  · intro c hc
    rcases List.mem_append.mp hc with hc | hc
    · rw [h₂.oldMetadata _ (hold c hc), h₁.madeMetadata c hc]
    · exact h₂.madeMetadata c hc
  · rw [h₂.old x (hmem x hx).2, h₁.old x (hmem x hx).1, Option.map_map]
    refine congrArg (Option.map · _) (funext fun i => ?_)
    dsimp only [Function.comp]
    rw [List.append_assoc]
  · rw [h₂.oldMetadata x (hmem x hx).2, h₁.oldMetadata x (hmem x hx).1]
  · rw [h₂.ids, h₁.ids, List.map_append, pairIds_append, extend_append]
  · rw [h₂.refs, h₁.refs, or_assoc]
    simp only [List.mem_append, or_and_right, exists_or]
  · rw [h₂.pointers, h₁.pointers, or_assoc]
    simp only [List.mem_append, or_and_right, exists_or]
  · rw [h₂.applied, h₁.applied, List.map_append, List.append_assoc]

omit [LawfulWeakDom D] in
theorem insertInstance_leaf (h : s.children = []) :
    tree.insertInstance p s = tree.insertOne p s := by
  rw [insertInstance_eq, h]
  cases tree.insertOne p s with
  | none => rfl
  | some res => rfl

/-- What the context knows after the first half of `apply_add_child`. -/
def noteCreated (context : PatchApplyContext) (s : InstanceSnapshot) (id : Ref) :
    PatchApplyContext :=
  ((context.recordAdded id).noteRefs id (hasRefs s.properties)).noteSnapshotId s.snapshotId id

omit [LawfulWeakDom D] in
theorem applyAddChild_eq (s : InstanceSnapshot) :
    applyAddChild context tree p s = (do
      let (id, tree) ← tree.insertOne p s
      let (context, tree) ← applyAddChildren (noteCreated context s id) tree id s.children
      deferRefProperties tree id context) := by
  cases s with
  | mk snapshotId metadata name className properties children =>
    rw [applyAddChild, insertInstance_leaf rfl]
    rfl

theorem noteCreated_ids : (noteCreated context s r).snapshotIdToInstanceId =
    extend context.snapshotIdToInstanceId (pairIds [(s, r)]) := by
  unfold noteCreated PatchApplyContext.noteSnapshotId pairIds PatchApplyContext.noteRefs
  rw [List.filter_singleton]
  cases s.snapshotId.isSome <;> cases hasRefs s.properties <;> rfl

theorem noteCreated_hasRefs : (noteCreated context s r).hasRefsToRewrite =
    if hasRefs s.properties then context.hasRefsToRewrite.insert r
    else context.hasRefsToRewrite := by
  unfold noteCreated PatchApplyContext.noteSnapshotId PatchApplyContext.noteRefs
  cases s.snapshotId.isSome <;> cases hasRefs s.properties <;> rfl

theorem noteCreated_pointers :
    (noteCreated context s r).attributeRefsToRewrite = context.attributeRefsToRewrite := by
  unfold noteCreated PatchApplyContext.noteSnapshotId PatchApplyContext.noteRefs
  cases s.snapshotId.isSome <;> cases hasRefs s.properties <;> rfl

theorem noteCreated_applied : (noteCreated context s r).appliedPatchSet =
    { context.appliedPatchSet with added := context.appliedPatchSet.added ++ [r] } := by
  unfold noteCreated PatchApplyContext.noteSnapshotId PatchApplyContext.noteRefs
  cases s.snapshotId.isSome <;> cases hasRefs s.properties <;> rfl

theorem mem_deferPointers {x : Ref} {pointers : List (String × String)}
    {pointer : String × String} :
    pointer ∈ (context.deferPointers r pointers).attributeRefsToRewrite.get x ↔
      pointer ∈ context.attributeRefsToRewrite.get x ∨ x = r ∧ pointer ∈ pointers := by
  unfold PatchApplyContext.deferPointers
  dsimp only
  generalize context.attributeRefsToRewrite = index
  induction pointers generalizing index with
  | nil => simp only [List.foldl_nil, List.not_mem_nil, and_false, or_false]
  | cons q pointers ih =>
    rw [List.foldl_cons, ih, MultiMap.mem_get_insert, List.mem_cons, or_assoc, ← and_or_left]

/-- A new instance, its children, and its deferred properties. -/
theorem Grew.node {below : List Creation} {ids : List Ref} (h₁ : Inserted tree p s r tree₁)
    (h₂ : Grew (noteCreated context s r) tree₁ below (fun x => if x = r then ids else [])
      context₁ tree₂) :
    ∃ properties stored context₂ tree₃,
      deferRefProperties tree₂ r context₁ = some (context₂, tree₃) ∧
      Grew context tree (⟨s, p, r, ids, properties, stored⟩ :: below)
        (fun x => if x = p then [r] else []) context₂ tree₃ := by
  obtain ⟨properties, stored, hnew⟩ := h₁.new
  have hbelow : ∀ c ∈ below, c.id ≠ r := fun c hc heq =>
    h₂.fresh c hc (heq ▸ LawfulWeakDom.issued_of_present _ hnew)
  have hr : r ∉ below.map Creation.id := by
    intro hmem
    obtain ⟨c, hc, heq⟩ := List.mem_map.mp hmem
    exact hbelow c hc heq
  have hinst : getByRef tree₂.inner r =
      some (Creation.inst ⟨s, p, r, ids, properties, stored⟩) := by
    rw [h₂.old r hr, hnew, if_pos rfl]
    rfl
  have hmeta : tree₂.metadataMap.lookup r = some s.metadata := by
    rw [h₂.oldMetadata r hr, h₁.metadata, if_pos rfl]
  have hattr : attributesOf (Creation.inst ⟨s, p, r, ids, properties, stored⟩).properties =
      attributesOf s.properties := attributesOf_stored stored
  have hpointers : pointersOf (Creation.inst ⟨s, p, r, ids, properties, stored⟩).properties =
      pointersOf s.properties := by
    unfold pointersOf
    rw [hattr]
  obtain ⟨tree₃, hdefer, hinv, hinner, hmap⟩ :=
    deferRefProperties_eq context₁ h₂.inv hinst hmeta
  have hne : ∀ x, x ∉ (Creation.mk s p r ids properties stored :: below).map Creation.id →
      x ≠ r ∧ x ∉ below.map Creation.id := by
    intro x hx
    rw [List.map_cons, List.mem_cons, not_or] at hx
    exact hx
  refine ⟨properties, stored, _, tree₃, hdefer,
    { inv := hinv
      root := ?_
      issued := fun x hx => ?_
      nodup := ?_
      fresh := ?_
      ne_null := ?_
      made := ?_
      madeMetadata := ?_
      old := fun x hx => ?_
      oldMetadata := fun x hx => ?_
      ids := ?_
      refs := fun x => ?_
      refsNodup := fun h => h₂.refsNodup ?_
      pointers := fun x pointer => ?_
      applied := ?_ }⟩
  · unfold getRootId
    rw [hinner]
    exact h₂.root.trans h₁.root
  · rw [hinner]
    exact h₂.issued x (h₁.issued x hx)
  · exact List.nodup_cons.mpr ⟨hr, h₂.nodup⟩
  · intro c hc
    rcases List.mem_cons.mp hc with rfl | hc
    · exact h₁.fresh
    · exact fun hi => h₂.fresh c hc (h₁.issued _ hi)
  · intro c hc
    rcases List.mem_cons.mp hc with rfl | hc
    · exact h₁.ne_null
    · exact h₂.ne_null c hc
  · intro c hc
    rw [hinner]
    rcases List.mem_cons.mp hc with rfl | hc
    · exact hinst
    · exact h₂.made c hc
  · intro c hc
    rw [hmap]
    rcases List.mem_cons.mp hc with rfl | hc
    · rw [if_pos rfl]
      unfold deferredMetadata
      rw [hattr]
    · rw [if_neg (hbelow c hc)]
      exact h₂.madeMetadata c hc
  · rw [hinner, h₂.old x (hne x hx).2, h₁.old x (hne x hx).1, if_neg (hne x hx).1,
      map_children_nil]
    refine congrArg (Option.map · _) (funext fun i => ?_)
    by_cases hxp : x = p
    · rw [if_pos hxp, if_pos hxp]
    · rw [if_neg hxp, if_neg hxp, List.append_nil]
  · rw [hmap, if_neg (hne x hx).1, h₂.oldMetadata x (hne x hx).2, h₁.metadata, if_neg (hne x hx).1]
  · change context₁.snapshotIdToInstanceId = _
    rw [h₂.ids, noteCreated_ids, ← extend_append, ← pairIds_append]
    rfl
  · change x ∈ context₁.hasRefsToRewrite ↔ _
    rw [h₂.refs, noteCreated_hasRefs]
    simp only [List.mem_cons, exists_eq_or_imp]
    cases hasRefs s.properties with
    | false => simp only [Bool.false_eq_true, if_false, and_false, false_or]
    | true =>
      simp only [if_true, List.mem_insert_iff, and_true]
      rw [or_assoc, or_left_comm, @eq_comm _ x r]
  · rw [noteCreated_hasRefs]
    split_ifs
    · exact h.insert
    · exact h
  · rw [mem_deferPointers, h₂.pointers, noteCreated_pointers, hpointers]
    simp only [List.mem_cons, exists_eq_or_imp]
    rw [or_assoc, @or_comm (∃ c, _), @eq_comm _ x r]
  · change context₁.appliedPatchSet = _
    rw [h₂.applied, noteCreated_applied, List.map_cons, ← List.append_cons]

/-- **Adding a snapshot** below an instance creates it and everything below it. -/
theorem applyAddChild_grew (h : Inv tree) (hp : getByRef tree.inner p = some i) (s : InstanceSnapshot)
    (context : PatchApplyContext) :
    ∃ r ids properties stored below context' tree',
      applyAddChild context tree p s = some (context', tree') ∧ Creates r s.children ids below ∧
      Grew context tree (⟨s, p, r, ids, properties, stored⟩ :: below)
        (fun x => if x = p then [r] else []) context' tree' := by
  induction s using InstanceSnapshot.induct generalizing tree p i context with
  | snapshot s ih =>
    have hchildren : ∀ l, (∀ c ∈ l, c ∈ s.children) → ∀ {tree : RojoTree D} {p i}
        (context : PatchApplyContext), Inv tree → getByRef tree.inner p = some i →
        ∃ ids below context' tree', applyAddChildren context tree p l = some (context', tree') ∧
          Creates p l ids below ∧
          Grew context tree below (fun x => if x = p then ids else []) context' tree' := by
      intro l
      induction l with
      | nil =>
        intro _ tree p i context h _
        refine ⟨[], [], context, tree, by rw [applyAddChildren], .nil p, ?_⟩
        simp only [ite_self]
        exact Grew.refl h
      | cons c l ihl =>
        intro hl tree p i context h hp
        obtain ⟨r, ids, properties, stored, below, context₁, tree₁, heq₁, hc₁, hg₁⟩ :=
          ih c (hl c List.mem_cons_self) h hp context
        have hpc : ∀ c' ∈ Creation.mk c p r ids properties stored :: below, c'.id ≠ p :=
          fun c' hc' he => hg₁.fresh c' hc' (he ▸ LawfulWeakDom.issued_of_present _ hp)
        have hp₁ : ∃ j, getByRef tree₁.inner p = some j := by
          rw [hg₁.old p, hp]
          · exact ⟨_, rfl⟩
          · intro hmem
            obtain ⟨c', hc', he⟩ := List.mem_map.mp hmem
            exact hpc c' hc' he
        obtain ⟨j, hj⟩ := hp₁
        obtain ⟨rest, others, context₂, tree₂, heq₂, hc₂, hg₂⟩ :=
          ihl (fun d hd => hl d (List.mem_cons_of_mem _ hd)) context₁ hg₁.inv hj
        refine ⟨r :: rest, _, context₂, tree₂, ?_, .cons stored hc₁ hc₂, ?_⟩
        · rw [applyAddChildren, heq₁]
          exact heq₂
        · have htop : (fun x => if x = p then r :: rest else []) =
              fun x => (if x = p then [r] else []) ++ if x = p then rest else [] := by
            funext x
            split_ifs <;> rfl
          rw [htop]
          exact hg₁.trans hg₂ fun c' hc' => if_neg (hpc c' hc')
    obtain ⟨r, tree₁, hins, hinserted⟩ := h.insertOne_isSome (s := s) hp
    obtain ⟨_, _, hnew⟩ := hinserted.new
    obtain ⟨ids, below, context₂, tree₂, heq, hc, hg⟩ := hchildren s.children (fun _ hc => hc)
      (noteCreated context s r) hinserted.inv hnew
    obtain ⟨properties, stored, context₃, tree₃, hdefer, hgrew⟩ := Grew.node hinserted hg
    refine ⟨r, ids, properties, stored, below, context₃, tree₃, ?_, hc, hgrew⟩
    rw [applyAddChild_eq, hins]
    simp only [Option.bind_eq_bind, Option.bind_some, heq]
    exact hdefer

/-! ## The whole phase -/

/-- The additions of a patch have become the instances `tops`, and `created` are these and
everything below them. -/
inductive CreatesAll : List PatchAdd → List Ref → List Creation → Prop
  | nil : CreatesAll [] [] []
  | cons {a : PatchAdd} {l : List PatchAdd} {r : Ref} {ids rest : List Ref}
      {below others : List Creation} {properties : UstrMap Variant}
      (stored : Stored (snapshotBuilder a.inst).properties properties) :
      Creates r a.inst.children ids below → CreatesAll l rest others →
      CreatesAll (a :: l) (r :: rest)
        (⟨a.inst, a.parentId, r, ids, properties, stored⟩ :: (below ++ others))

/-- The instances added below `x`, in order. -/
def topsBelow (additions : List PatchAdd) (tops : List Ref) (x : Ref) : List Ref :=
  ((additions.zip tops).filter fun e => e.1.parentId = x).map Prod.snd

theorem applyAdditions (h : Inv tree) (additions : List PatchAdd)
    (hp : ∀ a ∈ additions, (getByRef tree.inner a.parentId).isSome)
    (context : PatchApplyContext) :
    ∃ tops created context' tree',
      additions.foldlM (fun state addPatch =>
        applyAddChild state.1 state.2 addPatch.parentId addPatch.inst) (context, tree) =
        some (context', tree') ∧
      CreatesAll additions tops created ∧
      Grew context tree created (topsBelow additions tops) context' tree' := by
  induction additions generalizing tree context with
  | nil => exact ⟨[], [], context, tree, rfl, .nil, Grew.refl h⟩
  | cons a additions ih =>
    obtain ⟨i, hi⟩ := Option.isSome_iff_exists.mp (hp a List.mem_cons_self)
    obtain ⟨r, ids, properties, stored, below, context₁, tree₁, heq₁, hc₁, hg₁⟩ :=
      applyAddChild_grew h hi a.inst context
    have hpresent : ∀ x, (getByRef tree.inner x).isSome →
        ∀ c ∈ Creation.mk a.inst a.parentId r ids properties stored :: below, c.id ≠ x := by
      intro x hx c hc he
      obtain ⟨j, hj⟩ := Option.isSome_iff_exists.mp hx
      exact hg₁.fresh c hc (he ▸ LawfulWeakDom.issued_of_present _ hj)
    have hp₁ : ∀ b ∈ additions, (getByRef tree₁.inner b.parentId).isSome := by
      intro b hb
      have hb' := hp b (List.mem_cons_of_mem _ hb)
      rw [hg₁.old, Option.isSome_map]
      · exact hb'
      · intro hmem
        obtain ⟨c, hc, he⟩ := List.mem_map.mp hmem
        exact hpresent _ hb' c hc he
    obtain ⟨rest, others, context₂, tree₂, heq₂, hc₂, hg₂⟩ := ih hg₁.inv hp₁ context₁
    refine ⟨r :: rest, _, context₂, tree₂, ?_, .cons stored hc₁ hc₂, ?_⟩
    · rw [List.foldlM_cons, heq₁]
      exact heq₂
    · have htop : topsBelow (a :: additions) (r :: rest) =
          fun x => (if x = a.parentId then [r] else []) ++ topsBelow additions rest x := by
        funext x
        unfold topsBelow
        rw [List.zip_cons_cons, List.filter_cons]
        by_cases hx : a.parentId = x
        · simp only [hx, decide_true, if_true, List.map_cons, List.singleton_append]
        · have hx' : ¬ x = a.parentId := fun he => hx he.symm
          simp only [hx, hx', decide_false, Bool.false_eq_true, if_false, List.nil_append]
      rw [htop]
      refine hg₁.trans hg₂ fun c hc => ?_
      -- additions go below instances that were there before
      unfold topsBelow
      rw [List.map_eq_nil_iff, List.filter_eq_nil_iff]
      intro e he hpar
      exact hpresent _ (hp _ (List.mem_cons_of_mem _ (List.of_mem_zip he).1)) c hc
        (of_decide_eq_true hpar).symm

end

/-! ## The shape of what is created -/

section Shape

variable {p r : Ref} {s : InstanceSnapshot} {l : List InstanceSnapshot} {ids : List Ref}
  {created : List Creation}

theorem Creates.snapshots (h : Creates p l ids created) :
    created.map Creation.snapshot = l.flatMap InstanceSnapshot.nodes := by
  induction h with
  | nil => rfl
  | cons _ _ _ ih₁ ih₂ =>
    rw [List.map_cons, List.map_append, ih₁, ih₂, List.flatMap_cons, InstanceSnapshot.nodes_eq]
    rfl

/-- The children of a created instance are made of the children of its snapshot. -/
theorem Creates.children (h : Creates p l ids created) :
    ∀ c ∈ created, ∃ below, Creates c.id c.snapshot.children c.children below ∧
      ∀ d ∈ below, d ∈ created := by
  induction h with
  | nil => exact fun _ hc => nomatch hc
  | @cons p r s l ids rest below others properties stored h₁ _ ih₁ ih₂ =>
    intro c hc
    rcases List.mem_cons.mp hc with rfl | hc
    · exact ⟨below, h₁, fun d hd => List.mem_cons_of_mem _ (List.mem_append_left _ hd)⟩
    · rcases List.mem_append.mp hc with hc | hc
      · obtain ⟨b, hb, hsub⟩ := ih₁ c hc
        exact ⟨b, hb, fun d hd => List.mem_cons_of_mem _ (List.mem_append_left _ (hsub d hd))⟩
      · obtain ⟨b, hb, hsub⟩ := ih₂ c hc
        exact ⟨b, hb, fun d hd => List.mem_cons_of_mem _ (List.mem_append_right _ (hsub d hd))⟩

/-- The new children, one for each snapshot. -/
theorem Creates.heads (h : Creates p l ids created) :
    List.Forall₂ (fun s r => ∃ c ∈ created, c.snapshot = s ∧ c.id = r ∧ c.parent = p) l ids := by
  induction h with
  | nil => exact .nil
  | cons _ _ _ _ ih₂ =>
    refine .cons ⟨_, List.mem_cons_self, rfl, rfl, rfl⟩ (ih₂.imp fun s r hc => ?_)
    obtain ⟨c, hc, hs⟩ := hc
    exact ⟨c, List.mem_cons_of_mem _ (List.mem_append_right _ hc), hs⟩

/-- The instances that are added, one for each addition. -/
theorem CreatesAll.heads {additions : List PatchAdd} {tops : List Ref}
    (h : CreatesAll additions tops created) :
    List.Forall₂ (fun a r => ∃ c ∈ created, c.snapshot = a.inst ∧ c.id = r ∧ c.parent = a.parentId)
      additions tops := by
  induction h with
  | nil => exact .nil
  | cons _ _ _ ih =>
    refine .cons ⟨_, List.mem_cons_self, rfl, rfl, rfl⟩ (ih.imp fun a r hc => ?_)
    obtain ⟨c, hc, hs⟩ := hc
    exact ⟨c, List.mem_cons_of_mem _ (List.mem_append_right _ hc), hs⟩

theorem CreatesAll.children {additions : List PatchAdd} {tops : List Ref}
    (h : CreatesAll additions tops created) :
    ∀ c ∈ created, ∃ below, Creates c.id c.snapshot.children c.children below ∧
      ∀ d ∈ below, d ∈ created := by
  induction h with
  | nil => exact fun _ hc => nomatch hc
  | @cons a l r ids rest below others properties stored h₁ _ ih =>
    intro c hc
    rcases List.mem_cons.mp hc with rfl | hc
    · exact ⟨below, h₁, fun d hd => List.mem_cons_of_mem _ (List.mem_append_left _ hd)⟩
    · rcases List.mem_append.mp hc with hc | hc
      · obtain ⟨b, hb, hsub⟩ := h₁.children c hc
        exact ⟨b, hb, fun d hd => List.mem_cons_of_mem _ (List.mem_append_left _ (hsub d hd))⟩
      · obtain ⟨b, hb, hsub⟩ := ih c hc
        exact ⟨b, hb, fun d hd => List.mem_cons_of_mem _ (List.mem_append_right _ (hsub d hd))⟩

theorem CreatesAll.snapshots {additions : List PatchAdd} {tops : List Ref}
    (h : CreatesAll additions tops created) :
    created.map Creation.snapshot = additions.flatMap fun a => a.inst.nodes := by
  induction h with
  | nil => rfl
  | cons _ h₁ _ ih =>
    rw [List.map_cons, List.map_append, h₁.snapshots, ih, List.flatMap_cons,
      InstanceSnapshot.nodes_eq]
    rfl

/-- What holds of the parents that are there already and passes from a parent to its new children
holds of everything that is created. -/
theorem Creates.forall_ids {P : Ref → Prop} (h : Creates p l ids created) (hp : P p)
    (hstep : ∀ c ∈ created, P c.parent → P c.id) : ∀ c ∈ created, P c.id := by
  induction h with
  | nil => exact fun _ hc => nomatch hc
  | cons _ _ _ ih₁ ih₂ =>
    have hr := hstep _ List.mem_cons_self hp
    intro c hc
    rcases List.mem_cons.mp hc with rfl | hc
    · exact hr
    · rcases List.mem_append.mp hc with hc | hc
      · exact ih₁ hr (fun d hd => hstep d (List.mem_cons_of_mem _ (List.mem_append_left _ hd))) c hc
      · exact ih₂ hp (fun d hd => hstep d (List.mem_cons_of_mem _ (List.mem_append_right _ hd))) c hc

theorem CreatesAll.forall_ids {P : Ref → Prop} {additions : List PatchAdd} {tops : List Ref}
    (h : CreatesAll additions tops created) (hp : ∀ a ∈ additions, P a.parentId)
    (hstep : ∀ c ∈ created, P c.parent → P c.id) : ∀ c ∈ created, P c.id := by
  induction h with
  | nil => exact fun _ hc => nomatch hc
  | cons _ h₁ _ ih =>
    have hr := hstep _ List.mem_cons_self (hp _ List.mem_cons_self)
    intro c hc
    rcases List.mem_cons.mp hc with rfl | hc
    · exact hr
    · rcases List.mem_append.mp hc with hc | hc
      · exact h₁.forall_ids hr
          (fun d hd => hstep d (List.mem_cons_of_mem _ (List.mem_append_left _ hd))) c hc
      · exact ih (fun a ha => hp a (List.mem_cons_of_mem _ ha))
          (fun d hd => hstep d (List.mem_cons_of_mem _ (List.mem_append_right _ hd))) c hc

end Shape

end Roxo
