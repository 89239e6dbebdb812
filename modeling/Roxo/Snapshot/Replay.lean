import Roxo.Library.Replica
import Roxo.Snapshot.Carriers
import Roxo.Snapshot.Convergence
import Roxo.Snapshot.References

/-!
# Replaying an applied patch

A replica holds the instances of a tree and is kept in sync by what `applyPatchSet` records. The
record is made while the tree changes: a `Ref` to a created instance is recorded as it stands in
the patch, and what attributes set at the end is not recorded at all. The replica ends up like the
tree exactly when neither makes a difference (`replay_iff`).
-/

namespace Roxo

open AssocMap WeakDom RojoTree Forest Replica

/-! ## Replicas -/

/-- What a replica knows of an instance. -/
structure ReplicaInstance where
  name : String
  className : String
  parent : Ref
  properties : String → Option Variant

namespace ReplicaInstance

def of (i : Instance) : ReplicaInstance :=
  ⟨i.name, i.className, i.parent, fun k => i.properties.lookup k⟩

/-- Sets the listed name, class and property values; `none` removes a property. -/
def update (u : AppliedPatchUpdate) (e : ReplicaInstance) : ReplicaInstance :=
  { e with
    name := u.changedName.getD e.name
    className := u.changedClassName.getD e.className
    properties := fun k => (u.changedProperties.lookup k).getD (e.properties k) }

end ReplicaInstance

/-- The replica that holds the instances of a tree. -/
def replicaOf {D : Type} [WeakDom D] (tree : RojoTree D) : Store Ref ReplicaInstance := fun x =>
  (getByRef tree.inner x).map ReplicaInstance.of

/-- Removes the removed subtrees, inserts the added ones with the contents they have in the source,
and sets what is listed of the updated instances. -/
noncomputable def replay (replica source : Store Ref ReplicaInstance) (applied : AppliedPatchSet) :
    Store Ref ReplicaInstance :=
  applied.updated.foldl (change AppliedPatchUpdate.id ReplicaInstance.update)
    (applied.added.foldl (graft ReplicaInstance.parent source)
      (applied.removed.foldl (remove ReplicaInstance.parent) replica))

section

variable {D : Type} [WeakDom D] [LawfulWeakDom D] {tree tree' : RojoTree D} {patch : PatchSet}
  {tops : List Ref} {created : List Creation} {record : AppliedPatchSet} {x y : Ref} {i : Instance}
  {m : InstanceMetadata} {u : PatchUpdate}

/-- The subtrees of the replica are those of the tree. -/
theorem below_replicaOf (hx : x ≠ Ref.none) :
    Replica.Below ReplicaInstance.parent (replicaOf tree) x y ↔ Desc (kids tree.inner) x y := by
  have hstep : ∀ a b, a ≠ Ref.none →
      ((∃ e, replicaOf tree b = some e ∧ e.parent = a) ↔ b ∈ kids tree.inner a) := by
    intro a b ha
    unfold replicaOf
    constructor
    · rintro ⟨e, he, rfl⟩
      obtain ⟨j, hj, rfl⟩ := Option.map_eq_some_iff.mp he
      exact LawfulWeakDom.mem_kids_of_parent tree.inner hj ha
    · intro hb
      obtain ⟨j, hj, rfl⟩ := LawfulWeakDom.child_present tree.inner hb
      exact ⟨ReplicaInstance.of j, by rw [hj]; rfl, rfl⟩
  have hne : ∀ b, Desc (kids tree.inner) x b → b ≠ Ref.none := by
    intro b hb
    rcases Relation.ReflTransGen.cases_tail hb with rfl | ⟨a, -, hab⟩
    · exact hx
    · obtain ⟨j, hj, -⟩ := LawfulWeakDom.child_present tree.inner hab
      exact ne_null_of_present (Option.isSome_of_eq_some hj)
  constructor
  · intro h
    induction h with
    | refl => exact .refl
    | @tail a b _ hab ih => exact ih.tail ((hstep a b (hne a ih)).mp hab)
  · intro h
    induction h with
    | refl => exact .refl
    | @tail a b hxa hab ih => exact ih.tail ((hstep a b (hne a hxa)).mpr hab)

omit [LawfulWeakDom D] in
/-- Below a created instance there are only created ones. -/
theorem mem_created_of_desc (ha : Applied tree patch tops created tree' record)
    (hx : x ∈ created.map Creation.id) (h : Desc (kids tree'.inner) x y) :
    y ∈ created.map Creation.id := by
  induction h with
  | refl => exact hx
  | @tail a b _ hab ih =>
    obtain ⟨c, hc, rfl⟩ := List.mem_map.mp ih
    obtain ⟨properties, hi', -⟩ := ha.made c hc
    unfold Child at hab
    rw [kids_eq hi'] at hab
    obtain ⟨below, hcreates, hsub⟩ := ha.creates.children c hc
    obtain ⟨s, -, d, hd, -, rfl, -⟩ := exists_of_forall₂_right hcreates.heads hab
    exact List.mem_map_of_mem (hsub d hd)

/-- The subtrees that a patch adds hold the created instances. -/
theorem below_created_iff (ha : Applied tree patch tops created tree' record) :
    (∃ x ∈ created.map Creation.id,
      Replica.Below ReplicaInstance.parent (replicaOf tree') x y) ↔ y ∈ created.map Creation.id := by
  constructor
  · rintro ⟨x, hx, hxy⟩
    obtain ⟨c, hc, rfl⟩ := List.mem_map.mp hx
    exact mem_created_of_desc ha hx ((below_replicaOf (ha.ne_null c hc)).mp hxy)
  · exact fun hy => ⟨y, hy, .refl⟩

/-- The subtrees that a patch removes are the same in the replica. -/
theorem below_removed_iff (hok : PatchOk tree patch) :
    (∃ x ∈ patch.removedInstances,
      Replica.Below ReplicaInstance.parent (replicaOf tree) x y) ↔
      Below tree patch.removedInstances y :=
  exists_congr fun x => and_congr_right fun hx =>
    below_replicaOf (ne_null_of_present (hok.removable.present x hx))

omit [LawfulWeakDom D] in
theorem replicaOf_of_present (hi : getByRef tree.inner x = some i) :
    replicaOf tree x = some (ReplicaInstance.of i) := by
  unfold replicaOf
  rw [hi, Option.map_some]

/-- The values that a replica ends up with on an updated instance. -/
theorem lookup_recordUpdate_getD (u : PatchUpdate) (i : Instance) (k : String) :
    ((recordUpdate u).changedProperties.lookup k).getD (i.properties.lookup k) =
      (updatedInstance ∅ u i).properties.lookup k := by
  refine Eq.trans ?_ (lookup_updatedProperties ∅ u.changedProperties i.properties k).symm
  rw [lookup_recordUpdate]
  cases u.changedProperties.lookup k with
  | none => rfl
  | some entry =>
    rw [Option.elim_some, Option.elim_some]
    unfold recordedValue changedValue
    cases entry with
    | none => rfl
    | some v =>
      cases v with
      | attributes l => rfl
      | value v =>
        cases v with
        | ref r =>
          dsimp only
          rw [AList.lookup_empty, Option.getD_none]
          split_ifs <;> rfl
        | _ => rfl

/-- An instance that the replica gets right whatever happens. -/
theorem replay_other (hok : PatchOk tree patch)
    (ha : Applied tree patch tops created tree' record)
    (hu : y ∉ patch.updatedInstances.map PatchUpdate.id) :
    replay (replicaOf tree) (replicaOf tree') record y = replicaOf tree' y := by
  classical
  unfold replay
  rw [ha.recorded]
  dsimp only
  rw [foldl_change_of_not_mem, foldl_graft, foldl_remove]
  swap
  · rw [List.map_map]
    exact hu
  rw [if_congr (below_created_iff ha) rfl rfl, if_congr (below_removed_iff hok) rfl rfl]
  split_ifs with hy hb
  · rfl
  · unfold replicaOf
    rw [ha.gone y hb]
    rfl
  · unfold replicaOf
    cases hi : getByRef tree.inner y with
    | none => rw [ha.absent y hi hy]
    | some i =>
      rw [(ha.kept y i hi hb hu).1]
      rfl

theorem replay_updated (hok : PatchOk tree patch)
    (ha : Applied tree patch tops created tree' record) (hu : u ∈ patch.updatedInstances)
    (hi : getByRef tree.inner u.id = some i) :
    replay (replicaOf tree) (replicaOf tree') record u.id =
      some (ReplicaInstance.of (updatedInstance ∅ u i)) := by
  classical
  unfold replay
  rw [ha.recorded]
  dsimp only
  have hnodup : ((patch.updatedInstances.map recordUpdate).map AppliedPatchUpdate.id).Nodup := by
    rw [List.map_map]
    exact hok.nodup
  refine (foldl_change hnodup _ (List.mem_map_of_mem hu)).trans ?_
  rw [foldl_graft, foldl_remove, if_neg, if_neg]
  · rw [show (recordUpdate u).id = u.id from rfl, replicaOf_of_present hi, Option.map_some]
    unfold ReplicaInstance.update ReplicaInstance.of
    simp only [lookup_recordUpdate_getD]
    rfl
  · exact fun hbelow => (hok.updated u hu).2 ((below_removed_iff hok).mp hbelow)
  · intro hbelow
    obtain ⟨d, hd, hid⟩ := List.mem_map.mp ((below_created_iff ha).mp hbelow)
    exact ha.fresh d hd (hid ▸ LawfulWeakDom.issued_of_present _ hi)

/-- **A replay is right if it gets the properties of the updated instances right.** -/
theorem replay_eq_iff (h : Inv tree) (hok : PatchOk tree patch)
    (ha : Applied tree patch tops created tree' record) :
    replay (replicaOf tree) (replicaOf tree') record = replicaOf tree' ↔
      ∀ u ∈ patch.updatedInstances, ∀ i, getByRef tree.inner u.id = some i → ∀ k,
        (updatedInstance ∅ u i).properties.lookup k =
          (resolved tree' (pointersOf (updatedInstance (createdIds created) u i).properties) k).or
            ((updatedInstance (createdIds created) u i).properties.lookup k) := by
  have hat : ∀ u ∈ patch.updatedInstances, ∀ i, getByRef tree.inner u.id = some i →
      (replay (replicaOf tree) (replicaOf tree') record u.id = replicaOf tree' u.id ↔ ∀ k,
        (updatedInstance ∅ u i).properties.lookup k =
          (resolved tree' (pointersOf (updatedInstance (createdIds created) u i).properties) k).or
            ((updatedInstance (createdIds created) u i).properties.lookup k)) := by
    intro u hu i hi
    obtain ⟨m, hm⟩ := h.metadata_of_present hi
    obtain ⟨properties, hi', hprops, -⟩ := ha.updated u hu i m hi hm
    rw [replay_updated hok ha hu hi]
    unfold replicaOf
    rw [hi', Option.map_some, Option.some.injEq]
    simp only [← hprops]
    constructor
    · intro heq k
      exact congrFun (congrArg ReplicaInstance.properties heq) k
    · intro hk
      unfold ReplicaInstance.of
      rw [funext hk]
      rfl
  constructor
  · intro heq u hu i hi
    exact (hat u hu i hi).mp (congrFun heq u.id)
  · intro hall
    funext y
    by_cases hy : y ∈ patch.updatedInstances.map PatchUpdate.id
    · obtain ⟨u, hu, rfl⟩ := List.mem_map.mp hy
      obtain ⟨i, hi⟩ := Option.isSome_iff_exists.mp (hok.updated u hu).1
      exact (hat u hu i hi).mpr (hall u hu i hi)
    · exact replay_other hok ha hy

end

/-! ## When a replay is right -/

section

variable {D : Type} [WeakDom D]

/-- The references in the tree and in the patch, and the snapshot ids of what is added, have been
handed out before. -/
structure RefsIssued (tree : RojoTree D) (patch : PatchSet) : Prop where
  stored : ∀ x i k r, getByRef tree.inner x = some i → i.properties.lookup k = some (.ref r) →
    r ≠ Ref.none → Issued tree.inner r
  assigned : ∀ u ∈ patch.updatedInstances, ∀ k r,
    u.changedProperties.lookup k = some (some (.ref r)) → r ≠ Ref.none → Issued tree.inner r
  snapshotIds : ∀ a ∈ patch.addedInstances, ∀ n ∈ a.inst.nodes, n.snapshotId ≠ Ref.none →
    Issued tree.inner n.snapshotId

/-- The id resolves to nothing after the patch. -/
def ResolvesNone (tree : RojoTree D) (patch : PatchSet) (r : RojoRef) : Prop :=
  ¬ ResolvesNew tree patch r ∧ ∀ y, ¬ ResolvesOld tree patch r y

/-- What the record leaves out does not matter for the updated instance `i`: a property that its
attributes set gets the value that the update lists or that was there, and no other property is
set to the snapshot id of an added node. -/
structure ReplayOk (tree : RojoTree D) (patch : PatchSet) (u : PatchUpdate) (i : Instance) :
    Prop where
  pointers : ∀ k target, (k, target) ∈ pointersOf (updatedInstance ∅ u i).properties →
    ¬ ResolvesNew tree patch ⟨target⟩ ∧ ∀ y, ResolvesOld tree patch ⟨target⟩ y →
      (updatedInstance ∅ u i).properties.lookup k = some (.ref y)
  refs : ∀ k r, u.changedProperties.lookup k = some (some (.ref r)) → r ≠ Ref.none →
    (∀ target, (k, target) ∈ pointersOf (updatedInstance ∅ u i).properties →
      ResolvesNone tree patch ⟨target⟩) →
    ∀ a ∈ patch.addedInstances, ∀ n ∈ a.inst.nodes, n.snapshotId ≠ r

variable [LawfulWeakDom D] {tree tree' : RojoTree D} {patch : PatchSet} {tops : List Ref}
  {created : List Creation} {record : AppliedPatchSet} {i : Instance} {u : PatchUpdate} {k : String}
  {target : String} {r : Ref}

theorem resolvesNone_iff (h : Inv tree) (ha : Applied tree patch tops created tree' record) :
    pointee tree' target = none ↔ ResolvesNone tree patch ⟨target⟩ := by
  unfold pointee ResolvesNone
  rw [Option.map_eq_none_iff, Option.eq_none_iff_forall_ne_some]
  simp only [ne_eq, specified_after h ha, not_or, not_and]
  constructor
  · refine fun hall => ⟨fun hnew => ?_, fun y => (hall y).1⟩
    obtain ⟨n, hn⟩ := hnew.1
    rw [newCarriers_eq ha] at hn
    obtain ⟨c, hc, -⟩ := List.map_eq_singleton_iff.mp hn
    have hmem : c ∈ created.filter fun c => nodeId c.snapshot = some ⟨target⟩ := by
      rw [hc]
      exact List.mem_singleton.mpr rfl
    obtain ⟨hmem, hid⟩ := List.mem_filter.mp hmem
    exact (hall c.id).2 hnew ⟨c, hmem, rfl, of_decide_eq_true hid⟩
  · exact fun hnone y => ⟨hnone.2 y, fun hnew => absurd hnew hnone.1⟩

theorem resolved_eq_none_iff (h : Inv tree) (ha : Applied tree patch tops created tree' record)
    {pointers : List (String × String)} (hnodup : (pointers.map Prod.fst).Nodup) :
    resolved tree' pointers k = none ↔
      ∀ target, (k, target) ∈ pointers → ResolvesNone tree patch ⟨target⟩ := by
  simp only [← resolvesNone_iff h ha]
  constructor
  · intro hnone target hmem
    rw [Option.eq_none_iff_forall_ne_some]
    intro v hv
    rw [(resolved_eq_some_iff hnodup).mpr ⟨target, hmem, hv⟩] at hnone
    cases hnone
  · intro hall
    rw [Option.eq_none_iff_forall_ne_some]
    intro v hv
    obtain ⟨target, hmem, hp⟩ := (resolved_eq_some_iff hnodup).mp hv
    rw [hall target hmem] at hp
    cases hp

omit [LawfulWeakDom D] in
/-- A snapshot id of an added node is translated to the created instance. -/
theorem lookup_createdIds_eq_none (ha : Applied tree patch tops created tree' record)
    (hr : r ≠ Ref.none) : (createdIds created).lookup r = none ↔
      ∀ a ∈ patch.addedInstances, ∀ n ∈ a.inst.nodes, n.snapshotId ≠ r := by
  have hnodes : ∀ n, n ∈ created.map Creation.snapshot ↔
      ∃ a ∈ patch.addedInstances, n ∈ a.inst.nodes := by
    intro n
    rw [ha.creates.snapshots, List.mem_flatMap]
  unfold createdIds
  constructor
  · rintro hnone a hmem n hn rfl
    obtain ⟨c, hc, rfl⟩ := List.mem_map.mp ((hnodes n).mpr ⟨a, hmem, hn⟩)
    have hkey : c.snapshot.snapshotId ∈ (pairIds (created.map Creation.pair)).map Prod.fst :=
      List.mem_map.mpr ⟨(_, c.id), mem_pairIds.mpr ⟨Ref.isSome_iff.mpr hr, c.snapshot,
        List.mem_map_of_mem hc, rfl⟩, rfl⟩
    obtain ⟨y, hy⟩ := mem_extend (m := ∅) hkey
    rw [hnone] at hy
    cases hy
  · intro hall
    rw [lookup_extend_of_not_mem, AList.lookup_empty]
    intro hmem
    obtain ⟨⟨r', y⟩, hpair, rfl⟩ := List.mem_map.mp hmem
    obtain ⟨-, s, hs, hid⟩ := mem_pairIds.mp hpair
    obtain ⟨c, hc, heq⟩ := List.mem_map.mp hs
    obtain ⟨rfl, -⟩ := Prod.mk.inj heq
    obtain ⟨a, hmem, hn⟩ := (hnodes c.snapshot).mp (List.mem_map_of_mem hc)
    exact hall a hmem _ hn hid

omit [LawfulWeakDom D] in
/-- A translated snapshot id is another id. -/
theorem lookup_createdIds_ne (ha : Applied tree patch tops created tree' record)
    (hissued : RefsIssued tree patch) {y : Ref} (hy : (createdIds created).lookup r = some y) :
    y ≠ r := by
  rintro rfl
  rcases mem_of_lookup_extend hy with hpair | hempty
  · obtain ⟨hsome, s, hs, hid⟩ := mem_pairIds.mp hpair
    obtain ⟨c, hc, heq⟩ := List.mem_map.mp hs
    obtain ⟨rfl, rfl⟩ := Prod.mk.inj heq
    have hn : c.snapshot ∈ patch.addedInstances.flatMap fun a => a.inst.nodes := by
      rw [← ha.creates.snapshots]
      exact List.mem_map_of_mem hc
    obtain ⟨a, hmem, hn⟩ := List.mem_flatMap.mp hn
    have hold := hissued.snapshotIds a hmem _ hn (hid ▸ Ref.isSome_iff.mp hsome)
    rw [hid] at hold
    exact ha.fresh c hc hold
  · rw [AList.lookup_empty] at hempty
    cases hempty

omit [LawfulWeakDom D] in
/-- Without pointers the replica is wrong only about references to created instances. -/
theorem lookup_updatedInstance_eq_iff (ha : Applied tree patch tops created tree' record)
    (hissued : RefsIssued tree patch) :
    (updatedInstance ∅ u i).properties.lookup k =
        (updatedInstance (createdIds created) u i).properties.lookup k ↔
      ∀ r, u.changedProperties.lookup k = some (some (.ref r)) → r ≠ Ref.none →
        ∀ a ∈ patch.addedInstances, ∀ n ∈ a.inst.nodes, n.snapshotId ≠ r := by
  change (updatedProperties ∅ u.changedProperties i.properties).lookup k =
    (updatedProperties (createdIds created) u.changedProperties i.properties).lookup k ↔ _
  rw [lookup_updatedProperties, lookup_updatedProperties]
  cases u.changedProperties.lookup k with
  | none => simp only [Option.elim_none, reduceCtorEq, IsEmpty.forall_iff, implies_true]
  | some entry =>
    simp only [Option.elim_some]
    by_cases hentry : ∃ r, entry = some (.ref r) ∧ r ≠ Ref.none
    · obtain ⟨r, rfl, hr⟩ := hentry
      have hvalue : ∀ ids old, changedValue ids (some (.ref r)) old =
          some (.ref ((ids.lookup r).getD r)) := fun ids old =>
        if_neg fun hn => hr (Ref.isNone_iff.mp hn)
      rw [hvalue, hvalue, AList.lookup_empty]
      simp only [Option.getD_none, Option.some.injEq, Variant.value.injEq, Value.ref.injEq]
      constructor
      · rintro heq _ rfl -
        rw [← lookup_createdIds_eq_none ha hr]
        cases hy : (createdIds created).lookup r with
        | none => rfl
        | some y =>
          rw [hy, Option.getD_some] at heq
          exact absurd heq.symm (lookup_createdIds_ne ha hissued hy)
      · intro hall
        rw [(lookup_createdIds_eq_none ha hr).mpr (hall r rfl hr), Option.getD_none]
    · have hvalue : ∀ old, changedValue ∅ entry old = changedValue (createdIds created) entry old := by
        intro old
        unfold changedValue
        split
        · rename_i r
          have hnull : r.isNone = true := Ref.isNone_iff.mpr
            (not_not.mp fun hne => hentry ⟨r, rfl, hne⟩)
          rw [if_pos hnull, if_pos hnull]
        · rfl
        · rfl
      rw [hvalue]
      simp only [true_iff]
      exact fun r hr hne => absurd ⟨r, Option.some.inj hr, hne⟩ hentry

theorem replayOk_iff (h : Inv tree) (ha : Applied tree patch tops created tree' record)
    (hissued : RefsIssued tree patch) (hu : u ∈ patch.updatedInstances)
    (hi : getByRef tree.inner u.id = some i) :
    (∀ k, (updatedInstance ∅ u i).properties.lookup k =
      (resolved tree' (pointersOf (updatedInstance (createdIds created) u i).properties) k).or
        ((updatedInstance (createdIds created) u i).properties.lookup k)) ↔
      ReplayOk tree patch u i := by
  have hpointers : pointersOf (updatedInstance (createdIds created) u i).properties =
      pointersOf (updatedInstance ∅ u i).properties := by
    unfold pointersOf
    rw [attributesOf_updatedInstance]
  rw [hpointers]
  have hnodup := nodup_pointersOf (updatedInstance ∅ u i).properties
  -- the replica knows no instance that the patch creates
  have hold : ∀ k r, (updatedInstance ∅ u i).properties.lookup k = some (.ref r) → r ≠ Ref.none →
      Issued tree.inner r := by
    intro k r hr hne
    change (updatedProperties ∅ u.changedProperties i.properties).lookup k = _ at hr
    rw [lookup_updatedProperties] at hr
    cases hentry : u.changedProperties.lookup k with
    | none =>
      rw [hentry] at hr
      exact hissued.stored _ i k r hi hr hne
    | some entry =>
      rw [hentry, Option.elim_some] at hr
      unfold changedValue at hr
      split at hr
      · split_ifs at hr
        · exact hissued.stored _ i k r hi hr hne
        · rw [AList.lookup_empty, Option.getD_none] at hr
          obtain rfl := Value.ref.inj (Variant.value.inj (Option.some.inj hr))
          exact hissued.assigned u hu k _ hentry hne
      · rename_i v hv
        exact (hv r (Option.some.inj hr)).elim
      · cases hr
  constructor
  · intro hall
    refine ⟨fun k target hmem => ?_, fun k r hr hne hnone => ?_⟩
    · have hvalue : ∀ y, tree'.getSpecifiedId ⟨target⟩ = some y →
          (updatedInstance ∅ u i).properties.lookup k = some (.ref y) := by
        intro y hy
        have hp : pointee tree' target = some (.ref y) := by
          unfold pointee
          rw [hy]
          rfl
        rw [hall k, (resolved_eq_some_iff hnodup).mpr ⟨target, hmem, hp⟩, Option.some_or]
      refine ⟨fun hnew => ?_, fun y hy => hvalue y ((specified_after h ha).mpr (Or.inl hy))⟩
      have hsome : pointee tree' target ≠ none := fun hn =>
        ((resolvesNone_iff h ha).mp hn).1 hnew
      obtain ⟨v, hv⟩ := Option.ne_none_iff_exists'.mp hsome
      obtain ⟨y, hy, -⟩ := Option.map_eq_some_iff.mp hv
      rcases (specified_after h ha).mp hy with hres | ⟨-, c, hc, rfl, -⟩
      · obtain ⟨⟨n, hn⟩, -⟩ := hnew
        rw [hres.1] at hn
        cases hn
      · exact ha.fresh c hc (hold k c.id (hvalue c.id hy) (ha.ne_null c hc))
    · have heq := hall k
      rw [(resolved_eq_none_iff h ha hnodup).mpr hnone, Option.none_or,
        lookup_updatedInstance_eq_iff ha hissued] at heq
      exact heq r hr hne
  · intro hok k
    cases hres : resolved tree' (pointersOf (updatedInstance ∅ u i).properties) k with
    | none =>
      rw [Option.none_or, lookup_updatedInstance_eq_iff ha hissued]
      exact fun r hr hne => hok.refs k r hr hne ((resolved_eq_none_iff h ha hnodup).mp hres)
    | some v =>
      obtain ⟨target, hmem, hp⟩ := (resolved_eq_some_iff hnodup).mp hres
      obtain ⟨y, hy, rfl⟩ := Option.map_eq_some_iff.mp hp
      rw [Option.some_or]
      rcases (specified_after h ha).mp hy with hold' | ⟨hnew, -⟩
      · exact (hok.pointers k target hmem).2 y hold'
      · exact absurd hnew (hok.pointers k target hmem).1

/-- **Applied patches replay faithfully exactly when no update depends on what the record leaves
out.** -/
theorem replay_iff [FloatCmp] (h : Inv tree) {snapshot : Option InstanceSnapshot} {id : Ref}
    (hp : computePatchSet snapshot tree id = some patch)
    (heq : applyPatchSet tree patch = some (tree', record)) (hissued : RefsIssued tree patch) :
    replay (replicaOf tree) (replicaOf tree') record = replicaOf tree' ↔
      ∀ u ∈ patch.updatedInstances, ∀ i, getByRef tree.inner u.id = some i →
        ReplayOk tree patch u i := by
  have hok := h.patchOk hp heq
  obtain ⟨tops, created, ha⟩ := h.applied hok heq
  rw [replay_eq_iff h hok ha]
  constructor
  · exact fun hall u hu i hi => (replayOk_iff h ha hissued hu hi).mp (hall u hu i hi)
  · exact fun hall u hu i hi => (replayOk_iff h ha hissued hu hi).mpr (hall u hu i hi)

end

/-! ### Examples -/

/-- An update of the old child and an addition. -/
def crossPatch : PatchSet :=
  let _ : FloatCmp := FloatCmp.exact
  (computePatchSet (some crossRefs) oneChildTree rootId).get rfl

theorem refsIssued_crossPatch : RefsIssued oneChildTree crossPatch := by
  have hentries : ∀ u ∈ crossPatch.updatedInstances,
      u.changedProperties.entries = [⟨"Other", some (.ref (Ref.some 52))⟩] := by decide
  have hids : ∀ a ∈ crossPatch.addedInstances, ∀ n ∈ a.inst.nodes,
      n.snapshotId = Ref.some 52 := by decide
  refine ⟨fun x j k r hj hr => ?_, fun u hu k r hr _ => ?_, fun a hmem n hn _ => ?_⟩
  · rw [no_refs_oneChildTree hj] at hr
    cases hr
  · have hmem : Sigma.mk k (some (.ref r)) ∈ u.changedProperties.entries :=
      AList.mem_lookup_iff.mp hr
    rw [hentries u hu] at hmem
    cases List.mem_singleton.mp hmem
    exact ⟨52, rfl, by decide⟩
  · rw [hids a hmem n hn]
    exact ⟨52, rfl, by decide⟩

/-- The update of the old child is recorded with the snapshot id of the new one. -/
theorem replay_crossPatch_ne : letI : FloatCmp := FloatCmp.exact
    ∃ tree' applied, Inv oneChildTree ∧ RefsIssued oneChildTree crossPatch ∧
      computePatchSet (some crossRefs) oneChildTree rootId = some crossPatch ∧
      applyPatchSet oneChildTree crossPatch = some (tree', applied) ∧
      replay (replicaOf oneChildTree) (replicaOf tree') applied ≠ replicaOf tree' := by
  let _ : FloatCmp := FloatCmp.exact
  have hinv : Inv oneChildTree := Inv.new (Option.some_get _).symm
  have hcompute : (computePatchSet (some crossRefs) oneChildTree rootId).isSome := by rfl
  have hp : computePatchSet (some crossRefs) oneChildTree rootId = some crossPatch :=
    (Option.some_get hcompute).symm
  have happly : (applyPatchSet oneChildTree crossPatch).isSome := by rfl
  have heq := (Option.some_get happly).symm
  have hok := hinv.patchOk hp heq
  obtain ⟨tops, created, ha⟩ := hinv.applied hok heq
  refine ⟨_, _, hinv, refsIssued_crossPatch, hp, heq, fun hreplay => ?_⟩
  have hupdates : crossPatch.updatedInstances ≠ [] := by decide
  have hupdated := replay_updated hok ha (List.head_mem hupdates)
    (i := (getByRef oneChildTree.inner (Ref.some 100)).get rfl) (Option.some_get _).symm
  have hvalue := congrArg (Option.map fun e => e.properties "Other")
    (hupdated.symm.trans (congrFun hreplay (Ref.some 100)))
  cases hvalue

/-- The replacement of a child by another one. -/
def otherPatch : PatchSet :=
  let _ : FloatCmp := FloatCmp.exact
  (computePatchSet (some otherChild) oneChildTree rootId).get rfl

/-- Two children, the old one of which refers to the root and the new one to the old one. -/
def parentRefs : InstanceSnapshot :=
  { crossRefs with children := [crossChild "Child" 51 50, crossChild "New" 52 51] }

def parentPatch : PatchSet :=
  let _ : FloatCmp := FloatCmp.exact
  (computePatchSet (some parentRefs) oneChildTree rootId).get rfl

theorem entries_parentPatch : ∀ u ∈ parentPatch.updatedInstances,
    u.changedProperties.entries = [⟨"Other", some (.ref rootId)⟩] := by decide

theorem snapshotIds_parentPatch : ∀ a ∈ parentPatch.addedInstances, ∀ n ∈ a.inst.nodes,
    n.snapshotId = Ref.some 52 := by decide

theorem refsIssued_parentPatch : RefsIssued oneChildTree parentPatch := by
  refine ⟨fun x j k r hj hr => ?_, fun u hu k r hr _ => ?_, fun a hmem n hn _ => ?_⟩
  · rw [no_refs_oneChildTree hj] at hr
    cases hr
  · have hmem : Sigma.mk k (some (.ref r)) ∈ u.changedProperties.entries :=
      AList.mem_lookup_iff.mp hr
    rw [entries_parentPatch u hu] at hmem
    cases List.mem_singleton.mp hmem
    exact ⟨0, rfl, by decide⟩
  · rw [snapshotIds_parentPatch a hmem n hn]
    exact ⟨52, rfl, by decide⟩

/-- The update refers to an instance that was there before the patch. -/
theorem replay_parentPatch : letI : FloatCmp := FloatCmp.exact
    ∃ tree' applied, applyPatchSet oneChildTree parentPatch = some (tree', applied) ∧
      parentPatch.updatedInstances.length = 1 ∧ parentPatch.addedInstances.length = 1 ∧
      replay (replicaOf oneChildTree) (replicaOf tree') applied = replicaOf tree' := by
  let _ : FloatCmp := FloatCmp.exact
  have hcompute : (computePatchSet (some parentRefs) oneChildTree rootId).isSome := by rfl
  have hp : computePatchSet (some parentRefs) oneChildTree rootId = some parentPatch :=
    (Option.some_get hcompute).symm
  have happly : (applyPatchSet oneChildTree parentPatch).isSome := by rfl
  refine ⟨_, _, (Option.some_get happly).symm, by decide, by decide, ?_⟩
  refine (replay_iff (Inv.new (Option.some_get _).symm) hp (Option.some_get happly).symm
    refsIssued_parentPatch).mpr fun u hu i hi => ⟨fun k target hmem => ?_, fun k r hr hne _ => ?_⟩
  · have hnone : pointersOf (updatedInstance ∅ u i).properties = [] := by
      have hattributes : (updatedInstance ∅ u i).properties.lookup "Attributes" = none := by
        change (updatedProperties ∅ u.changedProperties i.properties).lookup "Attributes" = none
        have hkey : "Attributes" ∉ u.changedProperties := by
          rw [AList.mem_keys, AList.keys, entries_parentPatch u hu]
          decide
        rw [lookup_updatedProperties, no_refs_oneChildTree hi, AList.lookup_eq_none.mpr hkey]
        rfl
      unfold pointersOf attributesOf
      rw [hattributes]
      rfl
    rw [hnone] at hmem
    cases hmem
  · have hmem : Sigma.mk k (some (.ref r)) ∈ u.changedProperties.entries :=
      AList.mem_lookup_iff.mp hr
    rw [entries_parentPatch u hu] at hmem
    cases List.mem_singleton.mp hmem
    intro a ha n hn
    rw [snapshotIds_parentPatch a ha n hn]
    decide

end Roxo
