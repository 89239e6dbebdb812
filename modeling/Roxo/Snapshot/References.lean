import Roxo.Snapshot.Outcome

/-!
# References

A `Ref` property of a snapshot names a node by its snapshot id. Computing and applying a patch
translate it in two steps, by the ids of the paired nodes and by those of the created ones
(`translate`); with snapshot ids of their own for all nodes the two steps lead to the instance
that stands for the node (`refs_resolve`).
-/

namespace Roxo

open AssocMap WeakDom RojoTree GreedyMatch Forest

section Standing

variable {D : Type} [WeakDom D] {tree : RojoTree D} {S s : InstanceSnapshot} {I r : Ref}

/-- Every node of the snapshot with the instance it was paired with or created as: instances are
created in the order of the nodes, and recorded in the order in which they are created. -/
def standing (tree : RojoTree D) (S : InstanceSnapshot) (I : Ref) (applied : AppliedPatchSet) :
    List (InstanceSnapshot × Ref) :=
  (plan tree S I).pairs ++
    ((plan tree S I).additions.flatMap fun a => a.inst.nodes).zip applied.added

/-- A node of the snapshot is paired or added. -/
theorem plan_nodes_perm : ((plan tree S I).pairs.map Prod.fst ++
    (plan tree S I).additions.flatMap fun a => a.inst.nodes).Perm S.nodes := by
  induction S using InstanceSnapshot.induct generalizing I with
  | snapshot S ih =>
    have hslots : S.children = (slots tree S I).map Prod.fst := by
      unfold slots
      rw [List.map_fst_zip]
      exact Nat.le_of_eq (length_partners _).symm
    rw [plan_eq, InstanceSnapshot.nodes_eq]
    dsimp only
    rw [List.map_cons, List.map_flatMap, List.flatMap_assoc, List.cons_append, hslots,
      List.flatMap_map]
    refine .cons S ((List.flatMap_append_perm _ _ _).trans (List.Perm.flatMap_left _ ?_))
    rintro ⟨c, m⟩ hslot
    cases m with
    | some t => exact ih c (List.of_mem_zip hslot).1
    | none =>
      change ([] ++ [PatchAdd.mk I c].flatMap fun a : PatchAdd => a.inst.nodes).Perm c.nodes
      rw [List.nil_append, List.flatMap_singleton]

/-- The snapshot ids are those of no two nodes and of no instance, and they have been handed out
before. -/
structure FreshIds (tree : RojoTree D) (S : InstanceSnapshot) : Prop where
  distinct : ((S.nodes.map InstanceSnapshot.snapshotId).filter Ref.isSome).Nodup
  disjoint : ∀ n ∈ S.nodes, getByRef tree.inner n.snapshotId = none
  issued : ∀ n ∈ S.nodes, n.snapshotId.isSome → Issued tree.inner n.snapshotId

theorem keys_pairIds (pairs : List (InstanceSnapshot × Ref)) : (pairIds pairs).map Prod.fst =
    ((pairs.map Prod.fst).map InstanceSnapshot.snapshotId).filter Ref.isSome := by
  unfold pairIds
  rw [List.map_map, List.map_map, List.filter_map]
  rfl

theorem mem_pairIds {pairs : List (InstanceSnapshot × Ref)} {a : Ref} :
    (a, r) ∈ pairIds pairs ↔ a.isSome = true ∧ ∃ s, (s, r) ∈ pairs ∧ s.snapshotId = a := by
  unfold pairIds
  simp only [List.mem_map, List.mem_filter, Prod.mk.injEq, Prod.exists]
  constructor
  · rintro ⟨s, r, ⟨hs, hsome⟩, rfl, rfl⟩
    exact ⟨hsome, s, hs, rfl⟩
  · rintro ⟨hsome, s, hs, rfl⟩
    exact ⟨s, r, ⟨hs, hsome⟩, rfl, rfl⟩

end Standing

section

variable {D : Type} [WeakDom D] [LawfulWeakDom D] [FloatCmp] {tree tree' : RojoTree D}
  {S s n : InstanceSnapshot} {patch : PatchSet} {tops : List Ref} {created : List Creation}
  {record : AppliedPatchSet} {I r x y : Ref} {i : Instance} {k : String}

omit [LawfulWeakDom D] in
/-- What is created is made of the added nodes, in their order. -/
theorem created_snapshots (hc : Computed tree S I patch)
    (ha : Applied tree patch tops created tree' record) :
    created.map Creation.snapshot =
      ((plan tree S I).additions.flatMap fun a => a.inst.nodes).map
        (rewriteRefsInSnapshot (pairMap tree S I)) := by
  rw [ha.creates.snapshots, hc.added, List.flatMap_map, List.map_flatMap]
  exact List.flatMap_congr fun a _ => nodes_rewrite a.inst

omit [LawfulWeakDom D] in
theorem stands_of_mem_standing (hc : Computed tree S I patch)
    (ha : Applied tree patch tops created tree' record) (hs : (s, r) ∈ standing tree S I record) :
    StandsFor tree S I created s r := by
  rcases List.mem_append.mp hs with hs | hs
  · exact Or.inl hs
  · have hzip : (rewriteRefsInSnapshot (pairMap tree S I) s, r) ∈
        (created.map Creation.snapshot).zip (created.map Creation.id) := by
      rw [created_snapshots hc ha, List.zip_map_left]
      rw [ha.recorded] at hs
      exact List.mem_map.mpr ⟨(s, r), hs, rfl⟩
    rw [List.zip_map'] at hzip
    obtain ⟨c, hmem, heq⟩ := List.mem_map.mp hzip
    obtain ⟨hsnap, hid⟩ := Prod.mk.inj heq
    exact Or.inr ⟨c, hmem, hid, hsnap⟩

omit [LawfulWeakDom D] in
theorem standing_perm (hc : Computed tree S I patch)
    (ha : Applied tree patch tops created tree' record) :
    ((standing tree S I record).map Prod.fst).Perm S.nodes := by
  unfold standing
  rw [List.map_append, List.map_fst_zip]
  · exact plan_nodes_perm
  · rw [ha.recorded]
    have hlen := congrArg List.length (created_snapshots hc ha)
    rw [List.length_map, List.length_map] at hlen
    rw [List.length_map]
    exact Nat.le_of_eq hlen.symm

/-! ## The two maps -/

omit [LawfulWeakDom D] [FloatCmp] in
theorem FreshIds.nodup (hf : FreshIds tree S) :
    ((((plan tree S I).pairs.map Prod.fst).map InstanceSnapshot.snapshotId).filter Ref.isSome ++
      (((plan tree S I).additions.flatMap fun a => a.inst.nodes).map
        InstanceSnapshot.snapshotId).filter Ref.isSome).Nodup := by
  rw [← List.filter_append, ← List.map_append]
  exact ((plan_nodes_perm.map _).filter _).nodup_iff.mpr hf.distinct

omit [LawfulWeakDom D] [FloatCmp] in
theorem lookup_pairMap (hf : FreshIds tree S) : (pairMap tree S I).lookup r = some x ↔
    r.isSome = true ∧ ∃ s, (s, x) ∈ (plan tree S I).pairs ∧ s.snapshotId = r := by
  unfold pairMap
  rw [lookup_extend_empty, mem_pairIds]
  rw [keys_pairIds]
  exact (List.nodup_append.mp hf.nodup).1

omit [LawfulWeakDom D] in
theorem keys_created (hc : Computed tree S I patch)
    (ha : Applied tree patch tops created tree' record) :
    (pairIds (created.map Creation.pair)).map Prod.fst =
      (((plan tree S I).additions.flatMap fun a => a.inst.nodes).map
        InstanceSnapshot.snapshotId).filter Ref.isSome := by
  have hfst : (created.map Creation.pair).map Prod.fst = created.map Creation.snapshot :=
    List.map_map
  rw [keys_pairIds, hfst, created_snapshots hc ha, List.map_map]
  congr 1
  exact List.map_congr_left fun s _ => snapshotId_rewrite

omit [LawfulWeakDom D] in
theorem lookup_createdIds (hf : FreshIds tree S) (hc : Computed tree S I patch)
    (ha : Applied tree patch tops created tree' record) :
    (createdIds created).lookup r = some x ↔
      r.isSome = true ∧ ∃ c ∈ created, c.snapshot.snapshotId = r ∧ c.id = x := by
  unfold createdIds
  rw [lookup_extend_empty, mem_pairIds]
  · refine and_congr Iff.rfl ?_
    constructor
    · rintro ⟨s, hs, rfl⟩
      obtain ⟨c, hmem, heq⟩ := List.mem_map.mp hs
      obtain ⟨rfl, rfl⟩ := Prod.mk.inj heq
      exact ⟨c, hmem, rfl, rfl⟩
    · rintro ⟨c, hmem, rfl, rfl⟩
      exact ⟨c.snapshot, List.mem_map_of_mem hmem, rfl⟩
  · rw [keys_created hc ha]
    exact (List.nodup_append.mp hf.nodup).2.1

omit [LawfulWeakDom D] in
/-- Snapshot ids of created nodes are snapshot ids of the snapshot. -/
theorem node_of_created (hc : Computed tree S I patch)
    (ha : Applied tree patch tops created tree' record) {c : Creation} (hmem : c ∈ created) :
    ∃ n ∈ S.nodes, c.snapshot = rewriteRefsInSnapshot (pairMap tree S I) n := by
  have hsnap : c.snapshot ∈ created.map Creation.snapshot := List.mem_map_of_mem hmem
  rw [created_snapshots hc ha] at hsnap
  obtain ⟨n, hn, heq⟩ := List.mem_map.mp hsnap
  exact ⟨n, plan_nodes_perm.mem_iff.mp (List.mem_append_right _ hn), heq.symm⟩

omit [LawfulWeakDom D] in
/-- An instance of the tree is no snapshot id. -/
theorem lookup_createdIds_present (hf : FreshIds tree S) (hc : Computed tree S I patch)
    (ha : Applied tree patch tops created tree' record) (hx : (getByRef tree.inner x).isSome) :
    (createdIds created).lookup x = none := by
  refine Option.eq_none_iff_forall_ne_some.mpr fun y hy => ?_
  obtain ⟨-, c, hmem, rfl, -⟩ := (lookup_createdIds hf hc ha).mp hy
  obtain ⟨n, hn, hsnap⟩ := node_of_created hc ha hmem
  rw [hsnap, snapshotId_rewrite, hf.disjoint n hn] at hx
  cases hx

/-- **The snapshot id of a node is translated to the instance that stands for the node.** -/
theorem translate_standsFor (hf : FreshIds tree S) (hc : Computed tree S I patch)
    (ha : Applied tree patch tops created tree' record) (hroot : getByRef tree.inner I = some i)
    (hn : StandsFor tree S I created n y) (hsome : n.snapshotId.isSome = true) :
    translate (pairMap tree S I) (createdIds created) n.snapshotId = y := by
  unfold translate
  rcases hn with hn | ⟨c, hmem, rfl, hsnap⟩
  · have hpair : (pairMap tree S I).lookup n.snapshotId = some y :=
      (lookup_pairMap hf).mpr ⟨hsome, n, hn, rfl⟩
    rw [hpair, Option.getD_some,
      lookup_createdIds_present hf hc ha (present_of_mem_pairs hroot hn), Option.getD_none]
  · have hcreated : (createdIds created).lookup n.snapshotId = some c.id := by
      refine (lookup_createdIds hf hc ha).mpr ⟨hsome, c, hmem, ?_, rfl⟩
      rw [hsnap, snapshotId_rewrite]
    have hpair : (pairMap tree S I).lookup n.snapshotId = none := by
      rw [Option.eq_none_iff_forall_ne_some]
      intro x hx
      -- the paired and the created nodes have no snapshot id in common
      have hkey : n.snapshotId ∈ (pairIds (created.map Creation.pair)).map Prod.fst := by
        refine List.mem_map.mpr ⟨(n.snapshotId, c.id), mem_pairIds.mpr ⟨hsome, ?_⟩, rfl⟩
        refine ⟨c.snapshot, List.mem_map_of_mem hmem, ?_⟩
        rw [hsnap, snapshotId_rewrite]
      rw [keys_created hc ha] at hkey
      obtain ⟨-, s, hs, hid⟩ := (lookup_pairMap hf).mp hx
      have hkey' : n.snapshotId ∈
          (((plan tree S I).pairs.map Prod.fst).map InstanceSnapshot.snapshotId).filter
            Ref.isSome := by
        refine List.mem_filter.mpr ⟨?_, hsome⟩
        rw [← hid]
        exact List.mem_map_of_mem (List.mem_map_of_mem hs)
      exact (List.nodup_append.mp hf.nodup).2.2 _ hkey' _ hkey rfl
    rw [hpair, Option.getD_none, hcreated, Option.getD_some]

omit [LawfulWeakDom D] [FloatCmp] in
theorem lookup_pairMap_present (hf : FreshIds tree S) (hx : (getByRef tree.inner x).isSome) :
    (pairMap tree S I).lookup x = none := by
  refine Option.eq_none_iff_forall_ne_some.mpr fun y hy => ?_
  obtain ⟨-, s, hs, rfl⟩ := (lookup_pairMap hf).mp hy
  rw [hf.disjoint s (mem_nodes_of_mem_pairs s y hs)] at hx
  cases hx

omit [FloatCmp] in
theorem ne_null_of_present (hx : (getByRef tree.inner x).isSome) : x ≠ Ref.none := by
  rintro rfl
  rw [LawfulWeakDom.getByRef_null] at hx
  cases hx

omit [FloatCmp] in
theorem pairMap_ne_null (hf : FreshIds tree S) (hroot : (getByRef tree.inner I).isSome)
    (hne : r ≠ Ref.none) : ((pairMap tree S I).lookup r).getD r ≠ Ref.none := by
  cases hpair : (pairMap tree S I).lookup r with
  | none => exact hne
  | some z =>
    obtain ⟨-, s, hs, -⟩ := (lookup_pairMap hf).mp hpair
    exact ne_null_of_present (present_of_desc hroot (desc_of_mem_pairs s z hs))

omit [LawfulWeakDom D] [FloatCmp] in
theorem pointee_eq_some (h : Inv tree) {target : String} {v : Variant}
    (hv : pointee tree target = some v) :
    ∃ x, v = .ref x ∧ tree.getSpecifiedId ⟨target⟩ = some x ∧
      (getByRef tree.inner x).isSome := by
  obtain ⟨x, hx, rfl⟩ := Option.map_eq_some_iff.mp hv
  refine ⟨x, rfl, hx, ?_⟩
  obtain ⟨m, hm, -⟩ := (h.toIndexed.getSpecifiedId_iff.mp hx x).mpr rfl
  exact (h.keys x).mp (AList.lookup_isSome.mp (Option.isSome_of_eq_some hm))

/-- The attributes of a paired instance are those of its snapshot, unless a reference has replaced
them. -/
theorem attributes_paired (h : Inv tree) (hf : FreshIds tree S)
    (hroot : (getByRef tree.inner I).isSome)
    (hattr : s.properties.lookup "Attributes" ≠ some (.ref Ref.none)) (i : Instance)
    (ids : Map Ref Ref) :
    Option.Rel SameValue (s.properties.lookup "Attributes")
        (pairedValue tree (pairMap tree S I) ids s i "Attributes") ∨
      ∀ l, pairedValue tree (pairMap tree S I) ids s i "Attributes" ≠ some (.attributes l) := by
  have hpivot : ¬ (s.className ∈ pivotClasses ∧ "Attributes" = needsPivotMigration) :=
    fun hk => absurd hk.2 (by decide)
  cases hp : (pointersOf s.properties).lookup "Attributes" with
  | none =>
    by_cases href : ∃ q, s.properties.lookup "Attributes" = some (.ref q)
    · obtain ⟨q, hq⟩ := href
      refine Or.inr fun l hl => ?_
      have hne : q ≠ Ref.none := fun hnull => hattr (hnull ▸ hq)
      rw [pairedValue_ref hpivot hp hq] at hl
      split_ifs at hl with hif
      · rcases hif with hold | hnull
        · rw [hold] at hl
          cases hl
        · exact pairMap_ne_null hf hroot hne hnull
      · cases hl
    · exact Or.inl (pairedValue_rel hpivot hp (not_exists.mp href))
  | some target =>
    refine Or.inr fun l hl => ?_
    unfold pairedValue computedChange pointerTarget at hl
    rw [if_neg hpivot, hp, Option.map_some] at hl
    cases ht : pointee tree target with
    | none =>
      rw [ht] at hl
      cases hw : i.properties.lookup "Attributes" with
      | none => rw [hw] at hl; cases hl
      | some w => rw [hw] at hl; cases hl
    | some v =>
      obtain ⟨x, rfl, -, hx⟩ := pointee_eq_some h ht
      rw [ht] at hl
      have hset : ∀ old, changedValue ids ((some (Variant.ref x)).map
          (rewriteRef (pairMap tree S I))) old = some (.ref ((ids.lookup x).getD x)) := by
        intro old
        rw [Option.map_some, rewriteRef_ref, lookup_pairMap_present hf hx, Option.getD_none]
        unfold changedValue
        dsimp only
        rw [if_neg fun hn => ne_null_of_present hx (Ref.isNone_iff.mp hn)]
      cases hw : i.properties.lookup "Attributes" with
      | none =>
        rw [hw] at hl
        change changedValue ids ((some (Variant.ref x)).map (rewriteRef (pairMap tree S I))) none =
          _ at hl
        rw [hset] at hl
        cases hl
      | some w =>
        rw [hw] at hl
        unfold pointerChange at hl
        dsimp only at hl
        split_ifs at hl with hne
        · rw [Option.elim_some, hset] at hl
          cases hl
        · rw [Option.elim_none, ← not_ne_iff.mp hne] at hl
          cases hl

/-- An instance has no more pointers than its snapshot. -/
theorem pointers_paired (h : Inv tree) (hf : FreshIds tree S)
    (hroot : (getByRef tree.inner I).isSome)
    (hattr : s.properties.lookup "Attributes" ≠ some (.ref Ref.none)) {ids : Map Ref Ref}
    {properties : UstrMap Variant}
    (hprops : ∀ k, properties.lookup k = pairedValue tree (pairMap tree S I) ids s i k)
    (hpointer : (pointersOf s.properties).lookup k = none) :
    (pointersOf properties).lookup k = none := by
  rcases attributes_paired h hf hroot hattr i ids with hrel | hnot
  · rw [← hprops] at hrel
    rw [← pointersOf_congr hrel]
    exact hpointer
  · rw [← hprops] at hnot
    unfold pointersOf attributesOf
    split
    · rename_i heq
      exact absurd heq (hnot _)
    · rfl

/-- **A reference of a node** on the instance that stands for it, where no attribute sets the
property. -/
theorem ref_after (h : Inv tree) (hf : FreshIds tree S) (hc : Computed tree S I patch)
    (ha : Applied tree patch tops created tree' record) (hroot : getByRef tree.inner I = some i)
    (hs : StandsFor tree S I created s x)
    (hattr : s.properties.lookup "Attributes" ≠ some (.ref Ref.none))
    (hpivot : ¬ (s.className ∈ pivotClasses ∧ k = needsPivotMigration))
    (hpointer : (pointersOf s.properties).lookup k = none)
    (hr : s.properties.lookup k = some (.ref r)) :
    ∃ i', getByRef tree'.inner x = some i' ∧
      ((getByRef tree.inner x = none ∧
          i'.properties.lookup k = some (.ref (translate (pairMap tree S I) (createdIds created) r))) ∨
        ∃ j, getByRef tree.inner x = some j ∧ i'.properties.lookup k =
          if j.properties.lookup k = some (.ref r) ∨
              ((pairMap tree S I).lookup r).getD r = Ref.none then j.properties.lookup k
          else some (.ref (translate (pairMap tree S I) (createdIds created) r))) := by
  rcases hs with hs | ⟨c, hmem, rfl, hsnap⟩
  · obtain ⟨j, hj⟩ := Option.isSome_iff_exists.mp (present_of_mem_pairs hroot hs)
    obtain ⟨m, hm⟩ := h.metadata_of_present hj
    have hvalue : pairedValue tree (pairMap tree S I) (createdIds created) s j k = _ :=
      pairedValue_ref hpivot hpointer hr
    by_cases hq : Quiet tree s j m
    · obtain ⟨-, hi', -⟩ := quiet_after h hc ha hs hj hm hq
      refine ⟨_, hi', Or.inr ⟨j, hj, ?_⟩⟩
      rw [← hvalue]
      unfold pairedValue
      rw [hq.1 k]
      rfl
    · obtain ⟨u, -, -, -, properties, i', hi', hprops, -, -, -, -, hfinal, -⟩ :=
        updated_after h hc ha hs hj hm hq
      refine ⟨i', hi', Or.inr ⟨j, hj, ?_⟩⟩
      have hnone : resolved tree' (pointersOf properties) k = none := by
        unfold resolved
        rw [pointers_paired h hf (Option.isSome_of_eq_some hroot) hattr hprops hpointer]
        rfl
      rw [hfinal, hnone, hprops, hvalue]
      rfl
  · obtain ⟨i', hi', -, -, -, -, hprops, -⟩ := created_after ha hmem hsnap
    refine ⟨i', hi', Or.inl ⟨?_, ?_⟩⟩
    · rw [Option.eq_none_iff_forall_ne_some]
      intro j hj
      exact ha.fresh c hmem (LawfulWeakDom.issued_of_present _ hj)
    · have hnone : resolved tree' (pointersOf s.properties) k = none := by
        unfold resolved
        rw [hpointer]
        rfl
      obtain ⟨stored, hstored, hvalue⟩ := hprops k
      have hcreated : createdValue (pairMap tree S I) (createdIds created) s k =
          some (.ref (translate (pairMap tree S I) (createdIds created) r)) := by
        unfold createdValue
        rw [hr, Option.map_some, Option.some_or, Option.map_some, rewriteRef_rewriteRef]
      rw [hcreated] at hstored
      rw [hvalue, hnone, Option.none_or,
        hstored.eq_of_value fun id h => by cases Variant.value.inj (Option.some.inj h)]

/-- A reference of the node that nothing else decides on: no attribute sets the property. -/
structure OwnRef (n : InstanceSnapshot) (k : String) (r : Ref) : Prop where
  value : n.properties.lookup k = some (.ref r)
  attributes : n.properties.lookup "Attributes" ≠ some (.ref Ref.none)
  pivot : ¬ (n.className ∈ pivotClasses ∧ k = needsPivotMigration)
  pointer : (pointersOf n.properties).lookup k = none

/-- The property of the instance is not a reference to anything. -/
def NullAt (tree : RojoTree D) (x : Ref) (k : String) : Prop :=
  ∀ i r, getByRef tree.inner x = some i → i.properties.lookup k = some (.ref r) → r = Ref.none

/-- The references of the nodes lead to the instances that stand for their nodes, and where a node
has the null reference the instance refers to nothing. -/
def RefsResolved (tree : RojoTree D) (standing : List (InstanceSnapshot × Ref)) : Prop :=
  ∀ n x k r, (n, x) ∈ standing → OwnRef n k r → (getByRef tree.inner x).isSome ∧
    (∀ m y, (m, y) ∈ standing → m.snapshotId = r → r ≠ Ref.none →
      ∃ i, getByRef tree.inner x = some i ∧ i.properties.lookup k = some (.ref y)) ∧
    (r = Ref.none → NullAt tree x k)

/-- **References are resolved.** After a patch, a `Ref` property that names a node holds the
instance that stands for the node, and one that is null refers to nothing exactly if it did not
before the patch: updating an instance passes over null references. -/
theorem refs_resolve (h : Inv tree) (hroot : getByRef tree.inner I = some i)
    (hf : FreshIds tree S)
    (hstored : ∀ x j k r, getByRef tree.inner x = some j →
      j.properties.lookup k = some (.ref r) → r ≠ Ref.none → ∀ n ∈ S.nodes, n.snapshotId ≠ r)
    (hp : computePatchSet (some S) tree I = some patch) :
    ∃ tree' applied, applyPatchSet tree patch = some (tree', applied) ∧
      ((standing tree S I applied).map Prod.fst).Perm S.nodes ∧
      (∀ n x k r, (n, x) ∈ standing tree S I applied → OwnRef n k r →
        (getByRef tree'.inner x).isSome ∧
        (∀ m y, (m, y) ∈ standing tree S I applied → m.snapshotId = r → r ≠ Ref.none →
          ∃ i', getByRef tree'.inner x = some i' ∧ i'.properties.lookup k = some (.ref y)) ∧
        (r = Ref.none → (NullAt tree' x k ↔ NullAt tree x k))) ∧
      (RefsResolved tree' (standing tree S I applied) ↔
        ∀ n x k, (n, x) ∈ (plan tree S I).pairs → OwnRef n k Ref.none → NullAt tree x k) := by
  have hc := computePatchSet_computed h hroot hp
  obtain ⟨tops, created, tree', applied, heq, ha⟩ :=
    applyPatchSet_applied h (hc.patchOk h hroot)
  have hnode : ∀ n x k r, (n, x) ∈ standing tree S I applied → OwnRef n k r →
      (getByRef tree'.inner x).isSome ∧
      (∀ m y, (m, y) ∈ standing tree S I applied → m.snapshotId = r → r ≠ Ref.none →
        ∃ i', getByRef tree'.inner x = some i' ∧ i'.properties.lookup k = some (.ref y)) ∧
      (r = Ref.none → (NullAt tree' x k ↔ NullAt tree x k)) := by
    intro n x k r hn hown
    obtain ⟨i', hi', hafter⟩ := ref_after h hf hc ha hroot (stands_of_mem_standing hc ha hn)
      hown.attributes hown.pivot hown.pointer hown.value
    refine ⟨Option.isSome_of_eq_some hi', ?_, ?_⟩
    · rintro m y hm rfl hne
      have hsome : m.snapshotId.isSome = true := Ref.isSome_iff.mpr hne
      have hmnode : m ∈ S.nodes := (standing_perm hc ha).mem_iff.mp (List.mem_map_of_mem hm)
      rw [translate_standsFor hf hc ha hroot (stands_of_mem_standing hc ha hm) hsome] at hafter
      refine ⟨i', hi', ?_⟩
      rcases hafter with ⟨-, hvalue⟩ | ⟨j, hj, hvalue⟩
      · exact hvalue
      · rw [hvalue, if_neg]
        rintro (hold | hnull)
        · exact hstored x j k _ hj hold hne m hmnode rfl
        · exact pairMap_ne_null hf (Option.isSome_of_eq_some hroot) hne hnull
    · rintro rfl
      have hnull : (pairMap tree S I).lookup Ref.none = none := lookup_pairIds_null _
      unfold NullAt
      rcases hafter with ⟨habsent, hvalue⟩ | ⟨j, hj, hvalue⟩
      · have htranslate :
            translate (pairMap tree S I) (createdIds created) Ref.none = Ref.none := by
          unfold translate createdIds
          rw [hnull, Option.getD_none, lookup_pairIds_null, Option.getD_none]
        rw [htranslate] at hvalue
        refine iff_of_true (fun j r' hj hr' => ?_) (fun j r' hj => ?_)
        · obtain rfl := Option.some.inj (hi'.symm.trans hj)
          rw [hvalue] at hr'
          exact (Value.ref.inj (Variant.value.inj (Option.some.inj hr'))).symm
        · rw [habsent] at hj
          cases hj
      · rw [hnull, Option.getD_none, if_pos (Or.inr rfl)] at hvalue
        -- the property is what it was
        simp only [hi', hj, Option.some.injEq, forall_eq', @forall_comm Instance, hvalue]
  refine ⟨tree', applied, heq, standing_perm hc ha, hnode, ?_⟩
  constructor
  · intro hall n x k hn hown
    have hstands : (n, x) ∈ standing tree S I applied := List.mem_append_left _ hn
    exact ((hnode n x k _ hstands hown).2.2 rfl).mp ((hall n x k _ hstands hown).2.2 rfl)
  · intro hspared n x k r hn hown
    obtain ⟨hthere, hnamed, hkept⟩ := hnode n x k r hn hown
    refine ⟨hthere, hnamed, fun hnull => (hkept hnull).mpr ?_⟩
    rcases stands_of_mem_standing hc ha hn with hpair | ⟨c, hmem, rfl, -⟩
    · exact hspared n x k hpair (hnull ▸ hown)
    · exact fun j _ hj => absurd (LawfulWeakDom.issued_of_present _ hj) (ha.fresh c hmem)

end

/-! ### Examples -/

/-- A child with a property that refers to the root. -/
def valueChild (value : Variant) : InstanceSnapshot :=
  { InstanceSnapshot.new with
    name := "Child"
    className := "ObjectValue"
    properties := (∅ : UstrMap Variant).insert "Value" value }

def valueRoot (value : Variant) : InstanceSnapshot :=
  { InstanceSnapshot.new with
    name := "Root"
    className := "Folder"
    children := [valueChild value] }

/-- The id of the root of a new `MapDom`. -/
def rootId : Ref := Ref.some 0

def valueTree : RojoTree MapDom := (RojoTree.new (valueRoot (.ref rootId))).get rfl

theorem inv_valueTree : Inv valueTree := Inv.new (Option.some_get _).symm

/-- A null reference on a paired instance leaves the old reference there. -/
theorem null_ref_kept : letI : FloatCmp := FloatCmp.exact
    ∃ patch tree' applied,
      Inv valueTree ∧ FreshIds valueTree (valueRoot (.ref Ref.none)) ∧
      computePatchSet (some (valueRoot (.ref Ref.none))) valueTree rootId = some patch ∧
      applyPatchSet valueTree patch = some (tree', applied) ∧
      (valueChild (.ref Ref.none), Ref.some MapDom.firstFree) ∈
        standing valueTree (valueRoot (.ref Ref.none)) rootId applied ∧
      (valueChild (.ref Ref.none)).properties.lookup "Value" = some (.ref Ref.none) ∧
      (getByRef tree'.inner (Ref.some MapDom.firstFree)).map
        (fun i => i.properties.lookup "Value") = some (some (.ref rootId)) ∧
      rootId ≠ Ref.none := by
  let _ : FloatCmp := FloatCmp.exact
  have hcompute : (computePatchSet (some (valueRoot (.ref Ref.none))) valueTree rootId).isSome := by
    rfl
  have happly : (applyPatchSet valueTree (Option.get _ hcompute)).isSome := by rfl
  have hids : ∀ n ∈ (valueRoot (.ref Ref.none)).nodes, n.snapshotId = Ref.none := by decide
  have hf : FreshIds valueTree (valueRoot (.ref Ref.none)) := by
    refine ⟨by decide, fun n hn => ?_, fun n hn hsome => ?_⟩
    · rw [hids n hn]
      rfl
    · rw [hids n hn] at hsome
      cases hsome
  exact ⟨Option.get _ hcompute, (Option.get _ happly).1, (Option.get _ happly).2, inv_valueTree, hf,
    (Option.some_get hcompute).symm, (Option.some_get happly).symm,
    List.mem_append_left _ (List.mem_cons_of_mem _ List.mem_cons_self), rfl, rfl, by decide⟩

/-- A child with a snapshot id that refers to another snapshot id. -/
def crossChild (name : String) (id other : ℕ) : InstanceSnapshot :=
  { InstanceSnapshot.new with
    snapshotId := Ref.some id
    name := name
    className := "Folder"
    properties := (∅ : UstrMap Variant).insert "Other" (.ref (Ref.some other)) }

/-- One of its properties refers to nothing. -/
def withNull (snapshot : InstanceSnapshot) : InstanceSnapshot :=
  { snapshot with properties := snapshot.properties.insert "Nothing" (.ref Ref.none) }

/-- Two children that refer to each other, one of which is new. -/
def crossRefs : InstanceSnapshot :=
  { InstanceSnapshot.new with
    snapshotId := Ref.some 50
    name := "Root"
    className := "Folder"
    children := [crossChild "Child" 51 52, crossChild "New" 52 51] }

def crossNulls : InstanceSnapshot :=
  { crossRefs with children := crossRefs.children.map withNull }

theorem fresh_crossNulls : FreshIds oneChildTree crossNulls := by
  have hids : ∀ n ∈ crossNulls.nodes, ∃ k < MapDom.firstFree, n.snapshotId = Ref.some k := by
    intro n hn
    rcases List.mem_cons.mp hn with rfl | hn
    · exact ⟨50, by decide, rfl⟩
    rcases List.mem_cons.mp hn with rfl | hn
    · exact ⟨51, by decide, rfl⟩
    · rw [List.mem_singleton.mp hn]
      exact ⟨52, by decide, rfl⟩
  refine ⟨by decide, by decide, fun n hn _ => ?_⟩
  obtain ⟨k, hk, heq⟩ := hids n hn
  exact ⟨k, heq, Nat.lt_succ_of_lt hk⟩

theorem own_crossChild (name : String) (id other : ℕ) :
    OwnRef (withNull (crossChild name id other)) "Other" (Ref.some other) where
  value := rfl
  attributes h := by cases h
  pivot h := absurd h.2 (by decide)
  pointer := rfl

theorem no_refs_oneChildTree {x : Ref} {j : Instance} (hj : getByRef oneChildTree.inner x = some j)
    (k : String) : j.properties.lookup k = none := by
  obtain ⟨n, hn, -, rfl⟩ := (MapDom.lookupNode_eq_some oneChildTree.inner.sorted).mp hj
  have hempty : ∀ n ∈ oneChildTree.inner.nodes, n.properties = ∅ := by
    intro n hn
    rcases List.mem_cons.mp hn with rfl | hn
    · rfl
    · rw [List.mem_singleton.mp hn]
      rfl
  change n.properties.lookup k = none
  rw [hempty n hn]
  exact AList.lookup_empty k

/-- The new child is created as `101`, and each child refers to the other. The tree holds no
references, so all are resolved. -/
theorem refs_resolve_crossNulls : letI : FloatCmp := FloatCmp.exact
    ∃ (tree' : RojoTree MapDom) (applied : AppliedPatchSet) (i' j' : Instance),
      getByRef tree'.inner (Ref.some 100) = some i' ∧ getByRef tree'.inner (Ref.some 101) = some j' ∧
      i'.properties.lookup "Other" = some (.ref (Ref.some 101)) ∧
      j'.properties.lookup "Other" = some (.ref (Ref.some 100)) ∧
      OwnRef (withNull (crossChild "Child" 51 52)) "Nothing" Ref.none ∧
      RefsResolved tree' (standing oneChildTree crossNulls rootId applied) := by
  let _ : FloatCmp := FloatCmp.exact
  have hcompute : (computePatchSet (some crossNulls) oneChildTree rootId).isSome := by rfl
  have happly : (applyPatchSet oneChildTree (Option.get _ hcompute)).isSome := by rfl
  obtain ⟨tree', applied, heq, -, h, hiff⟩ := refs_resolve (S := crossNulls) (I := rootId)
    (Inv.new (Option.some_get _).symm : Inv oneChildTree)
    (i := (getByRef oneChildTree.inner rootId).get rfl) (Option.some_get _).symm fresh_crossNulls
    (fun x j k r hj hr => by rw [no_refs_oneChildTree hj] at hr; cases hr)
    (Option.some_get hcompute).symm
  have hpair : (tree', applied) = Option.get _ happly :=
    Option.some.inj (heq.symm.trans (Option.some_get happly).symm)
  have hadded : applied.added = [Ref.some 101] := by
    rw [congrArg (fun e => e.2.added) hpair]
    rfl
  have hchild : (withNull (crossChild "Child" 51 52), Ref.some 100) ∈
      standing oneChildTree crossNulls rootId applied :=
    List.mem_append_left _ (List.mem_cons_of_mem _ List.mem_cons_self)
  have hnew : (withNull (crossChild "New" 52 51), Ref.some 101) ∈
      standing oneChildTree crossNulls rootId applied := by
    refine List.mem_append_right _ ?_
    rw [hadded]
    exact List.mem_cons_self
  obtain ⟨-, hothers, -⟩ := h _ _ _ _ hchild (own_crossChild "Child" 51 52)
  obtain ⟨i', hi', hi⟩ := hothers _ _ hnew rfl (by decide)
  obtain ⟨-, hothers, -⟩ := h _ _ _ _ hnew (own_crossChild "New" 52 51)
  obtain ⟨j', hj', hj⟩ := hothers _ _ hchild rfl (by decide)
  refine ⟨tree', applied, i', j', hi', hj', hi, hj, ⟨rfl, by decide,
    fun h => absurd h.2 (by decide), rfl⟩, hiff.mpr fun n x k _ _ j r hj hr => ?_⟩
  rw [no_refs_oneChildTree hj] at hr
  cases hr

end Roxo
