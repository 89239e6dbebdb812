import Roxo.Snapshot.Outcome

/-!
# Convergence

Applying the patch of a snapshot makes the subtree what the snapshot describes and leaves the rest
of the tree alone, as long as the snapshot has no references, names no instances by
user-specified ids and has no class with the pivot special case (`applyPatchSet_converges`).
-/

namespace Roxo

open AssocMap WeakDom RojoTree GreedyMatch Forest

section Defs

variable [FloatCmp]

/-- The property of an instance of `tree'` has the value of the snapshot. An instance that is not in
`tree` may have another `UniqueId`. -/
def SameProperty {D : Type} [WeakDom D] (tree : RojoTree D) (id : Ref) (k : String)
    (given held : Option Variant) : Prop :=
  Option.Rel SameValue given held ∨ getByRef tree.inner id = none ∧ StoredAs k given held

/-- The subtree of `tree'` at an instance is what the snapshot describes: `ids` are the children in
the order of the snapshot. -/
inductive Matches {D : Type} [WeakDom D] (tree tree' : RojoTree D) : InstanceSnapshot → Ref → Prop
  | node {s : InstanceSnapshot} {id : Ref} {i : Instance} {ids : List Ref} :
    getByRef tree'.inner id = some i → i.name = s.name → i.className = s.className →
    tree'.getMetadata id = some s.metadata →
    (∀ k, SameProperty tree id k (s.properties.lookup k) (i.properties.lookup k)) →
    i.children.Perm ids → List.Forall₂ (Matches tree tree') s.children ids →
    Matches tree tree' s id

omit [FloatCmp] in
/-- Outside the subtree at `id` the two trees have the same instances. -/
structure UnchangedOutside {D : Type} [WeakDom D] (tree tree' : RojoTree D) (id : Ref) : Prop where
  kept : ∀ x i, getByRef tree.inner x = some i → ¬ Desc (kids tree.inner) id x →
    getByRef tree'.inner x = some i ∧ tree'.getMetadata x = tree.getMetadata x
  only : ∀ x i, getByRef tree'.inner x = some i → ¬ Desc (kids tree'.inner) id x →
    getByRef tree.inner x = some i ∧ ¬ Desc (kids tree.inner) id x

omit [FloatCmp] in
/-- No attribute names an instance by a user-specified id. -/
def NoIds (properties : UstrMap Variant) : Prop :=
  ∀ attributes, properties.lookup "Attributes" = some (.attributes attributes) →
    ∀ e ∈ attributes, e.1 ≠ refIdAttributeName ∧ stripPrefix refPointerAttributePrefix e.1 = none

omit [FloatCmp] in
/-- A node without references and without the pivot special case. -/
structure Plain (s : InstanceSnapshot) : Prop where
  no_refs : ∀ k r, s.properties.lookup k ≠ some (.ref r)
  no_ids : NoIds s.properties
  no_pivot : s.className ∉ pivotClasses

end Defs

/-! ## Attributes without ids -/

section NoIds

variable {a b : UstrMap Variant}

theorem NoIds.of_mem (h : NoIds a) :
    ∀ e ∈ attributesOf a, e.1 ≠ refIdAttributeName ∧
      stripPrefix refPointerAttributePrefix e.1 = none := by
  intro e he
  unfold attributesOf at he
  split at he
  · rename_i attributes heq
    exact h attributes heq e (List.pwFilter_subset _ he)
  · cases he

theorem NoIds.pointersOf_eq (h : NoIds a) : pointersOf a = [] := by
  unfold pointersOf refPointers
  rw [List.filterMap_eq_nil_iff]
  rintro ⟨k, v⟩ he
  dsimp only
  rw [(h.of_mem _ he).2]
  rfl

theorem NoIds.attributeId_eq (h : NoIds a) : attributeId (attributesOf a) = none := by
  have key : ∀ l : List (String × Variant), (∀ e ∈ l, e.1 ≠ refIdAttributeName) →
      attributeId l = none := by
    intro l hl
    unfold attributeId
    induction l with
    | nil => rfl
    | cons e l ih =>
      obtain ⟨k, v⟩ := e
      rw [List.foldl_cons]
      dsimp only
      rw [if_neg (hl _ List.mem_cons_self)]
      exact ih fun e he => hl e (List.mem_cons_of_mem _ he)
  exact key _ fun e he => (h.of_mem e he).1

variable [FloatCmp]

/-- Properties that are the same to a patch name no instances either. -/
theorem NoIds.deferredMetadata_eq (h : NoIds a)
    (hab : ∀ k, Option.Rel SameValue (a.lookup k) (b.lookup k)) (m : InstanceMetadata) :
    deferredMetadata b m = m := by
  unfold deferredMetadata
  rw [← attributeId_congr (hab "Attributes"), h.attributeId_eq]

theorem NoIds.resolved_eq (h : NoIds a)
    (hab : ∀ k, Option.Rel SameValue (a.lookup k) (b.lookup k)) {D : Type} (tree : RojoTree D)
    (k : String) : resolved tree (pointersOf b) k = none := by
  rw [← pointersOf_congr (hab "Attributes"), h.pointersOf_eq]
  rfl

end NoIds

/-! ## Plain snapshots -/

section Plain

variable {s : InstanceSnapshot} {i : Instance} {k : String}

theorem Plain.rewriteRef_eq (h : Plain s) {v : Variant} (hv : s.properties.lookup k = some v)
    (ids : Map Ref Ref) : rewriteRef ids v = v :=
  rewriteRef_of_lookup_none fun r hr => absurd (hr ▸ hv) (h.no_refs k r)

theorem Plain.createdValue_eq (h : Plain s) (paired created : Map Ref Ref) (k : String) :
    createdValue paired created s k = s.properties.lookup k := by
  unfold createdValue
  rw [if_neg fun hk => h.no_pivot hk.2, Option.or_none, Option.map_map]
  cases hv : s.properties.lookup k with
  | none => rfl
  | some v =>
    rw [Option.map_some, Function.comp_apply, h.rewriteRef_eq hv, h.rewriteRef_eq hv]

/-- A paired instance has the values of a plain snapshot after its update. -/
theorem Plain.paired_same [FloatCmp] (h : Plain s) {D : Type} (tree : RojoTree D)
    (i : Instance) (paired created : Map Ref Ref) (k : String) :
    Option.Rel SameValue (s.properties.lookup k) (pairedValue tree paired created s i k) :=
  pairedValue_rel (fun hk => h.no_pivot hk.1) (by rw [h.no_ids.pointersOf_eq]; rfl) (h.no_refs k)

end Plain

/-! ## The subtree -/

section

variable {D : Type} [WeakDom D] [LawfulWeakDom D] [FloatCmp] {tree tree' : RojoTree D}
  {S s : InstanceSnapshot} {patch : PatchSet} {tops : List Ref} {created : List Creation}
  {record : AppliedPatchSet} {I r : Ref} {i : Instance}

/-- An instance that stands for a plain snapshot has its name, class, metadata and properties. -/
theorem StandsFor.plain (h : Inv tree) (hc : Computed tree S I patch)
    (ha : Applied tree patch tops created tree' record) (hroot : getByRef tree.inner I = some i)
    (hs : StandsFor tree S I created s r) (hplain : Plain s) :
    ∃ i', getByRef tree'.inner r = some i' ∧ i'.name = s.name ∧ i'.className = s.className ∧
      tree'.getMetadata r = some s.metadata ∧
      ∀ k, SameProperty tree r k (s.properties.lookup k) (i'.properties.lookup k) := by
  rcases hs with hs | ⟨c, hmem, rfl, hsnap⟩
  · obtain ⟨j, hj⟩ := Option.isSome_iff_exists.mp (present_of_mem_pairs hroot hs)
    obtain ⟨m, hm⟩ := h.metadata_of_present hj
    by_cases hq : Quiet tree s j m
    · obtain ⟨-, hi', hm'⟩ := quiet_after h hc ha hs hj hm hq
      refine ⟨_, hi', hq.2.1, hq.2.2.1, hm'.trans (congrArg some hq.2.2.2), fun k => ?_⟩
      have hvalue := hplain.paired_same tree j ∅ ∅ k
      unfold pairedValue at hvalue
      rw [hq.1 k] at hvalue
      exact .inl hvalue
    · obtain ⟨u, -, -, -, properties, i', hi', hvalue, hname, hclass, -, -, hprops, hm'⟩ :=
        updated_after h hc ha hs hj hm hq
      have hrel : ∀ k, Option.Rel SameValue (s.properties.lookup k) (properties.lookup k) := by
        intro k
        rw [hvalue]
        exact hplain.paired_same _ _ _ _ k
      refine ⟨i', hi', hname, hclass, ?_, fun k => ?_⟩
      · rw [← hplain.no_ids.deferredMetadata_eq hrel s.metadata]
        exact hm'
      · rw [hprops, hplain.no_ids.resolved_eq hrel]
        exact .inl (hrel k)
  · obtain ⟨i', hi', hname, hclass, -, -, hprops, hm'⟩ := created_after ha hmem hsnap
    have hrel : ∀ k, Option.Rel SameValue (s.properties.lookup k) (s.properties.lookup k) := by
      intro k
      cases s.properties.lookup k with
      | none => exact .none
      | some v => exact .some (SameValue.refl v)
    refine ⟨i', hi', hname, hclass, ?_, fun k => ?_⟩
    · rw [← hplain.no_ids.deferredMetadata_eq hrel s.metadata]
      exact hm'
    · obtain ⟨stored, hstored, hvalue⟩ := hprops k
      rw [hplain.createdValue_eq] at hstored
      rw [hvalue, hplain.no_ids.resolved_eq hrel, Option.none_or]
      refine .inr ⟨?_, hstored⟩
      exact Option.eq_none_iff_forall_ne_some.mpr fun j hj =>
        ha.fresh c hmem (LawfulWeakDom.issued_of_present _ hj)

omit [WeakDom D] [LawfulWeakDom D] [FloatCmp] in
theorem topsBelow_eq_nil {additions : List PatchAdd} {x : Ref}
    (h : ∀ a ∈ additions, a.parentId ≠ x) : topsBelow additions tops x = [] := by
  unfold topsBelow
  rw [List.map_eq_nil_iff, List.filter_eq_nil_iff]
  exact fun e he hpar => h e.1 (List.of_mem_zip he).1 (of_decide_eq_true hpar)

theorem StandsFor.matches (h : Inv tree) (hc : Computed tree S I patch)
    (ha : Applied tree patch tops created tree' record) (hroot : getByRef tree.inner I = some i) :
    ∀ s r, StandsFor tree S I created s r → (∀ n ∈ s.nodes, Plain n) →
      Matches tree tree' s r := by
  intro s
  induction s using InstanceSnapshot.induct with
  | snapshot s ih =>
    intro r hs hplain
    obtain ⟨i', hi', hname, hclass, hmeta, hprops⟩ :=
      hs.plain h hc ha hroot (hplain s s.self_mem_nodes)
    obtain ⟨ids, hgreedy, hstand⟩ := partners_after h hc ha hroot hs
    have hperm := perm_greedy want (keyOf tree') s.children (kids tree'.inner r)
    have hids : (ids.map some).reduceOption = ids := by
      rw [List.reduceOption, List.filterMap_map]
      exact List.filterMap_some
    rw [hgreedy, List.append_nil, hids, kids_eq hi'] at hperm
    refine .node hi' hname hclass hmeta hprops hperm ?_
    refine List.forall₂_iff_zip.mpr ⟨hstand.length_eq, fun {c t} hct => ?_⟩
    have hmem : c ∈ s.children := (List.of_mem_zip hct).1
    exact ih c hmem t ((List.forall₂_iff_zip.mp hstand).2 hct) fun n hn =>
      hplain n (InstanceSnapshot.mem_nodes_of_child hmem hn)

/-! ## The rest of the tree -/

/-- A paired instance stays below the root of the snapshot. -/
theorem desc_of_paired (h : Inv tree) (hc : Computed tree S I patch)
    (ha : Applied tree patch tops created tree' record) (hroot : getByRef tree.inner I = some i) :
    ∀ s r, (s, r) ∈ (plan tree S I).pairs → Desc (kids tree'.inner) I r := by
  refine pairs_induction .refl fun s r c t hs hd hslot => hd.tail ?_
  change t ∈ kids tree'.inner r
  rw [kids_paired_after h hc ha hroot hs]
  refine List.mem_append_left _ (List.mem_filter.mpr ⟨(slot_some hslot).1, ?_⟩)
  exact decide_eq_true (not_unpaired_of_slot hslot)

/-- A created instance is below the root of the snapshot. -/
theorem desc_of_created (h : Inv tree) (hc : Computed tree S I patch)
    (ha : Applied tree patch tops created tree' record) (hroot : getByRef tree.inner I = some i) :
    ∀ c ∈ created, Desc (kids tree'.inner) I c.id := by
  refine ha.creates.forall_ids (fun a hmem => ?_) fun c hmem hd => ?_
  · rw [hc.added] at hmem
    obtain ⟨b, hb, rfl⟩ := List.mem_map.mp hmem
    obtain ⟨s, hs, -⟩ := parent_of_addition b hb
    exact desc_of_paired h hc ha hroot s b.parentId hs
  · obtain ⟨properties, hi', -⟩ := ha.made c hmem
    by_cases hnull : c.parent = Ref.none
    · -- the null reference is below nothing
      rw [hnull] at hd
      have hpresent : (getByRef tree'.inner I).isSome := by
        obtain ⟨j, i', -, hi', -⟩ := paired_after h hc ha hroot root_mem_pairs
        exact Option.isSome_of_eq_some hi'
      have := present_of_desc hpresent hd
      rw [LawfulWeakDom.getByRef_null] at this
      cases this
    · exact hd.tail (LawfulWeakDom.mem_kids_of_parent tree'.inner hi' hnull)

theorem unchangedOutside (h : Inv tree) (hc : Computed tree S I patch)
    (ha : Applied tree patch tops created tree' record) (hroot : getByRef tree.inner I = some i) :
    UnchangedOutside tree tree' I := by
  have hkept : ∀ x j, getByRef tree.inner x = some j → ¬ Desc (kids tree.inner) I x →
      getByRef tree'.inner x = some j ∧ tree'.getMetadata x = tree.getMetadata x := by
    intro x j hj hx
    have hbelow : ¬ Below tree patch.removedInstances x := by
      rintro ⟨y, hy, hd⟩
      rw [hc.removed] at hy
      obtain ⟨s, r, hs, hun⟩ := mem_removals_iff.mp hy
      exact hx (((desc_of_mem_pairs s r hs).tail (mem_kids_of_unpaired hun)).trans hd)
    have hupdated : x ∉ patch.updatedInstances.map PatchUpdate.id := by
      intro hmem
      obtain ⟨u', hu', hid⟩ := List.mem_map.mp hmem
      obtain ⟨s, r, u, hs, hu, rfl⟩ := hc.mem_updated.mp hu'
      have hid' : u.id = r := id_of_pairUpdate h hu
      exact hx ((hid'.symm.trans hid) ▸ desc_of_mem_pairs s r hs)
    obtain ⟨hi', hm'⟩ := ha.kept x j hj hbelow hupdated
    refine ⟨?_, hm'⟩
    rw [hi']
    -- its children are not removed and it gets no new ones
    have hchildren : childrenAfter patch tops j = j.children := by
      unfold childrenAfter
      rw [LawfulWeakDom.referent_eq _ hj, List.filter_eq_self.mpr, topsBelow_eq_nil,
        List.append_nil]
      · intro a hmem hpar
        rw [hc.added] at hmem
        obtain ⟨b, hb, rfl⟩ := List.mem_map.mp hmem
        obtain ⟨s, hs, -⟩ := parent_of_addition b hb
        exact hx (hpar ▸ desc_of_mem_pairs s b.parentId hs)
      · intro y hy
        refine decide_eq_true fun hmem => ?_
        rw [hc.removed] at hmem
        obtain ⟨s, r, hs, hun⟩ := mem_removals_iff.mp hmem
        rw [← kids_eq hj] at hy
        have hr := (LawfulWeakDom.forest tree.inner).unique (mem_kids_of_unpaired hun) hy
        exact hx (hr ▸ desc_of_mem_pairs s r hs)
    rw [hchildren]
  refine ⟨hkept, fun x j hj hx => ?_⟩
  have hcreated : x ∉ created.map Creation.id := by
    intro hmem
    obtain ⟨c, hc', rfl⟩ := List.mem_map.mp hmem
    exact hx (desc_of_created h hc ha hroot c hc')
  cases hold : getByRef tree.inner x with
  | none =>
    rw [ha.absent x hold hcreated] at hj
    cases hj
  | some j' =>
    have hnot : ¬ Desc (kids tree.inner) I x := by
      intro hd
      rcases paired_or_removed (S := S) hd with ⟨s, hs⟩ | ⟨y, hy, hyx⟩
      · exact hx (desc_of_paired h hc ha hroot s x hs)
      · rw [ha.gone x ⟨y, hc.removed ▸ hy, hyx⟩] at hj
        cases hj
    exact ⟨(hkept x j' hold hnot).1.symm.trans hj, hnot⟩

/-- **Applying the patch of a snapshot makes the subtree what the snapshot describes**, a `UniqueId`
of an added instance that is taken aside, and leaves the rest alone. No patch is computed only where
comparing two property values panics. -/
theorem applyPatchSet_converges (h : Inv tree) (hroot : getByRef tree.inner I = some i)
    (hplain : ∀ n ∈ S.nodes, Plain n) :
    (∀ patchSet, computePatchSet (some S) tree I = some patchSet →
      ∃ tree' applied, applyPatchSet tree patchSet = some (tree', applied) ∧
        Matches tree tree' S I ∧ UnchangedOutside tree tree' I) ∧
    (computePatchSet (some S) tree I = none →
      ∃ n ∈ S.nodes, ∃ x j, Desc (kids tree.inner) I x ∧ getByRef tree.inner x = some j ∧
        ∃ k v w, n.properties.lookup k = some v ∧ j.properties.lookup k = some w ∧
          variantEq v w = none) := by
  constructor
  · intro patchSet hp
    have hc := computePatchSet_computed h hroot hp
    obtain ⟨tops, created, tree', applied, heq, ha⟩ :=
      applyPatchSet_applied h (hc.patchOk h hroot)
    exact ⟨tree', applied, heq, root_stands.matches h hc ha hroot S I hplain,
      unchangedOutside h hc ha hroot⟩
  · intro hp
    obtain ⟨s, r, j, k, v, w, hs, hj, hv, hw, hvw⟩ := computePatchSet_eq_none h hroot hp
    exact ⟨s, mem_nodes_of_mem_pairs s r hs, r, j, desc_of_mem_pairs s r hs, hj, k, v, w, hv, hw,
      hvw⟩

end

/-! ### An example -/

def newChild : InstanceSnapshot :=
  { InstanceSnapshot.new with
    name := "New"
    className := "StringValue"
    properties := (∅ : UstrMap Variant).insert "Value" (.string "text") }

/-- The root with another child, which has a property. -/
def otherChild : InstanceSnapshot :=
  { InstanceSnapshot.new with
    name := "Root"
    className := "Folder"
    children := [newChild] }

theorem Plain.of_entries {s : InstanceSnapshot} (hc : s.className ∉ pivotClasses)
    (h : ∀ e ∈ s.properties.entries, e.1 ≠ "Attributes" ∧ ∀ r, e.2 ≠ .ref r) : Plain s where
  no_refs _ r hr := (h _ (AList.mem_lookup_iff.mp hr)).2 r rfl
  no_ids _ hattributes := absurd rfl (h _ (AList.mem_lookup_iff.mp hattributes)).1
  no_pivot := hc

def sharedId : Variant := .value (.uniqueId ⟨1, 2, 3⟩)

def twin (name : String) : InstanceSnapshot :=
  { newChild with
    name
    properties := (∅ : UstrMap Variant).insert "UniqueId" sharedId }

/-- The child of the tree with a property, and two new children with the same `UniqueId`. -/
def twins : InstanceSnapshot :=
  { otherChild with
    children := [{ newChild with name := "Child", className := "Folder" }, twin "A", twin "B"] }

theorem plain_twins : ∀ n ∈ twins.nodes, Plain n := by
  have hnodes : twins.nodes = twins :: twins.children := by rfl
  have hentry : ∀ (k : String) (v : Variant), k ≠ "Attributes" → (∀ r, v ≠ .ref r) →
      ∀ e ∈ ((∅ : UstrMap Variant).insert k v).entries, e.1 ≠ "Attributes" ∧ ∀ r, e.2 ≠ .ref r := by
    intro k v hk hv e he
    rw [List.mem_singleton.mp he]
    exact ⟨hk, hv⟩
  have hroot : Plain twins := .of_entries (by decide) fun _ he => absurd he List.not_mem_nil
  have hchild : Plain { newChild with name := "Child", className := "Folder" } :=
    .of_entries (by decide) (hentry _ _ (by decide) fun r h => by cases h)
  have htwin : ∀ name, Plain (twin name) := by
    intro name
    have hc : newChild.className ∉ pivotClasses := by decide
    exact .of_entries hc (hentry _ _ (by decide) fun r h => by cases h)
  rw [hnodes]
  exact List.forall_mem_cons.mpr ⟨hroot, List.forall_mem_cons.mpr ⟨hchild,
    List.forall_mem_cons.mpr ⟨htwin "A", List.forall_mem_singleton.mpr (htwin "B")⟩⟩⟩

/-- The `UniqueId` of the second new child is replaced, so the child does not have the value of the
snapshot. -/
theorem uniqueId_replaced : letI : FloatCmp := FloatCmp.exact
    ∃ patchSet tree' applied, Inv oneChildTree ∧
      computePatchSet (some twins) oneChildTree (Ref.some 0) = some patchSet ∧
      applyPatchSet oneChildTree patchSet = some (tree', applied) ∧
      (∀ n ∈ twins.nodes, Plain n) ∧ ¬ Matches tree' tree' twins (Ref.some 0) := by
  let _ : FloatCmp := FloatCmp.exact
  have hcompute : (computePatchSet (some twins) oneChildTree (Ref.some 0)).isSome := by rfl
  have happly : (applyPatchSet oneChildTree (Option.get _ hcompute)).isSome := by rfl
  refine ⟨Option.get _ hcompute, (Option.get _ happly).1, (Option.get _ happly).2,
    Inv.new (Option.some_get _).symm, (Option.some_get hcompute).symm,
    (Option.some_get happly).symm, plain_twins, fun h => ?_⟩
  have hlastName : (getByRef (Option.get _ happly).1.inner (Ref.some 102)).map Instance.name =
      some "B" := by rfl
  have hlastId : (getByRef (Option.get _ happly).1.inner (Ref.some 102)).map
      (fun i => i.properties.lookup "UniqueId") = some (some (.value (.uniqueId ⟨102, 0, 0⟩))) := by
    rfl
  -- no child of the snapshot is what the second new child is
  have hlast : ∀ s ∈ twins.children,
      ¬ Matches (Option.get _ happly).1 (Option.get _ happly).1 s (Ref.some 102) := by
    rintro s hs ⟨hi, hname, -, -, hprops, -⟩
    rw [hi] at hlastName hlastId
    rw [Option.some.inj hlastName] at hname
    have hvalue := (hprops "UniqueId").resolve_right fun hnew => by
      cases hnew.1.symm.trans hi
    replace hlastId := Option.some.inj hlastId
    dsimp only at hlastId
    rw [hlastId] at hvalue
    rcases List.mem_cons.mp hs with rfl | hs
    · exact absurd hname (by decide)
    rcases List.mem_cons.mp hs with rfl | hs
    · exact absurd hname (by decide)
    · rw [List.mem_singleton.mp hs] at hvalue
      cases hvalue with
      | some hsame => rcases hsame with hsame | hsame <;> revert hsame <;> decide
  cases h with
  | node hi _ _ _ _ hperm hall =>
    obtain rfl := Option.some.inj ((Option.some_get (by rfl)).trans hi)
    have hmem : Ref.some 102 ∈ [Ref.some 100, Ref.some 101, Ref.some 102] := by decide
    replace hmem := hperm.subset hmem
    rcases hall with _ | ⟨h₁, _ | ⟨h₂, _ | ⟨h₃, ⟨⟩⟩⟩⟩
    simp only [List.mem_cons, List.not_mem_nil, or_false] at hmem
    rcases hmem with rfl | rfl | rfl
    · exact hlast _ List.mem_cons_self h₁
    · exact hlast _ (List.mem_cons_of_mem _ List.mem_cons_self) h₂
    · exact hlast _ (List.mem_cons_of_mem _ (List.mem_cons_of_mem _ List.mem_cons_self)) h₃

/-- A child is updated and two are added, one of which gets another `UniqueId`. -/
theorem applyPatchSet_converges_twins : letI : FloatCmp := FloatCmp.exact
    ∃ patchSet tree' applied,
      computePatchSet (some twins) oneChildTree (Ref.some 0) = some patchSet ∧
      applyPatchSet oneChildTree patchSet = some (tree', applied) ∧
      patchSet.updatedInstances.length = 1 ∧ patchSet.addedInstances.length = 2 ∧
      Matches oneChildTree tree' twins (Ref.some 0) ∧
      UnchangedOutside oneChildTree tree' (Ref.some 0) := by
  let _ : FloatCmp := FloatCmp.exact
  have hcompute : (computePatchSet (some twins) oneChildTree (Ref.some 0)).isSome := by rfl
  have hinv : Inv oneChildTree := Inv.new (Option.some_get _).symm
  obtain ⟨tree', applied, heq, h⟩ :=
    (applyPatchSet_converges hinv (i := (getByRef oneChildTree.inner (Ref.some 0)).get rfl)
      (Option.some_get _).symm plain_twins).1 _ (Option.some_get hcompute).symm
  exact ⟨_, tree', applied, (Option.some_get hcompute).symm, heq, by rfl, by rfl, h⟩

end Roxo
