import Roxo.Snapshot.SameValue
import Roxo.Snapshot.TreeRuns

/-!
# A snapshot applied to a tree

The tree after the patch of a snapshot has been applied, seen from the snapshot: what became of
the instances that were paired (`paired_after`) and of those that were created (`created_after`).
Computing the plan once more pairs every node of the snapshot, with the instance that it was paired
with or created as, and neither adds nor removes anything (`plan_after`).
-/

namespace Roxo

open AssocMap WeakDom RojoTree GreedyMatch Forest

/-! ## Lists related element by element -/

section Lists

variable {α β : Type}

theorem forall₂_filter {R : α → β → Prop} {p : α → Bool} {l : List α} {l' : List β}
    (h : List.Forall₂ R l l') :
    List.Forall₂ R (l.filter p) (((l.zip l').filter fun e => p e.1).map Prod.snd) := by
  induction h with
  | nil => exact .nil
  | @cons a b l l' hab _ ih =>
    rw [List.zip_cons_cons, List.filter_cons, List.filter_cons]
    cases p a with
    | true => exact .cons hab ih
    | false => exact ih

theorem exists_of_forall₂_right {R : α → β → Prop} {l : List α} {l' : List β} {b : β}
    (h : List.Forall₂ R l l') (hb : b ∈ l') : ∃ a ∈ l, R a b := by
  induction h with
  | nil => cases hb
  | cons hab _ ih =>
    rcases List.mem_cons.mp hb with rfl | hb
    · exact ⟨_, List.mem_cons_self, hab⟩
    · obtain ⟨a, ha, hab⟩ := ih hb
      exact ⟨a, List.mem_cons_of_mem _ ha, hab⟩

end Lists

/-! ## Rewritten snapshots -/

section Rewritten

variable {ids : Map Ref Ref} {s : InstanceSnapshot}

theorem rewriteRefsInSnapshot_eq (ids : Map Ref Ref) (s : InstanceSnapshot) :
    rewriteRefsInSnapshot ids s = { s with
      properties := mapVal (fun _ value => rewriteRef ids value) s.properties
      children := s.children.map (rewriteRefsInSnapshot ids) } := by
  have hc : ∀ l, rewriteRefsInChildren ids l = l.map (rewriteRefsInSnapshot ids) := by
    intro l
    induction l with
    | nil => rfl
    | cons c l ih => rw [rewriteRefsInChildren, ih, List.map_cons]
  cases s with
  | mk snapshotId metadata name className properties children => rw [rewriteRefsInSnapshot, hc]

@[simp] theorem snapshotId_rewrite :
    (rewriteRefsInSnapshot ids s).snapshotId = s.snapshotId := by rw [rewriteRefsInSnapshot_eq]

@[simp] theorem metadata_rewrite :
    (rewriteRefsInSnapshot ids s).metadata = s.metadata := by rw [rewriteRefsInSnapshot_eq]

@[simp] theorem name_rewrite :
    (rewriteRefsInSnapshot ids s).name = s.name := by rw [rewriteRefsInSnapshot_eq]

@[simp] theorem className_rewrite :
    (rewriteRefsInSnapshot ids s).className = s.className := by rw [rewriteRefsInSnapshot_eq]

@[simp] theorem children_rewrite :
    (rewriteRefsInSnapshot ids s).children = s.children.map (rewriteRefsInSnapshot ids) := by
  rw [rewriteRefsInSnapshot_eq]

@[simp] theorem lookup_rewrite (k : String) :
    (rewriteRefsInSnapshot ids s).properties.lookup k =
      (s.properties.lookup k).map (rewriteRef ids) := by
  rw [rewriteRefsInSnapshot_eq]
  exact lookup_mapVal _ _ _

theorem nodes_rewrite (s : InstanceSnapshot) :
    (rewriteRefsInSnapshot ids s).nodes = s.nodes.map (rewriteRefsInSnapshot ids) := by
  induction s using InstanceSnapshot.induct with
  | snapshot s ih =>
    rw [InstanceSnapshot.nodes_eq, InstanceSnapshot.nodes_eq s, children_rewrite, List.map_cons,
      List.flatMap_map, List.map_flatMap]
    congr 1
    exact List.flatMap_congr fun c hc => ih c hc

/-- Attributes are not references. -/
theorem attributesOf_rewrite {a b : UstrMap Variant}
    (h : b.lookup "Attributes" = (a.lookup "Attributes").map (rewriteRef ids)) :
    attributesOf b = attributesOf a := by
  unfold attributesOf
  rw [h]
  cases a.lookup "Attributes" with
  | none => rfl
  | some v =>
    cases v with
    | attributes _ => rfl
    | value v =>
      cases v with
      | ref r =>
        rw [Option.map_some, rewriteRef_ref]
      | _ => rfl

end Rewritten

/-! ## Values after the patch -/

/-- The property `k` of a paired instance after its update, before pointers are resolved. -/
def pairedValue [FloatCmp] {D : Type} (tree : RojoTree D) (paired created : Map Ref Ref)
    (s : InstanceSnapshot) (i : Instance) (k : String) : Option Variant :=
  (computedChange tree s i k).elim (i.properties.lookup k) fun entry =>
    changedValue created (entry.map (rewriteRef paired)) (i.properties.lookup k)

section PairedValue

variable [FloatCmp] {D : Type} {tree : RojoTree D} {paired created : Map Ref Ref}
  {s : InstanceSnapshot} {i : Instance} {k : String}

theorem pairedValue_of_not_pivot (hpivot : ¬ (s.className ∈ pivotClasses ∧ k = needsPivotMigration))
    (hpointer : (pointersOf s.properties).lookup k = none) :
    pairedValue tree paired created s i k =
      (baseChange (s.properties.lookup k) (i.properties.lookup k)).elim (i.properties.lookup k)
        fun entry => changedValue created (entry.map (rewriteRef paired)) (i.properties.lookup k) := by
  unfold pairedValue computedChange pointerTarget
  rw [if_neg hpivot, hpointer]
  rfl

omit [FloatCmp] in
theorem changedValue_of_not_ref {v : Variant} (hv : ∀ r, v ≠ .ref r) (old : Option Variant) :
    changedValue created (some v) old = some v := by
  unfold changedValue
  split
  · rename_i r heq
    exact absurd (Option.some.inj heq) (hv r)
  · rename_i heq
    exact heq.symm
  · rename_i heq
    cases heq

/-- A paired instance gets the values of its snapshot that are no references. -/
theorem pairedValue_rel (hpivot : ¬ (s.className ∈ pivotClasses ∧ k = needsPivotMigration))
    (hpointer : (pointersOf s.properties).lookup k = none)
    (href : ∀ r, s.properties.lookup k ≠ some (.ref r)) :
    Option.Rel SameValue (s.properties.lookup k) (pairedValue tree paired created s i k) := by
  rw [pairedValue_of_not_pivot hpivot hpointer]
  cases hv : s.properties.lookup k with
  | none => cases i.properties.lookup k <;> exact .none
  | some v =>
    have hv' : ∀ r, v ≠ .ref r := fun r hr => href r (hr ▸ hv)
    have hrewrite : rewriteRef paired v = v :=
      rewriteRef_of_lookup_none fun r hr => absurd hr (hv' r)
    have hset : ∀ old, Option.Rel SameValue (some v)
        (changedValue created ((some v).map (rewriteRef paired)) old) := by
      intro old
      rw [Option.map_some, hrewrite, changedValue_of_not_ref hv']
      exact .some (SameValue.refl v)
    unfold baseChange
    cases i.properties.lookup k with
    | none => exact hset none
    | some w =>
      dsimp only
      split_ifs with heq
      · exact .some (Or.inr heq)
      · exact hset (some w)

/-- The two steps of the translation of a reference. -/
def translate (paired created : Map Ref Ref) (r : Ref) : Ref :=
  (created.lookup ((paired.lookup r).getD r)).getD ((paired.lookup r).getD r)

omit [FloatCmp] in
theorem rewriteRef_rewriteRef (paired created : Map Ref Ref) (r : Ref) :
    rewriteRef created (rewriteRef paired (.ref r)) = .ref (translate paired created r) := by
  rw [rewriteRef_ref, rewriteRef_ref]
  rfl

/-- A paired instance gets the translated references of its snapshot, but not the null one. -/
theorem pairedValue_ref (hpivot : ¬ (s.className ∈ pivotClasses ∧ k = needsPivotMigration))
    (hpointer : (pointersOf s.properties).lookup k = none) {r : Ref}
    (hr : s.properties.lookup k = some (.ref r)) :
    pairedValue tree paired created s i k =
      if i.properties.lookup k = some (.ref r) ∨ (paired.lookup r).getD r = Ref.none then
        i.properties.lookup k
      else some (.ref (translate paired created r)) := by
  rw [pairedValue_of_not_pivot hpivot hpointer, hr]
  have hset : ∀ old, changedValue created ((some (Variant.ref r)).map (rewriteRef paired)) old =
      if (paired.lookup r).getD r = Ref.none then old
      else some (.ref (translate paired created r)) := by
    intro old
    rw [Option.map_some, rewriteRef_ref]
    unfold changedValue translate
    simp only [Ref.isNone_iff]
  unfold baseChange
  cases hw : i.properties.lookup k with
  | none =>
    simp only [reduceCtorEq, false_or]
    exact hset none
  | some w =>
    dsimp only
    split_ifs with heq hif hif
    · rfl
    · rw [eq_of_variantEq_ref heq] at hif
      exact absurd (Or.inl rfl) hif
    · rw [Option.elim_some, hset]
      rcases hif with hif | hif
      · rw [Option.some.inj hif] at heq
        exact absurd (variantEq_ref_self r) heq
      · rw [if_pos hif]
    · rw [Option.elim_some, hset, if_neg fun hn => hif (Or.inr hn)]

end PairedValue

/-- The property `k` of a created instance, before pointers are resolved. -/
def createdValue (paired created : Map Ref Ref) (s : InstanceSnapshot) (k : String) :
    Option Variant :=
  (((s.properties.lookup k).map (rewriteRef paired)).or
    (if k = needsPivotMigration ∧ s.className ∈ pivotClasses then some (.bool false)
      else none)).map (rewriteRef created)

/-- The update of a pair has nothing to change. -/
def Quiet [FloatCmp] {D : Type} (tree : RojoTree D) (s : InstanceSnapshot) (i : Instance)
    (m : InstanceMetadata) : Prop :=
  (∀ k, computedChange tree s i k = none) ∧ i.name = s.name ∧ i.className = s.className ∧
    m = s.metadata

section Outcome

variable {D : Type} [WeakDom D] [LawfulWeakDom D] [FloatCmp] {tree tree' : RojoTree D}
  {S s : InstanceSnapshot} {patch : PatchSet} {tops : List Ref} {created : List Creation}
  {record : AppliedPatchSet} {I r : Ref} {i : Instance} {m : InstanceMetadata} {c : Creation}

/-- An instance that nothing about its pair changes. -/
theorem quiet_after (h : Inv tree) (hc : Computed tree S I patch)
    (ha : Applied tree patch tops created tree' record) (hs : (s, r) ∈ (plan tree S I).pairs)
    (hi : getByRef tree.inner r = some i) (hm : tree.metadataMap.lookup r = some m)
    (hq : Quiet tree s i m) :
    r ∉ patch.updatedInstances.map PatchUpdate.id ∧
      getByRef tree'.inner r = some { i with children := childrenAfter patch tops i } ∧
      tree'.metadataMap.lookup r = some m := by
  have hnot : r ∉ patch.updatedInstances.map PatchUpdate.id := by
    intro hmem
    obtain ⟨u', hu', hid⟩ := List.mem_map.mp hmem
    obtain ⟨s', r', u, hs', hu, rfl⟩ := hc.mem_updated.mp hu'
    have hid' : u.id = r' := id_of_pairUpdate h hu
    obtain rfl : r' = r := hid'.symm.trans hid
    obtain rfl := eq_of_mem_pairs hs' hs
    rcases pairUpdate_cases h hi hm hu with ⟨hn, -⟩ | ⟨v, hv, -, -, -, -, -, hnq⟩
    · cases hn
    · exact hnq hq
  have hbelow : ¬ Below tree patch.removedInstances r := by
    rintro ⟨x, hx, hd⟩
    exact not_desc_removal (hc.removed ▸ hx) s r hs hd
  obtain ⟨hi', hm'⟩ := ha.kept r i hi hbelow hnot
  exact ⟨hnot, hi', hm'.trans hm⟩

/-- An instance that something about its pair changes. -/
theorem updated_after (h : Inv tree) (hc : Computed tree S I patch)
    (ha : Applied tree patch tops created tree' record) (hs : (s, r) ∈ (plan tree S I).pairs)
    (hi : getByRef tree.inner r = some i) (hm : tree.metadataMap.lookup r = some m)
    (hq : ¬ Quiet tree s i m) :
    ∃ u ∈ patch.updatedInstances, u.id = r ∧
      (∀ k, u.changedProperties.lookup k =
        (computedChange tree s i k).map (Option.map (rewriteRef (pairMap tree S I)))) ∧
      ∃ properties i', getByRef tree'.inner r = some i' ∧
        (∀ k, properties.lookup k =
          pairedValue tree (pairMap tree S I) (createdIds created) s i k) ∧
        i'.name = s.name ∧ i'.className = s.className ∧ i'.parent = i.parent ∧
        i'.children = childrenAfter patch tops i ∧
        (∀ k, i'.properties.lookup k =
          (resolved tree' (pointersOf properties) k).or (properties.lookup k)) ∧
        tree'.metadataMap.lookup r = some (deferredMetadata properties s.metadata) := by
  obtain ⟨o, ho⟩ := hc.returns _ hs
  rcases pairUpdate_cases h hi hm ho with ⟨-, hquiet⟩ | ⟨u, rfl, hid, hprops, hname, hclass, hmeta, -⟩
  · exact absurd hquiet hq
  rw [LawfulWeakDom.referent_eq _ hi] at hid
  obtain rfl := hid
  have hmem : rewriteRefsInUpdate (pairMap tree S I) u ∈ patch.updatedInstances :=
    hc.mem_updated.mpr ⟨s, u.id, u, hs, ho, rfl⟩
  have hlookup : ∀ k, (rewriteRefsInUpdate (pairMap tree S I) u).changedProperties.lookup k =
      (computedChange tree s i k).map (Option.map (rewriteRef (pairMap tree S I))) := by
    intro k
    rw [← hprops k]
    exact lookup_mapVal _ _ _
  obtain ⟨properties, hi', hproperties, hm'⟩ := ha.updated _ hmem i m hi hm
  refine ⟨_, hmem, rfl, hlookup,
    (updatedInstance (createdIds created) (rewriteRefsInUpdate (pairMap tree S I) u) i).properties,
    _, hi', fun k => ?_, hname, hclass, rfl, rfl, hproperties, ?_⟩
  · refine (lookup_updatedProperties _ _ _ k).trans ?_
    rw [hlookup]
    unfold pairedValue
    cases computedChange tree s i k <;> rfl
  · refine Eq.trans hm' ?_
    rw [← hmeta]
    rfl

/-- **A paired instance after the patch** has the name, the class and the place of its snapshot. -/
theorem paired_after (h : Inv tree) (hc : Computed tree S I patch)
    (ha : Applied tree patch tops created tree' record) (hroot : getByRef tree.inner I = some i)
    (hs : (s, r) ∈ (plan tree S I).pairs) :
    ∃ j i', getByRef tree.inner r = some j ∧ getByRef tree'.inner r = some i' ∧
      i'.name = s.name ∧ i'.className = s.className ∧ i'.parent = j.parent ∧
      i'.children = childrenAfter patch tops j := by
  obtain ⟨j, hj⟩ := Option.isSome_iff_exists.mp (present_of_mem_pairs hroot hs)
  obtain ⟨m, hm⟩ := h.metadata_of_present hj
  by_cases hq : Quiet tree s j m
  · obtain ⟨-, hi', -⟩ := quiet_after h hc ha hs hj hm hq
    exact ⟨j, _, hj, hi', hq.2.1, hq.2.2.1, rfl, rfl⟩
  · obtain ⟨u, -, -, -, properties, i', hi', -, hname, hclass, hparent, hchildren, -⟩ :=
      updated_after h hc ha hs hj hm hq
    exact ⟨j, i', hj, hi', hname, hclass, hparent, hchildren⟩

omit [FloatCmp] [LawfulWeakDom D] [WeakDom D] in
theorem StoredAs.map_rewriteRef {ids : Map Ref Ref} {k : String} {given stored : Option Variant}
    (h : StoredAs k given stored) :
    StoredAs k (given.map (rewriteRef ids)) (stored.map (rewriteRef ids)) := by
  rcases h with rfl | ⟨hk, id, id', rfl, rfl⟩
  · exact .inl rfl
  · exact .inr ⟨hk, id, id', rfl, rfl⟩

omit [FloatCmp] [LawfulWeakDom D] in
/-- **A created instance after the patch.** -/
theorem created_after (ha : Applied tree patch tops created tree' record) (hc : c ∈ created)
    {paired : Map Ref Ref} (hs : c.snapshot = rewriteRefsInSnapshot paired s) :
    ∃ i', getByRef tree'.inner c.id = some i' ∧ i'.name = s.name ∧ i'.className = s.className ∧
      i'.parent = c.parent ∧ i'.children = c.children ∧
      (∀ k, ∃ stored, StoredAs k (createdValue paired (createdIds created) s k) stored ∧
        i'.properties.lookup k = (resolved tree' (pointersOf s.properties) k).or stored) ∧
      tree'.metadataMap.lookup c.id = some (deferredMetadata s.properties s.metadata) := by
  obtain ⟨properties, hi', hproperties⟩ := ha.made c hc
  have hattr : attributesOf c.snapshot.properties = attributesOf s.properties := by
    rw [hs]
    exact attributesOf_rewrite (lookup_rewrite _)
  refine ⟨_, hi', ?_, ?_, rfl, rfl, fun k => ?_, ?_⟩
  · change c.snapshot.name = s.name
    rw [hs, name_rewrite]
  · change c.snapshot.className = s.className
    rw [hs, className_rewrite]
  · refine ⟨(c.properties.lookup k).map (rewriteRef (createdIds created)), ?_, ?_⟩
    · have hvalue : ((snapshotBuilder c.snapshot).properties.lookup k).map
          (rewriteRef (createdIds created)) = createdValue paired (createdIds created) s k := by
        rw [lookup_snapshotBuilder, hs, lookup_rewrite, className_rewrite]
        rfl
      rw [← hvalue]
      exact (c.stored k).map_rewriteRef
    · refine (hproperties k).trans ?_
      unfold pointersOf
      rw [hattr]
      rfl
  · rw [ha.madeMetadata c hc]
    unfold deferredMetadata
    rw [hattr, hs, metadata_rewrite]

/-! ## The plan after the patch -/

/-- The instance `r` was paired with `s` or created as `s`. -/
def StandsFor (tree : RojoTree D) (S : InstanceSnapshot) (I : Ref) (created : List Creation)
    (s : InstanceSnapshot) (r : Ref) : Prop :=
  (s, r) ∈ (plan tree S I).pairs ∨
    ∃ c ∈ created, c.id = r ∧ c.snapshot = rewriteRefsInSnapshot (pairMap tree S I) s

/-- What stands for a snapshot has its name and its class. -/
theorem StandsFor.key (h : Inv tree) (hc : Computed tree S I patch)
    (ha : Applied tree patch tops created tree' record) (hroot : getByRef tree.inner I = some i)
    (hs : StandsFor tree S I created s r) : keyOf tree' r = want s := by
  unfold keyOf want
  rcases hs with hs | ⟨c, hmem, rfl, hsnap⟩
  · obtain ⟨j, i', -, hi', hname, hclass, -⟩ := paired_after h hc ha hroot hs
    rw [hi', Option.map_some, hname, hclass]
  · obtain ⟨i', hi', hname, hclass, -⟩ := created_after ha hmem hsnap
    rw [hi', Option.map_some, hname, hclass]

theorem kids_paired_after (h : Inv tree) (hc : Computed tree S I patch)
    (ha : Applied tree patch tops created tree' record) (hroot : getByRef tree.inner I = some i)
    (hs : (s, r) ∈ (plan tree S I).pairs) :
    kids tree'.inner r = (kids tree.inner r).filter (· ∉ unpaired tree s.children r) ++
      topsBelow patch.addedInstances tops r := by
  obtain ⟨j, i', hj, hi', -, -, -, hchildren⟩ := paired_after h hc ha hroot hs
  rw [kids_eq hi', hchildren, kids_eq hj]
  unfold childrenAfter
  rw [LawfulWeakDom.referent_eq _ hj]
  congr 1
  refine List.filter_congr fun x hx => ?_
  rw [← kids_eq hj] at hx
  rw [hc.removed, decide_eq_decide, not_iff_not, mem_removals_iff]
  constructor
  · rintro ⟨s', r', hs', hx'⟩
    -- a child has one parent
    obtain rfl := (LawfulWeakDom.forest tree.inner).unique (mem_kids_of_unpaired hx') hx
    exact eq_of_mem_pairs hs' hs ▸ hx'
  · exact fun hx' => ⟨s, r, hs, hx'⟩

/-- The instances created below a paired one stand for its unserved children. -/
theorem tops_stand (hc : Computed tree S I patch)
    (ha : Applied tree patch tops created tree' record) (hs : (s, r) ∈ (plan tree S I).pairs) :
    List.Forall₂ (fun c t => ∃ d ∈ created, d.id = t ∧
        d.snapshot = rewriteRefsInSnapshot (pairMap tree S I) c)
      (unservedChildren tree s r) (topsBelow patch.addedInstances tops r) := by
  have hheads := forall₂_filter (p := fun a => a.parentId = r) ha.creates.heads
  have hfilter : patch.addedInstances.filter (fun a => a.parentId = r) =
      ((unservedChildren tree s r).map (PatchAdd.mk r)).map
        (rewriteRefsInAddition (pairMap tree S I)) := by
    rw [hc.added, List.filter_map, ← additions_below hs]
    rfl
  rw [hfilter, List.map_map, List.forall₂_map_left_iff] at hheads
  refine hheads.imp fun c t hd => ?_
  obtain ⟨d, hmem, hsnap, hid, -⟩ := hd
  exact ⟨d, hmem, hid, hsnap⟩

/-- **Every child of a snapshot has its instance** among the children of the instance that stands
for the snapshot, and there are no others. -/
theorem partners_after (h : Inv tree) (hc : Computed tree S I patch)
    (ha : Applied tree patch tops created tree' record) (hroot : getByRef tree.inner I = some i)
    (hs : StandsFor tree S I created s r) :
    ∃ ids, greedy want (keyOf tree') s.children (kids tree'.inner r) = (ids.map some, []) ∧
      List.Forall₂ (StandsFor tree S I created) s.children ids := by
  have hkey : ∀ c t, StandsFor tree S I created c t → keyOf tree' t = want c :=
    fun c t hct => hct.key h hc ha hroot
  rcases hs with hs | ⟨d, hmem, rfl, hsnap⟩
  · have htops := tops_stand hc ha hs
    have hslot : ∀ c x, (c, some x) ∈ slots tree s r → StandsFor tree S I created c x :=
      fun c x hx => Or.inl (mem_pairs_of_slot hs hx)
    have hfill : List.Forall₂ (StandsFor tree S I created) s.children
        (fill (partners tree s.children r) (topsBelow patch.addedInstances tops r)) :=
      forall₂_fill (length_partners _) hslot (htops.imp fun _ _ => Or.inr)
    refine ⟨_, ?_, hfill⟩
    rw [kids_paired_after h hc ha hroot hs]
    refine greedy_refill ((LawfulWeakDom.forest tree.inner).nodup r) ?_ ?_ ?_
    · intro x hx hk
      obtain ⟨j, hj, -⟩ := LawfulWeakDom.child_present _ hk
      obtain ⟨c, -, d, hd, rfl, -⟩ := exists_of_forall₂_right htops hx
      exact ha.fresh d hd (LawfulWeakDom.issued_of_present _ hj)
    · intro x hx hrest
      rcases slot_or_unpaired (s := s) hx with ⟨c, hcx⟩ | hun
      · rw [hkey c x (hslot c x hcx), (slot_some hcx).2]
      · exact absurd hun hrest
    · exact htops.imp fun c t hd => hkey c t (Or.inr hd)
  · obtain ⟨i', hi', -, -, -, hchildren, -⟩ := created_after ha hmem hsnap
    obtain ⟨below, hcreates, hsub⟩ := ha.creates.children d hmem
    have hheads := hcreates.heads
    rw [hsnap, children_rewrite, List.forall₂_map_left_iff] at hheads
    have hstand : List.Forall₂ (StandsFor tree S I created) s.children d.children :=
      hheads.imp fun c t hd => by
        obtain ⟨e, he, hes, hid, -⟩ := hd
        exact Or.inr ⟨e, hsub e he, hid, hes⟩
    refine ⟨_, ?_, hstand⟩
    rw [kids_eq hi', hchildren]
    exact greedy_ready (hstand.imp hkey)

omit [LawfulWeakDom D] [FloatCmp] in
theorem root_stands : StandsFor tree S I created S I := Or.inl root_mem_pairs

/-- What the second plan pairs stands for its snapshot. -/
theorem stands_of_mem_pairs (h : Inv tree) (hc : Computed tree S I patch)
    (ha : Applied tree patch tops created tree' record) (hroot : getByRef tree.inner I = some i) :
    ∀ s r, (s, r) ∈ (plan tree' S I).pairs → StandsFor tree S I created s r := by
  refine forall_pairs root_stands fun s r c t hs hslot => ?_
  obtain ⟨ids, hgreedy, hstand⟩ := partners_after h hc ha hroot hs
  unfold slots partners at hslot
  rw [hgreedy, List.zip_map_right, List.mem_map] at hslot
  obtain ⟨⟨c', t'⟩, hmem, heq⟩ := hslot
  obtain ⟨rfl, hsome⟩ := Prod.mk.inj heq
  obtain rfl := Option.some.inj hsome
  exact (List.forall₂_iff_zip.mp hstand).2 hmem

/-- **The second plan changes no structure.** -/
theorem plan_after (h : Inv tree) (hc : Computed tree S I patch)
    (ha : Applied tree patch tops created tree' record) (hroot : getByRef tree.inner I = some i) :
    (plan tree' S I).additions = [] ∧ (plan tree' S I).removals = [] := by
  have hstand := stands_of_mem_pairs h hc ha hroot
  constructor
  · refine List.eq_nil_iff_forall_not_mem.mpr fun a hmem => ?_
    obtain ⟨s, hs, -⟩ := parent_of_addition a hmem
    obtain ⟨ids, hgreedy, -⟩ := partners_after h hc ha hroot (hstand _ _ hs)
    have hbelow : a ∈ (unservedChildren tree' s a.parentId).map (PatchAdd.mk a.parentId) := by
      rw [← additions_below hs]
      exact List.mem_filter.mpr ⟨hmem, decide_eq_true rfl⟩
    unfold unservedChildren partners at hbelow
    rw [hgreedy, unserved_map_some] at hbelow
    cases hbelow
  · refine List.eq_nil_iff_forall_not_mem.mpr fun x hx => ?_
    obtain ⟨s, r, hs, hun⟩ := mem_removals_iff.mp hx
    obtain ⟨ids, hgreedy, -⟩ := partners_after h hc ha hroot (hstand _ _ hs)
    unfold unpaired at hun
    rw [hgreedy] at hun
    cases hun

omit [LawfulWeakDom D] [FloatCmp] in
theorem flatMap_slots {P : InstanceSnapshot → Ref → Prop} {l : List InstanceSnapshot}
    {ids : List Ref} (h : List.Forall₂ P l ids)
    (hP : ∀ c ∈ l, ∀ t, P c t → (plan tree c t).pairs.map Prod.fst = c.nodes) :
    ((l.zip (ids.map some)).flatMap fun slot => (slotPlan tree r slot).pairs.map Prod.fst) =
      l.flatMap InstanceSnapshot.nodes := by
  induction h with
  | nil => rfl
  | @cons c t l ids hct _ ih =>
    rw [List.map_cons, List.zip_cons_cons, List.flatMap_cons, List.flatMap_cons,
      ih fun c hc => hP c (List.mem_cons_of_mem _ hc), ← hP c List.mem_cons_self t hct]
    rfl

/-- The second plan pairs every node of the snapshot. -/
theorem nodes_after (h : Inv tree) (hc : Computed tree S I patch)
    (ha : Applied tree patch tops created tree' record) (hroot : getByRef tree.inner I = some i) :
    ∀ s r, StandsFor tree S I created s r → (plan tree' s r).pairs.map Prod.fst = s.nodes := by
  intro s
  induction s using InstanceSnapshot.induct with
  | snapshot s ih =>
    intro r hs
    obtain ⟨ids, hgreedy, hstand⟩ := partners_after h hc ha hroot hs
    rw [plan_eq, InstanceSnapshot.nodes_eq]
    dsimp only
    rw [List.map_cons, List.map_flatMap]
    congr 1
    unfold slots partners
    rw [hgreedy]
    exact flatMap_slots hstand ih

end Outcome

end Roxo
