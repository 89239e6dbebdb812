import Roxo.Snapshot.Applied

/-!
# User-specified ids after a patch

Which instances carry a user-specified id after a patch, and so what the id resolves to, can be
read off the patch and the tree before it (`specified_after`).
-/

namespace Roxo

open AssocMap WeakDom RojoTree Forest

/-- The user-specified id of an added node. -/
def nodeId (n : InstanceSnapshot) : Option RojoRef :=
  (deferredMetadata n.properties n.metadata).specifiedId

/-- The added nodes that carry a user-specified id. -/
def newCarriers (patch : PatchSet) (r : RojoRef) : List InstanceSnapshot :=
  (patch.addedInstances.flatMap fun a => a.inst.nodes).filter fun n => nodeId n = some r

section Carriers

variable {D : Type} [WeakDom D]

/-- An instance that the patch does not remove carries the id once it has been updated. -/
def OldCarrier (tree : RojoTree D) (patch : PatchSet) (r : RojoRef) (x : Ref) : Prop :=
  ∃ i m, getByRef tree.inner x = some i ∧ tree.metadataMap.lookup x = some m ∧
    ¬ Below tree patch.removedInstances x ∧
    ((x ∉ patch.updatedInstances.map PatchUpdate.id ∧ m.specifiedId = some r) ∨
      ∃ u ∈ patch.updatedInstances, u.id = x ∧ (updatedMetadata ∅ u i m).specifiedId = some r)

/-- After the patch the id will be that of the old instance `y` only. -/
def ResolvesOld (tree : RojoTree D) (patch : PatchSet) (r : RojoRef) (y : Ref) : Prop :=
  newCarriers patch r = [] ∧ ∀ x, OldCarrier tree patch r x ↔ x = y

/-- After the patch the id will be that of one new instance only. -/
def ResolvesNew (tree : RojoTree D) (patch : PatchSet) (r : RojoRef) : Prop :=
  (∃ n, newCarriers patch r = [n]) ∧ ∀ x, ¬ OldCarrier tree patch r x

end Carriers

section Attributes

variable {a b : UstrMap Variant} {ids : Map Ref Ref} {u : PatchUpdate} {i : Instance}
  {m : InstanceMetadata}

theorem attributesOf_of_iff (h : ∀ l, a.lookup "Attributes" = some (.attributes l) ↔
    b.lookup "Attributes" = some (.attributes l)) : attributesOf a = attributesOf b := by
  unfold attributesOf
  split
  · rename_i l heq
    rw [(h l).mp heq]
  · rename_i hnot
    split
    · rename_i l heq
      exact absurd ((h l).mpr heq) (hnot l)
    · rfl

theorem changedValue_attributes {entry : Option Variant} {old : Option Variant}
    {l : List (String × Variant)} : changedValue ids entry old = some (.attributes l) ↔
      changedValue ∅ entry old = some (.attributes l) := by
  unfold changedValue
  cases entry with
  | none => rfl
  | some v =>
    cases v with
    | attributes l => rfl
    | value v =>
      cases v with
      | ref r =>
        dsimp only
        split_ifs
        · rfl
        · simp only [Option.some.injEq, reduceCtorEq]
      | _ => rfl

/-- The translation of references leaves attributes alone. -/
theorem attributesOf_updatedInstance : attributesOf (updatedInstance ids u i).properties =
    attributesOf (updatedInstance ∅ u i).properties := by
  refine attributesOf_of_iff fun l => ?_
  change (updatedProperties ids u.changedProperties i.properties).lookup _ = _ ↔
    (updatedProperties ∅ u.changedProperties i.properties).lookup _ = _
  rw [lookup_updatedProperties, lookup_updatedProperties]
  cases u.changedProperties.lookup "Attributes" with
  | none => rfl
  | some entry => exact changedValue_attributes

theorem updatedMetadata_ids : updatedMetadata ids u i m = updatedMetadata ∅ u i m := by
  unfold updatedMetadata deferredMetadata
  rw [attributesOf_updatedInstance]

end Attributes

section

variable {D : Type} [WeakDom D] [LawfulWeakDom D] {tree tree' : RojoTree D} {patch : PatchSet}
  {tops : List Ref} {created : List Creation} {record : AppliedPatchSet} {x y : Ref}
  {r : RojoRef} {c : Creation}

omit [LawfulWeakDom D] in
theorem newCarriers_eq (ha : Applied tree patch tops created tree' record) (r : RojoRef) :
    newCarriers patch r =
      (created.filter fun c => nodeId c.snapshot = some r).map Creation.snapshot := by
  unfold newCarriers
  rw [← ha.creates.snapshots, List.filter_map]
  rfl

omit [LawfulWeakDom D] in
/-- Who carries a user-specified id after the patch. -/
theorem carries_after (h : Inv tree) (ha : Applied tree patch tops created tree' record) :
    tree'.Carries r x ↔ OldCarrier tree patch r x ∨
      ∃ c ∈ created, c.id = x ∧ nodeId c.snapshot = some r := by
  constructor
  · rintro ⟨m', hm', hr⟩
    by_cases hx : x ∈ created.map Creation.id
    · obtain ⟨c, hc, rfl⟩ := List.mem_map.mp hx
      rw [ha.madeMetadata c hc] at hm'
      obtain rfl := Option.some.inj hm'
      exact Or.inr ⟨c, hc, rfl, hr⟩
    · have hpresent : (getByRef tree'.inner x).isSome :=
        (ha.inv.keys x).mp (AList.lookup_isSome.mp (Option.isSome_of_eq_some hm'))
      have hbelow : ¬ Below tree patch.removedInstances x := by
        intro hb
        rw [ha.gone x hb] at hpresent
        cases hpresent
      cases hi : getByRef tree.inner x with
      | none =>
        rw [ha.absent x hi hx] at hpresent
        cases hpresent
      | some i =>
        obtain ⟨m, hm⟩ := h.metadata_of_present hi
        refine Or.inl ⟨i, m, hi, hm, hbelow, ?_⟩
        by_cases hu : x ∈ patch.updatedInstances.map PatchUpdate.id
        · obtain ⟨u, hmem, rfl⟩ := List.mem_map.mp hu
          obtain ⟨properties, -, -, hmeta⟩ := ha.updated u hmem i m hi hm
          rw [hmeta, updatedMetadata_ids] at hm'
          obtain rfl := Option.some.inj hm'
          exact Or.inr ⟨u, hmem, rfl, hr⟩
        · rw [(ha.kept x i hi hbelow hu).2, hm] at hm'
          obtain rfl := Option.some.inj hm'
          exact Or.inl ⟨hu, hr⟩
  · rintro (⟨i, m, hi, hm, hbelow, hcarry⟩ | ⟨c, hc, rfl, hr⟩)
    · rcases hcarry with ⟨hu, hr⟩ | ⟨u, hu, rfl, hr⟩
      · exact ⟨m, (ha.kept x i hi hbelow hu).2.trans hm, hr⟩
      · obtain ⟨properties, -, -, hmeta⟩ := ha.updated u hu i m hi hm
        rw [updatedMetadata_ids] at hmeta
        exact ⟨_, hmeta, hr⟩
    · exact ⟨_, ha.madeMetadata c hc, hr⟩

theorem not_oldCarrier_created (ha : Applied tree patch tops created tree' record)
    (hc : c ∈ created) : ¬ OldCarrier tree patch r c.id := by
  rintro ⟨i, m, hi, -⟩
  exact ha.fresh c hc (LawfulWeakDom.issued_of_present _ hi)

/-- **What a user-specified id resolves to after the patch**, from the patch and the tree before
it. -/
theorem specified_after (h : Inv tree) (ha : Applied tree patch tops created tree' record) :
    tree'.getSpecifiedId r = some y ↔ ResolvesOld tree patch r y ∨
      ResolvesNew tree patch r ∧ ∃ c ∈ created, c.id = y ∧ nodeId c.snapshot = some r := by
  rw [ha.inv.toIndexed.getSpecifiedId_iff]
  simp only [carries_after h ha]
  unfold ResolvesOld ResolvesNew
  rw [newCarriers_eq ha]
  constructor
  · intro hall
    rcases (hall y).mpr rfl with hold | ⟨c, hc, rfl, hr⟩
    · refine Or.inl ⟨?_, fun x => ?_⟩
      · rw [List.map_eq_nil_iff, List.filter_eq_nil_iff]
        intro d hd hdr
        have hdy := (hall d.id).mp (Or.inr ⟨d, hd, rfl, of_decide_eq_true hdr⟩)
        exact not_oldCarrier_created ha hd (hdy ▸ hold)
      · exact ⟨fun hx => (hall x).mp (Or.inl hx), fun hx => hx ▸ hold⟩
    · refine Or.inr ⟨⟨⟨c.snapshot, ?_⟩, fun x hx => ?_⟩, c, hc, rfl, hr⟩
      · have hone : (created.filter fun d => nodeId d.snapshot = some r) = [c] := by
          refine List.perm_singleton.mp ((List.perm_ext_iff_of_nodup (ha.nodup.of_map.filter _)
            (List.nodup_singleton c)).mpr fun d => ?_)
          rw [List.mem_filter, List.mem_singleton]
          constructor
          · rintro ⟨hd, hdr⟩
            have hid := (hall d.id).mp (Or.inr ⟨d, hd, rfl, of_decide_eq_true hdr⟩)
            exact List.inj_on_of_nodup_map ha.nodup hd hc hid
          · rintro rfl
            exact ⟨hc, decide_eq_true hr⟩
        rw [hone]
        rfl
      · have hxy := (hall x).mp (Or.inl hx)
        exact not_oldCarrier_created ha hc (hxy ▸ hx)
  · rintro (⟨hnew, hold⟩ | ⟨⟨⟨n, hn⟩, hold⟩, c, hc, rfl, hr⟩) x
    · have hnone : ¬ ∃ c ∈ created, c.id = x ∧ nodeId c.snapshot = some r := by
        rintro ⟨c, hc, -, hr⟩
        rw [List.map_eq_nil_iff, List.filter_eq_nil_iff] at hnew
        exact hnew c hc (decide_eq_true hr)
      rw [or_iff_left hnone]
      exact hold x
    · obtain ⟨d, hd, -⟩ := List.map_eq_singleton_iff.mp hn
      have honly : ∀ e ∈ created, nodeId e.snapshot = some r → e = d := by
        intro e he her
        have hmem : e ∈ created.filter fun e => nodeId e.snapshot = some r :=
          List.mem_filter.mpr ⟨he, decide_eq_true her⟩
        rw [hd] at hmem
        exact List.mem_singleton.mp hmem
      constructor
      · rintro (hx | ⟨e, he, rfl, her⟩)
        · exact absurd hx (hold x)
        · rw [honly e he her, honly c hc hr]
      · rintro rfl
        exact Or.inr ⟨c, hc, rfl, hr⟩

end

end Roxo
