import Roxo.Snapshot.Plan

/-!
# The shape of a plan

The pairs of a plan start at the root pair and are closed under going from a pair to the paired
children below it; no instance is paired twice. What is added goes below a paired instance. What
is removed is a child of a paired instance, has no paired instance below it, and is not below
another removed instance. Every instance of the subtree is paired or goes with a removed one.
-/

namespace Roxo

open AssocMap WeakDom RojoTree GreedyMatch Forest

variable {D : Type} [WeakDom D] {tree : RojoTree D} {S s s' c : InstanceSnapshot}
  {I id id' r r' x y : Ref}

/-- The children of a snapshot, each with its partner. -/
def slots (tree : RojoTree D) (s : InstanceSnapshot) (id : Ref) :
    List (InstanceSnapshot × Option Ref) :=
  s.children.zip (partners tree s.children id)

/-- The plan for one child. -/
def slotPlan (tree : RojoTree D) (id : Ref) (slot : InstanceSnapshot × Option Ref) : Plan :=
  match slot.2 with
  | some r => plan tree slot.1 r
  | none => ⟨[], [⟨id, slot.1⟩], []⟩

theorem planChildren_eq (l : List InstanceSnapshot) (ms : List (Option Ref)) :
    planChildren tree l ms id =
      ⟨(l.zip ms).flatMap fun slot => (slotPlan tree id slot).pairs,
        (l.zip ms).flatMap fun slot => (slotPlan tree id slot).additions,
        (l.zip ms).flatMap fun slot => (slotPlan tree id slot).removals⟩ := by
  induction l generalizing ms with
  | nil =>
    rw [planChildren]
    · rfl
    · rintro _ _ _ _ ⟨⟩
    · rintro _ _ _ ⟨⟩
  | cons c l ih =>
    cases ms with
    | nil =>
      rw [planChildren]
      · rfl
      · rintro _ _ _ _ _ ⟨⟩
      · rintro _ _ _ _ ⟨⟩
    | cons m ms =>
      cases m with
      | some r =>
        rw [planChildren, ih]
        rfl
      | none =>
        rw [planChildren, ih]
        rfl

theorem plan_eq (s : InstanceSnapshot) (id : Ref) :
    plan tree s id =
      ⟨(s, id) :: (slots tree s id).flatMap fun slot => (slotPlan tree id slot).pairs,
        (slots tree s id).flatMap fun slot => (slotPlan tree id slot).additions,
        ((slots tree s id).flatMap fun slot => (slotPlan tree id slot).removals) ++
          unpaired tree s.children id⟩ := by
  cases s with
  | mk snapshotId metadata name className properties children =>
    rw [plan, planChildren_eq]
    change Plan.mk _ _ _ = Plan.mk _ _ _
    simp only [Plan.pairs_append, Plan.additions_append, Plan.removals_append, List.nil_append,
      List.append_nil, List.singleton_append]
    rfl

/-- A pair is the root pair or belongs to the plan of a paired child. -/
theorem mem_pairs_iff : (s, r) ∈ (plan tree S I).pairs ↔
    (s = S ∧ r = I) ∨ ∃ c r', (c, some r') ∈ slots tree S I ∧ (s, r) ∈ (plan tree c r').pairs := by
  rw [plan_eq]
  dsimp only
  rw [List.mem_cons, Prod.mk.injEq, List.mem_flatMap]
  refine or_congr Iff.rfl ⟨?_, ?_⟩
  · rintro ⟨⟨c, m⟩, hslot, hmem⟩
    cases m with
    | some r' => exact ⟨c, r', hslot, hmem⟩
    | none => cases hmem
  · rintro ⟨c, r', hslot, hmem⟩
    exact ⟨(c, some r'), hslot, hmem⟩

theorem root_mem_pairs : (S, I) ∈ (plan tree S I).pairs := mem_pairs_iff.mpr (Or.inl ⟨rfl, rfl⟩)

/-- What holds of the root pair and passes from a pair to the paired children holds of all
pairs. -/
theorem forall_pairs {P : InstanceSnapshot → Ref → Prop} (hroot : P S I)
    (hslot : ∀ s r c r', P s r → (c, some r') ∈ slots tree s r → P c r') :
    ∀ s r, (s, r) ∈ (plan tree S I).pairs → P s r := by
  induction S using InstanceSnapshot.induct generalizing I with
  | snapshot S ih =>
    intro s r hmem
    rcases mem_pairs_iff.mp hmem with ⟨rfl, rfl⟩ | ⟨c, r', hc, hmem⟩
    · exact hroot
    · exact ih c (List.of_mem_zip hc).1 (hslot _ _ _ _ hroot hc) s r hmem

/-- The paired children of a pair are pairs. -/
theorem mem_pairs_of_slot (h : (s, r) ∈ (plan tree S I).pairs)
    (hslot : (c, some r') ∈ slots tree s r) : (c, r') ∈ (plan tree S I).pairs := by
  induction S using InstanceSnapshot.induct generalizing I with
  | snapshot S ih =>
    rcases mem_pairs_iff.mp h with ⟨rfl, rfl⟩ | ⟨d, q, hd, hmem⟩
    · exact mem_pairs_iff.mpr (Or.inr ⟨c, r', hslot, root_mem_pairs⟩)
    · exact mem_pairs_iff.mpr (Or.inr ⟨d, q, hd, ih d (List.of_mem_zip hd).1 hmem⟩)

theorem mem_nodes_of_mem_pairs : ∀ s r, (s, r) ∈ (plan tree S I).pairs → s ∈ S.nodes :=
  forall_pairs S.self_mem_nodes fun _ _ _ _ hs hslot => InstanceSnapshot.mem_nodes_trans hs
    (InstanceSnapshot.mem_nodes_of_child (List.of_mem_zip hslot).1 (InstanceSnapshot.self_mem_nodes _))

/-- As `forall_pairs`, for a property of the pairs of one plan. -/
theorem pairs_induction {P : InstanceSnapshot → Ref → Prop} (hroot : P S I)
    (hslot : ∀ s r c r', (s, r) ∈ (plan tree S I).pairs → P s r →
      (c, some r') ∈ slots tree s r → P c r') :
    ∀ s r, (s, r) ∈ (plan tree S I).pairs → P s r := fun s r hmem =>
  (forall_pairs (P := fun s r => (s, r) ∈ (plan tree S I).pairs ∧ P s r) ⟨root_mem_pairs, hroot⟩
    (fun s r c r' h hc => ⟨mem_pairs_of_slot h.1 hc, hslot s r c r' h.1 h.2 hc⟩) s r hmem).2

/-! ## Slots -/

theorem length_partners (l : List InstanceSnapshot) :
    (partners tree l id).length = l.length := length_greedy _ _

/-- A partner is a child with the name and the class of the snapshot. -/
theorem slot_some (h : (c, some r) ∈ slots tree s id) :
    r ∈ kids tree.inner id ∧ keyOf tree r = want c :=
  (List.forall₂_iff_zip.mp (forall₂_greedy s.children (kids tree.inner id))).2 h r rfl

theorem map_snd_slots : (slots tree s id).map Prod.snd = partners tree s.children id := by
  unfold slots
  rw [List.map_snd_zip]
  exact Nat.le_of_eq (length_partners _)

theorem exists_slot (h : some r ∈ partners tree s.children id) :
    ∃ c, (c, some r) ∈ slots tree s id := by
  rw [← map_snd_slots] at h
  obtain ⟨⟨c, m⟩, hmem, rfl⟩ := List.mem_map.mp h
  exact ⟨c, hmem⟩

theorem mem_kids_of_unpaired (h : x ∈ unpaired tree s.children id) : x ∈ kids tree.inner id :=
  (rest_sublist _ _).subset h

/-- A child is paired or not. -/
theorem slot_or_unpaired (h : x ∈ kids tree.inner id) :
    (∃ c, (c, some x) ∈ slots tree s id) ∨ x ∈ unpaired tree s.children id := by
  by_cases hx : x ∈ unpaired tree s.children id
  · exact Or.inr hx
  · exact Or.inl (exists_slot (mem_served_of_not_mem_rest h hx))

theorem desc_of_mem_pairs : ∀ s r, (s, r) ∈ (plan tree S I).pairs → Desc (kids tree.inner) I r :=
  forall_pairs .refl fun _ _ _ _ h hslot => h.tail (slot_some hslot).1

section Lawful

variable [LawfulWeakDom D]

theorem not_unpaired_of_slot (h : (c, some r) ∈ slots tree s id) :
    r ∉ unpaired tree s.children id := by
  have hmem : some r ∈ partners tree s.children id := by
    rw [← map_snd_slots]
    exact List.mem_map_of_mem h
  exact (served_mem_of_nodup ((LawfulWeakDom.forest tree.inner).nodup id) hmem).2

/-- No two children of a snapshot have the same partner. -/
theorem pairwise_slots : (slots tree s id).Pairwise fun a b =>
    ∀ r r', a.2 = some r → b.2 = some r' → r ≠ r' := by
  have hperm := perm_greedy want (keyOf tree) s.children (kids tree.inner id)
  have hnodup := hperm.nodup_iff.mp ((LawfulWeakDom.forest tree.inner).nodup id)
  have hred : (partners tree s.children id).reduceOption.Nodup :=
    (List.nodup_append.mp hnodup).1
  have hpw : (partners tree s.children id).Pairwise fun a b =>
      ∀ r r', a = some r → b = some r' → r ≠ r' := by
    unfold List.reduceOption at hred
    rw [List.Nodup, List.pairwise_filterMap] at hred
    exact hred.imp fun h r r' ha hb => h r ha r' hb
  rw [← map_snd_slots, List.pairwise_map] at hpw
  exact hpw

/-! ## Pairs -/

/-- **No instance is paired twice.** -/
theorem nodup_pairs : ((plan tree S I).pairs.map Prod.snd).Nodup := by
  have hf := LawfulWeakDom.forest tree.inner
  induction S using InstanceSnapshot.induct generalizing I with
  | snapshot S ih =>
    rw [plan_eq]
    dsimp only
    rw [List.map_cons, List.nodup_cons]
    constructor
    · intro hmem
      obtain ⟨⟨s, r⟩, hmem, rfl⟩ := List.mem_map.mp hmem
      obtain ⟨⟨c, m⟩, hslot, hmem⟩ := List.mem_flatMap.mp hmem
      cases m with
      | none => cases hmem
      | some r' => exact hf.not_desc_of_mem (slot_some hslot).1 (desc_of_mem_pairs _ _ hmem)
    · rw [List.map_flatMap, List.nodup_flatMap]
      constructor
      · rintro ⟨c, m⟩ hslot
        cases m with
        | none => exact List.nodup_nil
        | some r' => exact ih c (List.of_mem_zip hslot).1
      · refine pairwise_slots.imp_of_mem ?_
        rintro ⟨c, m⟩ ⟨c', m'⟩ hslot hslot' hne x hx hx'
        obtain ⟨⟨s, r⟩, hmem, rfl⟩ := List.mem_map.mp hx
        obtain ⟨⟨s', r'⟩, hmem', heq⟩ := List.mem_map.mp hx'
        dsimp only at heq
        subst heq
        cases m with
        | none => cases hmem
        | some q =>
          cases m' with
          | none => cases hmem'
          | some q' =>
            refine hne q q' rfl rfl (hf.eq_of_common_desc (slot_some hslot).1
              (slot_some hslot').1 (desc_of_mem_pairs _ _ hmem) (desc_of_mem_pairs _ _ hmem'))

theorem eq_of_mem_pairs (h : (s, r) ∈ (plan tree S I).pairs)
    (h' : (s', r) ∈ (plan tree S I).pairs) : s = s' :=
  congrArg Prod.fst (List.inj_on_of_nodup_map nodup_pairs h h' rfl)

/-! ## Additions -/

/-- The children of a snapshot that have no partner. -/
def unservedChildren (tree : RojoTree D) (s : InstanceSnapshot) (id : Ref) :
    List InstanceSnapshot :=
  unserved s.children (partners tree s.children id)

omit [LawfulWeakDom D] in
theorem flatMap_unserved (l : List InstanceSnapshot) (ms : List (Option Ref)) :
    ((l.zip ms).flatMap fun slot =>
      match slot.2 with
      | some _ => []
      | none => [PatchAdd.mk id slot.1]) = (unserved l ms).map (PatchAdd.mk id) := by
  induction l generalizing ms with
  | nil => cases ms <;> rfl
  | cons c l ih =>
    cases ms with
    | nil => rfl
    | cons m ms =>
      rw [List.zip_cons_cons, List.flatMap_cons, ih]
      cases m <;> rfl

/-- What is added below `r`, in order. -/
theorem filter_additions : (plan tree S I).additions.filter (fun a => a.parentId = r) =
    ((plan tree S I).pairs.filter fun p => p.2 = r).flatMap fun p =>
      (unservedChildren tree p.1 p.2).map (PatchAdd.mk p.2) := by
  have hf := LawfulWeakDom.forest tree.inner
  induction S using InstanceSnapshot.induct generalizing I with
  | snapshot S ih =>
    have hroot : ((plan tree S I).pairs.filter fun p => p.2 = r) =
        (if I = r then [(S, I)] else []) ++ (slots tree S I).flatMap fun slot =>
          (slotPlan tree I slot).pairs.filter fun p => p.2 = r := by
      rw [plan_eq]
      dsimp only
      rw [List.filter_cons, List.filter_flatMap]
      by_cases h : I = r <;> simp only [h, decide_true, decide_false, if_true, Bool.false_eq_true,
        if_false, List.singleton_append, List.nil_append]
    have hadd : ((plan tree S I).additions.filter fun a => a.parentId = r) =
        (slots tree S I).flatMap fun slot =>
          (slotPlan tree I slot).additions.filter fun a => a.parentId = r := by
      rw [plan_eq, List.filter_flatMap]
    have hslot : ∀ slot ∈ slots tree S I, ∀ q, slot.2 = some q →
        ((slotPlan tree I slot).additions.filter fun a => a.parentId = r) =
          ((slotPlan tree I slot).pairs.filter fun p => p.2 = r).flatMap fun p =>
            (unservedChildren tree p.1 p.2).map (PatchAdd.mk p.2) := by
      rintro ⟨c, m⟩ hmem q hq
      dsimp only at hq
      subst hq
      exact ih c (List.of_mem_zip hmem).1
    rw [hroot, hadd, List.flatMap_append, List.flatMap_assoc]
    by_cases h : I = r
    · subst h
      -- below a paired child nothing is added to the parent
      have hnone : ∀ slot ∈ slots tree S I,
          ((slotPlan tree I slot).pairs.filter fun p => p.2 = I) = [] := by
        rintro ⟨c, m⟩ hmem
        cases m with
        | none => rfl
        | some q =>
          refine List.filter_eq_nil_iff.mpr fun p hp hI => ?_
          have hd := desc_of_mem_pairs p.1 p.2 hp
          rw [of_decide_eq_true hI] at hd
          exact hf.not_desc_of_mem (slot_some hmem).1 hd
      rw [if_pos rfl, List.flatMap_singleton]
      unfold unservedChildren
      rw [← flatMap_unserved]
      have htail : ((slots tree S I).flatMap fun slot =>
          ((slotPlan tree I slot).pairs.filter fun p => p.2 = I).flatMap fun p =>
            (unserved p.1.children (partners tree p.1.children p.2)).map (PatchAdd.mk p.2)) = [] := by
        refine List.flatMap_eq_nil_iff.mpr fun slot hmem => ?_
        rw [hnone slot hmem, List.flatMap_nil]
      rw [htail, List.append_nil]
      refine List.flatMap_congr fun slot hmem => ?_
      cases hm : slot.2 with
      | some q => rw [hslot slot hmem q hm, hnone slot hmem, List.flatMap_nil]
      | none =>
        unfold slotPlan
        rw [hm]
        simp only [List.filter_cons, decide_true, if_true, List.filter_nil]
    · rw [if_neg h, List.flatMap_nil, List.nil_append]
      refine List.flatMap_congr fun slot hmem => ?_
      cases hm : slot.2 with
      | some q => exact hslot slot hmem q hm
      | none =>
        unfold slotPlan
        rw [hm]
        simp only [List.filter_cons, h, decide_false, Bool.false_eq_true, if_false, List.filter_nil,
          List.flatMap_nil]

/-- Below a paired instance its unserved children are added. -/
theorem additions_below (h : (s, r) ∈ (plan tree S I).pairs) :
    (plan tree S I).additions.filter (fun a => a.parentId = r) =
      (unservedChildren tree s r).map (PatchAdd.mk r) := by
  rw [filter_additions]
  have hone : ((plan tree S I).pairs.filter fun p => p.2 = r) = [(s, r)] := by
    refine List.perm_singleton.mp ((List.perm_ext_iff_of_nodup
      (nodup_pairs.of_map.filter _) (List.nodup_singleton _)).mpr fun p => ?_)
    rw [List.mem_filter, List.mem_singleton]
    refine ⟨fun ⟨hp, hr⟩ => List.inj_on_of_nodup_map nodup_pairs hp h (of_decide_eq_true hr), ?_⟩
    rintro rfl
    exact ⟨h, decide_eq_true rfl⟩
  rw [hone, List.flatMap_singleton]

omit [LawfulWeakDom D] in
/-- What is added goes below a pair. -/
theorem parent_of_addition : ∀ a ∈ (plan tree S I).additions,
    ∃ s, (s, a.parentId) ∈ (plan tree S I).pairs ∧ a.inst ∈ s.children := by
  induction S using InstanceSnapshot.induct generalizing I with
  | snapshot S ih =>
    intro a ha
    rw [plan_eq] at ha
    obtain ⟨⟨c, m⟩, hslot, ha⟩ := List.mem_flatMap.mp ha
    cases m with
    | none =>
      rw [List.mem_singleton.mp ha]
      exact ⟨S, root_mem_pairs, (List.of_mem_zip hslot).1⟩
    | some q =>
      obtain ⟨s, hs, hmem⟩ := ih c (List.of_mem_zip hslot).1 a ha
      exact ⟨s, mem_pairs_iff.mpr (Or.inr ⟨c, q, hslot, hs⟩), hmem⟩

/-! ## Removals -/

omit [LawfulWeakDom D] in
/-- The removed instances are the unpaired children of the pairs. -/
theorem removals_perm : (plan tree S I).removals.Perm
    ((plan tree S I).pairs.flatMap fun p => unpaired tree p.1.children p.2) := by
  induction S using InstanceSnapshot.induct generalizing I with
  | snapshot S ih =>
    rw [plan_eq]
    dsimp only
    rw [List.flatMap_cons, List.flatMap_assoc]
    refine List.perm_append_comm.trans (List.Perm.append_left _ ?_)
    refine List.Perm.flatMap_left _ fun slot hslot => ?_
    obtain ⟨c, m⟩ := slot
    cases m with
    | none => exact List.Perm.refl _
    | some q => exact ih c (List.of_mem_zip hslot).1

omit [LawfulWeakDom D] in
theorem mem_removals_iff : x ∈ (plan tree S I).removals ↔
    ∃ s r, (s, r) ∈ (plan tree S I).pairs ∧ x ∈ unpaired tree s.children r := by
  rw [removals_perm.mem_iff, List.mem_flatMap]
  exact ⟨fun ⟨⟨s, r⟩, h, hx⟩ => ⟨s, r, h, hx⟩, fun ⟨s, r, h, hx⟩ => ⟨(s, r), h, hx⟩⟩

theorem nodup_removals : (plan tree S I).removals.Nodup := by
  have hf := LawfulWeakDom.forest tree.inner
  rw [removals_perm.nodup_iff, List.nodup_flatMap]
  refine ⟨fun p _ => (hf.nodup p.2).sublist (rest_sublist _ _), ?_⟩
  refine (List.pairwise_map.mp nodup_pairs).imp fun hne x hx hx' => ?_
  exact hne (hf.unique (mem_kids_of_unpaired hx) (mem_kids_of_unpaired hx'))

/-- Nothing paired is below a removed instance. -/
theorem not_desc_removal (hx : x ∈ (plan tree S I).removals) :
    ∀ s r, (s, r) ∈ (plan tree S I).pairs → ¬ Desc (kids tree.inner) x r := by
  have hf := LawfulWeakDom.forest tree.inner
  obtain ⟨s₀, r₀, h₀, hx⟩ := mem_removals_iff.mp hx
  have hk := mem_kids_of_unpaired hx
  refine pairs_induction ?_ ?_
  · intro hd
    exact hf.not_desc_of_mem hk (hd.trans (desc_of_mem_pairs _ _ h₀))
  · intro s r c r' hmem hnot hslot hd
    have hr' := (slot_some hslot).1
    by_cases hxr : x = r'
    · subst hxr
      have hr : r = r₀ := hf.unique hr' hk
      subst hr
      rw [eq_of_mem_pairs h₀ hmem] at hx
      exact not_unpaired_of_slot hslot hx
    · exact hnot (hf.desc_parent hd hxr hr')

/-- A removed instance is not below another. -/
theorem removals_incomparable (hx : x ∈ (plan tree S I).removals)
    (hy : y ∈ (plan tree S I).removals) (h : Desc (kids tree.inner) x y) : x = y := by
  have hf := LawfulWeakDom.forest tree.inner
  obtain ⟨s, r, hmem, hy⟩ := mem_removals_iff.mp hy
  by_contra hne
  exact not_desc_removal hx s r hmem (hf.desc_parent h hne (mem_kids_of_unpaired hy))

omit [LawfulWeakDom D] in
/-- **Every instance of the subtree is paired or goes with a removed one.** -/
theorem paired_or_removed (h : Desc (kids tree.inner) I y) :
    (∃ s, (s, y) ∈ (plan tree S I).pairs) ∨
      ∃ x ∈ (plan tree S I).removals, Desc (kids tree.inner) x y := by
  induction h with
  | refl => exact Or.inl ⟨S, root_mem_pairs⟩
  | @tail y z _ hz ih =>
    rcases ih with ⟨s, hs⟩ | ⟨x, hx, hxy⟩
    · rcases slot_or_unpaired (s := s) hz with ⟨c, hslot⟩ | hun
      · exact Or.inl ⟨c, mem_pairs_of_slot hs hslot⟩
      · exact Or.inr ⟨z, mem_removals_iff.mpr ⟨s, y, hs, hun⟩, .refl⟩
    · exact Or.inr ⟨x, hx, hxy.tail hz⟩

end Lawful

end Roxo
