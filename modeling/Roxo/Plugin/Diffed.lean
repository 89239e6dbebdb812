import Roxo.Plugin.Aligned
import Roxo.Plugin.Grown

/-!
# What diff finds

For a map that follows both trees, `diff` lists the unknown children of mapped instances, the
updates of mapped instances and the virtual instances that are not mapped, and nothing else.
-/

namespace Roxo.Plugin

open AssocMap Forest

variable {V E : Type} [Engine V] [Decoder E V]

/-- An unknown child that is not left alone. -/
def ToRemove (dom : Dom V) (v : VirtualInstance E) (child : Handle) : Prop :=
  ((dom.instances child).accessible && !(dom.instances child).archivable) = false ∧
    shouldDeleteUnknownInstances v = true

/-- The instance is an unknown child, to be removed, of the instance of an id of the subtree. -/
def UnknownBelow (virtualInstances : Map String (VirtualInstance E)) (dom : Dom V)
    (map : InstanceMap) (id : String) (child : Handle) : Prop :=
  ∃ i h v, Desc (kids virtualInstances) id i ∧ map.fromIds.lookup i = some h ∧
    virtualInstances.lookup i = some v ∧ child ∈ dom.getChildren h ∧
    map.fromInstances.lookup child = none ∧ ToRemove dom v child

/-- A part of `diff` has put `updates` into the patch, for mapped ids among `ids`, and the added
and removed instances. -/
structure Diffed (virtualInstances : Map String (VirtualInstance E)) (dom : Dom V)
    (map : InstanceMap) (ids added : String → Prop) (removed : Handle → Prop)
    (patch patch' : PatchSet E) (updates : List (Update E)) : Prop where
  removes : ∃ removals : List Handle, patch'.removed = patch.removed ++ removals.map .inst ∧
    ∀ child, child ∈ removals ↔ removed child
  updated : patch'.updated = patch.updated ++ updates
  mem_updates : ∀ u, u ∈ updates ↔ ∃ i h v, ids i ∧ map.fromIds.lookup i = some h ∧
    virtualInstances.lookup i = some v ∧ diffInstance dom map h i v = some u
  nodup : (updates.map Update.id).Nodup
  adds : ∀ i, added i → patch'.added.lookup i = virtualInstances.lookup i
  others : ∀ i, ¬ added i → patch'.added.lookup i = patch.added.lookup i

theorem diffInstance_eq {dom : Dom V} {map : InstanceMap} {h : Handle} {i : String}
    {v : VirtualInstance E} {u : Update E} (hu : diffInstance dom map h i v = some u) :
    u = ⟨i, if v.name ≠ (dom.instances h).name then some v.name else none,
      if v.className ≠ (dom.instances h).className then some v.className else none,
      changedProperties dom map h v, none⟩ := by
  unfold diffInstance at hu
  simp only [Option.ite_none_right_eq_some, Option.some.injEq] at hu
  exact hu.2.symm

theorem diffInstance_eq_none {dom : Dom V} {map : InstanceMap} {h : Handle} {i : String}
    {v : VirtualInstance E} : diffInstance dom map h i v = none ↔
      v.name = (dom.instances h).name ∧ v.className = (dom.instances h).className ∧
        (changedProperties dom map h v).entries = [] := by
  unfold diffInstance
  simp only [ite_eq_right_iff, reduceCtorEq, imp_false, Bool.not_eq_true, Bool.or_eq_false_iff,
    Bool.not_eq_false', List.isEmpty_iff]
  rw [and_assoc]
  refine and_congr ?_ (and_congr ?_ Iff.rfl)
  · split_ifs with h <;> simp_all
  · split_ifs with h <;> simp_all

theorem diffInstance_id {dom : Dom V} {map : InstanceMap} {h : Handle} {i : String}
    {v : VirtualInstance E} {u : Update E} (hu : diffInstance dom map h i v = some u) :
    u.id = i := by
  rw [diffInstance_eq hu]

namespace Diffed

variable {virtualInstances : Map String (VirtualInstance E)} {dom : Dom V} {map : InstanceMap}
  {ids ids' added added' : String → Prop} {removed removed' : Handle → Prop}
  {patch patch' patch'' : PatchSet E} {updates updates' : List (Update E)}

/-- The id of an update is a mapped id among those that have been visited. -/
theorem id_of_mem (hd : Diffed virtualInstances dom map ids added removed patch patch' updates)
    {u : Update E} (hu : u ∈ updates) :
    ids u.id ∧ ∃ h, map.fromIds.lookup u.id = some h := by
  obtain ⟨i, h, v, hi, hmap, -, heq⟩ := (hd.mem_updates u).mp hu
  rw [diffInstance_id heq]
  exact ⟨hi, h, hmap⟩

theorem append (hd : Diffed virtualInstances dom map ids added removed patch patch' updates)
    (hd' : Diffed virtualInstances dom map ids' added' removed' patch' patch'' updates')
    (hdis : ∀ i h, map.fromIds.lookup i = some h → ids i → ¬ ids' i) :
    Diffed virtualInstances dom map (fun i => ids i ∨ ids' i) (fun i => added i ∨ added' i)
      (fun c => removed c ∨ removed' c) patch patch'' (updates ++ updates') where
  removes := by
    obtain ⟨r, hr, hmem⟩ := hd.removes
    obtain ⟨r', hr', hmem'⟩ := hd'.removes
    refine ⟨r ++ r', by rw [hr', hr, List.map_append, List.append_assoc], fun c => ?_⟩
    rw [List.mem_append, hmem, hmem']
  updated := by rw [hd'.updated, hd.updated, List.append_assoc]
  mem_updates u := by
    rw [List.mem_append, hd.mem_updates, hd'.mem_updates]
    constructor
    · rintro (⟨i, h, v, hi, hrest⟩ | ⟨i, h, v, hi, hrest⟩)
      · exact ⟨i, h, v, .inl hi, hrest⟩
      · exact ⟨i, h, v, .inr hi, hrest⟩
    · rintro ⟨i, h, v, hi | hi, hrest⟩
      · exact .inl ⟨i, h, v, hi, hrest⟩
      · exact .inr ⟨i, h, v, hi, hrest⟩
  nodup := by
    rw [List.map_append, List.nodup_append]
    refine ⟨hd.nodup, hd'.nodup, fun a ha b hb hab => ?_⟩
    obtain ⟨u, hu, rfl⟩ := List.mem_map.mp ha
    obtain ⟨u', hu', rfl⟩ := List.mem_map.mp hb
    obtain ⟨hi, h, hmap⟩ := hd.id_of_mem hu
    exact hdis _ h hmap hi (hab ▸ (hd'.id_of_mem hu').1)
  adds i hi := by
    by_cases h' : added' i
    · exact hd'.adds i h'
    · rw [hd'.others i h']
      exact hd.adds i (hi.resolve_right h')
  others i hi := by
    rw [not_or] at hi
    rw [hd'.others i hi.2, hd.others i hi.1]

/-- What matters of the visited ids is which mapped ids there are. -/
theorem congr (hd : Diffed virtualInstances dom map ids added removed patch patch' updates)
    (hids : ∀ i h, map.fromIds.lookup i = some h → (ids' i ↔ ids i))
    (hadded : ∀ i, added' i ↔ added i) (hremoved : ∀ c, removed' c ↔ removed c) :
    Diffed virtualInstances dom map ids' added' removed' patch patch' updates where
  removes := by
    obtain ⟨r, hr, hmem⟩ := hd.removes
    exact ⟨r, hr, fun c => (hmem c).trans (hremoved c).symm⟩
  updated := hd.updated
  mem_updates u := by
    rw [hd.mem_updates]
    constructor
    · rintro ⟨i, h, v, hi, hmap, hrest⟩
      exact ⟨i, h, v, (hids i h hmap).mpr hi, hmap, hrest⟩
    · rintro ⟨i, h, v, hi, hmap, hrest⟩
      exact ⟨i, h, v, (hids i h hmap).mp hi, hmap, hrest⟩
  nodup := hd.nodup
  adds i hi := hd.adds i ((hadded i).mp hi)
  others i hi := hd.others i fun h => hi ((hadded i).mpr h)

theorem refl (patch : PatchSet E) : Diffed virtualInstances dom map (fun _ => False)
    (fun _ => False) (fun _ => False) patch patch [] where
  removes := ⟨[], by simp, by simp⟩
  updated := by simp
  mem_updates u := by simp
  nodup := List.nodup_nil
  adds i hi := hi.elim
  others i _ := rfl

/-- A loop over parts that visit different mapped ids. -/
theorem exists_foldlM {α : Type} {step : PatchSet E → α → Option (PatchSet E)}
    {ids added : α → String → Prop} {removed : α → Handle → Prop} (l : List α)
    (hstep : ∀ a ∈ l, ∀ patch, ∃ patch' updates, step patch a = some patch' ∧
      Diffed virtualInstances dom map (ids a) (added a) (removed a) patch patch' updates)
    (hdis : l.Pairwise fun a b => ∀ i h, map.fromIds.lookup i = some h → ids a i → ¬ ids b i)
    (patch : PatchSet E) :
    ∃ patch' updates, l.foldlM step patch = some patch' ∧
      Diffed virtualInstances dom map (fun i => ∃ a ∈ l, ids a i) (fun i => ∃ a ∈ l, added a i)
        (fun c => ∃ a ∈ l, removed a c) patch patch' updates := by
  induction l generalizing patch with
  | nil =>
    exact ⟨patch, [], rfl, (refl patch).congr (by simp) (by simp) (by simp)⟩
  | cons a l ih =>
    rw [List.pairwise_cons] at hdis
    obtain ⟨p₁, u₁, h₁, hd₁⟩ := hstep a List.mem_cons_self patch
    obtain ⟨p₂, u₂, h₂, hd₂⟩ := ih (fun b hb => hstep b (List.mem_cons_of_mem _ hb)) hdis.2 p₁
    refine ⟨p₂, u₁ ++ u₂, ?_, ?_⟩
    · rw [List.foldlM_cons, h₁]
      exact h₂
    · refine (hd₁.append hd₂ ?_).congr (by simp) (by simp) (by simp)
      rintro i h hmap hi ⟨b, hb, hib⟩
      exact hdis.1 b hb i h hmap hi hib

end Diffed

/-! ## Runs -/

section Runs

variable {virtualInstances : Map String (VirtualInstance E)} {rootId : String} {root : Handle}
  {dom : Dom V} {map : InstanceMap} {n : ℕ}

/-- An unknown child. -/
theorem diffUnknown_diffed (v : VirtualInstance E) (child : Handle) (patch : PatchSet E) :
    Diffed virtualInstances dom map (fun _ => False) (fun _ => False)
      (fun c => c = child ∧ ToRemove dom v child) patch (diffUnknown dom v patch child) [] := by
  have hrefl : Diffed virtualInstances dom map (fun _ => False) (fun _ => False) (fun _ => False)
      patch patch [] := .refl patch
  unfold diffUnknown ToRemove
  cases h₁ : ((dom.instances child).accessible && !(dom.instances child).archivable) with
  | true => exact hrefl.congr (by simp) (by simp) (by simp)
  | false =>
    cases h₂ : shouldDeleteUnknownInstances v with
    | false => exact hrefl.congr (by simp) (by simp) (by simp)
    | true =>
      exact
        { removes := ⟨[child], rfl, by simp⟩
          updated := by simp
          mem_updates := by simp
          nodup := List.nodup_nil
          adds := by simp
          others := by simp }

/-- A virtual child that is not mapped, with everything below it. -/
theorem markIdAdded_diffed (hn : Nested virtualInstances) {id : String}
    (hid : id ∈ virtualInstances) (hw : weight virtualInstances id ≤ n) (patch : PatchSet E) :
    ∃ patch', markIdAdded virtualInstances n patch id = some patch' ∧
      Diffed virtualInstances dom map (fun _ => False) (Desc (kids virtualInstances) id)
        (fun _ => False) patch patch' [] := by
  obtain ⟨patch', hrun, hremoved, hupdated, hadded⟩ := addAllToPatch_eq hn hid hw patch
  refine ⟨patch', hrun, ?_⟩
  exact
    { removes := ⟨[], by simpa using hremoved, by simp⟩
      updated := by simpa using hupdated
      mem_updates := by simp
      nodup := List.nodup_nil
      adds := fun i hi => by rw [hadded, if_pos ((mem_subtree hn hid hw).mpr hi)]
      others := fun i hi => by rw [hadded, if_neg fun h => hi ((mem_subtree hn hid hw).mp h)] }

/-- The loop over the existing children of the instance of a mapped id. -/
theorem exists_diffChildren (hn : Nested virtualInstances)
    (ha : Aligned virtualInstances rootId root dom map) (hwf : dom.WellFormed) {id : String}
    {inst : Handle} (hid : map.fromIds.lookup id = some inst) (v : VirtualInstance E)
    (hrec : ∀ c cid, c ∈ dom.getChildren inst → map.fromInstances.lookup c = some cid →
      ∀ patch : PatchSet E, ∃ patch' updates,
        diffInternal dom map virtualInstances n patch cid = some patch' ∧
        Diffed virtualInstances dom map (Desc (kids virtualInstances) cid)
          (fun i => Desc (kids virtualInstances) cid i ∧ map.fromIds.lookup i = none)
          (UnknownBelow virtualInstances dom map cid) patch patch' updates)
    (patch : PatchSet E) :
    ∃ patch' updates, (dom.getChildren inst).foldlM (fun patch child =>
        match map.fromInstances.lookup child with
        | none => some (diffUnknown dom v patch child)
        | some childId => diffInternal dom map virtualInstances n patch childId) patch =
          some patch' ∧
      Diffed virtualInstances dom map
        (fun i => ∃ c ∈ dom.getChildren inst, ∃ cid, map.fromInstances.lookup c = some cid ∧
          Desc (kids virtualInstances) cid i)
        (fun i => ∃ c ∈ dom.getChildren inst, ∃ cid, map.fromInstances.lookup c = some cid ∧
          Desc (kids virtualInstances) cid i ∧ map.fromIds.lookup i = none)
        (fun x => ∃ c ∈ dom.getChildren inst,
          (map.fromInstances.lookup c = none ∧ x = c ∧ ToRemove dom v c) ∨
          ∃ cid, map.fromInstances.lookup c = some cid ∧
            UnknownBelow virtualInstances dom map cid x) patch patch' updates := by
  refine Diffed.exists_foldlM _ (fun c hc patch => ?_) ?_ patch
  · cases hl : map.fromInstances.lookup c with
    | none =>
      exact ⟨_, [], rfl, (diffUnknown_diffed v c patch).congr (by simp) (by simp) (by simp)⟩
    | some cid =>
      obtain ⟨patch', updates, hrun, hd⟩ := hrec c cid hc hl patch
      exact ⟨patch', updates, hrun, hd.congr (by simp) (by simp) (by simp)⟩
  · -- the subtrees of two mapped children have no id in common
    refine (hwf.forest.nodup inst).pairwise_of_forall_ne fun c hc c' hc' hne => ?_
    rintro i h - ⟨cid, hcid, hd⟩ ⟨cid', hcid', hd'⟩
    have hkid := ha.kid_of_child hn hwf hid ((ha.inverse _ _).mpr hcid) hc
    have hkid' := ha.kid_of_child hn hwf hid ((ha.inverse _ _).mpr hcid') hc'
    have heq := hn.forest.eq_of_common_desc hkid hkid' hd hd'
    subst heq
    rw [← ha.inverse] at hcid hcid'
    rw [hcid, Option.some.injEq] at hcid'
    exact hne hcid'

omit [Engine V] [Decoder E V] in
/-- The ids below a mapped id: itself, and those below a mapped or an unmapped child. -/
theorem Aligned.desc_cases (hn : Nested virtualInstances)
    (ha : Aligned virtualInstances rootId root dom map) (hwf : dom.WellFormed) {id : String}
    {inst : Handle} (hid : map.fromIds.lookup id = some inst) (i : String) :
    Desc (kids virtualInstances) id i ↔ i = id ∨
      (∃ c ∈ dom.getChildren inst, ∃ cid, map.fromInstances.lookup c = some cid ∧
        Desc (kids virtualInstances) cid i) ∨
      ∃ k ∈ kids virtualInstances id, map.fromIds.lookup k = none ∧
        Desc (kids virtualInstances) k i := by
  constructor
  · intro hd
    rcases Relation.ReflTransGen.cases_head hd with rfl | ⟨k, hk, hki⟩
    · exact .inl rfl
    · cases hl : map.fromIds.lookup k with
      | none => exact .inr (.inr ⟨k, hk, hl, hki⟩)
      | some h =>
        exact .inr (.inl ⟨h, ha.child_of_kid hn hwf hid hl hk, k, (ha.inverse _ _).mp hl, hki⟩)
  · rintro (rfl | ⟨c, hc, cid, hcid, hd⟩ | ⟨k, hk, -, hd⟩)
    · exact .refl
    · exact (Desc.of_mem (ha.kid_of_child hn hwf hid ((ha.inverse _ _).mpr hcid) hc)).trans hd
    · exact (Desc.of_mem hk).trans hd

/-- What `diff` finds in the subtree of a mapped id. -/
theorem exists_diffInternal (hn : Nested virtualInstances)
    (ha : Aligned virtualInstances rootId root dom map) (hwf : dom.WellFormed) {id : String}
    {inst : Handle} (hid : map.fromIds.lookup id = some inst)
    (hw : weight virtualInstances id ≤ n) (patch : PatchSet E) :
    ∃ patch' updates, diffInternal dom map virtualInstances n patch id = some patch' ∧
      Diffed virtualInstances dom map (Desc (kids virtualInstances) id)
        (fun i => Desc (kids virtualInstances) id i ∧ map.fromIds.lookup i = none)
        (UnknownBelow virtualInstances dom map id) patch patch' updates := by
  induction n generalizing id inst patch with
  | zero =>
    have := weight_pos (ha.present hid)
    omega
  | succ n ih =>
    obtain ⟨v, hv⟩ := exists_lookup (ha.present hid)
    have hkids := kids_of_lookup hv
    have hlt : ∀ c ∈ kids virtualInstances id, weight virtualInstances c ≤ n := by
      intro c hc
      have := weight_lt hn (ha.present hid) hc
      omega
    have hroot := (ha.desc_root hn hwf hid).1
    have habove : ∀ k ∈ kids virtualInstances id, map.fromIds.lookup k = none →
        ∀ {i}, Desc (kids virtualInstances) k i → ∀ h, map.fromIds.lookup i ≠ some h := by
      intro k hk hl i hd h hmap
      obtain ⟨h', hk'⟩ := ha.mapped_of_desc hn hd (hroot.tail hk) hmap
      rw [hl] at hk'
      cases hk'
    -- the instance itself
    have hself : Diffed virtualInstances dom map (fun i => i = id) (fun _ => False)
        (fun _ => False) patch { patch with
          updated := patch.updated ++ (diffInstance dom map inst id v).toList }
        (diffInstance dom map inst id v).toList := by
      refine
        { removes := ⟨[], by simp, by simp⟩
          updated := rfl
          mem_updates := fun u => ?_
          nodup := ?_
          adds := by simp
          others := fun _ _ => rfl }
      · rw [Option.mem_toList]
        constructor
        · exact fun hu => ⟨id, inst, v, rfl, hid, hv, hu⟩
        · rintro ⟨i, h, v', rfl, hmap, hv', hu⟩
          rw [hid, Option.some.injEq] at hmap
          rw [hv, Option.some.injEq] at hv'
          subst hmap hv'
          exact hu
      · cases diffInstance dom map inst id v <;> simp
    -- its existing children
    obtain ⟨p₁, u₁, hrun₁, hd₁⟩ := exists_diffChildren hn ha hwf hid v
      (fun c cid hc hcid patch => ih ((ha.inverse _ _).mpr hcid)
        (hlt cid (ha.kid_of_child hn hwf hid ((ha.inverse _ _).mpr hcid) hc)) patch)
      { patch with updated := patch.updated ++ (diffInstance dom map inst id v).toList }
    -- its virtual children without an instance
    obtain ⟨step, hrun, hnone, hsome⟩ : ∃ step : PatchSet E → String → Option (PatchSet E),
        diffInternal dom map virtualInstances (n + 1) patch id =
          (kids virtualInstances id).foldlM step p₁ ∧
        (∀ p k, map.fromIds.lookup k = none →
          step p k = markIdAdded virtualInstances (n + 1) p k) ∧
        ∀ p k h, map.fromIds.lookup k = some h → step p k = some p := by
      refine ⟨?step, ?run, ?unmapped, ?mapped⟩
      case run =>
        unfold diffInternal
        rw [hv, hid, hkids]
        exact congrArg (fun p => Option.bind p _) hrun₁
      case unmapped =>
        intro p k hl
        simp only [hl]
      case mapped =>
        intro p k h hl
        simp only [hl]
    have hadd : ∃ p₂ u₂, (kids virtualInstances id).foldlM step p₁ = some p₂ ∧
        Diffed virtualInstances dom map (fun i => ∃ k ∈ kids virtualInstances id, False)
          (fun i => ∃ k ∈ kids virtualInstances id, map.fromIds.lookup k = none ∧
            Desc (kids virtualInstances) k i)
          (fun x => ∃ k ∈ kids virtualInstances id, False) p₁ p₂ u₂ := by
      refine Diffed.exists_foldlM _ (fun k hk patch => ?_)
        (List.pairwise_of_forall fun _ _ _ _ _ h => h.elim) p₁
      cases hl : map.fromIds.lookup k with
      | some h =>
        exact ⟨patch, [], hsome patch k h hl,
          (Diffed.refl patch).congr (by simp) (by simp) (by simp)⟩
      | none =>
        have hle := hlt k hk
        obtain ⟨patch', hrun, hd⟩ : ∃ patch', markIdAdded virtualInstances (n + 1) patch k =
            some patch' ∧ Diffed virtualInstances dom map (fun _ => False)
              (Desc (kids virtualInstances) k) (fun _ => False) patch patch' [] :=
          markIdAdded_diffed hn (hn.present hk) (by omega) patch
        exact ⟨patch', [], (hnone patch k hl).trans hrun,
          hd.congr (by simp) (by simp) (by simp)⟩
    obtain ⟨p₂, u₂, hrun₂, hd₂⟩ := hadd
    refine ⟨p₂, _, ?_, ((hself.append hd₁ ?_).append hd₂ ?_).congr ?_ ?_ ?_⟩
    · exact hrun.trans hrun₂
    · rintro i h - rfl ⟨c, hc, cid, hcid, hd⟩
      have hkid := ha.kid_of_child hn hwf hid ((ha.inverse _ _).mpr hcid) hc
      exact hn.forest.not_desc_of_mem hkid hd
    · simp
    · intro i h hmap
      rw [ha.desc_cases hn hwf hid]
      constructor
      · rintro (hi | hi | ⟨k, hk, hl, hd⟩)
        · exact .inl (.inl hi)
        · exact .inl (.inr hi)
        · exact absurd hmap (habove k hk hl hd h)
      · rintro ((hi | hi) | ⟨-, -, hi⟩)
        · exact .inl hi
        · exact .inr (.inl hi)
        · exact hi.elim
    · intro i
      rw [ha.desc_cases hn hwf hid]
      constructor
      · rintro ⟨rfl | ⟨c, hc, cid, hcid, hd⟩ | hi, hun⟩
        · rw [hid] at hun
          cases hun
        · exact .inl (.inr ⟨c, hc, cid, hcid, hd, hun⟩)
        · exact .inr hi
      · rintro ((hi | ⟨c, hc, cid, hcid, hd, hun⟩) | ⟨k, hk, hl, hd⟩)
        · exact hi.elim
        · exact ⟨.inr (.inl ⟨c, hc, cid, hcid, hd⟩), hun⟩
        · exact ⟨.inr (.inr ⟨k, hk, hl, hd⟩), Option.eq_none_iff_forall_ne_some.mpr
            fun h => habove k hk hl hd h⟩
    · intro x
      constructor
      · rintro ⟨i, h, v', hd, hmap, hv', hx, hun, hrm⟩
        rcases (ha.desc_cases hn hwf hid i).mp hd with rfl | ⟨c, hc, cid, hcid, hd⟩ |
          ⟨k, hk, hl, hd⟩
        · rw [hid, Option.some.injEq] at hmap
          rw [hv, Option.some.injEq] at hv'
          subst hmap hv'
          exact .inl (.inr ⟨x, hx, .inl ⟨hun, rfl, hrm⟩⟩)
        · exact .inl (.inr ⟨c, hc, .inr ⟨cid, hcid, i, h, v', hd, hmap, hv', hx, hun, hrm⟩⟩)
        · exact absurd hmap (habove k hk hl hd h)
      · rintro ((hx | ⟨c, hc, ⟨hun, rfl, hrm⟩ | ⟨cid, hcid, i, h, v', hd, hrest⟩⟩) | ⟨-, -, hx⟩)
        · exact hx.elim
        · exact ⟨id, inst, v, .refl, hid, hv, hc, hun, hrm⟩
        · have hkid := ha.kid_of_child hn hwf hid ((ha.inverse _ _).mpr hcid) hc
          exact ⟨i, h, v', (Desc.of_mem hkid).trans hd, hrest⟩
        · exact hx.elim

end Runs

end Roxo.Plugin
