import Roxo.Snapshot.Applied
import Roxo.Snapshot.PlanShape

/-!
# What a computed patch says

A computed patch is the plan with the updates of its pairs, after the snapshot ids of the pairs
have been replaced by instance ids. It always fits the tree it was computed on
(`computePatchSet_ok`). The changed properties of a pair are described property by property.
-/

namespace Roxo

open AssocMap WeakDom RojoTree GreedyMatch Forest

/-! ## Changed properties of a pair -/

section Changes

variable [FloatCmp]

/-- The change that the two property maps ask for. -/
def baseChange (snapshotValue instanceValue : Option Variant) : Option (Option Variant) :=
  match snapshotValue, instanceValue with
  | some v, some w => if variantEq v w = some true then none else some (some v)
  | some v, none => some (some v)
  | none, some _ => some none
  | none, none => none

omit [FloatCmp] in
/-- The change after an attribute has set the property to `target`, or to nothing. -/
def pointerChange (target : Option (Option Variant)) (instanceValue : Option Variant)
    (change : Option (Option Variant)) : Option (Option Variant) :=
  match target, instanceValue with
  | some (some referent), some w => if referent ≠ w then some (some referent) else none
  | some (some referent), none => some (some referent)
  | some none, some _ => some none
  | some none, none => none
  | none, _ => change

omit [FloatCmp] in
/-- The change of `NeedsPivotMigration` of an instance that inherits from `Model`. -/
def pivotChange (instanceValue : Option Variant) (change : Option (Option Variant)) :
    Option (Option Variant) :=
  match (if instanceValue = none then some (some (Variant.bool false)) else change) with
  | some (some (.bool b)) => some (some (.bool b))
  | some none => none
  | _ => some (some (.bool false))

theorem lookup_changedBySnapshot {a b : UstrMap Variant} {changed : UstrMap (Option Variant)}
    (h : changedBySnapshot a b = some changed) (k : String) :
    changed.lookup k = (a.lookup k).elim none fun v => baseChange (some v) (b.lookup k) := by
  refine (lookup_foldlM (g := fun k v old => (baseChange (some v) (b.lookup k)).or old)
    a.nodupKeys ?_ h k).trans ?_
  · rintro m m' ⟨name, v⟩ - hm k
    dsimp only at hm ⊢
    by_cases hk : k = name
    · subst hk
      rw [if_pos rfl]
      unfold baseChange
      cases hw : b.lookup k with
      | none =>
        rw [hw] at hm
        rw [← Option.some.inj hm, lookup_insert_eq, if_pos rfl]
        rfl
      | some w =>
        rw [hw] at hm
        obtain ⟨r, hr, hm⟩ := Option.bind_eq_some_iff.mp hm
        dsimp only
        rw [hr]
        cases r with
        | true => rw [← Option.some.inj hm, if_pos rfl, Option.none_or]
        | false =>
          rw [← Option.some.inj hm, lookup_insert_eq, if_pos rfl, if_neg (by decide)]
          rfl
    · rw [if_neg hk]
      cases hw : b.lookup name with
      | none =>
        rw [hw] at hm
        rw [← Option.some.inj hm, lookup_insert_eq, if_neg hk]
      | some w =>
        rw [hw] at hm
        obtain ⟨r, -, hm⟩ := Option.bind_eq_some_iff.mp hm
        cases r with
        | true => rw [← Option.some.inj hm]
        | false => rw [← Option.some.inj hm, lookup_insert_eq, if_neg hk]
  · rw [AList.lookup_empty]
    simp only [Option.or_none]
    rfl

omit [FloatCmp] in
theorem lookup_removeUnvisited (a b : UstrMap Variant) (changed : UstrMap (Option Variant))
    (k : String) : (removeUnvisited a b changed).lookup k =
      if k ∈ b ∧ k ∉ a then some none else changed.lookup k := by
  refine (lookup_foldl (g := fun k _ old => if k ∈ a then old else some none) b.nodupKeys
    ?_ changed k).trans ?_
  · rintro m ⟨name, v⟩ k
    dsimp only
    by_cases hk : k = name
    · subst hk
      rw [if_pos rfl]
      split_ifs
      · rfl
      · rw [lookup_insert_eq, if_pos rfl]
    · rw [if_neg hk]
      split_ifs
      · rfl
      · rw [lookup_insert_eq, if_neg hk]
  · change (b.lookup k).elim _ _ = _
    cases hb : b.lookup k with
    | none =>
      have hmem : ¬ (k ∈ b ∧ k ∉ a) := fun h => AList.lookup_eq_none.mp hb h.1
      rw [if_neg hmem]
      rfl
    | some v =>
      have hmem : k ∈ b := AList.lookup_isSome.mp (Option.isSome_of_eq_some hb)
      rw [Option.elim_some]
      by_cases ha : k ∈ a
      · rw [if_pos ha, if_neg (fun h => h.2 ha : ¬ (k ∈ b ∧ k ∉ a))]
      · rw [if_neg ha, if_pos ⟨hmem, ha⟩]

omit [FloatCmp] in
theorem lookup_changeByAttributes (refs : UstrMap (Option Variant)) (b : UstrMap Variant)
    (changed : UstrMap (Option Variant)) (k : String) :
    (changeByAttributes refs b changed).lookup k =
      pointerChange (refs.lookup k) (b.lookup k) (changed.lookup k) := by
  refine (lookup_foldl (g := fun k target old => pointerChange (some target) (b.lookup k) old)
    refs.nodupKeys ?_ changed k).trans ?_
  · rintro m ⟨name, target⟩ k
    dsimp only
    unfold pointerChange
    by_cases hk : k = name
    · subst hk
      rw [if_pos rfl]
      cases target with
      | none =>
        cases b.lookup k with
        | none => rw [lookup_erase_eq, if_pos rfl]
        | some w => rw [lookup_insert_eq, if_pos rfl]
      | some r =>
        cases b.lookup k with
        | none => rw [lookup_insert_eq, if_pos rfl]
        | some w =>
          dsimp only
          split_ifs
          · rw [lookup_insert_eq, if_pos rfl]
          · rw [lookup_erase_eq, if_pos rfl]
    · rw [if_neg hk]
      cases target with
      | none =>
        cases b.lookup name with
        | none => rw [lookup_erase_eq, if_neg hk]
        | some w => rw [lookup_insert_eq, if_neg hk]
      | some r =>
        cases b.lookup name with
        | none => rw [lookup_insert_eq, if_neg hk]
        | some w =>
          dsimp only
          split_ifs
          · rw [lookup_insert_eq, if_neg hk]
          · rw [lookup_erase_eq, if_neg hk]
  · change (refs.lookup k).elim _ _ = _
    cases refs.lookup k with
    | none => rfl
    | some target => rfl

omit [FloatCmp] in
theorem lookup_changePivot (actualClass : String) (b : UstrMap Variant)
    (changed : UstrMap (Option Variant)) (k : String) :
    (changePivot actualClass b changed).lookup k =
      if actualClass ∈ pivotClasses ∧ k = needsPivotMigration then
        pivotChange (b.lookup k) (changed.lookup k)
      else changed.lookup k := by
  unfold changePivot
  by_cases hc : actualClass ∈ pivotClasses
  · simp only [hc, true_and, if_true]
    have hfirst : ∀ l, (if needsPivotMigration ∉ b then
          changed.insert needsPivotMigration (some (.bool false)) else changed).lookup l =
        if l = needsPivotMigration ∧ b.lookup l = none then some (some (.bool false))
        else changed.lookup l := by
      intro l
      by_cases hb : needsPivotMigration ∈ b
      · rw [if_neg (not_not.mpr hb), if_neg]
        rintro ⟨rfl, hn⟩
        exact AList.lookup_eq_none.mp hn hb
      · rw [if_pos hb, lookup_insert_eq]
        refine if_congr ⟨fun h => ⟨h, ?_⟩, And.left⟩ rfl rfl
        rw [h]
        exact AList.lookup_eq_none.mpr hb
    generalize (if needsPivotMigration ∉ b then
      changed.insert needsPivotMigration (some (.bool false)) else changed) = first at hfirst ⊢
    have hpivot := hfirst needsPivotMigration
    simp only [true_and] at hpivot
    by_cases hk : k = needsPivotMigration
    · subst hk
      rw [if_pos rfl]
      unfold pivotChange
      rw [← hpivot]
      cases hentry : first.lookup needsPivotMigration with
      | none => rw [lookup_insert_eq, if_pos rfl]
      | some change =>
        cases change with
        | none => rw [lookup_erase_eq, if_pos rfl]
        | some value =>
          cases value with
          | attributes a => rw [lookup_insert_eq, if_pos rfl]
          | value v =>
            cases v with
            | bool b' => exact hentry
            | _ => rw [lookup_insert_eq, if_pos rfl]
    · rw [if_neg hk, ← (hfirst k).trans (if_neg fun h => hk h.1)]
      split
      · rfl
      · rw [lookup_erase_eq, if_neg hk]
      · rw [lookup_insert_eq, if_neg hk]
  · rw [if_neg hc, if_neg fun h => hc h.1]

end Changes

theorem changedTo_eq_none {α : Type} [DecidableEq α] {new old : α} :
    changedTo new old = none ↔ old = new := by
  unfold changedTo
  split_ifs with h
  · simp only [h]
  · simp only [false_iff]
    exact fun he => h he.symm

theorem changedTo_getD {α : Type} [DecidableEq α] {new old : α} :
    (changedTo new old).getD old = new := by
  unfold changedTo
  split_ifs with h
  · exact h.symm
  · rfl

theorem exists_of_foldlM_none {α β : Type} {f : β → α → Option β} {l : List α} {b : β}
    (h : l.foldlM f b = none) : ∃ a ∈ l, ∃ b, f b a = none := by
  induction l generalizing b with
  | nil => cases h
  | cons a l ih =>
    rw [List.foldlM_cons] at h
    cases hb : f b a with
    | none => exact ⟨a, List.mem_cons_self, b, hb⟩
    | some c =>
      rw [hb] at h
      obtain ⟨a', ha', hn⟩ := ih h
      exact ⟨a', List.mem_cons_of_mem _ ha', hn⟩

section Pair

variable {D : Type} {tree : RojoTree D} {s : InstanceSnapshot} {i : Instance}
  {m : InstanceMetadata} {changed : UstrMap (Option Variant)} {k : String}

/-- What the attributes of a snapshot set the property `k` to: nothing if the id does not
resolve. -/
def pointerTarget (tree : RojoTree D) (properties : UstrMap Variant) (k : String) :
    Option (Option Variant) :=
  ((pointersOf properties).lookup k).map (pointee tree)

theorem lookup_computeRefProperties (s : InstanceSnapshot) (tree : RojoTree D) (k : String) :
    (computeRefProperties s tree).lookup k = pointerTarget tree s.properties k := by
  have hnodup := nodup_pointersOf s.properties
  unfold computeRefProperties pointerTarget
  refine Option.ext fun v => ?_
  rw [lookup_extend_empty, List.mem_map, Option.map_eq_some_iff]
  · simp only [lookup_eq_some_iff hnodup, Prod.exists, Prod.mk.injEq]
    constructor
    · rintro ⟨_, target, hmem, rfl, rfl⟩
      exact ⟨target, hmem, rfl⟩
    · rintro ⟨target, hmem, rfl⟩
      exact ⟨k, target, hmem, rfl, rfl⟩
  · rw [List.map_map]
    exact hnodup

variable [FloatCmp]

/-- The change of the property `k` of a pair. -/
def computedChange (tree : RojoTree D) (s : InstanceSnapshot) (i : Instance) (k : String) :
    Option (Option Variant) :=
  let change := pointerChange (pointerTarget tree s.properties k) (i.properties.lookup k)
    (baseChange (s.properties.lookup k) (i.properties.lookup k))
  if s.className ∈ pivotClasses ∧ k = needsPivotMigration then
    pivotChange (i.properties.lookup k) change
  else change

/-- **The changed properties of a pair**, property by property. -/
theorem lookup_computeChangedProperties
    (h : computeChangedProperties s ⟨i, m⟩ tree = some changed) (k : String) :
    changed.lookup k = computedChange tree s i k := by
  unfold computeChangedProperties at h
  obtain ⟨base, hbase, h⟩ := Option.bind_eq_some_iff.mp h
  rw [← Option.some.inj h, lookup_changePivot, lookup_changeByAttributes,
    lookup_computeRefProperties, lookup_removeUnvisited, lookup_changedBySnapshot hbase]
  have hboth : (if k ∈ i.properties ∧ k ∉ s.properties then some none else
      (s.properties.lookup k).elim none fun v => baseChange (some v) (i.properties.lookup k)) =
      baseChange (s.properties.lookup k) (i.properties.lookup k) := by
    cases hs : s.properties.lookup k with
    | some v =>
      have hmem : k ∈ s.properties := AList.lookup_isSome.mp (Option.isSome_of_eq_some hs)
      rw [if_neg (fun h => h.2 hmem : ¬ (k ∈ i.properties ∧ k ∉ s.properties))]
      rfl
    | none =>
      have hs' : k ∉ s.properties := AList.lookup_eq_none.mp hs
      cases hi : i.properties.lookup k with
      | none =>
        rw [if_neg (fun h => AList.lookup_eq_none.mp hi h.1 :
          ¬ (k ∈ i.properties ∧ k ∉ s.properties))]
        rfl
      | some w =>
        rw [if_pos ⟨AList.lookup_isSome.mp (Option.isSome_of_eq_some hi), hs'⟩]
        rfl
  rw [hboth]
  rfl

/-- An update of a pair brings the instance to the name, the class and the metadata of the
snapshot; without an update there is nothing to bring. -/
theorem computeUpdate_cases {o : Option PatchUpdate} (h : computeUpdate s ⟨i, m⟩ tree = some o) :
    (o = none ∧ (∀ k, computedChange tree s i k = none) ∧ i.name = s.name ∧
        i.className = s.className ∧ m = s.metadata) ∨
      ∃ u, o = some u ∧ u.id = i.referent ∧
        (∀ k, u.changedProperties.lookup k = computedChange tree s i k) ∧
        u.changedName.getD i.name = s.name ∧ u.changedClassName.getD i.className = s.className ∧
        u.changedMetadata.getD m = s.metadata ∧
        ¬ ((∀ k, computedChange tree s i k = none) ∧ i.name = s.name ∧
          i.className = s.className ∧ m = s.metadata) := by
  unfold computeUpdate at h
  obtain ⟨changed, hchanged, h⟩ := Option.bind_eq_some_iff.mp h
  have hlook := lookup_computeChangedProperties hchanged
  have hkeys : changed.keys = [] ↔ ∀ k, computedChange tree s i k = none := by
    simp only [← hlook, AList.lookup_eq_none, ← AList.mem_keys, List.eq_nil_iff_forall_not_mem]
  have hcond : (changed.keys = [] ∧ changedTo s.name i.name = none ∧
      changedTo s.className i.className = none ∧ changedTo s.metadata m = none) ↔
      ((∀ k, computedChange tree s i k = none) ∧ i.name = s.name ∧
      i.className = s.className ∧ m = s.metadata) := by
    rw [hkeys, changedTo_eq_none, changedTo_eq_none, changedTo_eq_none]
  dsimp only at h
  by_cases hc : changed.keys = [] ∧ changedTo s.name i.name = none ∧
      changedTo s.className i.className = none ∧ changedTo s.metadata m = none
  · rw [if_pos hc] at h
    exact Or.inl ⟨(Option.some.inj h).symm, hcond.mp hc⟩
  · rw [if_neg hc] at h
    exact Or.inr ⟨_, (Option.some.inj h).symm, rfl, hlook, changedTo_getD, changedTo_getD,
      changedTo_getD, mt hcond.mpr hc⟩

/-- Comparing a pair panics only when comparing two of its properties does. -/
theorem computeUpdate_eq_none (h : computeUpdate s ⟨i, m⟩ tree = none) :
    ∃ k v w, s.properties.lookup k = some v ∧ i.properties.lookup k = some w ∧
      variantEq v w = none := by
  have hbase : changedBySnapshot s.properties i.properties = none := by
    unfold computeUpdate computeChangedProperties at h
    cases hb : changedBySnapshot s.properties i.properties with
    | none => rfl
    | some changed =>
      simp only [hb, Option.bind_eq_bind, Option.bind_some] at h
      split_ifs at h
  obtain ⟨⟨k, v⟩, he, changed, hn⟩ := exists_of_foldlM_none hbase
  cases hw : i.properties.lookup k with
  | none =>
    simp only [hw, reduceCtorEq] at hn
  | some w =>
    simp only [hw] at hn
    cases hvw : variantEq v w with
    | none => exact ⟨k, v, w, AList.mem_lookup_iff.mpr he, hw, hvw⟩
    | some b =>
      rw [hvw] at hn
      cases b <;> cases hn

end Pair

/-! ## The patch of a snapshot -/

theorem reduceOption_of_mapM {α β : Type} {f : α → Option (Option β)} {l : List α}
    {l' : List (Option β)} (h : l.mapM f = some l') :
    (∀ a ∈ l, ∃ o, f a = some o) ∧ l'.reduceOption = l.filterMap fun a => (f a).join := by
  induction l generalizing l' with
  | nil =>
    rw [List.mapM_nil] at h
    rw [← Option.some.inj h]
    exact ⟨fun _ ha => absurd ha List.not_mem_nil, rfl⟩
  | cons a l ih =>
    rw [List.mapM_cons] at h
    obtain ⟨o, ho, h⟩ := Option.bind_eq_some_iff.mp h
    obtain ⟨os, hos, h⟩ := Option.bind_eq_some_iff.mp h
    obtain ⟨hall, heq⟩ := ih hos
    refine ⟨fun b hb => (List.mem_cons.mp hb).elim (fun he => ⟨o, he ▸ ho⟩) (hall b), ?_⟩
    rw [← Option.some.inj h, List.filterMap_cons, ho, ← heq]
    cases o <;> rfl

theorem exists_of_mapM_none {α β : Type} {f : α → Option β} {l : List α} (h : l.mapM f = none) :
    ∃ a ∈ l, f a = none := by
  induction l with
  | nil => cases h
  | cons a l ih =>
    cases ha : f a with
    | none => exact ⟨a, List.mem_cons_self, ha⟩
    | some b =>
      rw [List.mapM_cons, ha] at h
      cases hl : l.mapM f with
      | none =>
        obtain ⟨c, hc, hn⟩ := ih hl
        exact ⟨c, List.mem_cons_of_mem _ hc, hn⟩
      | some bs =>
        rw [hl] at h
        cases h

section Compute

variable {D : Type} [WeakDom D] [LawfulWeakDom D] {tree : RojoTree D} {S s : InstanceSnapshot}
  {patch : PatchSet} {I r x : Ref} {i : Instance} {m : InstanceMetadata}

/-- The instances that the snapshot ids of paired snapshots stand for. -/
def pairMap (tree : RojoTree D) (S : InstanceSnapshot) (I : Ref) : Map Ref Ref :=
  extend ∅ (pairIds (plan tree S I).pairs)

theorem present_of_mem_pairs (hi : getByRef tree.inner I = some i)
    (hs : (s, r) ∈ (plan tree S I).pairs) : (getByRef tree.inner r).isSome :=
  present_of_desc (Option.isSome_of_eq_some hi) (desc_of_mem_pairs s r hs)

variable [FloatCmp]

/-- The patch of a snapshot is its plan, with an update for every pair that needs one. -/
structure Computed (tree : RojoTree D) (S : InstanceSnapshot) (I : Ref) (patch : PatchSet) :
    Prop where
  removed : patch.removedInstances = (plan tree S I).removals
  added : patch.addedInstances =
    (plan tree S I).additions.map (rewriteRefsInAddition (pairMap tree S I))
  returns : ∀ pair ∈ (plan tree S I).pairs, ∃ o, pairUpdate tree pair = some o
  updated : patch.updatedInstances =
    ((plan tree S I).pairs.filterMap fun pair => (pairUpdate tree pair).join).map
      (rewriteRefsInUpdate (pairMap tree S I))

theorem computePatchSet_computed (h : Inv tree) (hi : getByRef tree.inner I = some i)
    (hp : computePatchSet (some S) tree I = some patch) : Computed tree S I patch := by
  unfold computePatchSet at hp
  obtain ⟨⟨context, patchSet⟩, hc, hp⟩ := Option.bind_eq_some_iff.mp hp
  rw [computePatchSetInternal_eq h hi] at hc
  obtain ⟨updates, hu, hc⟩ := Option.bind_eq_some_iff.mp hc
  obtain ⟨rfl, rfl⟩ := Prod.mk.inj (Option.some.inj hc)
  obtain ⟨hreturns, heq⟩ := reduceOption_of_mapM hu
  rw [← Option.some.inj hp]
  exact ⟨rfl, rfl, hreturns, congrArg _ heq⟩

/-- Computing a patch panics only when comparing two properties of a pair does. -/
theorem computePatchSet_eq_none (h : Inv tree) (hi : getByRef tree.inner I = some i)
    (hp : computePatchSet (some S) tree I = none) :
    ∃ s r j k v w, (s, r) ∈ (plan tree S I).pairs ∧ getByRef tree.inner r = some j ∧
      s.properties.lookup k = some v ∧ j.properties.lookup k = some w ∧ variantEq v w = none := by
  have hmap : (plan tree S I).pairs.mapM (pairUpdate tree) = none := by
    unfold computePatchSet at hp
    dsimp only at hp
    rw [computePatchSetInternal_eq h hi] at hp
    unfold afterPlan at hp
    cases hu : (plan tree S I).pairs.mapM (pairUpdate tree) with
    | none => rfl
    | some updates =>
      rw [hu] at hp
      cases hp
  obtain ⟨⟨s, r⟩, hs, hu⟩ := exists_of_mapM_none hmap
  obtain ⟨j, hj⟩ := Option.isSome_iff_exists.mp (present_of_mem_pairs hi hs)
  obtain ⟨m, hexp, -⟩ := expectInstance_eq h hj
  unfold pairUpdate at hu
  rw [hexp] at hu
  obtain ⟨k, v, w, hv, hw, hvw⟩ := computeUpdate_eq_none hu
  exact ⟨s, r, j, k, v, w, hs, hj, hv, hw, hvw⟩

omit [LawfulWeakDom D] in
/-- The update of a pair. -/
theorem pairUpdate_cases (h : Inv tree) (hi : getByRef tree.inner r = some i)
    (hm : tree.metadataMap.lookup r = some m) {o : Option PatchUpdate}
    (hu : pairUpdate tree (s, r) = some o) :
    (o = none ∧ (∀ k, computedChange tree s i k = none) ∧ i.name = s.name ∧
        i.className = s.className ∧ m = s.metadata) ∨
      ∃ u, o = some u ∧ u.id = i.referent ∧
        (∀ k, u.changedProperties.lookup k = computedChange tree s i k) ∧
        u.changedName.getD i.name = s.name ∧ u.changedClassName.getD i.className = s.className ∧
        u.changedMetadata.getD m = s.metadata ∧
        ¬ ((∀ k, computedChange tree s i k = none) ∧ i.name = s.name ∧
          i.className = s.className ∧ m = s.metadata) := by
  obtain ⟨m', hexp, hm'⟩ := expectInstance_eq h hi
  obtain rfl := Option.some.inj (hm.symm.trans hm')
  unfold pairUpdate at hu
  rw [hexp] at hu
  exact computeUpdate_cases hu

omit [LawfulWeakDom D] in
theorem id_of_pairUpdate (h : Inv tree) {u : PatchUpdate}
    (hu : pairUpdate tree (s, r) = some (some u)) [LawfulWeakDom D] : u.id = r := by
  unfold pairUpdate at hu
  obtain ⟨inst, hexp, hu⟩ := Option.bind_eq_some_iff.mp hu
  unfold expectInstance at hexp
  cases hi : getByRef tree.inner r with
  | none =>
    rw [getInstance_none hi] at hexp
    cases hexp
  | some i =>
    obtain ⟨m, hm⟩ := h.metadata_of_present hi
    rw [getInstance_eq hi hm] at hexp
    obtain rfl := Option.some.inj hexp
    rcases computeUpdate_cases hu with ⟨h, -⟩ | ⟨v, hv, hid, -⟩
    · cases h
    · rw [Option.some.inj hv, hid, LawfulWeakDom.referent_eq _ hi]

omit [LawfulWeakDom D] in
/-- Every update of a computed patch is the update of a pair, and the other way round. -/
theorem Computed.mem_updated (hc : Computed tree S I patch) {u' : PatchUpdate} :
    u' ∈ patch.updatedInstances ↔ ∃ s r u, (s, r) ∈ (plan tree S I).pairs ∧
      pairUpdate tree (s, r) = some (some u) ∧ u' = rewriteRefsInUpdate (pairMap tree S I) u := by
  rw [hc.updated, List.mem_map]
  simp only [List.mem_filterMap, Option.join_eq_some_iff]
  constructor
  · rintro ⟨u, ⟨⟨s, r⟩, hs, hu⟩, rfl⟩
    exact ⟨s, r, u, hs, hu, rfl⟩
  · rintro ⟨s, r, u, hs, hu, rfl⟩
    exact ⟨u, ⟨(s, r), hs, hu⟩, rfl⟩

/-- **A computed patch fits the tree it was computed on.** -/
theorem Computed.patchOk (hc : Computed tree S I patch) (h : Inv tree)
    (hi : getByRef tree.inner I = some i) : PatchOk tree patch := by
  have hbelow : ∀ s r, (s, r) ∈ (plan tree S I).pairs → ¬ Below tree patch.removedInstances r := by
    rintro s r hs ⟨x, hx, hd⟩
    exact not_desc_removal (hc.removed ▸ hx) s r hs hd
  refine ⟨⟨fun x hx => ?_, fun x hx => ?_, ?_, fun x hx y hy hd => ?_⟩, fun a ha => ?_,
    fun u' hu => ?_, ?_⟩
  · rw [hc.removed] at hx
    obtain ⟨s, r, -, hun⟩ := mem_removals_iff.mp hx
    obtain ⟨j, hj, -⟩ := LawfulWeakDom.child_present _ (mem_kids_of_unpaired hun)
    exact Option.isSome_of_eq_some hj
  · rw [hc.removed] at hx
    obtain ⟨s, r, hs, hun⟩ := mem_removals_iff.mp hx
    obtain ⟨j, hj, hpar⟩ := LawfulWeakDom.child_present _ (mem_kids_of_unpaired hun)
    obtain ⟨root, hroot, hnull⟩ := LawfulWeakDom.root_spec tree.inner
    rintro rfl
    obtain rfl := Option.some.inj (hj.symm.trans hroot)
    have hr := present_of_mem_pairs hi hs
    rw [← hpar, hnull, LawfulWeakDom.getByRef_null] at hr
    cases hr
  · rw [hc.removed]
    exact nodup_removals
  · rw [hc.removed] at hx hy
    exact removals_incomparable hx hy hd
  · rw [hc.added] at ha
    obtain ⟨b, hb, rfl⟩ := List.mem_map.mp ha
    obtain ⟨s, hs, -⟩ := parent_of_addition b hb
    exact ⟨present_of_mem_pairs hi hs, hbelow _ _ hs⟩
  · obtain ⟨s, r, u, hs, hpair, rfl⟩ := hc.mem_updated.mp hu
    have hid : u.id = r := id_of_pairUpdate h hpair
    change (getByRef tree.inner u.id).isSome ∧ ¬ Below tree patch.removedInstances u.id
    rw [hid]
    exact ⟨present_of_mem_pairs hi hs, hbelow _ _ hs⟩
  · rw [hc.updated, List.map_map, List.Nodup, List.pairwise_map, List.pairwise_filterMap]
    refine (List.pairwise_map.mp ((nodup_pairs : ((plan tree S I).pairs.map Prod.snd).Nodup))).imp ?_
    rintro ⟨s, r⟩ ⟨s', r'⟩ hne u hu v hv heq
    refine hne ?_
    rw [← id_of_pairUpdate h (Option.join_eq_some_iff.mp hu),
      ← id_of_pairUpdate h (Option.join_eq_some_iff.mp hv)]
    exact heq

end Compute

end Roxo
