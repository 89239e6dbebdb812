import Roxo.Plugin.Additions
import Roxo.Plugin.Diffed
import Roxo.Plugin.Removals
import Roxo.Plugin.Values

/-!
# The initial sync

When a session starts the plugin hydrates the instances of the server, diffs them with the DOM and
applies the patch. Where everything can be written the DOM and the map then match the server
(`initialSync`), and another diff finds nothing.
-/

namespace Roxo.Plugin

open AssocMap Forest

variable {V E : Type}

/-- The instances that the server sends: one tree, whose instances know their parents. -/
structure VirtualTree (virtualInstances : Map String (VirtualInstance E)) (rootId : String) :
    Prop where
  nested : Nested virtualInstances
  root : rootId ∈ virtualInstances
  below : ∀ i ∈ virtualInstances, Desc (kids virtualInstances) rootId i
  parent_of_mem : ∀ {p c v}, c ∈ kids virtualInstances p → virtualInstances.lookup c = some v →
    v.parent = some p

theorem VirtualTree.exists_parent {virtualInstances : Map String (VirtualInstance E)}
    {rootId : String} (ht : VirtualTree virtualInstances rootId) {c : String}
    {v : VirtualInstance E} (hv : virtualInstances.lookup c = some v) (hne : c ≠ rootId) :
    ∃ p, c ∈ kids virtualInstances p ∧ v.parent = some p ∧ p ∈ virtualInstances := by
  have hc : c ∈ virtualInstances := AList.lookup_isSome.mp (by rw [hv]; rfl)
  rcases Relation.ReflTransGen.cases_tail (ht.below c hc) with heq | ⟨p, hd, hp⟩
  · exact absurd heq hne
  · exact ⟨p, hp, ht.parent_of_mem hp hv, ht.nested.present_of_desc hd ht.root⟩

/-! ## The added instances -/

section Added

variable {virtualInstances added : Map String (VirtualInstance E)} {rootId : String}
  {root : Handle} {dom : Dom V} {map map₁ : InstanceMap}
  (ht : VirtualTree virtualInstances rootId)
  (ha : Aligned virtualInstances rootId root dom map)
  (hadded : ∀ i, added.lookup i =
    if map.fromIds.lookup i = none then virtualInstances.lookup i else none)

include hadded

theorem kids_added (p : String) : kids added p =
    if map.fromIds.lookup p = none then kids virtualInstances p else [] := by
  unfold kids
  rw [hadded]
  split_ifs <;> rfl

theorem mem_kids_added {p c : String} :
    c ∈ kids added p ↔ c ∈ kids virtualInstances p ∧ map.fromIds.lookup p = none := by
  rw [kids_added hadded]
  split_ifs with h <;> simp [h]

theorem mem_added {i : String} :
    i ∈ added ↔ i ∈ virtualInstances ∧ map.fromIds.lookup i = none := by
  rw [← AList.lookup_isSome, hadded]
  split_ifs with h <;> simp [h, AList.lookup_isSome]

include ht ha

/-- The instances that are not mapped form trees below mapped ones. -/
theorem rooted_added (hsame : ∀ i, map₁.fromIds.lookup i = map.fromIds.lookup i) :
    Rooted added map₁ where
  nested :=
    { forest :=
        { nodup := fun p => by
            rw [kids_added hadded]
            split_ifs
            · exact ht.nested.forest.nodup p
            · exact List.nodup_nil
          unique := fun h h' => ht.nested.forest.unique ((mem_kids_added hadded).mp h).1
            ((mem_kids_added hadded).mp h').1
          acyclic := by
            obtain ⟨depth, hdepth⟩ := ht.nested.forest.acyclic
            exact ⟨depth, fun a b h => hdepth a b ((mem_kids_added hadded).mp h).1⟩ }
      present := by
        intro p c h
        obtain ⟨hkid, hp⟩ := (mem_kids_added hadded).mp h
        have hc := ht.nested.present hkid
        refine (mem_added hadded).mpr ⟨hc, Option.eq_none_iff_forall_ne_some.mpr fun h hm => ?_⟩
        -- a mapped instance has a mapped parent
        have hne : c ≠ rootId := by
          rintro rfl
          obtain ⟨v, hv⟩ := exists_lookup hc
          have hpin : p ∈ virtualInstances := by
            by_contra hnot
            unfold kids at hkid
            rw [AList.lookup_eq_none.mpr hnot] at hkid
            cases hkid
          exact ht.nested.forest.not_desc_of_mem hkid (ht.below p hpin)
        obtain ⟨q, hq, hkid', hmap, -⟩ := ha.parents hm hne
        rw [ht.nested.forest.unique hkid' hkid, hp] at hmap
        cases hmap }
  parent_of_mem := by
    intro p c v h hv
    rw [hadded] at hv
    split_ifs at hv
    exact ht.parent_of_mem ((mem_kids_added hadded).mp h).1 hv
  mem_of_parent := by
    intro p c v hv hp hpa
    rw [hadded] at hv
    split_ifs at hv with hun
    have hne : c ≠ rootId := by
      rintro rfl
      rw [ha.self] at hun
      cases hun
    obtain ⟨q, hkid, hq, -⟩ := ht.exists_parent hv hne
    rw [hp, Option.some.injEq] at hq
    subst hq
    exact (mem_kids_added hadded).mpr ⟨hkid, ((mem_added hadded).mp hpa).2⟩
  mapped := by
    intro c v hv
    rw [hadded] at hv
    split_ifs at hv with hun
    have hne : c ≠ rootId := by
      rintro rfl
      rw [ha.self] at hun
      cases hun
    obtain ⟨q, hkid, hq, hqin⟩ := ht.exists_parent hv hne
    refine ⟨q, hq, fun hnot => ?_⟩
    rw [hsame]
    refine Option.ne_none_iff_exists'.mp fun hnone => hnot ?_
    exact (mem_added hadded).mpr ⟨hqin, hnone⟩

end Added

/-! ## Applying the patch -/

variable [Engine V] [Decoder E V]

/-- What applying the patch of a diff has done: the instances in `removed` are gone, instances have
grown for the ids that were not mapped, and the mapped ones have been updated. -/
structure SyncRun (virtualInstances : Map String (VirtualInstance E)) (rootId : String)
    (dom : Dom V) (map : InstanceMap) (added : Map String (VirtualInstance E))
    (updates : List (Update E)) (removed : List Handle) (w₀ w₁ w : Work V E)
    (roots : List String) (log : List Entry) : Prop where
  mem_removed : ∀ c, c ∈ removed ↔ UnknownBelow virtualInstances dom map rootId c
  pruned : Pruned removed dom w₀.dom
  ready : w₀.Ready
  kept : ∀ i, w₀.map.fromIds.lookup i = map.fromIds.lookup i
  grew : Grew added (topParent added w₀.map) roots [] w₀ w₁ log
  topmost : ∀ i ∈ roots, Topmost added i
  mem_log : ∀ i, i ∈ log.map Entry.id ↔ i ∈ added
  mem_updates : ∀ u, u ∈ updates ↔ ∃ i h v, map.fromIds.lookup i = some h ∧
    virtualInstances.lookup i = some v ∧ diffInstance dom map h i v = some u
  updated : Updated updates w₁ w
  mem_added : ∀ i, added.lookup i =
    if map.fromIds.lookup i = none then virtualInstances.lookup i else none

section Apply

variable {virtualInstances : Map String (VirtualInstance E)} {rootId : String} {root : Handle}
  {dom : Dom V} {map : InstanceMap} {patch : PatchSet E} {updates : List (Update E)}

/-- Where every virtual instance can be created with all its properties nothing is left over. -/
theorem Grew.nothing_left {added : Map String (VirtualInstance E)} {top : String → Option Handle}
    {roots : List String} {w w' : Work V E} {log : List Entry}
    (ho : ∀ {i v}, added.lookup i = some v → Assignable V v.className v.properties.entries)
    (hg : Grew added top roots [] w w' log) :
    w'.deferredRefs = w.deferredRefs ∧ w'.unapplied.updated = w.unapplied.updated := by
  have hrefs : log.flatMap (refsOfEntry added) = [] := by
    refine List.flatMap_eq_nil_iff.mpr fun e _ => ?_
    unfold refsOfEntry
    cases hv : added.lookup e.id with
    | none => rfl
    | some v => exact (ho hv).refsOf_eq _ _
  have hupdates : log.filterMap (updateOfEntry V added) = [] := by
    refine List.filterMap_eq_nil_iff.mpr fun e _ => ?_
    unfold updateOfEntry
    cases hv : added.lookup e.id with
    | none => rfl
    | some v =>
      simp only [(ho hv).unassigned_eq]
      rfl
  rw [hg.deferredRefs, hg.updated, hrefs, hupdates, List.append_nil, List.append_nil]
  exact ⟨rfl, rfl⟩

/-- Additions of instances that can all be created. -/
theorem exists_additions {added : Map String (VirtualInstance E)} {dom₀ : Dom V}
    {map₀ : InstanceMap} (hw : WellMapped dom₀ map₀) (hr : Rooted added map₀)
    (ho : ∀ {i v}, added.lookup i = some v → Obliging V v)
    (hun : ∀ i ∈ added, map₀.fromIds.lookup i = none) {order : List String}
    (horder : order.Perm added.keys) :
    ∃ w roots log, order.foldlM (applyAdded added) (.start dom₀ map₀ : Work V E) = some w ∧
      Grew added (topParent added map₀) roots [] (.start dom₀ map₀) w log ∧
      (∀ i ∈ roots, Topmost added i) ∧ ∀ i, i ∈ log.map Entry.id ↔ i ∈ added := by
  have hcreatable : ∀ {i}, i ∈ added → Creatable V added i := by
    intro i hi
    obtain ⟨v, hv⟩ := exists_lookup hi
    exact ⟨v, hv, (ho hv).creatable⟩
  have hgrows : ∀ {top i}, top ∈ added → Desc (kids added) top i → Grows V added top i :=
    fun htop hd => ⟨hd, fun x hx _ => hcreatable (hr.nested.present_of_desc hx htop)⟩
  have hcond : NoSecondVisit V map₀ added := fun top htop _ u v hu _ _ _ _ => hgrows htop.1 hu
  obtain ⟨w, visited, roots, log, hrun, hv, hmem⟩ := (Visited.start hw hr).run hcond order
    (fun i hi => AList.mem_keys.mpr (horder.mem_iff.mp hi))
    (horder.nodup_iff.mpr added.nodupKeys) (fun _ _ => List.not_mem_nil)
  refine ⟨w, roots, log, hrun, hv.settled.grew.congr_sets (fun _ => Iff.rfl) fun i => ?_,
    hv.settled.topmost, fun i => ?_⟩
  · simp only [List.not_mem_nil, List.mem_flatMap, false_iff, not_exists, not_and]
    intro top htop hfailed
    have htop' := (hv.settled.topmost top htop).1
    have h := (mem_failed hr.nested htop' (weight_le added top)).mp hfailed
    exact h.2 (hgrows htop' h.1)
  · rw [hv.mem_ids]
    constructor
    · rintro ⟨top, htop, hg⟩
      exact hr.nested.present_of_desc hg.1 (hv.settled.topmost top htop).1
    · intro hi
      have hvisited : i ∈ visited :=
        (hmem i).mpr (.inr (horder.mem_iff.mpr (AList.mem_keys.mp hi)))
      obtain ⟨top, htop, hd⟩ := hv.covered i hvisited (hun i hi)
      exact ⟨top, htop, hgrows (hv.settled.topmost top htop).1 hd⟩

/-- The instances of the map are instances of the classes of their ids, and can be renamed. -/
def Matching (virtualInstances : Map String (VirtualInstance E)) (dom : Dom V)
    (map : InstanceMap) : Prop :=
  ∀ i h v, map.fromIds.lookup i = some h → virtualInstances.lookup i = some v →
    (dom.instances h).className = v.className ∧ (dom.instances h).accessible = true

/-- Nothing but the children and the parent of an old instance has changed. -/
theorem old_instance {added : Map String (VirtualInstance E)} {top : String → Option Handle}
    {roots missed : List String} {removed : List Handle} {w₀ w₁ : Work V E} {log : List Entry}
    (hp : Pruned removed dom w₀.dom)
    (hg : Grew added top roots missed w₀ w₁ log) {h : Handle} (hh : h < dom.next) :
    w₁.dom.instances h = { dom.instances h with
      parent := if h ∈ removed then none else dom.parent h
      children := (dom.getChildren h).filter (· ∉ removed) ++ attached log h } := by
  rw [hg.old h (hp.next ▸ hh), hp.instances, hp.getChildren]

/-- An update that the diff has found can be applied as a whole after the additions. -/
theorem applicable_update (hmatch : Matching virtualInstances dom map) {u : Update E} {i : String}
    {h : Handle} {v : VirtualInstance E} (ho : Obliging V v)
    (hmap : map.fromIds.lookup i = some h) (hv : virtualInstances.lookup i = some v)
    (hu : diffInstance dom map h i v = some u) {w₁ : Work V E}
    (hmap₁ : w₁.map.fromIds.lookup i = some h)
    (hclass : (w₁.dom.instances h).className = (dom.instances h).className)
    (haccess : (w₁.dom.instances h).accessible = (dom.instances h).accessible) :
    Applicable w₁ u h := by
  obtain ⟨hc, hacc⟩ := hmatch i h v hmap hv
  rw [diffInstance_eq hu]
  exact
    { mapped := hmap₁
      sameClass := if_neg (not_not.mpr hc.symm)
      sameMetadata := rfl
      named := .inr (haccess.trans hacc)
      assignable := by
        have hsub : ∀ e ∈ (changedProperties dom map h v).entries, e ∈ v.properties.entries :=
          fun e he => List.mem_of_mem_filter he
        rw [hclass, hc]
        exact
          { other := fun e he => ho.assignable.other e (hsub e he)
            assigned := fun e he => ho.assignable.assigned e (hsub e he) } }

/-- The diff of the whole tree adds exactly the instances that are not mapped. -/
theorem lookup_added (ht : VirtualTree virtualInstances rootId) {removes : Handle → Prop}
    (hd : Diffed virtualInstances dom map (Desc (kids virtualInstances) rootId)
      (fun i => Desc (kids virtualInstances) rootId i ∧ map.fromIds.lookup i = none)
      removes .newEmpty patch updates) (i : String) :
    patch.added.lookup i =
      if map.fromIds.lookup i = none then virtualInstances.lookup i else none := by
  by_cases hi : Desc (kids virtualInstances) rootId i ∧ map.fromIds.lookup i = none
  · rw [hd.adds i hi, if_pos hi.2]
  · rw [hd.others i hi]
    split_ifs with hun
    · have hnot : i ∉ virtualInstances := fun hin => hi ⟨ht.below i hin, hun⟩
      rw [AList.lookup_eq_none.mpr hnot]
      rfl
    · rfl

/-- Applying the patch of a diff, in any order. -/
theorem exists_syncRun (ht : VirtualTree virtualInstances rootId)
    (ho : ∀ {i v}, virtualInstances.lookup i = some v → Obliging V v)
    (ha : Aligned virtualInstances rootId root dom map) (hwf : dom.WellFormed)
    (hroot : root < dom.next) (hmatch : Matching virtualInstances dom map)
    (hunlocked : ∀ c, UnknownBelow virtualInstances dom map rootId c →
      (dom.instances c).locked = false)
    (hd : Diffed virtualInstances dom map (Desc (kids virtualInstances) rootId)
      (fun i => Desc (kids virtualInstances) rootId i ∧ map.fromIds.lookup i = none)
      (UnknownBelow virtualInstances dom map rootId) .newEmpty patch updates)
    {order : List String} (horder : order.Perm patch.added.keys) :
    ∃ removed w₀ w₁ w roots log, applyPatch dom map patch order = some w ∧
      SyncRun virtualInstances rootId dom map patch.added updates removed w₀ w₁ w roots log ∧
      w.unapplied.isEmpty = true := by
  obtain ⟨removed, hremoved, hmem⟩ := hd.removes
  have hadded := lookup_added ht hd
  have hmapped : ∀ {i h}, map.fromIds.lookup i = some h → i ∉ patch.added := by
    intro i h hm hin
    have hun := ((mem_added hadded).mp hin).2
    rw [hm] at hun
    cases hun
  -- the removals
  have hfree : ∀ c ∈ removed, (dom.instances c).locked = false :=
    fun c hc => hunlocked c ((hmem c).mp hc)
  have hbelow : ∀ c ∈ removed, ∀ x, Desc dom.getChildren c x →
      map.fromInstances.lookup x = none := by
    intro c hc x hx
    obtain ⟨i, h, v, -, hmap, -, hchild, hun, -⟩ := (hmem c).mp hc
    exact ha.unmapped_below ht.nested hwf hmap hchild hun hx
  obtain ⟨dom₀, map₀, hrun₀, hp, hinv₀, hsame⟩ :
      ∃ dom₀ map₀, patch.removed.foldl applyRemoved (.start dom map : Work V E) =
        .start dom₀ map₀ ∧ Pruned removed dom dom₀ ∧ map₀.Inverse ∧
        ∀ i, map₀.fromIds.lookup i = map.fromIds.lookup i := by
    rw [hremoved]
    exact foldl_applyRemoved hwf ha.inverse hfree hbelow
  -- the additions
  have hw₀ : WellMapped dom₀ map₀ :=
    { wellFormed := hp.wellFormed hwf
      inverse := hinv₀
      exists' := fun hm => hp.next ▸ ha.mapped_lt ht.nested hwf hroot ((hsame _).symm.trans hm) }
  have hobliging : ∀ {i v}, patch.added.lookup i = some v → Obliging V v := by
    intro i v hv
    rw [hadded] at hv
    split_ifs at hv
    exact ho hv
  obtain ⟨w₁, roots, log, hrun₁, hg, htopmost, hlog⟩ := exists_additions hw₀
    (rooted_added ht ha hadded hsame) hobliging
    (fun i hi => (hsame i).trans ((mem_added hadded).mp hi).2) horder
  obtain ⟨hrefs, hupdated⟩ := hg.nothing_left fun hv => (hobliging hv).assignable
  -- the updates
  have hkept : ∀ {i h}, map.fromIds.lookup i = some h → w₁.map.fromIds.lookup i = some h := by
    intro i h hm
    rw [hg.others i]
    · exact (hsame i).trans hm
    · rintro e he rfl
      exact hmapped hm ((hlog _).mp (List.mem_map_of_mem he))
  obtain ⟨w, hrun₂, hu⟩ := exists_foldlM_applyUpdated hg.inverse hd.nodup fun u hu => by
    obtain ⟨i, h, v, -, hmap, hv, heq⟩ := (hd.mem_updates u).mp hu
    have hinst := old_instance hp hg (ha.mapped_lt ht.nested hwf hroot hmap)
    exact ⟨h, applicable_update hmatch (ho hv) hmap hv heq (hkept hmap) (by rw [hinst])
      (by rw [hinst])⟩
  have hdeferred : w.deferredRefs = [] := hu.deferredRefs.trans hrefs
  refine ⟨removed, .start dom₀ map₀, w₁, w, roots, log, ?_,
    { mem_removed := hmem, pruned := hp, ready := hw₀.ready, kept := hsame, grew := hg
      topmost := htopmost, mem_log := hlog, updated := hu, mem_added := hadded
      mem_updates := fun u => by
        rw [hd.mem_updates]
        constructor
        · exact fun ⟨i, h, v, _, hrest⟩ => ⟨i, h, v, hrest⟩
        · exact fun ⟨i, h, v, hmap, hrest⟩ =>
            ⟨i, h, v, (ha.desc_root ht.nested hwf hmap).1, hmap, hrest⟩ }, ?_⟩
  · have hpatch : patch.updated = updates := hd.updated
    unfold applyPatch
    rw [hrun₀, hpatch]
    simp only [Option.bind_eq_bind, hrun₁, Option.bind_some, hrun₂]
    unfold applyDeferredRefs
    rw [hdeferred]
    rfl
  · have hnone : w₁.unapplied.added.entries = [] := by
      refine List.eq_nil_iff_forall_not_mem.mpr fun e he => ?_
      have h := AList.mem_lookup_iff.mpr he
      rw [hg.unadded] at h
      simp [Work.start, PatchSet.newEmpty] at h
    rw [hu.unapplied]
    unfold PatchSet.isEmpty
    rw [hg.removed, hupdated, hnone]
    rfl

end Apply

/-! ## What the DOM and the map are then -/

/-- The DOM and the map match the server. -/
structure Synced (virtualInstances : Map String (VirtualInstance E)) (rootId : String)
    (root : Handle) (w : Work V E) : Prop where
  unapplied : w.unapplied.isEmpty = true
  inverse : w.map.Inverse
  root : w.map.fromIds.lookup rootId = some root
  mapped : ∀ id, (w.map.fromIds.lookup id).isSome ↔ id ∈ virtualInstances
  parent : ∀ id v inst, virtualInstances.lookup id = some v →
    w.map.fromIds.lookup id = some inst → id ≠ rootId →
    ∃ p hp, v.parent = some p ∧ w.map.fromIds.lookup p = some hp ∧ w.dom.parent inst = some hp
  name : ∀ id v inst, virtualInstances.lookup id = some v →
    w.map.fromIds.lookup id = some inst → (w.dom.instances inst).name = v.name
  className : ∀ id v inst, virtualInstances.lookup id = some v →
    w.map.fromIds.lookup id = some inst → (w.dom.instances inst).className = v.className
  values : ∀ id v inst, virtualInstances.lookup id = some v →
    w.map.fromIds.lookup id = some inst → ∀ e ∈ v.properties.entries,
    HasValue w.dom w.map inst e.1 e.2
  unknown : ∀ id v inst child, virtualInstances.lookup id = some v →
    w.map.fromIds.lookup id = some inst → child ∈ w.dom.getChildren inst →
    w.map.fromInstances.lookup child = none →
    (w.dom.instances child).archivable = false ∨
      ∃ metadata, v.metadata = some metadata ∧ metadata.ignoreUnknownInstances = some true
  settled : ∃ patch, diff w.dom w.map virtualInstances rootId = some patch ∧
    patch.isEmpty = true

namespace SyncRun

variable {virtualInstances added : Map String (VirtualInstance E)} {rootId : String}
  {root : Handle} {dom : Dom V} {map : InstanceMap} {updates : List (Update E)}
  {removed : List Handle} {w₀ w₁ w : Work V E} {roots : List String} {log : List Entry}
  (hs : SyncRun virtualInstances rootId dom map added updates removed w₀ w₁ w roots log)

include hs

theorem wellFormed (hwf : dom.WellFormed) : w.dom.WellFormed :=
  hs.updated.wellFormed (hs.grew.wellFormed (hs.pruned.wellFormed hwf))

/-- An id was mapped before, or an instance has been created for it. -/
theorem fromIds_cases {i : String} {h : Handle} : w.map.fromIds.lookup i = some h ↔
      map.fromIds.lookup i = some h ∨ ∃ e ∈ log, e.id = i ∧ e.inst = h := by
  rw [hs.updated.fromIds]
  by_cases hlog : ∃ e ∈ log, e.id = i
  · obtain ⟨e, he, rfl⟩ := hlog
    have hin := (hs.mem_log e.id).mp (List.mem_map_of_mem he)
    have hun := ((Plugin.mem_added hs.mem_added).mp hin).2
    rw [hs.grew.fromIds e he, hun]
    constructor
    · exact fun h => .inr ⟨e, he, rfl, Option.some.inj h⟩
    · rintro (h | ⟨e', he', hid, rfl⟩)
      · cases h
      · have h₁ := hs.grew.fromIds e he
        rw [← hid, hs.grew.fromIds e' he'] at h₁
        rw [h₁]
  · rw [hs.grew.others i fun e he hid => hlog ⟨e, he, hid⟩, hs.kept]
    refine ⟨.inl, fun h => h.elim (fun h => h) ?_⟩
    rintro ⟨e, he, hid, -⟩
    exact absurd ⟨e, he, hid⟩ hlog

/-- Mapped instances are not removed. -/
theorem not_mem_removed (ha : Aligned virtualInstances rootId root dom map) {i : String}
    {h : Handle} (hm : map.fromIds.lookup i = some h) : h ∉ removed := by
  intro hmem
  obtain ⟨-, -, -, -, -, -, -, hun, -⟩ := (hs.mem_removed h).mp hmem
  rw [(ha.inverse i h).mp hm] at hun
  cases hun

/-- A mapped instance keeps its parent. -/
theorem parent_old (ha : Aligned virtualInstances rootId root dom map)
    (hn : Nested virtualInstances) (hwf : dom.WellFormed) (hroot : root < dom.next) {i : String}
    {h : Handle} (hm : map.fromIds.lookup i = some h) : w.dom.parent h = dom.parent h := by
  rw [hs.updated.parent, hs.grew.parent_old (hs.pruned.next ▸ ha.mapped_lt hn hwf hroot hm),
    hs.pruned.parent, if_neg (hs.not_mem_removed ha hm)]

/-- The instance of an id that was mapped has the name of its virtual instance, and the properties
that differed have been assigned. -/
theorem instance_old (ha : Aligned virtualInstances rootId root dom map)
    (hn : Nested virtualInstances) (hwf : dom.WellFormed) (hroot : root < dom.next) {i : String}
    {h : Handle} {v : VirtualInstance E} (hm : map.fromIds.lookup i = some h)
    (hv : virtualInstances.lookup i = some v) :
    (w.dom.instances h).name = v.name ∧
      (w.dom.instances h).className = (dom.instances h).className ∧
      (w.dom.instances h).properties = heldAfter (dom.instances h).className
        (dom.instances h).properties (changedProperties dom map h v).entries := by
  have hold := old_instance hs.pruned hs.grew (ha.mapped_lt hn hwf hroot hm)
  have hin : i ∉ added := by
    intro hin
    have hun := ((Plugin.mem_added hs.mem_added).mp hin).2
    rw [hm] at hun
    cases hun
  have hm₁ : w₁.map.fromIds.lookup i = some h := by
    rw [hs.grew.others i, hs.kept, hm]
    rintro e he rfl
    exact hin ((hs.mem_log _).mp (List.mem_map_of_mem he))
  cases hdiff : diffInstance dom map h i v with
  | some u =>
    have hmem := (hs.mem_updates u).mpr ⟨i, h, v, hm, hv, hdiff⟩
    rw [hs.updated.updated u hmem h (by rw [diffInstance_id hdiff, hm₁]), hold,
      diffInstance_eq hdiff]
    refine ⟨?_, rfl, rfl⟩
    simp only [Instance.update]
    split_ifs with hname
    · rfl
    · exact (not_not.mp hname).symm
  | none =>
    have hsame : w.dom.instances h = w₁.dom.instances h := by
      refine hs.updated.others h fun u hu hmap => ?_
      obtain ⟨i', h', v', hm', hv', hdiff'⟩ := (hs.mem_updates u).mp hu
      have hid : i' = i :=
        (diffInstance_id hdiff').symm.trans (hs.grew.inverse.eq_of_fromIds hmap hm₁)
      subst hid
      rw [hm, Option.some.injEq] at hm'
      rw [hv, Option.some.injEq] at hv'
      rw [← hm', ← hv', hdiff] at hdiff'
      cases hdiff'
    obtain ⟨hname, -, hchanged⟩ := diffInstance_eq_none.mp hdiff
    rw [hsame, hold, hchanged]
    exact ⟨hname.symm, rfl, rfl⟩

/-- An instance that has been created is what its virtual instance says. -/
theorem instance_new (ha : Aligned virtualInstances rootId root dom map)
    (hn : Nested virtualInstances) (hwf : dom.WellFormed) (hroot : root < dom.next) {e : Entry}
    (he : e ∈ log) : map.fromIds.lookup e.id = none ∧
      ∃ v, virtualInstances.lookup e.id = some v ∧ w.dom.instances e.inst =
        { reified v with parent := e.parent, children := attached log e.inst } := by
  obtain ⟨v, hv, hinst⟩ := hs.grew.new e he
  have hin := (hs.mem_log _).mp (List.mem_map_of_mem he)
  have hun := ((Plugin.mem_added hs.mem_added).mp hin).2
  rw [hs.mem_added, if_pos hun] at hv
  refine ⟨hun, v, hv, ?_⟩
  rw [hs.updated.others e.inst fun u hu hmap => ?_]
  · exact hinst
  · -- an update is of an instance that existed before
    obtain ⟨i, h, v', hm, hv', hdiff⟩ := (hs.mem_updates u).mp hu
    have hid := diffInstance_id hdiff
    have hlt := ha.mapped_lt hn hwf hroot hm
    have hge := (hs.grew.inst_mem he).1
    rw [hid, hs.grew.others i, hs.kept, hm, Option.some.injEq] at hmap
    · rw [← hmap, hs.pruned.next] at hge
      lia
    · rintro e' he' rfl
      have hin' := (hs.mem_log _).mp (List.mem_map_of_mem he')
      rw [((Plugin.mem_added hs.mem_added).mp hin').2] at hm
      cases hm

/-- The map follows both trees afterwards. -/
theorem aligned (ht : VirtualTree virtualInstances rootId)
    (ha : Aligned virtualInstances rootId root dom map) (hwf : dom.WellFormed)
    (hroot : root < dom.next) : Aligned virtualInstances rootId root w.dom w.map where
  inverse := hs.updated.inverse
  self := hs.fromIds_cases.mpr (.inl ha.self)
  present := by
    intro i h hm
    rcases hs.fromIds_cases.mp hm with hm | ⟨e, he, rfl, -⟩
    · exact ha.present hm
    · exact ((Plugin.mem_added hs.mem_added).mp
        ((hs.mem_log _).mp (List.mem_map_of_mem he))).1
  parents := by
    intro i h hm hne
    rcases hs.fromIds_cases.mp hm with hm | ⟨e, he, rfl, rfl⟩
    · obtain ⟨p, hp, hkid, hmp, hparent⟩ := ha.parents hm hne
      exact ⟨p, hp, hkid, hs.fromIds_cases.mpr (.inl hmp),
        (hs.parent_old ha ht.nested hwf hroot hm).trans hparent⟩
    · obtain ⟨hun, v, hv, hinst⟩ := hs.instance_new ha ht.nested hwf hroot he
      obtain ⟨p, hkid, hvp, hp⟩ := ht.exists_parent hv hne
      have hparent : w.dom.parent e.inst = e.parent := by
        unfold Dom.parent
        rw [hinst]
      rcases hs.grew.parents e he with ⟨hr, htop⟩ | ⟨e', he', hkid', hp'⟩
      · have hnot : map.fromIds.lookup p ≠ none := fun hnone =>
          (hs.topmost _ hr).2 p ((mem_kids_added hs.mem_added).mpr ⟨hkid, hnone⟩)
        obtain ⟨hp', hmp⟩ := Option.ne_none_iff_exists'.mp hnot
        refine ⟨p, hp', hkid, hs.fromIds_cases.mpr (.inl hmp), ?_⟩
        rw [hparent, htop, topParent, hs.mem_added, if_pos hun, hv, Option.bind_some, hvp,
          Option.bind_some, hs.kept, hmp]
      · have hsame := ht.nested.forest.unique hkid ((mem_kids_added hs.mem_added).mp hkid').1
        refine ⟨p, e'.inst, hkid, hs.fromIds_cases.mpr (.inr ⟨e', he', hsame.symm, rfl⟩), ?_⟩
        rw [hparent, hp']

/-- Every property has its value. -/
theorem hasValue (ha : Aligned virtualInstances rootId root dom map)
    (hn : Nested virtualInstances) (hwf : dom.WellFormed) (hroot : root < dom.next)
    (hmatch : Matching virtualInstances dom map) {i : String} {h : Handle}
    {v : VirtualInstance E} (ho : Obliging V v) (hm : w.map.fromIds.lookup i = some h)
    (hv : virtualInstances.lookup i = some v) {e : Σ _ : String, EncodedValue E}
    (he : e ∈ v.properties.entries) : HasValue w.dom w.map h e.1 e.2 := by
  rcases hs.fromIds_cases.mp hm with hm | ⟨x, hx, rfl, rfl⟩
  · obtain ⟨-, hclass, hheld⟩ := hs.instance_old ha hn hwf hroot hm hv
    have hc := (hmatch i h v hm hv).1
    rw [hc] at hclass hheld
    have hsub : ∀ e ∈ (changedProperties dom map h v).entries, e ∈ v.properties.entries :=
      fun e he => List.mem_of_mem_filter he
    refine hasValue_of_assigned ho hclass hsub hheld he ?_
    by_cases hchanged : propertyChanged dom map h e.1 e.2 = true
    · exact .inl (List.mem_filter.mpr ⟨he, hchanged⟩)
    · refine .inr ⟨dom, map, hc, rfl, ?_⟩
      obtain ⟨value, hval⟩ := ho.assignable.other e he
      rw [hval] at hchanged ⊢
      exact propertyChanged_eq_false.mp (Bool.eq_false_iff.mpr hchanged)
  · obtain ⟨-, v', hv', hinst⟩ := hs.instance_new ha hn hwf hroot hx
    rw [hv, Option.some.injEq] at hv'
    subst hv'
    exact hasValue_of_assigned ho (by rw [hinst]; rfl) (fun _ he => he) (by rw [hinst]; rfl) he
      (.inl he)

/-- The children that are not mapped were not to be removed. -/
theorem unknown (ha : Aligned virtualInstances rootId root dom map)
    (hn : Nested virtualInstances) (hwf : dom.WellFormed) {i : String} {h child : Handle}
    {v : VirtualInstance E} (hv : virtualInstances.lookup i = some v)
    (hm : w.map.fromIds.lookup i = some h) (hchild : child ∈ w.dom.getChildren h)
    (hun : w.map.fromInstances.lookup child = none) :
    ((w.dom.instances child).accessible && !(w.dom.instances child).archivable) = true ∨
      shouldDeleteUnknownInstances v = false := by
  have hnew : ∀ p, child ∉ attached log p := by
    intro p hmem
    obtain ⟨e, he, -, rfl⟩ := mem_attached.mp hmem
    have hme := hs.fromIds_cases.mpr (.inr ⟨e, he, rfl, rfl⟩)
    rw [(hs.updated.inverse _ _).mp hme] at hun
    cases hun
  have hgrown := hs.grew.getChildren_eq (hs.pruned.wellFormed hwf) h
  rw [hs.updated.getChildren, hgrown, List.mem_append, or_iff_left (hnew h),
    hs.pruned.mem_getChildren] at hchild
  have hlt := (hwf.below (hwf.parent_iff.mp hchild.1)).2
  have hsame : (w.dom.instances child).accessible = (dom.instances child).accessible ∧
      (w.dom.instances child).archivable = (dom.instances child).archivable := by
    have hold := old_instance hs.pruned hs.grew hlt
    rcases hs.updated.instance_cases child with heq | ⟨u, -, -, heq⟩ <;> rw [heq, hold] <;>
      exact ⟨rfl, rfl⟩
  have hunmapped : map.fromInstances.lookup child = none := by
    cases hl : map.fromInstances.lookup child with
    | none => rfl
    | some j =>
      have hj := hs.fromIds_cases.mpr (.inl ((ha.inverse j child).mpr hl))
      rw [(hs.updated.inverse _ _).mp hj] at hun
      cases hun
  rcases hs.fromIds_cases.mp hm with hm | ⟨e, he, rfl, rfl⟩
  · have hnot := fun hrm => hchild.2 ((hs.mem_removed child).mpr
      ⟨i, h, v, (ha.desc_root hn hwf hm).1, hm, hv, hchild.1, hunmapped, hrm⟩)
    unfold ToRemove at hnot
    rw [hsame.1, hsame.2]
    by_cases hskip : ((dom.instances child).accessible && !(dom.instances child).archivable) = true
    · exact .inl hskip
    · exact .inr (Bool.eq_false_iff.mpr fun hdel => hnot ⟨Bool.eq_false_iff.mpr hskip, hdel⟩)
  · -- a new instance has new children only
    have hge := (hs.grew.inst_mem he).1
    have := (hwf.below (hwf.parent_iff.mp hchild.1)).1
    rw [hs.pruned.next] at hge
    lia

/-- Everything matches afterwards. -/
theorem synced (ht : VirtualTree virtualInstances rootId)
    (ho : ∀ {i v}, virtualInstances.lookup i = some v → Obliging V v)
    (ha : Aligned virtualInstances rootId root dom map) (hwf : dom.WellFormed)
    (hroot : root < dom.next) (hmatch : Matching virtualInstances dom map)
    (hunapplied : w.unapplied.isEmpty = true) : Synced virtualInstances rootId root w := by
  have ha' := hs.aligned ht ha hwf hroot
  have hn := ht.nested
  have hwf' := hs.wellFormed hwf
  have hnames : ∀ id v inst, virtualInstances.lookup id = some v →
      w.map.fromIds.lookup id = some inst → (w.dom.instances inst).name = v.name ∧
        (w.dom.instances inst).className = v.className := by
    intro id v inst hv hm
    rcases hs.fromIds_cases.mp hm with hm | ⟨e, he, rfl, rfl⟩
    · obtain ⟨hname, hclass, -⟩ := hs.instance_old ha hn hwf hroot hm hv
      exact ⟨hname, hclass.trans (hmatch id inst v hm hv).1⟩
    · obtain ⟨-, v', hv', hinst⟩ := hs.instance_new ha hn hwf hroot he
      rw [hv, Option.some.injEq] at hv'
      rw [hinst, hv']
      exact ⟨rfl, rfl⟩
  refine
    { unapplied := hunapplied, inverse := ha'.inverse, root := ha'.self, mapped := fun id => ?_
      parent := fun id v inst hv hm hne => ?_
      name := fun id v inst hv hm => (hnames id v inst hv hm).1
      className := fun id v inst hv hm => (hnames id v inst hv hm).2
      values := fun id v inst hv hm e he =>
        hs.hasValue ha hn hwf hroot hmatch (ho hv) hm hv he
      unknown := fun id v inst child hv hm hchild hun => ?_, settled := ?_ }
  · rw [Option.isSome_iff_exists]
    constructor
    · exact fun ⟨h, hm⟩ => ha'.present hm
    · intro hid
      cases hm : map.fromIds.lookup id with
      | some h => exact ⟨h, hs.fromIds_cases.mpr (.inl hm)⟩
      | none =>
        have hin := (Plugin.mem_added hs.mem_added).mpr ⟨hid, hm⟩
        obtain ⟨e, he, heq⟩ := List.mem_map.mp ((hs.mem_log id).mpr hin)
        exact ⟨e.inst, hs.fromIds_cases.mpr (.inr ⟨e, he, heq, rfl⟩)⟩
  · obtain ⟨p, hp, hkid, hmp, hparent⟩ := ha'.parents hm hne
    exact ⟨p, hp, ht.parent_of_mem hkid hv, hmp, hparent⟩
  · rcases hs.unknown ha hn hwf hv hm hchild hun with hskip | hkeep
    · left
      simpa using (Bool.and_eq_true_iff.mp hskip).2
    · right
      unfold shouldDeleteUnknownInstances at hkeep
      cases hmeta : v.metadata with
      | none => simp [hmeta] at hkeep
      | some metadata =>
        refine ⟨metadata, rfl, ?_⟩
        simp only [hmeta, Bool.not_eq_false'] at hkeep
        cases hig : metadata.ignoreUnknownInstances with
        | none => simp [hig] at hkeep
        | some b => simpa [hig] using hkeep
  · obtain ⟨patch, updates', hrun, hd⟩ := exists_diffInternal hn ha' hwf' ha'.self
      (weight_le virtualInstances rootId) (.newEmpty : PatchSet E)
    refine ⟨patch, hrun, ?_⟩
    obtain ⟨removals, hremoved, hmem⟩ := hd.removes
    have hremovals : removals = [] := by
      refine List.eq_nil_iff_forall_not_mem.mpr fun c hc => ?_
      obtain ⟨i, h, v, -, hm, hv, hchild, hun, hskip, hdelete⟩ := (hmem c).mp hc
      rcases hs.unknown ha hn hwf hv hm hchild hun with h' | h'
      · rw [hskip] at h'
        cases h'
      · rw [hdelete] at h'
        cases h'
    have hupdates : updates' = [] := by
      refine List.eq_nil_iff_forall_not_mem.mpr fun u hu => ?_
      obtain ⟨i, h, v, -, hm, hv, hdiff⟩ := (hd.mem_updates u).mp hu
      have hnone : diffInstance w.dom w.map h i v = none := by
        obtain ⟨hname, hclass⟩ := hnames i v h hv hm
        refine diffInstance_eq_none.mpr ⟨hname.symm, hclass.symm, ?_⟩
        refine List.filter_eq_nil_iff.mpr fun e he => ?_
        have hvalue := hs.hasValue ha hn hwf hroot hmatch (ho hv) hm hv he
        obtain ⟨value, hval⟩ := (ho hv).assignable.other e he
        rw [hval] at hvalue ⊢
        rw [propertyChanged_eq_false.mpr hvalue]
        exact Bool.false_ne_true
      rw [hnone] at hdiff
      cases hdiff
    have hadded' : patch.added.entries = [] := by
      refine List.eq_nil_iff_forall_not_mem.mpr fun e he => ?_
      have h := AList.mem_lookup_iff.mpr he
      rw [hd.others] at h
      · simp [PatchSet.newEmpty] at h
      · rintro ⟨hdesc, hun⟩
        have hid := hn.present_of_desc hdesc ht.root
        obtain ⟨h', hm⟩ : ∃ h, w.map.fromIds.lookup e.1 = some h := by
          cases hm : map.fromIds.lookup e.1 with
          | some h => exact ⟨h, hs.fromIds_cases.mpr (.inl hm)⟩
          | none =>
            have hin := (Plugin.mem_added hs.mem_added).mpr ⟨hid, hm⟩
            obtain ⟨e', he', heq⟩ := List.mem_map.mp ((hs.mem_log e.1).mpr hin)
            exact ⟨e'.inst, hs.fromIds_cases.mpr (.inr ⟨e', he', heq, rfl⟩)⟩
        rw [hun] at hm
        cases hm
    unfold PatchSet.isEmpty
    rw [hremoved, hd.updated, hremovals, hupdates, hadded']
    rfl

end SyncRun

/-! ## The whole sync -/

section Sync

variable {virtualInstances : Map String (VirtualInstance E)} {rootId : String} {root : Handle}
  {dom : Dom V}

/-- Hydration of the whole tree, from an empty map. -/
theorem exists_hydrate (ht : VirtualTree virtualInstances rootId) (hwf : dom.WellFormed) :
    ∃ map, hydrate dom .new virtualInstances rootId root = some map ∧
      HydrateRun virtualInstances dom rootId root .new map :=
  exists_hydrateInner ht.nested hwf ht.root (weight_le virtualInstances rootId)
    InstanceMap.new_inverse (fun i _ => by simp [InstanceMap.new])
    (fun h _ => by simp [InstanceMap.new])

/-- After hydrate, diff and applyPatch, in every order of the added instances, the DOM and the map
match the server, and a second diff is empty, if what the patch removes can be destroyed. -/
theorem initialSync (ht : VirtualTree virtualInstances rootId)
    (ho : ∀ {id v}, virtualInstances.lookup id = some v → Obliging V v) (hwf : dom.WellFormed)
    (hroot : root < dom.next) (haccess : (dom.instances root).accessible = true)
    (hclass : ∀ v, virtualInstances.lookup rootId = some v →
      v.className = (dom.instances root).className)
    (hunlocked : ∀ map patch, hydrate dom .new virtualInstances rootId root = some map →
      diff dom map virtualInstances rootId = some patch →
      ∀ inst, .inst inst ∈ patch.removed → (dom.instances inst).locked = false) :
    ∃ map patch, hydrate dom .new virtualInstances rootId root = some map ∧
      diff dom map virtualInstances rootId = some patch ∧
      ∀ order, order.Perm patch.added.keys → ∃ w, applyPatch dom map patch order = some w ∧
        Synced virtualInstances rootId root w := by
  obtain ⟨map, hhydrate, hr⟩ : ∃ map, hydrate dom .new virtualInstances rootId root = some map ∧
      HydrateRun virtualInstances dom rootId root .new map := exists_hydrate ht hwf
  have ha := hr.aligned hwf ht.root
  have hmatch : Matching virtualInstances dom map := by
    intro i h v hm hv
    rcases hr.new i h hm with hold | ⟨-, -, rfl | ⟨p, hp, v', -, -, -, hv', hfits⟩⟩
    · simp [InstanceMap.new] at hold
    · rw [hr.self, Option.some.injEq] at hm
      subst hm
      exact ⟨(hclass v hv).symm, haccess⟩
    · rw [hv, Option.some.injEq] at hv'
      exact hv' ▸ hfits.2
  obtain ⟨patch, updates, hdiff, hd⟩ := exists_diffInternal ht.nested ha hwf ha.self
    (weight_le virtualInstances rootId) (.newEmpty : PatchSet E)
  refine ⟨map, patch, hhydrate, hdiff, fun order horder => ?_⟩
  have hfree : ∀ c, UnknownBelow virtualInstances dom map rootId c →
      (dom.instances c).locked = false := by
    intro c hc
    obtain ⟨removals, hremoved, hmem⟩ := hd.removes
    refine hunlocked map patch hhydrate hdiff c ?_
    rw [hremoved]
    exact List.mem_append_right _ (List.mem_map_of_mem ((hmem c).mpr hc))
  obtain ⟨removed, w₀, w₁, w, roots, log, hrun, hs, hunapplied⟩ :=
    exists_syncRun ht ho ha hwf hroot hmatch hfree hd horder
  exact ⟨w, hrun, hs.synced ht ho ha hwf hroot hmatch hunapplied⟩

end Sync

/-! ## A data model with children -/

section Edited

/-- An engine in which every class can be created and has a property to write. -/
@[reducible] def obligingEngine : Engine Unit where
  creatable _ := true
  isValueBase _ := false
  findCanonicalPropertyDescriptor _ propertyName := some ⟨propertyName, .readWrite⟩
  write _ _ value := some value
  writesInstance _ _ := true
  read _ _ held := held
  nil := ()
  isNil _ := true
  trueEquals _ _ := true

/-- The data model has a folder, a part and an instance that cannot be destroyed or saved. -/
def editedDom : Dom Unit where
  next := 4
  instances h :=
    if h = 0 then { Instance.new Unit "DataModel" with children := [1, 2, 3] }
    else if h = 1 then { Instance.new Unit "Folder" with parent := some 0 }
    else if h = 2 then { Instance.new Unit "Part" with parent := some 0 }
    else if h = 3 then
      { Instance.new Unit "CoreGui" with parent := some 0, archivable := false, locked := true }
    else Instance.new Unit "Part"

theorem mem_editedDom {a b : Handle} :
    b ∈ editedDom.getChildren a ↔ a = 0 ∧ (b = 1 ∨ b = 2 ∨ b = 3) := by
  unfold Dom.getChildren editedDom
  dsimp only
  split_ifs <;> simp_all [Instance.new]

theorem editedDom_parent (h : Handle) :
    editedDom.parent h = if h = 1 ∨ h = 2 ∨ h = 3 then some 0 else none := by
  unfold Dom.parent editedDom
  dsimp only
  split_ifs <;> simp_all [Instance.new]

theorem editedDom_wellFormed : editedDom.WellFormed where
  forest :=
    { nodup := fun a => by
        unfold Dom.getChildren editedDom
        dsimp only
        split_ifs <;> simp [Instance.new]
      unique := fun h h' => (mem_editedDom.mp h).1.trans (mem_editedDom.mp h').1.symm
      acyclic := ⟨fun a => if a = 0 then 0 else 1, fun a b h => by
        obtain ⟨rfl, rfl | rfl | rfl⟩ := mem_editedDom.mp h <;> decide⟩ }
  parent_iff := by
    intro a b
    rw [mem_editedDom, editedDom_parent]
    split_ifs with hb
    · simp [hb, eq_comm]
    · simp [hb]
  below := by
    intro a b h
    rw [editedDom_parent] at h
    split_ifs at h with hb
    rw [← Option.some.inj h]
    rcases hb with rfl | rfl | rfl <;> decide
  held := by
    intro a name target _ h
    have hnone : (editedDom.instances a).properties name = none := by
      unfold editedDom
      dsimp only
      split_ifs <;> rfl
    rw [hnone] at h
    cases h

def gameInstance : VirtualInstance Unit where
  id := "root"
  parent := none
  name := "game"
  className := "DataModel"
  properties := ∅
  metadata := none
  children := ["folder"]

def savedInstance : VirtualInstance Unit where
  id := "folder"
  parent := some "root"
  name := "Folder"
  className := "Folder"
  properties := AList.singleton "Value" (.other ())
  metadata := none
  children := ["script"]

def scriptInstance : VirtualInstance Unit where
  id := "script"
  parent := some "folder"
  name := "Script"
  className := "Script"
  properties := ∅
  metadata := none
  children := []

def gameInstances : Map String (VirtualInstance Unit) :=
  ((AList.singleton "script" scriptInstance).insert "folder" savedInstance).insert "root"
    gameInstance

theorem gameInstances_lookup (id : String) : gameInstances.lookup id =
    if id = "root" then some gameInstance
    else if id = "folder" then some savedInstance
    else if id = "script" then some scriptInstance else none := by
  have hsingle : (AList.singleton "script" scriptInstance : Map String _) =
      (∅ : Map String (VirtualInstance Unit)).insert "script" scriptInstance := by
    rw [AList.insert_empty]
  unfold gameInstances
  rw [lookup_insert_eq, lookup_insert_eq, hsingle, lookup_insert_eq, AList.lookup_empty]

theorem mem_gameInstances_kids {p c : String} : c ∈ kids gameInstances p ↔
    p = "root" ∧ c = "folder" ∨ p = "folder" ∧ c = "script" := by
  unfold kids
  rw [gameInstances_lookup]
  split_ifs with h₁ h₂ h₃ <;> simp [*, gameInstance, savedInstance, scriptInstance]

theorem gameInstances_tree : VirtualTree gameInstances "root" where
  nested :=
    { forest :=
        { nodup := fun id => by
            unfold kids
            rw [gameInstances_lookup]
            split_ifs <;> simp [gameInstance, savedInstance, scriptInstance]
          unique := fun h h' => by
            rcases mem_gameInstances_kids.mp h with ⟨rfl, rfl⟩ | ⟨rfl, rfl⟩ <;>
              rcases mem_gameInstances_kids.mp h' with ⟨rfl, hc⟩ | ⟨rfl, hc⟩ <;>
              first | rfl | exact absurd hc (by decide)
          acyclic := ⟨fun id => if id = "root" then 0 else if id = "folder" then 1 else 2,
            fun a b h => by
              rcases mem_gameInstances_kids.mp h with ⟨rfl, rfl⟩ | ⟨rfl, rfl⟩ <;> decide⟩ }
      present := fun h => by
        rcases mem_gameInstances_kids.mp h with ⟨rfl, rfl⟩ | ⟨rfl, rfl⟩ <;> decide }
  root := by decide
  below := by
    intro i hi
    have hfolder : "folder" ∈ kids gameInstances "root" :=
      mem_gameInstances_kids.mpr (.inl ⟨rfl, rfl⟩)
    obtain ⟨v, hv⟩ := exists_lookup hi
    rw [gameInstances_lookup] at hv
    split_ifs at hv with h₁ h₂ h₃
    · exact h₁ ▸ .refl
    · exact h₂ ▸ Desc.of_mem hfolder
    · exact h₃ ▸ (Desc.of_mem hfolder).tail (mem_gameInstances_kids.mpr (.inr ⟨rfl, rfl⟩))
  parent_of_mem := by
    intro p c v h hv
    rw [gameInstances_lookup] at hv
    rcases mem_gameInstances_kids.mp h with ⟨rfl, rfl⟩ | ⟨rfl, rfl⟩ <;>
      exact Option.some.inj hv ▸ rfl

/-- The data model is renamed, the part is removed and a script is added to the folder. The instance
that cannot be destroyed stays. -/
theorem initialSync_edited :
    letI := obligingEngine
    letI := unitDecoder
    ∃ map patch, hydrate editedDom .new gameInstances "root" 0 = some map ∧
      diff editedDom map gameInstances "root" = some patch ∧
      patch.removed = [.inst 2] ∧ patch.added.keys = ["script"] ∧
      patch.updated.map Update.id = ["root"] ∧
      ∀ order, order.Perm patch.added.keys → ∃ w,
        applyPatch editedDom map patch order = some w ∧ Synced gameInstances "root" 0 w := by
  let _ := obligingEngine
  let _ := unitDecoder
  have hcomputed : ((hydrate editedDom .new gameInstances "root" 0).bind fun map =>
      (diff editedDom map gameInstances "root").map fun patch =>
        (patch.removed, patch.added.keys, patch.updated.map Update.id)) =
      some ([.inst 2], ["script"], ["root"]) := by
    decide +kernel
  have hpatch : ∀ map patch, hydrate editedDom .new gameInstances "root" 0 = some map →
      diff editedDom map gameInstances "root" = some patch →
      patch.removed = [.inst 2] ∧ patch.added.keys = ["script"] ∧
        patch.updated.map Update.id = ["root"] := by
    intro map patch hhydrate hdiff
    rw [hhydrate, Option.bind_some, hdiff, Option.map_some, Option.some.injEq, Prod.mk.injEq,
      Prod.mk.injEq] at hcomputed
    exact hcomputed
  have hobliging : ∀ {id v}, gameInstances.lookup id = some v → Obliging Unit v := by
    intro id v hv
    rw [gameInstances_lookup] at hv
    split_ifs at hv
    · rw [← Option.some.inj hv]
      exact ⟨rfl, ⟨by simp [gameInstance], by simp [gameInstance]⟩,
        fun _ _ _ _ _ _ _ _ _ _ _ _ _ _ => rfl⟩
    · rw [← Option.some.inj hv]
      refine ⟨rfl, ⟨fun e he => ?_, fun e he value _ => ?_⟩,
        fun _ _ _ _ _ _ _ _ _ _ _ _ _ _ => rfl⟩
      · have he : e ∈ [(⟨"Value", .other ()⟩ : Σ _ : String, EncodedValue Unit)] := he
        rw [List.mem_singleton.mp he]
        exact ⟨(), rfl⟩
      · have hsome : assignment Unit savedInstance.className e.1 value =
            some (some (e.1, ())) := rfl
        rw [hsome]
        exact Option.some_ne_none _
    · rw [← Option.some.inj hv]
      exact ⟨rfl, ⟨by simp [scriptInstance], by simp [scriptInstance]⟩,
        fun _ _ _ _ _ _ _ _ _ _ _ _ _ _ => rfl⟩
  obtain ⟨map, patch, hhydrate, hdiff, happly⟩ :=
    initialSync gameInstances_tree hobliging editedDom_wellFormed (show 0 < 4 by decide) rfl
      (fun v hv => by rw [← Option.some.inj hv]; rfl) fun map patch hhydrate hdiff inst hinst => by
        rw [(hpatch map patch hhydrate hdiff).1, List.mem_singleton] at hinst
        rw [Removed.inst.inj hinst]
        rfl
  obtain ⟨hremoved, hadded, hupdated⟩ := hpatch map patch hhydrate hdiff
  exact ⟨map, patch, hhydrate, hdiff, hremoved, hadded, hupdated, happly⟩

end Edited

end Roxo.Plugin
