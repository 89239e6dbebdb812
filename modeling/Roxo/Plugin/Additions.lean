import Roxo.Plugin.Sight

/-!
# Additions are applied once

`applyPatch` climbs from every added id that is not mapped to the topmost added instance above it
and reifies the whole tree. When some class of the tree cannot be created, an id below it stays
unmapped, and visiting it reifies the tree again. The additions are applied once exactly when no
tree has such an id beside another id that is not mapped (`addedOnce_iff`).
-/

namespace Roxo.Plugin

open AssocMap Forest

variable {V E : Type}

/-- The patch that adds virtual instances and does nothing else. -/
def PatchSet.additions (added : Map String (VirtualInstance E)) : PatchSet E :=
  { PatchSet.newEmpty with added }

/-- The instances of the map exist. -/
structure WellMapped (dom : Dom V) (map : InstanceMap) : Prop where
  wellFormed : dom.WellFormed
  inverse : map.Inverse
  exists' : ∀ {id inst}, map.fromIds.lookup id = some inst → inst < dom.next

variable [Engine V] [Decoder E V]

/-- Additions are applied once: in every order at most one instance is created for an id and every
created instance is mapped, and neither what is seen of the DOM nor the ids that are not applied
depend on the order. -/
def AddedOnce (dom : Dom V) (map : InstanceMap) (added : Map String (VirtualInstance E)) : Prop :=
  (∀ order, order.Perm added.keys → ∃ w, applyPatch dom map (.additions added) order = some w ∧
    (w.created.map Prod.fst).Nodup ∧
    ∀ e ∈ w.created, w.map.fromInstances.lookup e.2 = some e.1) ∧
  ∀ order order' w w', order.Perm added.keys → order'.Perm added.keys →
    applyPatch dom map (.additions added) order = some w →
    applyPatch dom map (.additions added) order' = some w' →
    w.sight dom.next = w'.sight dom.next ∧ ∀ id, id ∈ w.unappliedIds ↔ id ∈ w'.unappliedIds

variable (V) in
/-- In no tree whose topmost instance can be created does an id stay without an instance while
another id has none either. -/
def NoSecondVisit (map : InstanceMap) (added : Map String (VirtualInstance E)) : Prop :=
  ∀ top, Topmost added top → Creatable V added top →
    ∀ u v, Desc (kids added) top u → Desc (kids added) top v → u ≠ v →
      map.fromIds.lookup u = none → map.fromIds.lookup v = none → Grows V added top u

section Visits

variable {added : Map String (VirtualInstance E)} {map : InstanceMap}

omit [Engine V] [Decoder E V] in
/-- Climbing ends at the topmost added instance. -/
theorem topmostAdded_spec (hr : Rooted added map) {n : ℕ} {id : String} {v : VirtualInstance E}
    (hv : added.lookup id = some v) (hn : added.keys.length - weight added id < n) :
    ∃ top vtop, topmostAdded added n id v = (top, vtop) ∧ added.lookup top = some vtop ∧
      Topmost added top ∧ Desc (kids added) top id := by
  induction n generalizing id v with
  | zero => omega
  | succ n ih =>
    have hid : id ∈ added := AList.lookup_isSome.mp (by rw [hv]; rfl)
    obtain ⟨p, hp, -⟩ := hr.mapped hv
    unfold topmostAdded
    rw [hp, Option.bind_some]
    by_cases hpa : p ∈ added
    · obtain ⟨above, habove⟩ := exists_lookup hpa
      have hkid := hr.mem_of_parent hv hp hpa
      have hlt := weight_lt hr.nested hpa hkid
      have hle := weight_le added p
      obtain ⟨top, vtop, heq, hvtop, htop, hd⟩ := ih habove (by omega)
      rw [habove]
      exact ⟨top, vtop, heq, hvtop, htop, hd.tail hkid⟩
    · have hnone : added.lookup p = none := AList.lookup_eq_none.mpr hpa
      rw [hnone]
      refine ⟨id, v, rfl, hv, ⟨hid, fun q hq => hpa ?_⟩, .refl⟩
      have hq' := hr.parent_of_mem hq hv
      rw [hp, Option.some.injEq] at hq'
      rw [hq']
      obtain ⟨vq, hvq⟩ : ∃ vq, added.lookup q = some vq := by
        cases hl : added.lookup q with
        | none =>
          unfold kids at hq
          rw [hl] at hq
          cases hq
        | some vq => exact ⟨vq, rfl⟩
      exact AList.lookup_isSome.mp (by rw [hvq]; rfl)

/-- The topmost ancestor is unique. -/
theorem Topmost.eq (hr : Rooted added map) {top top' id : String} (ht : Topmost added top)
    (ht' : Topmost added top') (hd : Desc (kids added) top id) (hd' : Desc (kids added) top' id) :
    top = top' := by
  rcases hr.nested.forest.desc_or_desc hd hd' with h | h
  · rcases Relation.ReflTransGen.cases_tail h with heq | ⟨p, -, hp⟩
    · exact heq.symm
    · exact absurd hp (ht'.2 p)
  · rcases Relation.ReflTransGen.cases_tail h with heq | ⟨p, -, hp⟩
    · exact heq
    · exact absurd hp (ht.2 p)

omit [Engine V] [Decoder E V] in
theorem PatchSet.assign_of_isEmpty {target source : PatchSet E} (h : source.isEmpty = true) :
    target.assign source = target := by
  unfold PatchSet.isEmpty at h
  simp only [Bool.and_eq_true, List.isEmpty_iff] at h
  obtain ⟨⟨hremoved, hadded⟩, hupdated⟩ := h
  have hnil : toList source.added = [] := by
    unfold toList
    rw [hadded]
    rfl
  unfold PatchSet.assign
  rw [hremoved, hupdated, hnil, List.append_nil, List.append_nil, extend_nil]

/-- Reify goes through, and what it could not do is put into the unapplied patch. -/
theorem exists_reifyInstance (hn : Nested added) {id : String} (hid : id ∈ added)
    {parent : Option Handle} {w : Work V E} (hr : w.Ready)
    (hparent : ∀ p, parent = some p → p < w.dom.next) :
    ∃ failedToReify w' log, reifyInstance added id parent w = some (failedToReify, w') ∧
      log.map Entry.id = grown V added added.keys.length id ∧
      Grew added (fun _ => parent) [id] (failed V added added.keys.length id) w
        (if failedToReify.isEmpty then w'
          else { w' with unapplied := w'.unapplied.assign failedToReify }) log := by
  have hr' : ({ w with unapplied := .newEmpty } : Work V E).Ready := ⟨hr.inverse, hr.mapped⟩
  obtain ⟨w', log, hrun, hids, hg⟩ := exists_reifyInstanceInner hn hid (weight_le added id) hr'
    hparent
  refine ⟨w'.unapplied, { w' with unapplied := w.unapplied }, log, ?_, hids, ?_⟩
  · unfold reifyInstance
    rw [hrun]
    rfl
  have hassign : (if w'.unapplied.isEmpty then { w' with unapplied := w.unapplied }
      else { w' with unapplied := w.unapplied.assign w'.unapplied }) =
      { w' with unapplied := w.unapplied.assign w'.unapplied } := by
    split_ifs with he
    · rw [PatchSet.assign_of_isEmpty he]
    · rfl
  change Grew added _ _ _ w (if w'.unapplied.isEmpty then { w' with unapplied := w.unapplied }
    else { w' with unapplied := w.unapplied.assign w'.unapplied }) log
  rw [hassign]
  exact
    { created := hg.created, next := hg.next, handles := hg.handles, old := hg.old, new := hg.new
      parents := hg.parents, tops := hg.tops, older := hg.older, beyond := hg.beyond
      inverse := hg.inverse, fromIds := hg.fromIds
      others := hg.others, deferredRefs := hg.deferredRefs
      removed := by
        change w.unapplied.removed ++ w'.unapplied.removed = _
        rw [hg.removed]
        exact List.append_nil _
      updated := by
        change w.unapplied.updated ++ w'.unapplied.updated = _
        rw [hg.updated]
        rfl
      unadded := by
        intro i
        change (extend w.unapplied.added (toList w'.unapplied.added)).lookup i = _
        rw [lookup_extend_toList, hg.unadded]
        split_ifs with hi
        · have hmem := (mem_failed hn hid (weight_le added id)).mp hi
          obtain ⟨v, hv⟩ := exists_lookup (hn.present_of_desc hmem.1 hid)
          rw [hv, Option.some_or]
        · exact Option.none_or }

/-- What depends on the parents of the topmost instances depends on those of the roots only. -/
theorem Grew.congr_top {top top' : String → Option Handle} {roots missed : List String}
    {w w' : Work V E} {log : List Entry} (hg : Grew added top roots missed w w' log)
    (h : ∀ i ∈ roots, top' i = top i) : Grew added top' roots missed w w' log :=
  { hg with
    parents := fun e he => (hg.parents e he).imp_left fun ⟨hroot, hp⟩ =>
      ⟨hroot, hp.trans (h _ hroot).symm⟩
    tops := fun i hi p hp => hg.tops i hi p ((h i hi) ▸ hp) }

/-- The roots and what has been missed matter as sets. -/
theorem Grew.congr_sets {top : String → Option Handle} {roots roots' missed missed' : List String}
    {w w' : Work V E} {log : List Entry} (hg : Grew added top roots missed w w' log)
    (hroots : ∀ i, i ∈ roots' ↔ i ∈ roots) (hmissed : ∀ i, i ∈ missed' ↔ i ∈ missed) :
    Grew added top roots' missed' w w' log :=
  { hg with
    parents := fun e he => (hg.parents e he).imp_left fun ⟨hroot, hp⟩ =>
      ⟨(hroots _).mpr hroot, hp⟩
    tops := fun i hi => hg.tops i ((hroots i).mp hi)
    unadded := fun i => by
      rw [hg.unadded]
      simp only [hmissed] }

/-- A visit to an id that is not mapped reifies the tree that it is in. -/
theorem exists_applyAdded (hr : Rooted added map) {w : Work V E} (hready : w.Ready)
    (hsame : ∀ p, p ∉ added → w.map.fromIds.lookup p = map.fromIds.lookup p) {id : String}
    (hid : id ∈ added) (hun : w.map.fromIds.lookup id = none) :
    ∃ top w' log, applyAdded added w id = some w' ∧ Topmost added top ∧
      Desc (kids added) top id ∧ log.map Entry.id = grown V added added.keys.length top ∧
      Grew added (topParent added map) [top] (failed V added added.keys.length top) w w' log := by
  obtain ⟨v, hv⟩ := exists_lookup hid
  have hpos := weight_pos hid
  have hle := weight_le added id
  obtain ⟨top, vtop, heq, hvtop, htop, hd⟩ := topmostAdded_spec hr hv
    (n := added.keys.length) (by omega)
  obtain ⟨p, hp, hmapped⟩ := hr.mapped hvtop
  have hpa : p ∉ added := fun hpa => htop.2 p (hr.mem_of_parent hvtop hp hpa)
  obtain ⟨inst, hinst⟩ := hmapped hpa
  have hinst' : w.map.fromIds.lookup p = some inst := (hsame p hpa).trans hinst
  have hlt : ∀ q, some inst = some q → q < w.dom.next := by
    intro q hq
    rw [← Option.some.inj hq]
    exact hready.mapped hinst'
  obtain ⟨failedToReify, w', log, hrun, hids, hg⟩ := exists_reifyInstance hr.nested htop.1 hready hlt
  refine ⟨top, _, log, ?_, htop, hd, hids, hg.congr_top fun i hi => ?_⟩
  · unfold applyAdded
    rw [hv]
    simp only [hun, Option.isSome_none, Bool.false_eq_true, if_false, heq]
    rw [hp, Option.bind_some, hinst']
    simp only [Option.bind_eq_bind, Option.bind_some, hrun]
  · rw [List.mem_singleton.mp hi, topParent, hvtop, Option.bind_some, hp, Option.bind_some, hinst]

omit [Engine V] [Decoder E V] in
theorem topParent_lt {w : Work V E} (hw : w.Ready) {id : String} {p : Handle}
    (hp : topParent added w.map id = some p) : p < w.dom.next := by
  obtain ⟨v, -, hv⟩ := Option.bind_eq_some_iff.mp hp
  obtain ⟨q, -, hq⟩ := Option.bind_eq_some_iff.mp hv
  exact hw.mapped hq

variable (V) in
omit [Decoder E V] in
/-- The instances that grow in different trees are different. -/
theorem nodup_grown_roots (hr : Rooted added map) {roots : List String} (hnd : roots.Nodup)
    (htop : ∀ top ∈ roots, Topmost added top) :
    (roots.flatMap (grown V added added.keys.length)).Nodup :=
  nodup_flatMap_of_below hnd
    (fun a ha b hb _ hax hbx => (htop a ha).eq hr (htop b hb) hax hbx)
    (fun a ha => nodup_grown hr.nested (htop a ha).1 (weight_le added a))
    (fun a ha _ hx => ((mem_grown hr.nested (htop a ha).1 (weight_le added a)).mp hx).1)

/-- What the visits so far have done: the trees of `roots` have been reified, each once, and these
are the trees in which an id without an instance has been visited. -/
structure Visited (added : Map String (VirtualInstance E)) (w₀ w : Work V E)
    (visited roots : List String) (log : List Entry) : Prop where
  settled : Settled added roots (roots.flatMap (failed V added added.keys.length)) w₀ w log
  ids : log.map Entry.id = roots.flatMap (grown V added added.keys.length)
  nodup : roots.Nodup
  covered : ∀ id ∈ visited, w₀.map.fromIds.lookup id = none →
    ∃ top ∈ roots, Desc (kids added) top id
  reached : ∀ top ∈ roots, ∃ v ∈ visited,
    w₀.map.fromIds.lookup v = none ∧ Desc (kids added) top v

namespace Visited

variable {w₀ w : Work V E} {visited roots : List String} {log : List Entry}

theorem mem_ids (hv : Visited added w₀ w visited roots log) {id : String} :
    id ∈ log.map Entry.id ↔ ∃ top ∈ roots, Grows V added top id := by
  rw [hv.ids, List.mem_flatMap]
  refine exists_congr fun top => and_congr_right fun htop => ?_
  exact mem_grown hv.settled.rooted.nested (hv.settled.topmost top htop).1 (weight_le added top)

/-- An id that is not mapped has never been mapped. -/
theorem unmapped (hv : Visited added w₀ w visited roots log) {id : String}
    (hun : w.map.fromIds.lookup id = none) :
    w₀.map.fromIds.lookup id = none ∧ id ∉ log.map Entry.id := by
  have hlog : ∀ e ∈ log, e.id ≠ id := by
    rintro e he rfl
    rw [hv.settled.grew.fromIds e he] at hun
    cases hun
  refine ⟨by rw [← hv.settled.grew.others id hlog, hun], fun hmem => ?_⟩
  obtain ⟨e, he, heq⟩ := List.mem_map.mp hmem
  exact hlog e he heq

/-- A visit to an id that is mapped does nothing. -/
theorem skip (hv : Visited added w₀ w visited roots log) {id : String} {inst : Handle}
    (hm : w.map.fromIds.lookup id = some inst) :
    Visited added w₀ w (id :: visited) roots log where
  settled := hv.settled
  ids := hv.ids
  nodup := hv.nodup
  covered := by
    intro i hi hun
    rcases List.mem_cons.mp hi with rfl | hi
    · have hmem : i ∈ log.map Entry.id := by
        by_contra hnot
        rw [hv.settled.grew.others i fun e he heq => hnot (List.mem_map.mpr ⟨e, he, heq⟩),
          hun] at hm
        cases hm
      obtain ⟨top, htop, hg⟩ := hv.mem_ids.mp hmem
      exact ⟨top, htop, hg.1⟩
    · exact hv.covered i hi hun
  reached top htop := by
    obtain ⟨v, hv, h⟩ := hv.reached top htop
    exact ⟨v, List.mem_cons_of_mem _ hv, h⟩

/-- A visit to an id that is not mapped, in a tree that has not been reified yet. -/
theorem grow (hv : Visited added w₀ w visited roots log) {id top : String} {w' : Work V E}
    {log' : List Entry} (hun : w₀.map.fromIds.lookup id = none) (htop : Topmost added top)
    (hd : Desc (kids added) top id) (hnew : top ∉ roots)
    (hids : log'.map Entry.id = grown V added added.keys.length top)
    (hg : Grew added (topParent added w₀.map) [top] (failed V added added.keys.length top) w w'
      log') :
    Visited added w₀ w' (id :: visited) (roots ++ [top]) (log ++ log') := by
  have hr := hv.settled.rooted
  have htops : ∀ t ∈ roots ++ [top], Topmost added t := by
    intro t ht
    rcases List.mem_append.mp ht with ht | ht
    · exact hv.settled.topmost t ht
    · rwa [List.mem_singleton.mp ht]
  have hnd : (roots ++ [top]).Nodup := by
    rw [List.nodup_append]
    refine ⟨hv.nodup, List.nodup_singleton _, fun a ha b hb hab => hnew ?_⟩
    rwa [← List.mem_singleton.mp hb, ← hab]
  have hall : (log ++ log').map Entry.id =
      (roots ++ [top]).flatMap (grown V added added.keys.length) := by
    rw [List.map_append, hv.ids, hids, List.flatMap_append, List.flatMap_singleton]
  have hunique := nodup_grown_roots V hr hnd htops
  rw [← hall] at hunique
  have happ := hv.settled.grew.append hg
    (fun e he e' he' => by
      rw [List.map_append, List.nodup_append] at hunique
      exact hunique.2.2 _ (List.mem_map_of_mem he) _ (List.mem_map_of_mem he'))
    fun i _ p hp => topParent_lt hv.settled.ready hp
  exact
    { settled :=
        { ready := hv.settled.ready, rooted := hr, topmost := htops, unique := hunique
          grew := by
            rw [List.flatMap_append, List.flatMap_singleton]
            exact happ }
      ids := hall
      nodup := hnd
      covered := by
        intro i hi hun
        rcases List.mem_cons.mp hi with rfl | hi
        · exact ⟨top, List.mem_append_right _ (List.mem_singleton_self _), hd⟩
        · obtain ⟨t, ht, h⟩ := hv.covered i hi hun
          exact ⟨t, List.mem_append_left _ ht, h⟩
      reached := by
        intro t ht
        rcases List.mem_append.mp ht with ht | ht
        · obtain ⟨v, hv, h⟩ := hv.reached t ht
          exact ⟨v, List.mem_cons_of_mem _ hv, h⟩
        · rw [List.mem_singleton.mp ht]
          exact ⟨id, List.mem_cons_self, hun, hd⟩ }

/-- Another visit to a tree whose topmost instance cannot be created. -/
theorem retry (hv : Visited added w₀ w visited roots log) {id top : String} {w' : Work V E}
    (hd : Desc (kids added) top id) (hmem : top ∈ roots)
    (hg : Grew added (topParent added w₀.map) [top] (failed V added added.keys.length top) w w'
      []) :
    Visited added w₀ w' (id :: visited) roots log := by
  have happ := hv.settled.grew.append hg (fun _ _ _ he' => absurd he' List.not_mem_nil)
    fun i _ p hp => topParent_lt hv.settled.ready hp
  rw [List.append_nil] at happ
  have hsame : ∀ i, i ∈ roots ↔ i ∈ roots ++ [top] := by
    intro i
    rw [List.mem_append, List.mem_singleton]
    exact ⟨.inl, fun h => h.elim (fun h => h) fun h => h ▸ hmem⟩
  exact
    { settled :=
        { hv.settled with
          grew := happ.congr_sets hsame fun i => by
            rw [List.mem_append]
            refine ⟨.inl, fun h => h.elim (fun h => h) fun h => ?_⟩
            exact List.mem_flatMap.mpr ⟨top, hmem, h⟩ }
      ids := hv.ids
      nodup := hv.nodup
      covered := by
        intro i hi hun
        rcases List.mem_cons.mp hi with rfl | hi
        · exact ⟨top, hmem, hd⟩
        · exact hv.covered i hi hun
      reached := by
        intro t ht
        obtain ⟨v, hv, h⟩ := hv.reached t ht
        exact ⟨v, List.mem_cons_of_mem _ hv, h⟩ }

/-- One visit. -/
theorem step (hcond : NoSecondVisit V w₀.map added) (hv : Visited added w₀ w visited roots log)
    {id : String} (hid : id ∈ added) (hnew : id ∉ visited) :
    ∃ w' roots' log', applyAdded added w id = some w' ∧
      Visited added w₀ w' (id :: visited) roots' log' := by
  have hr := hv.settled.rooted
  obtain ⟨v, hvid⟩ := exists_lookup hid
  cases hm : w.map.fromIds.lookup id with
  | some inst =>
    refine ⟨w, roots, log, ?_, hv.skip hm⟩
    unfold applyAdded
    rw [hvid]
    simp [hm]
  | none =>
    obtain ⟨hun, hnotlog⟩ := hv.unmapped hm
    have hsame : ∀ p, p ∉ added → w.map.fromIds.lookup p = w₀.map.fromIds.lookup p := by
      intro p hp
      refine hv.settled.grew.others p ?_
      rintro e he rfl
      obtain ⟨v, hv, -⟩ := hv.settled.grew.new e he
      exact hp (AList.lookup_isSome.mp (by rw [hv]; rfl))
    obtain ⟨top, w', log', hrun, htop, hd, hids, hg⟩ := exists_applyAdded hr
      (hv.settled.grew.ready hv.settled.ready) hsame hid hm
    by_cases hmem : top ∈ roots
    · -- the tree has been reified: nothing of it can be created, or the visit would not happen
      have hnot : ¬ Creatable V added top := by
        intro hc
        obtain ⟨u, hu, huun, hdu⟩ := hv.reached top hmem
        have hne : id ≠ u := by
          rintro rfl
          exact hnew hu
        exact hnotlog (hv.mem_ids.mpr ⟨top, hmem, hcond top htop hc id u hd hdu hne hun huun⟩)
      have hnil : log' = [] := by
        refine List.map_eq_nil_iff.mp (hids.trans (List.eq_nil_iff_forall_not_mem.mpr ?_))
        intro i hi
        have hgrows := (mem_grown hr.nested htop.1 (weight_le added top)).mp hi
        exact hnot (hgrows.2 top .refl hgrows.1)
      rw [hnil] at hg
      exact ⟨w', roots, log, hrun, hv.retry hd hmem hg⟩
    · exact ⟨w', _, _, hrun, hv.grow hun htop hd hmem hids hg⟩

/-- The visits of a loop. -/
theorem run (hcond : NoSecondVisit V w₀.map added) (order : List String)
    (hv : Visited added w₀ w visited roots log) (hsub : ∀ id ∈ order, id ∈ added)
    (hnd : order.Nodup) (hdis : ∀ id ∈ order, id ∉ visited) :
    ∃ w' visited' roots' log', order.foldlM (applyAdded added) w = some w' ∧
      Visited added w₀ w' visited' roots' log' ∧
      ∀ id, id ∈ visited' ↔ id ∈ visited ∨ id ∈ order := by
  induction order generalizing w visited roots log with
  | nil => exact ⟨w, visited, roots, log, rfl, hv, by simp⟩
  | cons id order ih =>
    rw [List.nodup_cons] at hnd
    obtain ⟨w₁, roots₁, log₁, h₁, hv₁⟩ := hv.step hcond (hsub id List.mem_cons_self)
      (hdis id List.mem_cons_self)
    obtain ⟨w', visited', roots', log', h', hv', hmem⟩ := ih hv₁
      (fun i hi => hsub i (List.mem_cons_of_mem _ hi)) hnd.2 fun i hi hmem => by
        rcases List.mem_cons.mp hmem with rfl | hmem
        · exact hnd.1 hi
        · exact hdis i (List.mem_cons_of_mem _ hi) hmem
    refine ⟨w', visited', roots', log', ?_, hv', fun i => ?_⟩
    · rw [List.foldlM_cons, h₁]
      exact h'
    · rw [hmem, List.mem_cons, List.mem_cons]
      tauto

end Visited

end Visits

/-! ## Whole runs -/

section Whole

variable {dom : Dom V} {map : InstanceMap} {added : Map String (VirtualInstance E)}

theorem applyPatch_additions (order : List String) :
    applyPatch dom map (.additions added) order =
      (order.foldlM (applyAdded added) (.start dom map)).map applyDeferredRefs := by
  unfold applyPatch
  simp only [PatchSet.additions, PatchSet.newEmpty, List.foldl_nil]
  cases order.foldlM (applyAdded added) (.start dom map) <;> rfl

omit [Engine V] [Decoder E V] in
theorem WellMapped.ready (hw : WellMapped dom map) : (Work.start dom map : Work V E).Ready :=
  ⟨hw.inverse, hw.exists'⟩

theorem Visited.start (hw : WellMapped dom map) (hr : Rooted added map) :
    Visited added (.start dom map) (.start dom map : Work V E) [] [] [] where
  settled :=
    { ready := hw.ready
      rooted := hr
      topmost := by simp
      grew := Grew.refl hw.ready
      unique := List.nodup_nil }
  ids := rfl
  nodup := List.nodup_nil
  covered := by simp
  reached := by simp

/-- What a run over all added ids leaves. -/
theorem exists_run (hw : WellMapped dom map) (hr : Rooted added map)
    (hcond : NoSecondVisit V map added) {order : List String} (ho : order.Perm added.keys) :
    ∃ w w' roots log, applyPatch dom map (.additions added) order = some w' ∧
      Visited added (.start dom map) w order roots log ∧ Referred w w' w.deferredRefs := by
  obtain ⟨w, visited, roots, log, hrun, hv, hmem⟩ := (Visited.start hw hr).run hcond order
    (fun id hid => AList.mem_keys.mpr (ho.mem_iff.mp hid))
    (ho.nodup_iff.mpr added.nodupKeys) (fun _ _ => List.not_mem_nil)
  have hsame : ∀ id, id ∈ visited ↔ id ∈ order := by simpa using hmem
  refine ⟨w, _, roots, log, ?_, ?_, applyDeferredRefs_referred w⟩
  · rw [applyPatch_additions, hrun]
    rfl
  · exact
      { hv with
        covered := fun id hid => hv.covered id ((hsame id).mpr hid)
        reached := fun top htop => by
          obtain ⟨v, hv, h⟩ := hv.reached top htop
          exact ⟨v, (hsame v).mp hv, h⟩ }

/-- The trees that are reified do not depend on the order. -/
theorem roots_perm {w₀ w w' : Work V E} {order order' roots roots' : List String}
    {log log' : List Entry} (hv : Visited added w₀ w order roots log)
    (hv' : Visited added w₀ w' order' roots' log') (ho : order.Perm order') :
    roots.Perm roots' := by
  have hsub : ∀ {w₁ w₂ : Work V E} {o₁ o₂ r₁ r₂ : List String} {l₁ l₂ : List Entry},
      Visited added w₀ w₁ o₁ r₁ l₁ → Visited added w₀ w₂ o₂ r₂ l₂ → o₁.Perm o₂ →
      ∀ top ∈ r₁, top ∈ r₂ := by
    intro w₁ w₂ o₁ o₂ r₁ r₂ l₁ l₂ h₁ h₂ ho top htop
    obtain ⟨v, hvo, hun, hd⟩ := h₁.reached top htop
    obtain ⟨top', htop', hd'⟩ := h₂.covered v (ho.mem_iff.mp hvo) hun
    rwa [(h₁.settled.topmost top htop).eq h₁.settled.rooted (h₂.settled.topmost top' htop') hd hd']
  refine (List.perm_ext_iff_of_nodup hv.nodup hv'.nodup).mpr fun top => ?_
  exact ⟨hsub hv hv' ho top, hsub hv' hv ho.symm top⟩

theorem addedOnce_of_noSecondVisit (hw : WellMapped dom map) (hr : Rooted added map)
    (hcond : NoSecondVisit V map added) : AddedOnce dom map added := by
  refine ⟨fun order ho => ?_, fun order order' w w' ho ho' hrun hrun' => ?_⟩
  · obtain ⟨w, w', roots, log, hrun, hv, href⟩ := exists_run hw hr hcond ho
    have hcreated : w'.created = log.map fun e => (e.id, e.inst) := by
      rw [href.created, hv.settled.grew.created]
      rfl
    refine ⟨w', hrun, ?_, ?_⟩
    · rw [hcreated, List.map_map]
      exact hv.settled.unique
    · rw [hcreated, href.map]
      intro pair hpair
      obtain ⟨e, he, rfl⟩ := List.mem_map.mp hpair
      exact (hv.settled.grew.inverse _ _).mp (hv.settled.grew.fromIds e he)
  · obtain ⟨w₁, w₁', roots, log, hrun₁, hv, href⟩ := exists_run hw hr hcond ho
    obtain ⟨w₂, w₂', roots', log', hrun₂, hv', href'⟩ := exists_run hw hr hcond ho'
    rw [hrun, Option.some.injEq] at hrun₁
    rw [hrun', Option.some.injEq] at hrun₂
    subst hrun₁ hrun₂
    have hroots := roots_perm hv hv' (ho.trans ho'.symm)
    have hids : (log.map Entry.id).Perm (log'.map Entry.id) := by
      rw [hv.ids, hv'.ids]
      exact hroots.flatMap_right _
    constructor
    · have h₁ := hv.settled.sight hw.wellFormed rfl href
      have h₂ := hv'.settled.sight hw.wellFormed rfl href'
      exact h₁.trans ((finalSight_perm hids _ _).trans h₂.symm)
    · intro id
      rw [hv.settled.mem_unappliedIds rfl rfl href, hv'.settled.mem_unappliedIds rfl rfl href',
        (hroots.flatMap_right _).mem_iff, hids.mem_iff]
      simp only [leftOver_perm hids]

/-- What every visit keeps: instances that are not added stay where they are in the map. -/
structure Steady (added : Map String (VirtualInstance E)) (map : InstanceMap) (w : Work V E) :
    Prop where
  ready : w.Ready
  same : ∀ p, p ∉ added → w.map.fromIds.lookup p = map.fromIds.lookup p

theorem Steady.of_grew {w w' : Work V E} {top : String → Option Handle}
    {roots missed : List String} {log : List Entry} (hs : Steady added map w)
    (hg : Grew added top roots missed w w' log) : Steady added map w' where
  ready := hg.ready hs.ready
  same p hp := by
    rw [hg.others p, hs.same p hp]
    rintro e he rfl
    obtain ⟨v, hv, -⟩ := hg.new e he
    exact hp (AList.lookup_isSome.mp (by rw [hv]; rfl))

/-- A visit forgets nothing of what has been created. -/
theorem Steady.visit (hr : Rooted added map) {w w' : Work V E} (hs : Steady added map w)
    {id : String} (hrun : applyAdded added w id = some w') :
    Steady added map w' ∧ w.created <+: w'.created := by
  cases hv : added.lookup id with
  | none =>
    unfold applyAdded at hrun
    simp only [hv, Option.some.injEq] at hrun
    exact hrun ▸ ⟨hs, List.prefix_refl _⟩
  | some v =>
    cases hm : w.map.fromIds.lookup id with
    | some inst =>
      unfold applyAdded at hrun
      simp only [hv, hm, Option.isSome_some, if_true, Option.some.injEq] at hrun
      exact hrun ▸ ⟨hs, List.prefix_refl _⟩
    | none =>
      have hid : id ∈ added := AList.lookup_isSome.mp (by rw [hv]; rfl)
      obtain ⟨top, w₁, log, hrun₁, -, -, -, hg⟩ := exists_applyAdded hr hs.ready hs.same hid hm
      rw [hrun, Option.some.injEq] at hrun₁
      subst hrun₁
      exact ⟨hs.of_grew hg, ⟨_, hg.created.symm⟩⟩

theorem Steady.visits (hr : Rooted added map) {w w' : Work V E} (hs : Steady added map w)
    {order : List String} (hrun : order.foldlM (applyAdded added) w = some w') :
    w.created <+: w'.created := by
  induction order generalizing w with
  | nil =>
    rw [List.foldlM_nil] at hrun
    exact Option.some.inj hrun ▸ List.prefix_refl _
  | cons id order ih =>
    rw [List.foldlM_cons] at hrun
    obtain ⟨w₁, h₁, h₂⟩ := Option.bind_eq_some_iff.mp hrun
    obtain ⟨hs₁, hpre⟩ := hs.visit hr h₁
    exact hpre.trans (ih hs₁ h₂)

theorem noSecondVisit_of_addedOnce (hw : WellMapped dom map) (hr : Rooted added map)
    (honce : AddedOnce dom map added) : NoSecondVisit V map added := by
  intro top htop hc u v hdu hdv hne hun hvn
  by_contra hnot
  have hu := hr.nested.present_of_desc hdu htop.1
  have hv := hr.nested.present_of_desc hdv htop.1
  -- the order that visits the other id first
  have hperm : (v :: u :: (added.keys.erase v).erase u).Perm added.keys := by
    have hmemv := List.perm_cons_erase (AList.mem_keys.mp hv)
    have hmemu := List.perm_cons_erase
      ((List.mem_erase_of_ne hne).mpr (AList.mem_keys.mp hu))
    exact (hmemv.trans (hmemu.cons v)).symm
  obtain ⟨w', hrun, hnd, -⟩ := honce.1 _ hperm
  rw [applyPatch_additions] at hrun
  obtain ⟨w, hfold, rfl⟩ := Option.map_eq_some_iff.mp hrun
  have hs : Steady added map (.start dom map : Work V E) := ⟨hw.ready, fun _ _ => rfl⟩
  obtain ⟨top₁, w₁, log₁, hrun₁, htop₁, hd₁, hids₁, hg₁⟩ := exists_applyAdded hr hs.ready hs.same
    hv hvn
  have hs₁ := hs.of_grew hg₁
  have heq₁ := htop₁.eq hr htop hd₁ hdv
  subst heq₁
  have hun₁ : w₁.map.fromIds.lookup u = none := by
    rw [hg₁.others u, ← hun]
    · rfl
    · rintro e he rfl
      have hmem := List.mem_map_of_mem (f := Entry.id) he
      rw [hids₁, mem_grown hr.nested htop.1 (weight_le added _)] at hmem
      exact hnot hmem
  obtain ⟨top₂, w₂, log₂, hrun₂, htop₂, hd₂, hids₂, hg₂⟩ := exists_applyAdded hr hs₁.ready
    hs₁.same hu hun₁
  have heq₂ := htop₂.eq hr htop hd₂ hdu
  subst heq₂
  rw [List.foldlM_cons, hrun₁, Option.bind_eq_bind, Option.bind_some, List.foldlM_cons, hrun₂,
    Option.bind_eq_bind, Option.bind_some] at hfold
  have hpre := (hs₁.of_grew hg₂).visits hr hfold
  have hgrows : Grows V added top₂ top₂ := by
    refine ⟨.refl, fun x hx hxt => ?_⟩
    rw [hr.nested.forest.desc_antisymm hxt hx]
    exact hc
  have hmem : ∀ log : List Entry, log.map Entry.id = grown V added added.keys.length top₂ →
      top₂ ∈ (log.map fun e => (e.id, e.inst)).map Prod.fst := by
    intro log hids
    have hmap : (log.map fun e => (e.id, e.inst)).map Prod.fst = log.map Entry.id := by
      rw [List.map_map]
      rfl
    rw [hmap, hids]
    exact (mem_grown hr.nested htop.1 (weight_le added _)).mpr hgrows
  have hcreated : (applyDeferredRefs w).created = w.created :=
    (applyDeferredRefs_referred w).created
  rw [hcreated] at hnd
  have hnd₂ := (hpre.sublist.map Prod.fst).nodup hnd
  rw [hg₂.created, hg₁.created, List.map_append, List.map_append, List.nodup_append] at hnd₂
  exact hnd₂.2.2 _ (List.mem_append_right _ (hmem log₁ hids₁)) _ (hmem log₂ hids₂) rfl

end Whole

/-! ## A folder with a terrain in it -/

section Terrain

/-- An engine in which `Instance.new("Terrain")` fails. -/
@[reducible] def terrainEngine : Engine Unit where
  creatable className := className ≠ "Terrain"
  isValueBase _ := false
  findCanonicalPropertyDescriptor _ _ := none
  write _ _ _ := none
  writesInstance _ _ := false
  read _ _ held := held
  nil := ()
  isNil _ := true
  trueEquals _ _ := true

@[reducible] def unitDecoder : Decoder Unit Unit where
  decode _ := some ()

/-- The data model alone. -/
def gameDom : Dom Unit where
  next := 1
  instances _ := Instance.new Unit "DataModel"

/-- The map of the data model alone. -/
def gameMap : InstanceMap :=
  let _ := terrainEngine
  InstanceMap.new.insert gameDom "root" 0

def folderInstance : VirtualInstance Unit where
  id := "folder"
  parent := some "root"
  name := "Folder"
  className := "Folder"
  properties := ∅
  metadata := none
  children := ["terrain"]

def terrainInstance : VirtualInstance Unit where
  id := "terrain"
  parent := some "folder"
  name := "Terrain"
  className := "Terrain"
  properties := ∅
  metadata := none
  children := []

def terrainAdded : Map String (VirtualInstance Unit) :=
  ((∅ : Map String (VirtualInstance Unit)).insert "terrain" terrainInstance).insert "folder"
    folderInstance

theorem gameMap_wellMapped : WellMapped gameDom gameMap where
  wellFormed :=
    { forest :=
        { nodup := fun _ => List.nodup_nil
          unique := fun h => absurd h List.not_mem_nil
          acyclic := ⟨fun _ => 0, fun _ _ h => absurd h List.not_mem_nil⟩ }
      parent_iff := fun {a b} => by simp [Dom.getChildren, Dom.parent, gameDom, Instance.new]
      below := fun {a b} h => by simp [Dom.parent, gameDom, Instance.new] at h
      held := fun {a n t} _ h => by simp [gameDom, Instance.new] at h }
  inverse :=
    let _ := terrainEngine
    InstanceMap.new_inverse.insert _ _ _
  exists' := by
    intro id inst h
    let _ := terrainEngine
    unfold gameMap at h
    rw [InstanceMap.insert_fromIds InstanceMap.new_inverse] at h
    split_ifs at h
    · exact Option.some.inj h ▸ Nat.zero_lt_one
    · simp [InstanceMap.new] at h

theorem terrainAdded_lookup (id : String) : terrainAdded.lookup id =
    if id = "folder" then some folderInstance
    else if id = "terrain" then some terrainInstance else none := by
  unfold terrainAdded
  rw [lookup_insert_eq, lookup_insert_eq, AList.lookup_empty]

theorem terrainAdded_kids (id : String) :
    kids terrainAdded id = if id = "folder" then ["terrain"] else [] := by
  unfold kids
  rw [terrainAdded_lookup]
  split_ifs <;> rfl

theorem mem_terrainAdded_kids {p c : String} :
    c ∈ kids terrainAdded p ↔ p = "folder" ∧ c = "terrain" := by
  rw [terrainAdded_kids]
  split_ifs with h <;> simp [h]

theorem terrainAdded_rooted : Rooted terrainAdded gameMap where
  nested :=
    { forest :=
        { nodup := fun id => by
            rw [terrainAdded_kids]
            split_ifs <;> simp
          unique := fun h h' =>
            (mem_terrainAdded_kids.mp h).1.trans (mem_terrainAdded_kids.mp h').1.symm
          acyclic := ⟨fun id => if id = "folder" then 0 else 1, fun a b h => by
            obtain ⟨rfl, rfl⟩ := mem_terrainAdded_kids.mp h
            decide⟩ }
      present := fun h => by
        rw [(mem_terrainAdded_kids.mp h).2]
        decide }
  parent_of_mem := by
    intro p c v h hv
    obtain ⟨rfl, rfl⟩ := mem_terrainAdded_kids.mp h
    rw [terrainAdded_lookup] at hv
    exact Option.some.inj hv ▸ rfl
  mem_of_parent := by
    intro p c v hv hp hpa
    rw [terrainAdded_lookup] at hv
    split_ifs at hv with h₁ h₂
    · rw [← Option.some.inj hv, folderInstance, Option.some.injEq] at hp
      subst hp
      exact absurd hpa (by decide)
    · rw [← Option.some.inj hv, terrainInstance, Option.some.injEq] at hp
      exact mem_terrainAdded_kids.mpr ⟨hp.symm, h₂⟩
  mapped := by
    intro c v hv
    rw [terrainAdded_lookup] at hv
    split_ifs at hv
    · refine ⟨"root", Option.some.inj hv ▸ rfl, fun _ => ⟨0, by decide⟩⟩
    · refine ⟨"folder", Option.some.inj hv ▸ rfl, fun h => absurd (by decide) h⟩

end Terrain

end Roxo.Plugin
