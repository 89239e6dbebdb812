import Roxo.Plugin.DeferredRefs

/-!
# Patches that only assign references

The server answers a request for references with such a patch. Applying it leaves the map and the
tree as they are, and what cannot be assigned comes back under the id and the property.
-/

namespace Roxo.Plugin

open AssocMap

variable {V E : Type}

/-- The patch has an update of the id with the property in it. -/
def PatchSet.Reports (patchSet : PatchSet E) (id propertyName : String) : Prop :=
  ∃ update ∈ patchSet.updated, update.id = id ∧ propertyName ∈ update.changedProperties

/-- The update changes properties and nothing else. -/
structure Update.OnlyProperties (update : Update E) : Prop where
  sameName : update.changedName = none
  sameClass : update.changedClassName = none
  sameMetadata : update.changedMetadata = none

/-- The update assigns references and nothing else. -/
structure Update.OnlyRefs (update : Update E) : Prop extends update.OnlyProperties where
  refs : ∀ e ∈ update.changedProperties.entries, ∃ refId, e.2 = .ref refId

/-- What the server makes for `RefPatchResponse`. -/
structure PatchSet.OnlyRefs (patchSet : PatchSet E) : Prop where
  removed : patchSet.removed = []
  added : patchSet.added = ∅
  updated : ∀ update ∈ patchSet.updated, update.OnlyRefs

variable [Engine V]

variable (V) in
/-- A reference of the update of an id cannot be assigned. -/
def Unassignable (dom : Dom V) (map : InstanceMap) (id propertyName refId : String) : Prop :=
  match map.fromIds.lookup id with
  | none => True
  | some inst => RefFails V map (dom.instances inst).className propertyName refId

/-- Applying the patch to the DOM leaves a reference of it unassigned. -/
def PatchSet.LeavesRef (patchSet : PatchSet E) (dom : Dom V) (map : InstanceMap)
    (id propertyName : String) : Prop :=
  ∃ update ∈ patchSet.updated, update.id = id ∧ ∃ refId,
    update.changedProperties.lookup propertyName = some (.ref refId) ∧
      Unassignable V dom map id propertyName refId

/-! ## The references that fail -/

omit [Engine V] in
theorem mem_markFailed_iff (entry : DeferredRef) (updated : List (Update E)) (id p : String) :
    (∃ update ∈ markFailed entry updated, update.id = id ∧ p ∈ update.changedProperties) ↔
      (∃ update ∈ updated, update.id = id ∧ p ∈ update.changedProperties) ∨
        entry.id = id ∧ entry.propertyName = p := by
  induction updated with
  | nil =>
    unfold markFailed
    simp only [List.mem_singleton, exists_eq_left, List.not_mem_nil, false_and, exists_false,
      false_or]
    rw [← AList.insert_empty, AList.mem_insert]
    simp [eq_comm]
  | cons update rest ih =>
    unfold markFailed
    split_ifs with h
    · simp only [List.mem_cons, exists_eq_or_imp, AList.mem_insert]
      grind
    · simp only [List.mem_cons, exists_eq_or_imp, ih]
      grind

theorem applyDeferredRef_reports (w : Work V E) (entry : DeferredRef) (id p : String) :
    (applyDeferredRef w entry).unapplied.Reports id p ↔
      w.unapplied.Reports id p ∨ (entry.id = id ∧ entry.propertyName = p) ∧
        RefFails V w.map (w.dom.instances entry.instance').className entry.propertyName
          entry.refId := by
  have hfailed : ∀ P : Prop, P → ((∃ update ∈ markFailed entry w.unapplied.updated,
      update.id = id ∧ p ∈ update.changedProperties) ↔
      w.unapplied.Reports id p ∨ (entry.id = id ∧ entry.propertyName = p) ∧ P) := by
    intro P hP
    rw [and_iff_left hP]
    exact mem_markFailed_iff entry w.unapplied.updated id p
  have hdone : ∀ P : Prop, ¬P → (w.unapplied.Reports id p ↔
      w.unapplied.Reports id p ∨ (entry.id = id ∧ entry.propertyName = p) ∧ P) :=
    fun P hP => (or_iff_left fun h => hP h.2).symm
  unfold applyDeferredRef
  cases ht : w.map.fromIds.lookup entry.refId with
  | none => exact hfailed _ (.inl ht)
  | some target =>
    unfold RefFails refAssignment
    simp only [Dom.setProperty, Dom.writtenValue, ht]
    cases hf : Engine.findCanonicalPropertyDescriptor V
        (w.dom.instances entry.instance').className entry.propertyName with
    | none => exact hdone _ (by simp)
    | some descriptor =>
      by_cases hs : descriptor.scriptability = .none ∨ descriptor.scriptability = .read
      · simp only [if_pos hs]
        exact hfailed _ (.inr trivial)
      · simp only [if_neg hs]
        cases hwr : Engine.writesInstance V (w.dom.instances entry.instance').className
            descriptor with
        | false => exact hfailed _ (.inr rfl)
        | true => exact hdone _ (by simp)

/-- What `applyDeferredRefs` reports. -/
theorem applyDeferredRefs_reports (w : Work V E) (id p : String) :
    (applyDeferredRefs w).unapplied.Reports id p ↔
      w.unapplied.Reports id p ∨ ∃ entry ∈ w.deferredRefs,
        (entry.id = id ∧ entry.propertyName = p) ∧
          RefFails V w.map (w.dom.instances entry.instance').className entry.propertyName
            entry.refId := by
  unfold applyDeferredRefs
  suffices h : ∀ (refs : List DeferredRef) (w : Work V E),
      (refs.foldl applyDeferredRef w).unapplied.Reports id p ↔
        w.unapplied.Reports id p ∨ ∃ entry ∈ refs, (entry.id = id ∧ entry.propertyName = p) ∧
          RefFails V w.map (w.dom.instances entry.instance').className entry.propertyName
            entry.refId from h _ w
  intro refs
  induction refs with
  | nil =>
    intro w
    simp
  | cons entry refs ih =>
    intro w
    have hr := applyDeferredRef_referred w entry
    have hclass : ∀ h, ((applyDeferredRef w entry).dom.instances h).className =
        (w.dom.instances h).className := by
      intro h
      rw [hr.instances]
    rw [List.foldl_cons, ih, applyDeferredRef_reports, hr.map]
    simp only [hclass, List.mem_cons, exists_eq_or_imp, or_assoc]

omit [Engine V] in
theorem onlyProperties_markFailed (entry : DeferredRef) {updated : List (Update E)}
    (h : ∀ update ∈ updated, update.OnlyProperties) :
    ∀ update ∈ markFailed entry updated, update.OnlyProperties := by
  induction updated with
  | nil =>
    intro update hu
    rw [List.mem_singleton.mp hu]
    exact ⟨rfl, rfl, rfl⟩
  | cons head rest ih =>
    have hhead := h head List.mem_cons_self
    have hrest := fun update hu => h update (List.mem_cons_of_mem _ hu)
    unfold markFailed
    split_ifs
    · rw [List.forall_mem_cons]
      exact ⟨⟨hhead.sameName, hhead.sameClass, hhead.sameMetadata⟩, hrest⟩
    · rw [List.forall_mem_cons]
      exact ⟨hhead, ih hrest⟩

theorem onlyProperties_applyDeferredRef (w : Work V E) (entry : DeferredRef)
    (h : ∀ update ∈ w.unapplied.updated, update.OnlyProperties) :
    ∀ update ∈ (applyDeferredRef w entry).unapplied.updated, update.OnlyProperties := by
  have hfailed := onlyProperties_markFailed entry h
  unfold applyDeferredRef
  dsimp only
  split
  · exact hfailed
  · split
    · exact h
    · exact hfailed

/-- What cannot be assigned comes back as updates that change properties only. -/
theorem onlyProperties_applyDeferredRefs (w : Work V E)
    (h : ∀ update ∈ w.unapplied.updated, update.OnlyProperties) :
    ∀ update ∈ (applyDeferredRefs w).unapplied.updated, update.OnlyProperties := by
  unfold applyDeferredRefs
  induction w.deferredRefs generalizing w with
  | nil => exact h
  | cons entry refs ih => exact ih _ (onlyProperties_applyDeferredRef w entry h)

/-! ## Applying such a patch -/

variable [Decoder E V]

/-- Updates with references only have been taken up: they wait for the end, and those of ids that
are not mapped come back. -/
structure TakenUp (updates : List (Update E)) (w w' : Work V E) : Prop where
  fromIds : w'.map.fromIds = w.map.fromIds
  fromInstances : w'.map.fromInstances = w.map.fromInstances
  dom : w'.dom = w.dom
  added : w'.unapplied.added = w.unapplied.added
  updated : ∀ update, update ∈ w'.unapplied.updated ↔ update ∈ w.unapplied.updated ∨
    update ∈ updates ∧ w.map.fromIds.lookup update.id = none
  deferredRefs : ∀ entry, entry ∈ w'.deferredRefs ↔ entry ∈ w.deferredRefs ∨
    ∃ update ∈ updates, update.id = entry.id ∧
      w.map.fromIds.lookup update.id = some entry.instance' ∧
      update.changedProperties.lookup entry.propertyName = some (.ref entry.refId)

omit [Engine V] [Decoder E V] in
theorem mem_refsOf {id : String} {inst : Handle} {properties : Map String (EncodedValue E)}
    (entry : DeferredRef) :
    entry ∈ refsOf id inst properties.entries ↔ entry.id = id ∧ entry.instance' = inst ∧
      properties.lookup entry.propertyName = some (.ref entry.refId) := by
  unfold refsOf
  rw [List.mem_filterMap]
  constructor
  · rintro ⟨⟨name, value⟩, he, hv⟩
    cases value with
    | other value => cases hv
    | ref refId =>
      obtain rfl := Option.some.inj hv
      exact ⟨rfl, rfl, AList.mem_lookup_iff.mpr he⟩
  · obtain ⟨id', inst', name, refId⟩ := entry
    rintro ⟨rfl, rfl, hl⟩
    exact ⟨⟨name, .ref refId⟩, AList.mem_lookup_iff.mp hl, rfl⟩

theorem OnlyRefs.entries {properties : Map String (EncodedValue E)} {className : String}
    (h : ∀ e ∈ properties.entries, ∃ refId, e.2 = .ref refId)
    (held : String → Option (LuaValue V)) :
    heldAfter className held properties.entries = held ∧
      unassigned V className properties.entries = ∅ := by
  unfold heldAfter unassigned
  generalize (∅ : Map String (EncodedValue E)) = before
  generalize properties.entries = entries at h
  induction entries with
  | nil => exact ⟨rfl, rfl⟩
  | cons e entries ih =>
    obtain ⟨refId, hv⟩ := h e List.mem_cons_self
    obtain ⟨hheld, hbefore⟩ := ih fun e he => h e (List.mem_cons_of_mem _ he)
    rw [List.foldl_cons, List.foldl_cons]
    unfold heldStep unassignedStep
    rw [hv]
    exact ⟨hheld, hbefore⟩

/-- One update. -/
theorem exists_takenUp (w : Work V E) {update : Update E} (ho : update.OnlyRefs) :
    ∃ w', applyUpdated w update = some w' ∧ TakenUp [update] w w' := by
  cases hm : w.map.fromIds.lookup update.id with
  | none =>
    refine ⟨_, by unfold applyUpdated; rw [hm], ?_⟩
    exact
      { fromIds := rfl, fromInstances := rfl, dom := rfl, added := rfl
        updated := fun u => by simp only [List.mem_append, List.mem_singleton]; grind
        deferredRefs := fun entry => by simp [hm] }
  | some inst =>
    have hheld : ∀ held, heldAfter (w.dom.instances inst).className held
        update.changedProperties.entries = held ∧
        unassigned V (w.dom.instances inst).className update.changedProperties.entries = ∅ :=
      fun held => OnlyRefs.entries ho.refs held
    have hdom : (w.dom.modify inst fun i => { i with
        properties := heldAfter (w.dom.instances inst).className i.properties
          update.changedProperties.entries }) = w.dom := by
      simp only [hheld]
      exact w.dom.modify_id inst
    refine ⟨{ w with
      map := w.map.pauseInstance inst
      deferredRefs := w.deferredRefs ++ refsOf update.id inst update.changedProperties.entries },
      ?_, ?_⟩
    · unfold applyUpdated
      rw [hm]
      simp only [ho.sameClass, ho.sameName, ho.sameMetadata, Dom.applyName]
      rw [assignProperties_eq rfl, hdom, (hheld fun _ => none).2]
      simp
    · exact
        { fromIds := InstanceMap.pauseInstance_fromIds _ _
          fromInstances := InstanceMap.pauseInstance_fromInstances _ _
          dom := rfl, added := rfl
          updated := fun u => by
            simp only [List.mem_singleton]
            refine (or_iff_left ?_).symm
            rintro ⟨rfl, h⟩
            rw [hm] at h
            cases h
          deferredRefs := fun entry => by
            simp only [List.mem_append, mem_refsOf, List.mem_singleton, exists_eq_left, hm,
              Option.some.injEq]
            grind }

omit [Engine V] [Decoder E V] in
theorem TakenUp.trans {updates updates' : List (Update E)} {w w' w'' : Work V E}
    (ht : TakenUp updates w w') (ht' : TakenUp updates' w' w'') :
    TakenUp (updates ++ updates') w w'' where
  fromIds := ht'.fromIds.trans ht.fromIds
  fromInstances := ht'.fromInstances.trans ht.fromInstances
  dom := ht'.dom.trans ht.dom
  added := ht'.added.trans ht.added
  updated update := by
    rw [ht'.updated, ht.updated, ht.fromIds, List.mem_append]
    grind
  deferredRefs entry := by
    rw [ht'.deferredRefs, ht.deferredRefs, ht.fromIds]
    simp only [List.mem_append]
    grind

/-- The updates one after the other. -/
theorem exists_foldlM_takenUp {updates : List (Update E)} (w : Work V E)
    (ho : ∀ update ∈ updates, update.OnlyRefs) :
    ∃ w', updates.foldlM applyUpdated w = some w' ∧ TakenUp updates w w' := by
  induction updates generalizing w with
  | nil => exact ⟨w, rfl, rfl, rfl, rfl, rfl, fun _ => by simp, fun _ => by simp⟩
  | cons update updates ih =>
    obtain ⟨v, hv, hstep⟩ := exists_takenUp w (ho update List.mem_cons_self)
    obtain ⟨w', hw', hrest⟩ := ih v fun u hu => ho u (List.mem_cons_of_mem _ hu)
    refine ⟨w', ?_, hstep.trans hrest⟩
    rw [List.foldlM_cons, hv]
    exact hw'

/-- What applying a patch with references only leaves. -/
theorem exists_applyPatch_onlyRefs (dom : Dom V) (map : InstanceMap) {patch : PatchSet E}
    (ho : patch.OnlyRefs) (order : List String) :
    ∃ w, applyPatch dom map patch order = some w ∧ w.map.fromIds = map.fromIds ∧
      w.unapplied.added = ∅ ∧ (∀ update ∈ w.unapplied.updated, update.OnlyProperties) ∧
      ∀ id p, w.unapplied.Reports id p ↔ patch.LeavesRef dom map id p := by
  obtain ⟨v, hv, ht⟩ := exists_foldlM_takenUp (Work.start dom map) ho.updated
  have horder : order.foldlM (applyAdded patch.added) (Work.start dom map) =
      some (Work.start dom map) := by
    induction order with
    | nil => rfl
    | cons id order ih =>
      have hid : applyAdded patch.added (Work.start dom map) id = some (Work.start dom map) := by
        unfold applyAdded
        rw [ho.added]
        rfl
      rw [List.foldlM_cons, hid]
      exact ih
  have hr := applyDeferredRefs_referred v
  refine ⟨applyDeferredRefs v, ?_, ?_, ?_, ?_, fun id p => ?_⟩
  · unfold applyPatch
    rw [ho.removed, List.foldl_nil]
    dsimp only
    rw [horder]
    simp only [Option.bind_eq_bind, Option.bind_some]
    rw [hv]
    rfl
  · rw [hr.map, ht.fromIds]
    rfl
  · rw [hr.added, ht.added]
    rfl
  · refine onlyProperties_applyDeferredRefs v fun update hu => ?_
    obtain hu | ⟨hu, -⟩ := (ht.updated update).mp hu
    · cases hu
    · exact (ho.updated update hu).toOnlyProperties
  · rw [applyDeferredRefs_reports]
    unfold PatchSet.Reports PatchSet.LeavesRef Unassignable
    constructor
    · rintro (⟨update, hu, rfl, hp⟩ | ⟨entry, he, ⟨rfl, rfl⟩, hf⟩)
      · obtain hu | ⟨hu, hm⟩ := (ht.updated update).mp hu
        · cases hu
        · obtain ⟨value, hl⟩ := AList.lookup_isSome.mpr hp |> Option.isSome_iff_exists.mp
          obtain ⟨refId, hv⟩ := (ho.updated update hu).refs _ (AList.mem_lookup_iff.mp hl)
          refine ⟨update, hu, rfl, refId, hl.trans (congrArg some hv), ?_⟩
          rw [show map.fromIds.lookup update.id = none from hm]
          trivial
      · obtain he | ⟨update, hu, hid, hm, hl⟩ := (ht.deferredRefs entry).mp he
        · cases he
        · refine ⟨update, hu, hid, entry.refId, hl, ?_⟩
          rw [show map.fromIds.lookup entry.id = some entry.instance' from hid ▸ hm]
          rw [ht.dom] at hf
          have : v.map.fromIds = map.fromIds := ht.fromIds
          unfold RefFails at hf ⊢
          rw [this] at hf
          exact hf
    · rintro ⟨update, hu, rfl, refId, hl, hf⟩
      cases hm : map.fromIds.lookup update.id with
      | none =>
        refine Or.inl ⟨update, (ht.updated update).mpr (.inr ⟨hu, hm⟩), rfl, ?_⟩
        exact AList.lookup_isSome.mp (by rw [hl]; rfl)
      | some inst =>
        rw [hm] at hf
        refine Or.inr ⟨⟨update.id, inst, p, refId⟩,
          (ht.deferredRefs _).mpr (.inr ⟨update, hu, rfl, hm, hl⟩), ⟨rfl, rfl⟩, ?_⟩
        rw [ht.dom]
        have : v.map.fromIds = map.fromIds := ht.fromIds
        unfold RefFails at hf ⊢
        rw [this]
        exact hf

end Roxo.Plugin
