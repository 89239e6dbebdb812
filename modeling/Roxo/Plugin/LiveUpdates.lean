import Roxo.Plugin.Tracks

/-!
# Live updates

An update that changes no class sets the name and assigns the properties of the instance. An update
that changes the class builds a new instance from the update alone and moves the children to it.
-/

namespace Roxo.Plugin

open AssocMap Forest Replica

variable {V E : Type} [Engine V] [Decoder E V]

/-- What an update writes to a table of properties: to those of the instance, or to those of a new
instance if the class changes. -/
def heldUpdate (className : String) (u : Update E) (held : String → Option (LuaValue V)) :
    String → Option (LuaValue V) :=
  match u.changedClassName with
  | some newClass => heldAfter newClass (fun _ => none) u.changedProperties.entries
  | none => heldAfter className held u.changedProperties.entries

/-- The entry after an update, as far as the instances show it. -/
structure UpdatedEntry (u : Update E) (e e' : ReplicaInstance) : Prop where
  name : e'.name = u.changedName.getD e.name
  className : e'.className = u.changedClassName.getD e.className
  parent : e'.parent = e.parent

/-- The class that an update leaves can be created and takes the properties of the update. -/
structure Writable (V : Type) {E : Type} [Engine V] [Decoder E V] (u : Update E) (className : String) :
    Prop where
  creatable : Engine.creatable V className = true
  assignable : Assignable V className u.changedProperties.entries

/-- What the instances of updated ids hold after the updates. -/
structure HeldAfterUpdates (wire : Wire E) (updates : List AppliedPatchUpdate)
    (replica : Store Ref ReplicaInstance) (held held' : Ref → String → Option (LuaValue V)) :
    Prop where
  updated : ∀ u ∈ updates, ∀ e, replica u.id = some e →
    held' u.id = heldUpdate e.className (wire.applied u) (held u.id)
  others : ∀ r, r ∉ updates.map AppliedPatchUpdate.id → held' r = held r

/-- Metadata cannot be applied, which changes nothing else. -/
theorem applyUpdated_metadata (w : Work V E) (u : Update E) (hclass : u.changedClassName = none) :
    ∃ unapplied, applyUpdated w u =
      (applyUpdated w { u with changedMetadata := none }).map fun w' => { w' with unapplied } := by
  unfold applyUpdated
  dsimp only
  cases w.map.fromIds.lookup u.id with
  | none => exact ⟨_, rfl⟩
  | some inst =>
    dsimp only
    rw [hclass]
    exact ⟨_, rfl⟩

namespace Tracks

variable {wire : Wire E} {replica : Store Ref ReplicaInstance}
  {held : Ref → String → Option (LuaValue V)} {w : Work V E} {root r : Ref} {u : Update E}
  {e e' : ReplicaInstance}

/-- An update that changes no class. -/
theorem exists_update (ht : Tracks wire root replica held w.dom w.map) (hid : u.id = wire.text r)
    (he : replica r = some e) (hclass : u.changedClassName = none)
    (ha : Assignable V e.className u.changedProperties.entries) (hu : UpdatedEntry u e e') :
    ∃ w', applyUpdated w u = some w' ∧ w'.deferredRefs = w.deferredRefs ∧
      Tracks wire root (Function.update replica r (some e'))
        (Function.update held r (heldUpdate e.className u (held r))) w'.dom w'.map := by
  obtain ⟨inst, hm, hf⟩ := ht.mapped he
  have happ : Applicable w { u with changedMetadata := none } inst :=
    { mapped := hid ▸ hm, sameClass := hclass, sameMetadata := rfl, named := .inr hf.accessible
      assignable := hf.className ▸ ha }
  obtain ⟨w', hrun, hdone⟩ := exists_applyUpdated ht.inverse happ
  obtain ⟨unapplied, hsame⟩ := applyUpdated_metadata w u hclass
  have hinst := hdone.updated _ (List.mem_singleton_self _) inst happ.mapped
  have hother : ∀ {y h}, w.map.fromIds.lookup (wire.text y) = some h → y ≠ r →
      w'.dom.instances h = w.dom.instances h := by
    intro y h hy hyr
    refine hdone.others h fun u' hu' hmap => hyr ?_
    rw [List.mem_singleton.mp hu'] at hmap
    exact wire.text_injective (ht.inverse.eq_of_fromIds hy (hid ▸ hmap))
  refine ⟨{ w' with unapplied }, by rw [hsame, hrun]; rfl, hdone.deferredRefs, ?_⟩
  refine { wellFormed := hdone.wellFormed ht.wellFormed, inverse := hdone.inverse
           ids := fun {id h} hmap => ?_, mapped := fun {y ey} hy => ?_ }
  · rw [hdone.fromIds] at hmap
    obtain ⟨y, ey, rfl, hy⟩ := ht.ids hmap
    by_cases hyr : y = r
    · exact ⟨y, e', rfl, by rw [hyr, Function.update_self]⟩
    · exact ⟨y, ey, rfl, by rw [Function.update_of_ne hyr, hy]⟩
  · by_cases hyr : y = r
    · subst hyr
      rw [Function.update_self, Option.some.injEq] at hy
      subst hy
      refine ⟨inst, (hdone.fromIds _).trans hm, ?_⟩
      rw [Function.update_self]
      exact
        { lt := hdone.next ▸ hf.lt
          name := by
            rw [hinst, hu.name, ← hf.name]
            rfl
          className := by
            rw [hinst, hu.className, hclass, ← hf.className]
            rfl
          accessible := by
            rw [hinst]
            exact hf.accessible
          unlocked := by
            rw [hinst]
            exact hf.unlocked
          properties := by
            rw [hinst]
            unfold heldUpdate
            rw [hclass, ← hf.className, ← hf.properties]
            rfl
          parent := by rw [hdone.parent, hdone.fromIds, hu.parent, hf.parent] }
    · rw [Function.update_of_ne hyr] at hy
      obtain ⟨h, hmap, hf'⟩ := ht.mapped hy
      have heq := hother hmap hyr
      refine ⟨h, (hdone.fromIds _).trans hmap, ?_⟩
      rw [Function.update_of_ne hyr]
      exact
        { lt := hdone.next ▸ hf'.lt, name := heq ▸ hf'.name, className := heq ▸ hf'.className
          accessible := heq ▸ hf'.accessible
          unlocked := heq ▸ hf'.unlocked
          properties := heq ▸ hf'.properties
          parent := by rw [hdone.parent, hdone.fromIds, hf'.parent] }

omit [Engine V] [Decoder E V] in
theorem pause (ht : Tracks wire root replica held w.dom w.map) (inst : Handle) :
    Tracks wire root replica held w.dom (w.map.pauseInstance inst) := by
  have hids := w.map.pauseInstance_fromIds inst
  refine { wellFormed := ht.wellFormed, inverse := ht.inverse.pauseInstance inst
           ids := fun {id h} hm => ?_, mapped := fun {y ey} hy => ?_ }
  · rw [hids] at hm
    exact ht.ids hm
  · obtain ⟨h, hm, hf⟩ := ht.mapped hy
    refine ⟨h, hids ▸ hm, { hf with parent := ?_ }⟩
    rw [hids]
    exact hf.parent

/-- What building the new instance leaves: one more instance beside the old one, with the id. -/
structure Rebuilt (u : Update E) (newClass newName : String) (inst : Handle) (w w' : Work V E) :
    Prop where
  wellFormed : w'.dom.WellFormed
  inverse : w'.map.Inverse
  next : w'.dom.next = w.dom.next + 1
  deferredRefs : w'.deferredRefs = w.deferredRefs
  name : (w'.dom.instances w.dom.next).name = newName
  className : (w'.dom.instances w.dom.next).className = newClass
  accessible : (w'.dom.instances w.dom.next).accessible = true
  locked : (w'.dom.instances w.dom.next).locked = false
  properties : (w'.dom.instances w.dom.next).properties =
    heldAfter newClass (fun _ => none) u.changedProperties.entries
  newParent : w'.dom.parent w.dom.next = w.dom.parent inst
  old : ∀ h < w.dom.next, w'.dom.instances h =
    { w.dom.instances h with children := w'.dom.getChildren h }
  fromIds : ∀ id, w'.map.fromIds.lookup id =
    if id = u.id then some w.dom.next else w.map.fromIds.lookup id

/-- The virtual instance that stands for the new instance. -/
def mockInstance (u : Update E) (newClass newName : String) : VirtualInstance E :=
  { id := u.id, parent := none, name := newName, className := newClass
    properties := u.changedProperties, metadata := none, children := [] }

omit [Engine V] [Decoder E V] in
theorem lookup_singleton {α : Type} (k id : String) (a : α) :
    (AList.singleton k a : Map String α).lookup id = if id = k then some a else none := by
  have hempty : (∅ : Map String α).insert k a = AList.singleton k a := AList.insert_empty _ _
  rw [← hempty, lookup_insert_eq, AList.lookup_empty]

theorem exists_rebuilt (ht : Tracks wire root replica held w.dom w.map) (inst : Handle)
    (hinst : ∀ p, w.dom.parent inst = some p → p < w.dom.next) {newClass : String} (newName : String)
    (hw : Writable V u newClass) :
    ∃ failedToReify w₁ w', reifyInstance (AList.singleton u.id (mockInstance u newClass newName))
        u.id (w.dom.parent inst) w = some (failedToReify, w₁) ∧
      (if failedToReify.isEmpty then w₁
        else { w₁ with unapplied := w₁.unapplied.assign failedToReify }) = w' ∧
      w₁.dom = w'.dom ∧ w₁.map = w'.map ∧ Rebuilt u newClass newName inst w w' := by
  generalize hadded : (AList.singleton u.id (mockInstance u newClass newName) :
    Map String (VirtualInstance E)) = added
  have hlookup : ∀ id, added.lookup id =
      if id = u.id then some (mockInstance u newClass newName) else none := by
    intro id
    rw [← hadded]
    exact lookup_singleton _ _ _
  have hkids : ∀ id, kids added id = [] := by
    intro id
    unfold kids
    rw [hlookup]
    split_ifs <;> rfl
  have hmem : u.id ∈ added := AList.lookup_isSome.mp (by rw [hlookup, if_pos rfl]; rfl)
  have hnested : Nested added :=
    { forest :=
        { nodup := fun a => by
            rw [hkids]
            exact List.nodup_nil
          unique := fun h => by
            rw [hkids] at h
            cases h
          acyclic := ⟨fun _ => 0, fun a b h => by
            rw [hkids] at h
            cases h⟩ }
      present := fun h => by
        rw [hkids] at h
        cases h }
  have hready : w.Ready :=
    { inverse := ht.inverse
      mapped := fun {id h} hm => by
        obtain ⟨y, ey, rfl, hy⟩ := ht.ids hm
        exact (ht.fits hm hy).lt }
  obtain ⟨failedToReify, w₁, log, hrun, hids, hg⟩ := exists_reifyInstance hnested hmem hready hinst
  have hlength : added.keys.length = 1 := by
    rw [← hadded]
    rfl
  have hcreatable : Creatable V added u.id :=
    ⟨_, by rw [hlookup, if_pos rfl], hw.creatable⟩
  have hgrown : grown V added added.keys.length u.id = [u.id] := by
    rw [hlength]
    unfold grown
    rw [if_pos hcreatable, hkids]
    rfl
  rw [hgrown] at hids
  obtain ⟨entry, rfl⟩ : ∃ entry, log = [entry] := by
    refine List.length_eq_one_iff.mp ?_
    rw [← List.length_map Entry.id, hids]
    rfl
  have hid : entry.id = u.id := List.singleton_inj.mp hids
  have hnew : entry.inst = w.dom.next := by
    have hhandles := hg.handles
    simpa using hhandles
  have hentry : entry ∈ [entry] := List.mem_singleton_self entry
  have hparent : entry.parent = w.dom.parent inst := by
    rcases hg.parents entry hentry with ⟨-, hp⟩ | ⟨e', -, hkid, -⟩
    · exact hp
    · rw [hkids] at hkid
      cases hkid
  obtain ⟨v, hv, hinstance⟩ := hg.new entry hentry
  rw [hlookup, if_pos hid, Option.some.injEq] at hv
  subst hv
  rw [hnew] at hinstance
  refine ⟨failedToReify, w₁, _, hrun, rfl, by split_ifs <;> rfl, by split_ifs <;> rfl, ?_⟩
  have hrefs : [entry].flatMap (refsOfEntry added) = [] := by
    rw [List.flatMap_singleton]
    unfold refsOfEntry
    rw [hlookup, if_pos hid]
    exact hw.assignable.refsOf_eq _ _
  refine
    { wellFormed := hg.wellFormed ht.wellFormed, inverse := hg.inverse, next := hg.next
      deferredRefs := by rw [hg.deferredRefs, hrefs, List.append_nil]
      name := by rw [hinstance]; rfl
      className := by rw [hinstance]; rfl
      accessible := by rw [hinstance]; rfl
      locked := by rw [hinstance]; rfl
      properties := by rw [hinstance]; rfl
      newParent := ?_, old := fun h hlt => ?_, fromIds := fun id => ?_ }
  · unfold Dom.parent
    rw [hinstance]
    exact hparent
  · unfold Dom.getChildren
    rw [hg.old h hlt]
  · by_cases h : id = u.id
    · rw [if_pos h, h, ← hid, hg.fromIds entry hentry, hnew]
    · rw [if_neg h]
      refine hg.others id fun e' he' heq => h ?_
      rw [← heq, List.mem_singleton.mp he', hid]

/-- The children go over to the new instance, and the old one leaves the DOM. -/
theorem exists_applyClassChange (ht : Tracks wire root replica held w.dom w.map) {inst : Handle}
    (hid : u.id = wire.text r) (he : replica r = some e)
    (hm : w.map.fromIds.lookup (wire.text r) = some inst) {newClass : String}
    (hclass : u.changedClassName = some newClass) (hw : Writable V u newClass)
    (hu : UpdatedEntry u e e') :
    ∃ w', applyClassChange w u inst newClass = some w' ∧ w'.deferredRefs = w.deferredRefs ∧
      Tracks wire root (Function.update replica r (some e'))
        (Function.update held r (heldUpdate e.className u (held r))) w'.dom w'.map := by
  have hwf := ht.wellFormed
  have hf := ht.fits hm he
  generalize hnewName : u.changedName.getD (w.dom.instances inst).name = newName
  obtain ⟨failedToReify, w₁, w₂, hrun, hw₂, hdom, hmap, hb⟩ := ht.exists_rebuilt inst
    (fun p hp => (hwf.below hp).1) newName hw
  have hne : inst ≠ w.dom.next := Nat.ne_of_lt hf.lt
  have hlookup : w₁.map.fromIds.lookup u.id = some w.dom.next := by
    rw [hmap, hb.fromIds, if_pos rfl]
  -- the instances of `w₂` below the old one are the old children
  have hparent₂ : ∀ h, h < w.dom.next → w₂.dom.parent h = w.dom.parent h := by
    intro h hh
    unfold Dom.parent
    rw [hb.old h hh]
  have hself : w.dom.parent inst ≠ some inst :=
    fun h => hwf.forest.ne_of_mem (hwf.parent_iff.mpr h) rfl
  have hmem : ∀ h, h ∈ w₂.dom.getChildren inst ↔ h < w.dom.next ∧ w.dom.parent h = some inst := by
    intro h
    rw [hb.wellFormed.parent_iff]
    constructor
    · intro hp
      have hlt := (hb.wellFormed.below hp).2
      rw [hb.next] at hlt
      rcases Nat.lt_succ_iff_lt_or_eq.mp hlt with hlt | rfl
      · exact ⟨hlt, hparent₂ h hlt ▸ hp⟩
      · rw [hb.newParent] at hp
        exact absurd hp hself
    · rintro ⟨hlt, hp⟩
      rw [hparent₂ h hlt, hp]
  have hsibling : w₂.dom.parent w.dom.next = w₂.dom.parent inst := by
    rw [hb.newParent, hparent₂ inst hf.lt]
  have hnd := hb.wellFormed.forest.nodup inst
  have hchildren : ∀ c ∈ w₂.dom.getChildren inst, w₂.dom.parent c = some inst :=
    fun c hc => hb.wellFormed.parent_iff.mp hc
  obtain ⟨-, hmoved⟩ := Dom.moveAll_spec hne rfl hnd hchildren
  have hlt : w.dom.next < w₂.dom.next := by
    rw [hb.next]
    exact Nat.lt_succ_self _
  generalize hdom₃ : (w₂.dom.moveAll (fun _ => true) (w₂.dom.getChildren inst)
    w.dom.next).setParent inst none = dom₃
  have hwf₃ : dom₃.WellFormed :=
    hdom₃ ▸ (hb.wellFormed.moveAll hlt hne hsibling hchildren hnd).setParent_none inst
  have hsame : Dom.SameInstances w₂.dom dom₃ :=
    hdom₃ ▸ (Dom.SameInstances.moveAll _ _ _).trans (.setParent _ _ _)
  have hparent₃ : ∀ h, dom₃.parent h = if h = inst then none
      else if h ∈ w₂.dom.getChildren inst then some w.dom.next else w₂.dom.parent h := by
    intro h
    rw [← hdom₃, Dom.setParent_parent, hmoved]
  refine ⟨{ w₂ with dom := dom₃ }, ?_, hb.deferredRefs, ?_⟩
  · unfold applyClassChange
    dsimp only
    rw [hnewName]
    have hrun' := hrun
    unfold mockInstance at hrun'
    rw [hrun']
    dsimp only [Option.bind_eq_bind, Option.bind_some]
    rw [hlookup]
    dsimp only [Option.bind_some]
    rw [if_neg, hw₂, ← hdom₃]
    · rfl
    · rintro (heq | hname)
      · exact hne heq
      · rw [hdom, hb.name] at hname
        exact hname rfl
  · refine { wellFormed := hwf₃, inverse := hb.inverse, ids := fun {id h} hmapped => ?_
             mapped := fun {y ey} hy => ?_ }
    · rw [hb.fromIds] at hmapped
      split_ifs at hmapped with hidr
      · exact ⟨r, e', (hidr.trans hid).symm, Function.update_self _ _ _⟩
      · obtain ⟨y, ey, rfl, hy⟩ := ht.ids hmapped
        refine ⟨y, ey, rfl, ?_⟩
        rw [Function.update_of_ne fun hyr => hidr (by rw [hyr, hid]), hy]
    · by_cases hyr : y = r
      · subst hyr
        rw [Function.update_self, Option.some.injEq] at hy
        subst hy
        refine ⟨w.dom.next, by rw [hb.fromIds, if_pos hid.symm], ?_⟩
        rw [Function.update_self]
        have hnotmem : w.dom.next ∉ w₂.dom.getChildren inst := fun h => by
          have := ((hmem _).mp h).1
          lia
        have hinst := hsame.instances w.dom.next
        refine
          { lt := hsame.next ▸ hlt, name := ?_, className := ?_, accessible := ?_
            unlocked := fun _ => ?_, properties := ?_, parent := ?_ }
        · rw [hinst, hu.name, ← hf.name, hnewName]
          exact hb.name
        · rw [hinst, hu.className, hclass]
          exact hb.className
        · rw [hinst]
          exact hb.accessible
        · rw [hinst]
          exact hb.locked
        · rw [hinst]
          unfold heldUpdate
          rw [hclass]
          exact hb.properties
        · have hnotself : wire.text e.parent ≠ u.id := by
            intro heq
            have hparent := hf.parent
            rw [heq, hid, hm] at hparent
            exact hself hparent
          rw [hparent₃, if_neg hne.symm, if_neg hnotmem, hb.newParent, hu.parent, hb.fromIds,
            if_neg hnotself, hf.parent]
      · rw [Function.update_of_ne hyr] at hy
        obtain ⟨h, hmapped, hf'⟩ := ht.mapped hy
        have hhi : h ≠ inst := by
          rintro rfl
          exact hyr (wire.text_injective (ht.inverse.eq_of_fromIds hmapped hm))
        refine ⟨h, ?_, ?_⟩
        · rw [hb.fromIds, if_neg, hmapped]
          rw [hid]
          exact fun heq => hyr (wire.text_injective heq)
        · rw [Function.update_of_ne hyr]
          have hinst : dom₃.instances h = { w.dom.instances h with
              parent := dom₃.parent h, children := dom₃.getChildren h } := by
            rw [hsame.instances, hb.old h hf'.lt]
          have hchild : h ∈ w₂.dom.getChildren inst ↔ w.dom.parent h = some inst := by
            rw [hmem]
            exact and_iff_right hf'.lt
          have hparent : dom₃.parent h =
              if w.dom.parent h = some inst then some w.dom.next else w.dom.parent h := by
            rw [hparent₃, if_neg hhi, hparent₂ h hf'.lt]
            simp only [hchild]
          refine
            { lt := ?_, name := ?_, className := ?_, accessible := ?_, unlocked := ?_
              properties := ?_, parent := ?_ }
          · have := hf'.lt
            rw [hsame.next, hb.next]
            lia
          · rw [hinst]
            exact hf'.name
          · rw [hinst]
            exact hf'.className
          · rw [hinst]
            exact hf'.accessible
          · rw [hinst]
            exact hf'.unlocked
          · rw [hinst]
            exact hf'.properties
          · have hiff : w.dom.parent h = some inst ↔ wire.text ey.parent = u.id := by
              rw [hf'.parent, hid]
              refine ⟨fun heq => ht.inverse.eq_of_fromIds heq hm, fun heq => ?_⟩
              rw [heq, hm]
            rw [hparent, hb.fromIds]
            simp only [hiff]
            split_ifs
            · rfl
            · exact hf'.parent

/-- An update that changes the class. -/
theorem exists_classChange (ht : Tracks wire root replica held w.dom w.map) (hid : u.id = wire.text r)
    (he : replica r = some e) {newClass : String} (hclass : u.changedClassName = some newClass)
    (hw : Writable V u newClass) (hu : UpdatedEntry u e e') :
    ∃ w', applyUpdated w u = some w' ∧ w'.deferredRefs = w.deferredRefs ∧
      Tracks wire root (Function.update replica r (some e'))
        (Function.update held r (heldUpdate e.className u (held r))) w'.dom w'.map := by
  obtain ⟨inst, hm, -⟩ := ht.mapped he
  obtain ⟨w', hrun, hrefs, htracks⟩ := Tracks.exists_applyClassChange
    (w := { w with map := w.map.pauseInstance inst }) (ht.pause inst) hid he
    (show (w.map.pauseInstance inst).fromIds.lookup _ = _ by
      rw [InstanceMap.pauseInstance_fromIds, hm]) hclass hw hu
  refine ⟨w', ?_, hrefs, htracks⟩
  unfold applyUpdated
  rw [hid, hm]
  dsimp only
  rw [hclass]
  exact hrun

/-- Any update whose class and properties can be written. -/
theorem exists_applyUpdated (ht : Tracks wire root replica held w.dom w.map) (hid : u.id = wire.text r)
    (he : replica r = some e) (hw : Writable V u (u.changedClassName.getD e.className))
    (hu : UpdatedEntry u e e') :
    ∃ w', applyUpdated w u = some w' ∧ w'.deferredRefs = w.deferredRefs ∧
      Tracks wire root (Function.update replica r (some e'))
        (Function.update held r (heldUpdate e.className u (held r))) w'.dom w'.map := by
  cases hclass : u.changedClassName with
  | none =>
    rw [hclass] at hw
    exact ht.exists_update hid he hclass hw.assignable hu
  | some newClass =>
    rw [hclass] at hw
    exact ht.exists_classChange hid he hclass hw hu

omit [Engine V] [Decoder E V] in
theorem updatedEntry (wire : Wire E) (u : AppliedPatchUpdate) (e : ReplicaInstance) :
    UpdatedEntry (wire.applied u) e (e.update u) := ⟨rfl, rfl, rfl⟩

/-- Updates of different ids, one after the other. -/
theorem exists_foldlM_applyUpdated {updates : List AppliedPatchUpdate}
    (ht : Tracks wire root replica held w.dom w.map) (hnd : (updates.map AppliedPatchUpdate.id).Nodup)
    (hw : ∀ u ∈ updates, ∃ e, replica u.id = some e ∧
      Writable V (wire.applied u) (u.changedClassName.getD e.className)) :
    ∃ w' held', (updates.map wire.applied).foldlM applyUpdated w = some w' ∧
      w'.deferredRefs = w.deferredRefs ∧
      Tracks wire root (updates.foldl (change AppliedPatchUpdate.id ReplicaInstance.update) replica)
        held' w'.dom w'.map ∧ HeldAfterUpdates wire updates replica held held' := by
  induction updates generalizing w replica held with
  | nil => exact ⟨w, held, rfl, rfl, ht, fun u hu => absurd hu List.not_mem_nil, fun _ _ => rfl⟩
  | cons u updates ih =>
    obtain ⟨hnot, hnd⟩ := List.nodup_cons.mp hnd
    obtain ⟨e, he, hwrite⟩ := hw u List.mem_cons_self
    obtain ⟨w₁, hrun, hrefs, ht₁⟩ := ht.exists_applyUpdated (r := u.id) (u := wire.applied u) rfl he hwrite
      (updatedEntry wire u e)
    have hchange : change AppliedPatchUpdate.id ReplicaInstance.update replica u =
        Function.update replica u.id (some (e.update u)) := by
      funext y
      unfold change
      split_ifs with hy
      · rw [hy, he, Function.update_self]
        rfl
      · rw [Function.update_of_ne hy]
    rw [← hchange] at ht₁
    have hother : ∀ {v}, v ∈ updates → v.id ≠ u.id :=
      fun hv heq => hnot (heq ▸ List.mem_map_of_mem hv)
    obtain ⟨w₂, held₂, hrun₂, hrefs₂, ht₂, hheld⟩ := ih ht₁ hnd fun v hv => by
      obtain ⟨ev, hev, hwv⟩ := hw v (List.mem_cons_of_mem _ hv)
      refine ⟨ev, ?_, hwv⟩
      rw [hchange, Function.update_of_ne (hother hv), hev]
    refine ⟨w₂, held₂, ?_, hrefs₂.trans hrefs, ht₂, ?_, fun r hr => ?_⟩
    · rw [List.map_cons, List.foldlM_cons, hrun]
      exact hrun₂
    · intro v hv ev hev
      rcases List.mem_cons.mp hv with rfl | hv
      · rw [hheld.others _ hnot, Function.update_self]
        rw [he, Option.some.injEq] at hev
        rw [hev]
      · rw [hheld.updated v hv ev (by rw [hchange, Function.update_of_ne (hother hv), hev]),
          Function.update_of_ne (hother hv)]
    · rw [List.map_cons, List.mem_cons, not_or] at hr
      rw [hheld.others r hr.2, Function.update_of_ne hr.1]

end Tracks

end Roxo.Plugin
