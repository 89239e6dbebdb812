import Mathlib.Data.Multiset.AddSub
import Roxo.Plugin.DeferredRefs
import Roxo.Plugin.Grown

/-!
# A DOM up to the names of new instances

Two runs hand out references to new instances in different orders. `Work.sight` is what is left of
a state when a new instance is known by its id: an instance that existed before is itself, a new
one is the instance of its id, and the order of children is left aside.
-/

namespace Roxo.Plugin

open AssocMap Forest

variable {V E : Type}

/-- What an instance is known by: itself, the id it has been created for, or nothing but itself
because it has been created and is not in the map. -/
inductive Label where
  | old (inst : Handle)
  | made (id : String)
  | lost (inst : Handle)
  deriving DecidableEq

/-- An instance, the order of its children left aside. -/
structure Sight (V : Type) where
  name : String
  className : String
  archivable : Bool
  accessible : Bool
  locked : Bool
  properties : String → Option (Label ⊕ V)
  parent : Option Label
  children : Multiset Label

def LuaValue.sight (label : Handle → Label) : LuaValue V → Label ⊕ V
  | .inst target => .inl (label target)
  | .other value => .inr value

def Instance.sight (label : Handle → Label) (inst : Instance V) : Sight V where
  name := inst.name
  className := inst.className
  archivable := inst.archivable
  accessible := inst.accessible
  locked := inst.locked
  properties propertyName := (inst.properties propertyName).map (LuaValue.sight label)
  parent := inst.parent.map label
  children := (inst.children.map label : List Label)

/-- What an instance is known by when the references below `start` existed before. -/
def Work.label (w : Work V E) (start inst : Handle) : Label :=
  if inst < start then .old inst
  else
    match w.map.fromInstances.lookup inst with
    | some id => .made id
    | none => .lost inst

theorem Work.label_old (w : Work V E) {start inst : Handle} (h : inst < start) :
    w.label start inst = .old inst := by
  unfold Work.label
  rw [if_pos h]

/-- The state as it is seen by labels. -/
def Work.sight (w : Work V E) (start : Handle) : Label → Option (Sight V)
  | .old inst =>
    if inst < start then some ((w.dom.instances inst).sight (w.label start)) else none
  | .made id =>
    match w.map.fromIds.lookup id with
    | some inst =>
      if start ≤ inst then some ((w.dom.instances inst).sight (w.label start)) else none
    | none => none
  | .lost inst =>
    if start ≤ inst ∧ inst < w.dom.next ∧ w.map.fromInstances.lookup inst = none then
      some ((w.dom.instances inst).sight (w.label start))
    else none

/-- The ids for which something could not be applied. -/
def Work.unappliedIds (w : Work V E) : List String :=
  w.unapplied.added.keys ++ w.unapplied.updated.map Update.id

/-! ## What the instances that grow are seen as -/

variable [Engine V] [Decoder E V]

/-- What an id is known by when instances have been created for `ids`. -/
def idLabel (map : InstanceMap) (ids : List String) (id : String) : Option Label :=
  if id ∈ ids then some (.made id) else (map.fromIds.lookup id).map .old

/-- The parent of an instance that has been created. -/
def parentLabel (map : InstanceMap) (ids : List String) (added : Map String (VirtualInstance E))
    (id : String) : Option Label :=
  (added.lookup id).bind fun v => v.parent.bind (idLabel map ids)

/-- The children that are new. -/
def newChildren (map : InstanceMap) (ids : List String) (added : Map String (VirtualInstance E))
    (label : Label) : Multiset Label :=
  ((ids.filter fun id => parentLabel map ids added id = some label).map .made : List Label)

/-- The properties of an instance after one of its references. -/
def refSight (map : InstanceMap) (ids : List String) (className : String)
    (held : String → Option (Label ⊕ V)) (e : Σ _ : String, EncodedValue E) :
    String → Option (Label ⊕ V) :=
  match e.2 with
  | .other _ => held
  | .ref refId =>
    match idLabel map ids refId, refAssignment V className e.1 with
    | some target, some (some name) => Function.update held name (some (.inl target))
    | _, _ => held

/-- What an instance that has been created is seen as. -/
def newSight (map : InstanceMap) (ids : List String) (added : Map String (VirtualInstance E))
    (id : String) (v : VirtualInstance E) : Sight V where
  name := v.name
  className := v.className
  archivable := true
  accessible := true
  locked := false
  properties := v.properties.entries.foldl (refSight map ids v.className) fun propertyName =>
    (heldAfter v.className (fun _ => none) v.properties.entries propertyName).map
      (LuaValue.sight .old)
  parent := v.parent.bind (idLabel map ids)
  children := newChildren map ids added (.made id)

section Growth

variable {added : Map String (VirtualInstance E)} {map : InstanceMap} {roots missed : List String}
  {w₀ w w' : Work V E} {log : List Entry}

/-- The parent of a virtual instance whose parent is not added. -/
def topParent (added : Map String (VirtualInstance E)) (map : InstanceMap) (id : String) :
    Option Handle :=
  (added.lookup id).bind fun v => v.parent.bind map.fromIds.lookup

/-- The virtual instances form trees below mapped instances, and know their parents. -/
structure Rooted (added : Map String (VirtualInstance E)) (map : InstanceMap) : Prop where
  nested : Nested added
  parent_of_mem : ∀ {p c v}, c ∈ kids added p → added.lookup c = some v → v.parent = some p
  mem_of_parent : ∀ {p c v}, added.lookup c = some v → v.parent = some p → p ∈ added →
    c ∈ kids added p
  mapped : ∀ {c v}, added.lookup c = some v →
    ∃ p, v.parent = some p ∧ (p ∉ added → ∃ inst, map.fromIds.lookup p = some inst)

/-- No virtual instance has it as a child. -/
def Topmost (added : Map String (VirtualInstance E)) (id : String) : Prop :=
  id ∈ added ∧ ∀ p, id ∉ kids added p

/-- What is known when instances have grown below mapped instances. -/
structure Settled (added : Map String (VirtualInstance E)) (roots missed : List String)
    (w₀ w : Work V E) (log : List Entry) : Prop where
  ready : w₀.Ready
  rooted : Rooted added w₀.map
  topmost : ∀ id ∈ roots, Topmost added id
  grew : Grew added (topParent added w₀.map) roots missed w₀ w log
  unique : (log.map Entry.id).Nodup

namespace Settled

variable (hs : Settled added roots missed w₀ w log)

include hs

theorem label_entry {e : Entry} (he : e ∈ log) : w.label w₀.dom.next e.inst = .made e.id := by
  have hge := (hs.grew.inst_mem he).1
  have hid := (hs.grew.inverse e.id e.inst).mp (hs.grew.fromIds e he)
  unfold Work.label
  rw [if_neg (not_lt.mpr hge), hid]

theorem label_fromIds (id : String) :
    (w.map.fromIds.lookup id).map (w.label w₀.dom.next) =
      idLabel w₀.map (log.map Entry.id) id := by
  unfold idLabel
  split_ifs with hid
  · obtain ⟨e, he, rfl⟩ := List.mem_map.mp hid
    rw [hs.grew.fromIds e he, Option.map_some, hs.label_entry he]
  · rw [hs.grew.others id fun e he heq => hid (List.mem_map.mpr ⟨e, he, heq⟩)]
    cases hm : w₀.map.fromIds.lookup id with
    | none => rfl
    | some h => rw [Option.map_some, Option.map_some, w.label_old (hs.ready.mapped hm)]

theorem label_injective {h h' : Handle} (hh : h < w.dom.next) (hh' : h' < w.dom.next)
    (heq : w.label w₀.dom.next h = w.label w₀.dom.next h') : h = h' := by
  rcases lt_or_ge h w₀.dom.next with hlt | hge
  · rw [w.label_old hlt] at heq
    rcases lt_or_ge h' w₀.dom.next with hlt' | hge'
    · rw [w.label_old hlt', Label.old.injEq] at heq
      exact heq
    · obtain ⟨e, he, rfl⟩ := hs.grew.exists_entry hge' hh'
      rw [hs.label_entry he] at heq
      cases heq
  · obtain ⟨e, he, rfl⟩ := hs.grew.exists_entry hge hh
    rw [hs.label_entry he] at heq
    rcases lt_or_ge h' w₀.dom.next with hlt' | hge'
    · rw [w.label_old hlt'] at heq
      cases heq
    · obtain ⟨e', he', rfl⟩ := hs.grew.exists_entry hge' hh'
      rw [hs.label_entry he', Label.made.injEq] at heq
      have h₁ := hs.grew.fromIds e he
      have h₂ := hs.grew.fromIds e' he'
      rw [heq, h₂] at h₁
      exact (Option.some.inj h₁).symm

theorem label_parent {e : Entry} (he : e ∈ log) :
    e.parent.map (w.label w₀.dom.next) =
      parentLabel w₀.map (log.map Entry.id) added e.id := by
  obtain ⟨v, hv, -⟩ := hs.grew.new e he
  unfold parentLabel
  rw [hv, Option.bind_some]
  rcases hs.grew.parents e he with ⟨hroot, hp⟩ | ⟨e', he', hkid, hp⟩
  · obtain ⟨p, hvp, hmapped⟩ := hs.rooted.mapped hv
    have hpa : p ∉ added := fun hpa =>
      (hs.topmost _ hroot).2 p (hs.rooted.mem_of_parent hv hvp hpa)
    obtain ⟨inst, hinst⟩ := hmapped hpa
    have hids : p ∉ log.map Entry.id := by
      intro hmem
      obtain ⟨e', he', rfl⟩ := List.mem_map.mp hmem
      obtain ⟨v', hv', -⟩ := hs.grew.new e' he'
      exact hpa (AList.lookup_isSome.mp (by rw [hv']; rfl))
    rw [hp, topParent, hv, Option.bind_some, hvp, Option.bind_some, Option.bind_some, idLabel,
      if_neg hids, hinst, Option.map_some, Option.map_some,
      w.label_old (hs.ready.mapped hinst)]
  · rw [hp, hs.rooted.parent_of_mem hkid hv, Option.bind_some, Option.map_some,
      hs.label_entry he', idLabel, if_pos (List.mem_map_of_mem he')]

/-- The new children of an instance are seen as the ids whose parent it is. -/
theorem label_attached {h : Handle} (hh : h < w.dom.next) :
    (((attached log h).map (w.label w₀.dom.next) : List Label) : Multiset Label) =
      newChildren w₀.map (log.map Entry.id) added (w.label w₀.dom.next h) := by
  unfold newChildren attached
  rw [List.map_map, List.filter_map, List.map_map]
  have hfilter : (log.filter fun e => e.parent = some h) =
      log.filter ((fun id => decide (parentLabel w₀.map (log.map Entry.id) added id =
        some (w.label w₀.dom.next h))) ∘ Entry.id) := by
    refine List.filter_congr fun e he => ?_
    rw [Function.comp_apply, decide_eq_decide, ← hs.label_parent he]
    constructor
    · intro hp
      rw [hp]
      rfl
    · intro hp
      obtain ⟨p, hep, hlabel⟩ := Option.map_eq_some_iff.mp hp
      rw [hep, hs.label_injective (hs.grew.parent_lt he hep) hh hlabel]
  rw [← hfilter]
  refine congrArg _ (List.map_congr_left fun e he => ?_)
  exact hs.label_entry (List.mem_of_mem_filter he)

theorem label_refs (className : String) (id : String) (inst : Handle)
    (entries : List (Σ _ : String, EncodedValue E)) (held : String → Option (LuaValue V)) :
    (fun n => ((refsOf id inst entries).foldl (refStep w.map className) held n).map
      (LuaValue.sight (w.label w₀.dom.next))) =
    entries.foldl (refSight w₀.map (log.map Entry.id) className) fun n =>
      (held n).map (LuaValue.sight (w.label w₀.dom.next)) := by
  induction entries generalizing held with
  | nil => rfl
  | cons e entries ih =>
    obtain ⟨name, value⟩ := e
    cases value with
    | other value => exact ih held
    | ref refId =>
      change (fun n => ((refsOf id inst entries).foldl (refStep w.map className)
        (refStep w.map className held ⟨id, inst, name, refId⟩) n).map _) = _
      rw [ih, List.foldl_cons]
      congr 1
      unfold refStep refSight
      simp only
      rw [← hs.label_fromIds]
      cases w.map.fromIds.lookup refId with
      | none => rfl
      | some target =>
        cases refAssignment V className name with
        | none => rfl
        | some found =>
          cases found with
          | none => rfl
          | some property =>
            funext n
            by_cases hn : n = property
            · subst hn
              simp [LuaValue.sight]
            · simp [Function.update_of_ne hn]

end Settled

theorem mem_refsOfEntry {e : Entry} {entry : DeferredRef} :
    entry ∈ refsOfEntry added e ↔ ∃ v, added.lookup e.id = some v ∧
      ∃ x ∈ v.properties.entries, ∃ refId, x.2 = .ref refId ∧
        entry = ⟨e.id, e.inst, x.1, refId⟩ := by
  unfold refsOfEntry
  cases added.lookup e.id with
  | none => simp
  | some v =>
    simp only [refsOf, List.mem_filterMap, Option.some.injEq, exists_eq_left']
    refine exists_congr fun x => and_congr_right fun _ => ?_
    cases x.2 with
    | ref refId => simp [eq_comm]
    | other value => simp

theorem refsOfEntry_inst {e : Entry} {entry : DeferredRef} (h : entry ∈ refsOfEntry added e) :
    entry.instance' = e.inst := by
  obtain ⟨-, -, -, -, -, -, rfl⟩ := mem_refsOfEntry.mp h
  rfl

theorem updateOfEntry_some {e : Entry} {update : Update E}
    (h : updateOfEntry V added e = some update) :
    ∃ v, added.lookup e.id = some v ∧
      (unassigned V v.className v.properties.entries).entries ≠ [] ∧ update.id = e.id := by
  unfold updateOfEntry at h
  cases hv : added.lookup e.id with
  | none => simp [hv] at h
  | some v =>
    simp only [hv] at h
    split_ifs at h with hempty
    refine ⟨v, rfl, fun hnil => hempty (by rw [hnil]; rfl), ?_⟩
    rw [← Option.some.inj h]

theorem exists_updateOfEntry {e : Entry} {v : VirtualInstance E} (hv : added.lookup e.id = some v)
    (hne : (unassigned V v.className v.properties.entries).entries ≠ []) :
    ∃ update, updateOfEntry V added e = some update ∧ update.id = e.id := by
  have hempty : ¬ (unassigned V v.className v.properties.entries).entries.isEmpty = true := by
    rwa [List.isEmpty_iff]
  unfold updateOfEntry
  simp only [hv]
  rw [if_neg hempty]
  exact ⟨_, rfl, rfl⟩

theorem filter_refsOfEntry (e : Entry) (h : Handle) :
    (refsOfEntry added e).filter (fun entry => entry.instance' = h) =
      if e.inst = h then refsOfEntry added e else [] := by
  split_ifs with heq
  · refine List.filter_eq_self.mpr fun entry hentry => ?_
    simpa [refsOfEntry_inst hentry] using heq
  · refine List.filter_eq_nil_iff.mpr fun entry hentry => ?_
    simpa [refsOfEntry_inst hentry] using heq

/-- An instance that is not in the log has no references. -/
theorem filter_refs_nil {h : Handle} (hne : ∀ e ∈ log, e.inst ≠ h) :
    (log.flatMap (refsOfEntry added)).filter (fun entry => entry.instance' = h) = [] := by
  rw [List.filter_flatMap, List.flatMap_eq_nil_iff]
  intro e he
  rw [filter_refsOfEntry, if_neg (hne e he)]

/-- Of the references that have been deferred an instance has its own. -/
theorem filter_refs (hnd : (log.map Entry.inst).Nodup) {e : Entry} (he : e ∈ log) :
    (log.flatMap (refsOfEntry added)).filter (fun entry => entry.instance' = e.inst) =
      refsOfEntry added e := by
  induction log with
  | nil => cases he
  | cons e₁ log ih =>
    rw [List.map_cons, List.nodup_cons] at hnd
    rw [List.flatMap_cons, List.filter_append, filter_refsOfEntry]
    rcases List.mem_cons.mp he with rfl | he
    · rw [if_pos rfl, filter_refs_nil, List.append_nil]
      exact fun e' he' h => hnd.1 (h ▸ List.mem_map_of_mem he')
    · have hne : e₁.inst ≠ e.inst := fun h => hnd.1 (h ▸ List.mem_map_of_mem he)
      rw [if_neg hne, List.nil_append, ih hnd.2 he]

/-- What is seen of a state in which instances have grown, when `ids` are the ids they have been
created for. -/
def finalSight (added : Map String (VirtualInstance E)) (w₀ : Work V E) (ids : List String) :
    Label → Option (Sight V)
  | .old inst =>
    if inst < w₀.dom.next then
      some { (w₀.dom.instances inst).sight .old with
        children := (↑((w₀.dom.getChildren inst).map Label.old) : Multiset Label) +
          newChildren w₀.map ids added (.old inst) }
    else none
  | .made id =>
    if id ∈ ids then (added.lookup id).map (newSight w₀.map ids added id) else none
  | .lost _ => none

/-- Something of a virtual instance is not assigned when the instance is created. -/
def LeftOver (V : Type) [Engine V] [Decoder E V] (map : InstanceMap) (ids : List String)
    (v : VirtualInstance E) : Prop :=
  (unassigned V v.className v.properties.entries).entries ≠ [] ∨
    ∃ e ∈ v.properties.entries, ∃ refId, e.2 = .ref refId ∧
      (idLabel map ids refId = none ∨ refAssignment V v.className e.1 = none)

namespace Settled

variable (hs : Settled added roots missed w₀ w log)

include hs

/-- The ids of the new instances say what is seen of the state. -/
theorem sight (hwf : w₀.dom.WellFormed) (hrefs : w₀.deferredRefs = [])
    (hr : Referred w w' w.deferredRefs) :
    w'.sight w₀.dom.next = finalSight added w₀ (log.map Entry.id) := by
  have hdeferred : w.deferredRefs = log.flatMap (refsOfEntry added) := by
    rw [hs.grew.deferredRefs, hrefs, List.nil_append]
  have hlabel : w'.label w₀.dom.next = w.label w₀.dom.next := by
    funext h
    unfold Work.label
    rw [hr.map]
  have hnd : (log.map Entry.inst).Nodup := by
    rw [hs.grew.handles]
    exact List.nodup_range'
  funext l
  cases l with
  | old h =>
    simp only [Work.sight, finalSight]
    by_cases hh : h < w₀.dom.next
    · have hlt : h < w.dom.next := by
        rw [hs.grew.next]
        exact Nat.lt_add_right _ hh
      have hnone : ∀ e ∈ log, e.inst ≠ h := by
        intro e he heq
        have := (hs.grew.inst_mem he).1
        lia
      rw [if_pos hh, if_pos hh, hr.instances, hdeferred, filter_refs_nil hnone, hs.grew.old h hh,
        hlabel, Option.some.injEq]
      simp only [Instance.sight, List.foldl_nil, Sight.mk.injEq, true_and]
      refine ⟨?_, ?_, ?_⟩
      · funext name
        cases hx : (w₀.dom.instances h).properties name with
        | none => rfl
        | some x =>
          cases x with
          | other v => rfl
          | inst target =>
            simp only [Option.map_some, LuaValue.sight]
            rw [w.label_old (hwf.held hh hx)]
      · cases hx : (w₀.dom.instances h).parent with
        | none => rfl
        | some p =>
          rw [Option.map_some, Option.map_some, w.label_old (hwf.below hx).1]
      · rw [List.map_append, ← Multiset.coe_add, hs.label_attached hlt, w.label_old hh]
        refine congrArg (· + _) (congrArg _ (List.map_congr_left fun c hc => ?_))
        exact w.label_old (hwf.below (hwf.parent_iff.mp hc)).2
    · rw [if_neg hh, if_neg hh]
  | made id =>
    simp only [Work.sight, finalSight, hr.map]
    by_cases hid : id ∈ log.map Entry.id
    · obtain ⟨e, he, rfl⟩ := List.mem_map.mp hid
      obtain ⟨v, hv, hinst⟩ := hs.grew.new e he
      have hmem := hs.grew.inst_mem he
      rw [if_pos hid, hv, hs.grew.fromIds e he]
      simp only [if_pos hmem.1]
      rw [hr.instances, hdeferred, filter_refs hnd he, hinst, hlabel, Option.map_some,
        Option.some.injEq]
      simp only [Instance.sight, newSight, Sight.mk.injEq]
      refine ⟨rfl, rfl, rfl, rfl, rfl, ?_, ?_, ?_⟩
      · have hrefsOf : refsOfEntry added e = refsOf e.id e.inst v.properties.entries := by
          unfold refsOfEntry
          rw [hv]
        rw [hrefsOf]
        refine (hs.label_refs _ _ _ _ _).trans (congrArg (fun f => List.foldl _ f _) ?_)
        funext name
        cases hx : heldAfter (V := V) v.className (fun _ => none) v.properties.entries name with
        | none =>
          simp only [reified, Instance.new, hx, Option.map_none]
        | some x =>
          cases x with
          | inst target => exact absurd (heldAfter_inst hx) (Option.some_ne_none _).symm
          | other y => simp only [reified, Instance.new, hx, Option.map_some, LuaValue.sight]
      · have hp := hs.label_parent he
        unfold parentLabel at hp
        rwa [hv] at hp
      · rw [hs.label_attached hmem.2, hs.label_entry he]
    · rw [if_neg hid, hs.grew.others id fun e he heq => hid (List.mem_map.mpr ⟨e, he, heq⟩)]
      cases hm : w₀.map.fromIds.lookup id with
      | none => rfl
      | some h =>
        have := hs.ready.mapped hm
        simp only
        rw [if_neg (not_le.mpr this)]
  | lost h =>
    simp only [Work.sight, finalSight]
    rw [if_neg]
    rintro ⟨hge, hlt, hnone⟩
    rw [hr.next] at hlt
    obtain ⟨e, he, rfl⟩ := hs.grew.exists_entry hge hlt
    rw [hr.map, (hs.grew.inverse e.id e.inst).mp (hs.grew.fromIds e he)] at hnone
    cases hnone

/-- What could not be applied is what is not created and what could not be assigned. -/
theorem mem_unappliedIds (hw₀ : w₀.unapplied = .newEmpty) (hrefs : w₀.deferredRefs = [])
    (hr : Referred w w' w.deferredRefs) (id : String) :
    id ∈ w'.unappliedIds ↔ (id ∈ missed ∧ id ∈ added) ∨
      (id ∈ log.map Entry.id ∧ ∃ v, added.lookup id = some v ∧
        LeftOver V w₀.map (log.map Entry.id) v) := by
  have hdeferred : w.deferredRefs = log.flatMap (refsOfEntry added) := by
    rw [hs.grew.deferredRefs, hrefs, List.nil_append]
  have hadded : id ∈ w'.unapplied.added.keys ↔ id ∈ missed ∧ id ∈ added := by
    change id ∈ w'.unapplied.added ↔ _
    rw [← AList.lookup_isSome, hr.added, hs.grew.unadded, hw₀]
    split_ifs with hm
    · simp [hm, AList.lookup_isSome]
    · simp [hm, PatchSet.newEmpty]
  have hclass : ∀ e ∈ log, ∀ v, added.lookup e.id = some v →
      (w.dom.instances e.inst).className = v.className := by
    intro e he v hv
    obtain ⟨v', hv', hinst⟩ := hs.grew.new e he
    rw [hv, Option.some.injEq] at hv'
    rw [hinst, hv']
    rfl
  have hupdated : id ∈ w'.unapplied.updated.map Update.id ↔
      id ∈ log.map Entry.id ∧ ∃ v, added.lookup id = some v ∧
        LeftOver V w₀.map (log.map Entry.id) v := by
    rw [hr.updated, hs.grew.updated, hw₀, hdeferred]
    simp only [PatchSet.newEmpty, List.nil_append]
    constructor
    · rintro (hid | ⟨entry, hentry, rfl, hfails⟩)
      · obtain ⟨update, hupdate, rfl⟩ := List.mem_map.mp hid
        obtain ⟨e, he, heq⟩ := List.mem_filterMap.mp hupdate
        obtain ⟨v, hv, hne, hid⟩ := updateOfEntry_some heq
        exact ⟨List.mem_map.mpr ⟨e, he, hid.symm⟩, v, hid ▸ hv, .inl hne⟩
      · obtain ⟨e, he, hmem⟩ := List.mem_flatMap.mp hentry
        obtain ⟨v, hv, hx⟩ := mem_refsOfEntry.mp hmem
        obtain ⟨x, hx, refId, hval, rfl⟩ := hx
        refine ⟨List.mem_map_of_mem he, v, hv, .inr ⟨x, hx, refId, hval, ?_⟩⟩
        rw [RefFails, hclass e he v hv, ← Option.map_eq_none_iff (f := w.label w₀.dom.next),
          hs.label_fromIds] at hfails
        exact hfails
    · rintro ⟨hid, v, hv, hleft⟩
      obtain ⟨e, he, rfl⟩ := List.mem_map.mp hid
      rcases hleft with hne | ⟨x, hx, refId, hval, hfails⟩
      · left
        obtain ⟨update, hupdate, hid⟩ := exists_updateOfEntry hv hne
        exact List.mem_map.mpr ⟨update, List.mem_filterMap.mpr ⟨e, he, hupdate⟩, hid⟩
      · right
        refine ⟨⟨e.id, e.inst, x.1, refId⟩, List.mem_flatMap.mpr ⟨e, he, ?_⟩, rfl, ?_⟩
        · exact mem_refsOfEntry.mpr ⟨v, hv, x, hx, refId, hval, rfl⟩
        · rw [RefFails, hclass e he v hv, ← Option.map_eq_none_iff (f := w.label w₀.dom.next),
            hs.label_fromIds]
          exact hfails
  unfold Work.unappliedIds
  rw [List.mem_append, hadded, hupdated]

end Settled

/-! ### The order of the ids -/

section Order

variable {ids ids' : List String} (h : ids.Perm ids')

include h

omit [Engine V] [Decoder E V] in
theorem idLabel_perm (map : InstanceMap) : idLabel map ids = idLabel map ids' := by
  funext id
  unfold idLabel
  simp only [h.mem_iff]

omit [Engine V] [Decoder E V] in
theorem parentLabel_perm (map : InstanceMap) (added : Map String (VirtualInstance E)) :
    parentLabel map ids added = parentLabel map ids' added := by
  funext id
  unfold parentLabel
  rw [idLabel_perm h]

omit [Engine V] [Decoder E V] in
theorem newChildren_perm (map : InstanceMap) (added : Map String (VirtualInstance E)) :
    newChildren map ids added = newChildren map ids' added := by
  funext label
  unfold newChildren
  rw [parentLabel_perm h]
  exact Quot.sound ((h.filter _).map _)

omit [Decoder E V] in
theorem refSight_perm (map : InstanceMap) (className : String) :
    refSight (V := V) (E := E) map ids className = refSight map ids' className := by
  funext held e
  unfold refSight
  rw [idLabel_perm h]

theorem finalSight_perm (added : Map String (VirtualInstance E)) (w₀ : Work V E) :
    finalSight added w₀ ids = finalSight added w₀ ids' := by
  have hnew : ∀ id v, newSight (V := V) w₀.map ids added id v = newSight w₀.map ids' added id v := by
    intro id v
    unfold newSight
    rw [refSight_perm h, idLabel_perm h, newChildren_perm h]
  funext label
  unfold finalSight
  cases label with
  | old inst => simp only [newChildren_perm h]
  | made id => simp only [h.mem_iff, funext (hnew id)]
  | lost inst => rfl

theorem leftOver_perm (map : InstanceMap) (v : VirtualInstance E) :
    LeftOver V map ids v ↔ LeftOver V map ids' v := by
  unfold LeftOver
  rw [idLabel_perm h]

end Order

end Growth

end Roxo.Plugin
