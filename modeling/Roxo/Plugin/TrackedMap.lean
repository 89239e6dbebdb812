import Roxo.Plugin.Removals

/-!
# The instance map in every state it reaches

The ids and the instances are in bijection, exactly the mapped instances have an entry of signals,
and what is connected belongs to them.
-/

namespace Roxo.Plugin

open AssocMap Forest

variable {V : Type}

/-- What holds of the map between two operations. -/
structure InstanceMap.Tracked (map : InstanceMap) : Prop where
  inverse : map.Inverse
  /-- Exactly the mapped instances have an entry. -/
  entries : ∀ inst, (map.instancesToSignal.lookup inst).isSome = true ↔
    (map.fromInstances.lookup inst).isSome = true
  /-- The connections of an entry are of its instance and are connected. -/
  own : ∀ inst signals, map.instancesToSignal.lookup inst = some signals →
    ∀ c ∈ signals, c.instance' = inst ∧ c ∈ map.connected
  /-- What is connected is in the entry of its instance. -/
  connected : ∀ c ∈ map.connected, ∃ signals,
    map.instancesToSignal.lookup c.instance' = some signals ∧ c ∈ signals

namespace InstanceMap

variable {map : InstanceMap} {id : String} {inst : Handle}

theorem disconnectSignals_lookup (map : InstanceMap) (inst h : Handle) :
    (map.disconnectSignals inst).instancesToSignal.lookup h =
      if h = inst then none else map.instancesToSignal.lookup h := by
  unfold disconnectSignals
  cases hs : map.instancesToSignal.lookup inst with
  | some signals => exact lookup_erase_eq _ _ _
  | none =>
    dsimp only
    split_ifs with he
    · rw [he, hs]
    · rfl

/-- Disconnecting leaves what belongs to other instances. -/
theorem Tracked.mem_disconnectSignals (ht : map.Tracked) (inst : Handle) (c : Connection) :
    c ∈ (map.disconnectSignals inst).connected ↔ c ∈ map.connected ∧ c.instance' ≠ inst := by
  unfold disconnectSignals
  cases hs : map.instancesToSignal.lookup inst with
  | some signals =>
    show c ∈ map.connected.filter (· ∉ signals) ↔ _
    rw [List.mem_filter, decide_eq_true_eq]
    refine and_congr_right fun hc => not_congr ⟨fun hmem => (ht.own inst signals hs c hmem).1, ?_⟩
    rintro rfl
    obtain ⟨signals', hs', hmem⟩ := ht.connected c hc
    rw [hs] at hs'
    rw [Option.some.inj hs']
    exact hmem
  | none =>
    refine ⟨fun hc => ⟨hc, ?_⟩, And.left⟩
    rintro rfl
    obtain ⟨signals, hs', -⟩ := ht.connected c hc
    rw [hs] at hs'
    cases hs'

/-- The signals of an instance are disconnected and the instance leaves both tables. -/
theorem Tracked.disconnect (ht : map.Tracked) {inst : Handle} {map' : InstanceMap}
    (hinv : map'.Inverse)
    (hsignals : map'.instancesToSignal = (map.disconnectSignals inst).instancesToSignal)
    (hconnected : map'.connected = (map.disconnectSignals inst).connected)
    (hmapped : ∀ h, map'.fromInstances.lookup h =
      if h = inst then none else map.fromInstances.lookup h) : map'.Tracked where
  inverse := hinv
  entries h := by
    rw [hsignals, hmapped, disconnectSignals_lookup]
    split_ifs
    · rfl
    · exact ht.entries h
  own h signals hlookup c hc := by
    rw [hsignals, disconnectSignals_lookup] at hlookup
    split_ifs at hlookup with he
    obtain ⟨hown, hmem⟩ := ht.own h signals hlookup c hc
    rw [hconnected, ht.mem_disconnectSignals]
    exact ⟨hown, hmem, hown ▸ he⟩
  connected c hc := by
    rw [hconnected, ht.mem_disconnectSignals] at hc
    obtain ⟨signals, hlookup, hmem⟩ := ht.connected c hc.1
    refine ⟨signals, ?_, hmem⟩
    rw [hsignals, disconnectSignals_lookup, if_neg hc.2]
    exact hlookup

theorem new_tracked : new.Tracked where
  inverse := new_inverse
  entries inst := by simp [new]
  own inst signals h := by simp [new] at h
  connected c hc := by simp [new] at hc

theorem Tracked.removeInstance (ht : map.Tracked) (inst : Handle) :
    (map.removeInstance inst).Tracked := by
  refine @Tracked.disconnect map ht inst _ (ht.inverse.removeInstance inst) ?_ ?_
    (removeInstance_fromInstances map inst)
  all_goals
    unfold InstanceMap.removeInstance
    cases map.fromInstances.lookup inst <;> rfl

theorem Tracked.removeId (ht : map.Tracked) (id : String) : (map.removeId id).Tracked := by
  cases hid : map.fromIds.lookup id with
  | none =>
    have hsame : map.removeId id = map := by
      unfold InstanceMap.removeId
      rw [hid]
    rw [hsame]
    exact ht
  | some inst =>
    refine @Tracked.disconnect map ht inst _ (ht.inverse.removeId id) ?_ ?_ fun h => ?_
    · unfold InstanceMap.removeId
      rw [hid]
    · unfold InstanceMap.removeId
      rw [hid]
    · rw [removeId_fromInstances, hid]
      by_cases he : h = inst
      · rw [if_pos he, if_pos (congrArg some he.symm)]
      · rw [if_neg he, if_neg fun heq => he (Option.some.inj heq).symm]

theorem Tracked.foldl_removeInstance (ht : map.Tracked) (l : List Handle) :
    (l.foldl InstanceMap.removeInstance map).Tracked := by
  induction l generalizing map with
  | nil => exact ht
  | cons inst l ih => exact ih (ht.removeInstance inst)

theorem Tracked.stop (ht : map.Tracked) : map.stop.Tracked := ht.foldl_removeInstance _

/-- An instance that is not in the map is taken up. -/
theorem Tracked.connectSignals [Engine V] (ht : map.Tracked) (dom : Dom V)
    (hfresh : map.fromInstances.lookup inst = none) (hinv : ((InstanceMap.connectSignals dom
      { map with
        fromIds := map.fromIds.insert id inst
        fromInstances := map.fromInstances.insert inst id } inst).Inverse)) :
    (InstanceMap.connectSignals dom
      { map with
        fromIds := map.fromIds.insert id inst
        fromInstances := map.fromInstances.insert inst id } inst).Tracked := by
  have hnone : map.instancesToSignal.lookup inst = none := by
    rw [← Option.not_isSome_iff_eq_none, ht.entries, hfresh]
    exact Bool.false_ne_true
  have hother : ∀ c ∈ map.connected, c.instance' ≠ inst := by
    rintro c hc rfl
    obtain ⟨signals, hlookup, -⟩ := ht.connected c hc
    rw [hnone] at hlookup
    cases hlookup
  unfold InstanceMap.connectSignals at hinv ⊢
  dsimp only at hinv ⊢
  generalize hwatched : (if Engine.isValueBase V (dom.instances inst).className = true then
    [some "Name", some "Value", some "Parent"] else [none]) = watched at hinv ⊢
  have hown : ∀ c ∈ watched.mapIdx
      (fun i propertyName => (⟨map.serial + i, inst, propertyName⟩ : Connection)),
      c.instance' = inst := by
    intro c hc
    obtain ⟨i, hi, rfl⟩ := List.mem_mapIdx.mp hc
    rfl
  exact
    { inverse := hinv
      entries := fun h => by
        rw [lookup_insert_eq, lookup_insert_eq]
        split_ifs
        · exact Iff.rfl
        · exact ht.entries h
      own := fun h signals hlookup c hc => by
        rw [lookup_insert_eq] at hlookup
        split_ifs at hlookup with he
        · rw [← Option.some.inj hlookup] at hc
          exact ⟨(hown c hc).trans he.symm, List.mem_append_right _ hc⟩
        · obtain ⟨ho, hmem⟩ := ht.own h signals hlookup c hc
          exact ⟨ho, List.mem_append_left _ hmem⟩
      connected := fun c hc => by
        rcases List.mem_append.mp hc with hc | hc
        · obtain ⟨signals, hlookup, hmem⟩ := ht.connected c hc
          refine ⟨signals, ?_, hmem⟩
          rw [lookup_insert_eq, if_neg (hother c hc)]
          exact hlookup
        · refine ⟨_, ?_, hc⟩
          rw [lookup_insert_eq, if_pos (hown c hc)] }

theorem Tracked.insert [Engine V] (ht : map.Tracked) (dom : Dom V) (id : String) (inst : Handle) :
    (map.insert dom id inst).Tracked := by
  have hinv := ht.inverse.insert dom id inst
  have hfresh : ((map.removeId id).removeInstance inst).fromInstances.lookup inst = none := by
    rw [removeInstance_fromInstances, if_pos rfl]
  exact ((ht.removeId id).removeInstance inst).connectSignals dom hfresh hinv

end InstanceMap

/-! ## Runs -/

/-- An operation on the map. Those that look at the DOM find any DOM. -/
inductive MapStep (V : Type) where
  | insert (dom : Dom V) (id : String) (inst : Handle)
  | removeId (id : String)
  | removeInstance (inst : Handle)
  | destroyInstance (dom : Dom V) (inst : Handle)
  | destroyId (dom : Dom V) (id : String)
  | stop

/-- The map that an operation leaves that may raise an error. -/
def mapReached : Except (Dom V × InstanceMap) (Dom V × InstanceMap) → InstanceMap
  | .ok (_, map) => map
  | .error (_, map) => map

/-- The map after an operation, also after one that raises an error. -/
def InstanceMap.step [Engine V] (map : InstanceMap) : MapStep V → InstanceMap
  | .insert dom id inst => map.insert dom id inst
  | .removeId id => map.removeId id
  | .removeInstance inst => map.removeInstance inst
  | .destroyInstance dom inst => mapReached (map.destroyInstance dom inst)
  | .destroyId dom id => mapReached (map.destroyId dom id)
  | .stop => map.stop

namespace InstanceMap

variable {map : InstanceMap} {inst : Handle}

theorem Tracked.destroyInstance {dom dom' : Dom V} {map' : InstanceMap} (ht : map.Tracked)
    (h : map.destroyInstance dom inst = .ok (dom', map')) : map'.Tracked := by
  unfold InstanceMap.destroyInstance at h
  dsimp only at h
  split_ifs at h
  obtain ⟨-, rfl⟩ := Prod.mk.inj (Except.ok.inj h)
  refine Tracked.foldl_removeInstance ?_ _
  cases map.fromInstances.lookup inst with
  | none => exact ht
  | some id => exact ht.removeId id

/-- An instance that cannot be destroyed leaves the map as it is. -/
theorem destroyInstance_eq_error {dom dom' : Dom V} {map' : InstanceMap}
    (h : map.destroyInstance dom inst = .error (dom', map')) : map' = map := by
  unfold InstanceMap.destroyInstance at h
  dsimp only at h
  split_ifs at h
  exact (Prod.mk.inj (Except.error.inj h)).2.symm

theorem Tracked.reached_destroyInstance (ht : map.Tracked) (dom : Dom V) (inst : Handle) :
    (mapReached (map.destroyInstance dom inst)).Tracked := by
  rcases h : map.destroyInstance dom inst with ⟨dom', map'⟩ | ⟨dom', map'⟩
  · exact destroyInstance_eq_error h ▸ ht
  · exact ht.destroyInstance h

theorem Tracked.reached_destroyId (ht : map.Tracked) (dom : Dom V) (id : String) :
    (mapReached (map.destroyId dom id)).Tracked := by
  unfold InstanceMap.destroyId
  cases map.fromIds.lookup id with
  | some inst => exact ht.reached_destroyInstance dom inst
  | none => exact ht.removeId id

theorem Tracked.step [Engine V] (ht : map.Tracked) (s : MapStep V) : (map.step s).Tracked := by
  cases s with
  | insert dom id inst => exact ht.insert dom id inst
  | removeId id => exact ht.removeId id
  | removeInstance inst => exact ht.removeInstance inst
  | destroyInstance dom inst => exact ht.reached_destroyInstance dom inst
  | destroyId dom id => exact ht.reached_destroyId dom id
  | stop => exact ht.stop

theorem tracked_of_run [Engine V] (steps : List (MapStep V)) : (steps.foldl step new).Tracked := by
  suffices h : ∀ map : InstanceMap, map.Tracked → (steps.foldl step map).Tracked from
    h new new_tracked
  induction steps with
  | nil => exact fun _ ht => ht
  | cons s steps ih => exact fun map ht => ih _ (ht.step s)

/-! ## Destroyed subtrees -/

theorem mem_getDescendants {dom : Dom V} (hwf : dom.WellFormed) {inst x : Handle}
    (h : Desc dom.getChildren inst x) (hne : x ≠ inst) : x ∈ dom.getDescendants inst := by
  rcases Relation.ReflTransGen.cases_head h with rfl | ⟨c, hc, hcx⟩
  · exact absurd rfl hne
  · have hbelow : ∀ a b, b ∈ dom.getChildren a → b ∈ List.range dom.next := fun a b hb =>
      List.mem_range.mpr (hwf.below (hwf.parent_iff.mp hb)).2
    refine mem_bfs_of_desc (hwf.forest.bfs_length_lt (hwf.forest.antichain_kids inst)
      (hbelow inst) (fun a _ => hbelow a) ?_) hc hcx
    rw [List.length_range]
    exact Nat.lt_succ_self _

theorem foldl_removeInstance_fromInstances (map : InstanceMap) (l : List Handle) (h : Handle) :
    (l.foldl InstanceMap.removeInstance map).fromInstances.lookup h =
      if h ∈ l then none else map.fromInstances.lookup h := by
  induction l generalizing map with
  | nil => rfl
  | cons inst l ih =>
    rw [List.foldl_cons, ih, removeInstance_fromInstances]
    by_cases hl : h ∈ l
    · simp [hl]
    · by_cases hi : h = inst <;> simp [hl, hi]

/-- Nothing of a destroyed subtree is mapped. -/
theorem Tracked.unmapped_of_destroyInstance {dom dom' : Dom V} {map' : InstanceMap}
    (ht : map.Tracked) (hwf : dom.WellFormed)
    (h : map.destroyInstance dom inst = .ok (dom', map')) {x : Handle}
    (hx : Desc dom.getChildren inst x) : map'.fromInstances.lookup x = none := by
  unfold InstanceMap.destroyInstance at h
  dsimp only at h
  split_ifs at h
  obtain ⟨-, rfl⟩ := Prod.mk.inj (Except.ok.inj h)
  rw [foldl_removeInstance_fromInstances]
  by_cases he : x = inst
  · split_ifs
    · rfl
    · rw [he]
      cases hid : map.fromInstances.lookup inst with
      | none => exact hid
      | some id =>
        rw [← ht.inverse] at hid
        show (map.removeId id).fromInstances.lookup inst = none
        rw [removeId_fromInstances, if_pos hid]
  · rw [if_pos (mem_getDescendants hwf hx he)]

/-- In every state that the map reaches, the ids and the instances are in bijection, exactly the
mapped instances have an entry of signals, and only those of mapped instances are connected. A
destroyed subtree is not mapped any more, and an instance that cannot be destroyed leaves the map as
it is. -/
theorem tracked_and_destroyed_of_run [Engine V] (steps : List (MapStep V)) :
    (steps.foldl step new).Tracked ∧
    (∀ c ∈ (steps.foldl step new).connected,
      ((steps.foldl step new).fromInstances.lookup c.instance').isSome = true) ∧
    (∀ (dom dom' : Dom V) inst map', dom.WellFormed →
      (steps.foldl step new).destroyInstance dom inst = .ok (dom', map') →
      ∀ x, Desc dom.getChildren inst x →
        map'.fromInstances.lookup x = none ∧ ∀ id, map'.fromIds.lookup id ≠ some x) ∧
    ∀ (dom dom' : Dom V) inst map',
      (steps.foldl step new).destroyInstance dom inst = .error (dom', map') →
      map' = steps.foldl step new := by
  have ht := tracked_of_run steps
  refine ⟨ht, fun c hc => ?_, fun dom dom' inst map' hwf h x hx => ?_,
    fun dom dom' inst map' h => destroyInstance_eq_error h⟩
  · obtain ⟨signals, hlookup, -⟩ := ht.connected c hc
    rw [← ht.entries, hlookup]
    rfl
  · have hnone := ht.unmapped_of_destroyInstance hwf h hx
    refine ⟨hnone, fun id hid => ?_⟩
    rw [(ht.destroyInstance h).inverse, hnone] at hid
    cases hid

end InstanceMap

end Roxo.Plugin
