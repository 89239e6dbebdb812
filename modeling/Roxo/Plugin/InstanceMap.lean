import Roxo.Library.AssocMap
import Roxo.Plugin.Dom

/-!
# The instance map

The bidirectional map between the ids of the server and the instances of the engine, with the
signal connections that it keeps for the mapped instances. The methods that set `Parent` work on
the map and the DOM together and say whether they went through.
-/

namespace Roxo.Plugin

open AssocMap

/-- A connection to a signal of an instance: `Changed`, or the change of one property. -/
structure Connection where
  serial : ℕ
  instance' : Handle
  propertyName : Option String
  deriving DecidableEq, Repr

structure InstanceMap where
  /-- A map from ids to instances. -/
  fromIds : Map String Handle
  /-- A map from instances to ids. -/
  fromInstances : Map Handle String
  /-- The instances that updates are paused for. -/
  pausedUpdateInstances : List Handle
  instancesToSignal : Map Handle (List Connection)
  /-- The connections of the engine that have not been disconnected. -/
  connected : List Connection
  /-- How many connections have been made. -/
  serial : ℕ

namespace InstanceMap

variable {V : Type}

def new : InstanceMap where
  fromIds := ∅
  fromInstances := ∅
  pausedUpdateInstances := []
  instancesToSignal := ∅
  connected := []
  serial := 0

/-- `__disconnectSignals`. -/
def disconnectSignals (map : InstanceMap) (inst : Handle) : InstanceMap :=
  match map.instancesToSignal.lookup inst with
  | some signals =>
    { map with
      connected := map.connected.filter (· ∉ signals)
      instancesToSignal := map.instancesToSignal.erase inst }
  | none => map

/-- `__connectSignals`. Instances of `ValueBase` have a `Changed` signal of their own, so single
properties of theirs are watched. -/
def connectSignals [Engine V] (dom : Dom V) (map : InstanceMap) (inst : Handle) : InstanceMap :=
  let watched :=
    if Engine.isValueBase V (dom.instances inst).className then
      [some "Name", some "Value", some "Parent"]
    else [none]
  let signals := watched.mapIdx fun i propertyName => ⟨map.serial + i, inst, propertyName⟩
  { map with
    instancesToSignal := map.instancesToSignal.insert inst signals
    connected := map.connected ++ signals
    serial := map.serial + signals.length }

def removeId (map : InstanceMap) (id : String) : InstanceMap :=
  match map.fromIds.lookup id with
  | some inst =>
    let map := map.disconnectSignals inst
    { map with
      fromIds := map.fromIds.erase id
      fromInstances := map.fromInstances.erase inst }
  | none => map

def removeInstance (map : InstanceMap) (inst : Handle) : InstanceMap :=
  let id := map.fromInstances.lookup inst
  let map := map.disconnectSignals inst
  match id with
  | some id =>
    { map with
      fromInstances := map.fromInstances.erase inst
      fromIds := map.fromIds.erase id }
  | none => map

def insert [Engine V] (dom : Dom V) (map : InstanceMap) (id : String) (inst : Handle) :
    InstanceMap :=
  let map := (map.removeId id).removeInstance inst
  connectSignals dom
    { map with
      fromIds := map.fromIds.insert id inst
      fromInstances := map.fromInstances.insert inst id } inst

/-- Take an instance out of the DOM and its subtree out of the map. Setting the parent can raise an
error, which leaves what has been reached by then. -/
def destroyInstance (dom : Dom V) (map : InstanceMap) (inst : Handle) :
    Except (Dom V × InstanceMap) (Dom V × InstanceMap) :=
  let id := map.fromInstances.lookup inst
  let descendants := dom.getDescendants inst
  if (dom.instances inst).locked then .error (dom, map)
  else
    let dom := dom.setParent inst none
    let map := match id with
      | some id => map.removeId id
      | none => map
    .ok (dom, descendants.foldl removeInstance map)

def destroyId (dom : Dom V) (map : InstanceMap) (id : String) :
    Except (Dom V × InstanceMap) (Dom V × InstanceMap) :=
  match map.fromIds.lookup id with
  | some inst => map.destroyInstance dom inst
  | none => .ok (dom, map.removeId id)

def pauseInstance (map : InstanceMap) (inst : Handle) : InstanceMap :=
  if map.fromInstances.lookup inst = none ∨ inst ∈ map.pausedUpdateInstances then map
  else { map with pausedUpdateInstances := inst :: map.pausedUpdateInstances }

/-- Disconnect all connections and release all instances. -/
def stop (map : InstanceMap) : InstanceMap := map.fromInstances.keys.foldl removeInstance map

/-! ## The two directions -/

/-- The two directions are inverse to each other. -/
def Inverse (map : InstanceMap) : Prop :=
  ∀ id inst, map.fromIds.lookup id = some inst ↔ map.fromInstances.lookup inst = some id

@[simp] theorem disconnectSignals_fromIds (map : InstanceMap) (inst : Handle) :
    (map.disconnectSignals inst).fromIds = map.fromIds := by
  unfold disconnectSignals
  split <;> rfl

@[simp] theorem disconnectSignals_fromInstances (map : InstanceMap) (inst : Handle) :
    (map.disconnectSignals inst).fromInstances = map.fromInstances := by
  unfold disconnectSignals
  split <;> rfl

@[simp] theorem connectSignals_fromIds [Engine V] (dom : Dom V) (map : InstanceMap)
    (inst : Handle) : (connectSignals dom map inst).fromIds = map.fromIds := rfl

@[simp] theorem connectSignals_fromInstances [Engine V] (dom : Dom V) (map : InstanceMap)
    (inst : Handle) : (connectSignals dom map inst).fromInstances = map.fromInstances := rfl

@[simp] theorem pauseInstance_fromIds (map : InstanceMap) (inst : Handle) :
    (map.pauseInstance inst).fromIds = map.fromIds := by
  unfold pauseInstance
  split_ifs <;> rfl

@[simp] theorem pauseInstance_fromInstances (map : InstanceMap) (inst : Handle) :
    (map.pauseInstance inst).fromInstances = map.fromInstances := by
  unfold pauseInstance
  split_ifs <;> rfl

variable {map : InstanceMap}

theorem Inverse.pauseInstance (hi : map.Inverse) (inst : Handle) :
    (map.pauseInstance inst).Inverse := by
  intro id h
  rw [pauseInstance_fromIds, pauseInstance_fromInstances]
  exact hi id h

theorem new_inverse : new.Inverse := by
  intro id inst
  simp [new]

theorem Inverse.eq_of_fromIds (hi : map.Inverse) {id id' : String} {inst : Handle}
    (h : map.fromIds.lookup id = some inst) (h' : map.fromIds.lookup id' = some inst) :
    id = id' := by
  rw [hi] at h h'
  exact Option.some.inj (h.symm.trans h')

theorem removeId_fromIds (map : InstanceMap) (id i : String) :
    (map.removeId id).fromIds.lookup i = if i = id then none else map.fromIds.lookup i := by
  unfold removeId
  split
  · simp only [disconnectSignals_fromIds]
    rw [lookup_erase_eq]
  · split_ifs with h
    · subst h
      assumption
    · rfl

theorem removeId_fromInstances (map : InstanceMap) (id : String) (h : Handle) :
    (map.removeId id).fromInstances.lookup h =
      if map.fromIds.lookup id = some h then none else map.fromInstances.lookup h := by
  unfold removeId
  split
  · next inst hinst =>
    simp only [disconnectSignals_fromInstances]
    rw [lookup_erase_eq, hinst]
    by_cases he : h = inst
    · simp [he]
    · simp [he, Ne.symm he]
  · next hnone => simp [hnone]

theorem Inverse.removeId (hi : map.Inverse) (id : String) : (map.removeId id).Inverse := by
  intro i h
  rw [removeId_fromIds, removeId_fromInstances]
  have := hi i h
  split_ifs with h₁ h₂ h₂
  · simp
  · subst h₁
    simp only [false_iff]
    rw [← this]
    exact h₂
  · simp only [iff_false]
    intro hc
    exact h₁ (hi.eq_of_fromIds hc h₂)
  · exact this

theorem removeInstance_fromInstances (map : InstanceMap) (inst h : Handle) :
    (map.removeInstance inst).fromInstances.lookup h =
      if h = inst then none else map.fromInstances.lookup h := by
  unfold removeInstance
  cases hid : map.fromInstances.lookup inst with
  | some id =>
    simp only [disconnectSignals_fromInstances]
    rw [lookup_erase_eq]
  | none =>
    simp only [disconnectSignals_fromInstances]
    split_ifs with he
    · rw [he]
      exact hid
    · rfl

theorem removeInstance_fromIds (hi : map.Inverse) (inst : Handle) (i : String) :
    (map.removeInstance inst).fromIds.lookup i =
      if map.fromIds.lookup i = some inst then none else map.fromIds.lookup i := by
  have hiff := hi i inst
  unfold removeInstance
  cases hid : map.fromInstances.lookup inst with
  | some id =>
    simp only [disconnectSignals_fromIds]
    rw [lookup_erase_eq]
    by_cases he : i = id
    · rw [if_pos he, if_pos (hiff.mpr (by rw [hid, he]))]
    · rw [if_neg he, if_neg]
      intro hc
      rw [hiff, hid] at hc
      exact he (Option.some.inj hc).symm
  | none =>
    simp only [disconnectSignals_fromIds]
    rw [if_neg]
    intro hc
    rw [hiff, hid] at hc
    cases hc

theorem Inverse.removeInstance (hi : map.Inverse) (inst : Handle) :
    (map.removeInstance inst).Inverse := by
  intro i h
  rw [removeInstance_fromIds hi, removeInstance_fromInstances]
  have := hi i h
  split_ifs with h₁ h₂ h₂
  · simp
  · simp only [false_iff]
    intro hc
    rw [← this, h₁] at hc
    exact h₂ (Option.some.inj hc).symm
  · subst h₂
    simpa using h₁
  · exact this

variable [Engine V]

theorem insert_fromIds (hi : map.Inverse) (dom : Dom V) (id i : String) (inst : Handle) :
    (map.insert dom id inst).fromIds.lookup i =
      if i = id then some inst
      else if map.fromIds.lookup i = some inst then none else map.fromIds.lookup i := by
  unfold insert
  simp only [connectSignals_fromIds]
  rw [lookup_insert_eq, removeInstance_fromIds (hi.removeId id), removeId_fromIds]
  split_ifs <;> rfl

theorem insert_fromInstances (map : InstanceMap) (dom : Dom V) (id : String) (inst h : Handle) :
    (map.insert dom id inst).fromInstances.lookup h =
      if h = inst then some id
      else if map.fromIds.lookup id = some h then none else map.fromInstances.lookup h := by
  unfold insert
  simp only [connectSignals_fromInstances]
  rw [lookup_insert_eq, removeInstance_fromInstances, removeId_fromInstances]
  split_ifs <;> rfl

theorem Inverse.insert (hi : map.Inverse) (dom : Dom V) (id : String) (inst : Handle) :
    (map.insert dom id inst).Inverse := by
  intro i h
  rw [insert_fromIds hi, insert_fromInstances]
  have := hi i h
  have := hi id h
  have := hi i inst
  grind

end InstanceMap

end Roxo.Plugin
