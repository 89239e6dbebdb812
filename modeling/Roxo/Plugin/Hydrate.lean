import Roxo.Plugin.PatchSet

/-!
# Hydration

Matches up virtual instances with concrete instances and assigns them ids. The children of an
instance are grouped by name and class; a virtual child takes an instance of its group that is not
paired yet, and where a group is small the one whose properties match best.
-/

namespace Roxo.Plugin

open AssocMap

variable {V E : Type} [Engine V] [Decoder E V]

/-- A property of a virtual instance, which is no reference, matches the live value. -/
def propertyMatches (dom : Dom V) (map : InstanceMap) (inst : Handle) (propertyName : String)
    (virtualValue : EncodedValue E) : Bool :=
  match virtualValue with
  | .ref _ => false
  | .other _ =>
    match dom.getProperty inst propertyName, decodeValue virtualValue map with
    | some existingValue, some decodedValue => Engine.trueEquals existingValue decodedValue
    | _, _ => false

/-- How many of the properties of a virtual instance match the live values on a candidate. -/
def countMatchingProperties (dom : Dom V) (map : InstanceMap) (inst : Handle)
    (virtualInstance : VirtualInstance E) : ℕ :=
  virtualInstance.properties.entries.countP fun e => propertyMatches dom map inst e.1 e.2

def maxCandidatesToScore : ℕ := 32

/-- The existing children of one name and class. The cursor counts from 0. -/
structure Bucket where
  cursor : ℕ
  instances : List Handle
  deriving Repr

abbrev Buckets := Map (String × String) Bucket

/-- Put a child into its bucket, unless its name and class cannot be accessed. -/
def addToBuckets (dom : Dom V) (buckets : Buckets) (child : Handle) : Buckets :=
  let inst := dom.instances child
  if inst.accessible then
    let bucket := (buckets.lookup (inst.name, inst.className)).getD ⟨0, []⟩
    buckets.insert (inst.name, inst.className)
      { bucket with instances := bucket.instances ++ [child] }
  else buckets

/-- How many leading instances have been paired. -/
def leadingVisited (visited : List Handle) : List Handle → ℕ
  | [] => 0
  | inst :: rest => if inst ∈ visited then leadingVisited visited rest + 1 else 0

/-- The candidate with the best score, the earliest of those with equal scores. -/
def bestCandidate (score : Handle → ℕ) (candidates : List Handle) : Option Handle :=
  (candidates.foldl (fun (best : Option (Handle × ℕ)) candidate =>
    match best with
    | none => some (candidate, score candidate)
    | some (_, bestScore) =>
      if score candidate > bestScore then some (candidate, score candidate) else best) none).map
    Prod.fst

/-- The instance of a bucket for a virtual child, and the bucket with the cursor advanced. -/
def pickMatch (score : Handle → ℕ) (visited : List Handle) (bucket : Bucket) :
    Option Handle × Bucket :=
  let cursor :=
    bucket.cursor + leadingVisited visited (bucket.instances.drop bucket.cursor)
  let remaining := bucket.instances.length - cursor
  let picked :=
    if remaining > maxCandidatesToScore then bucket.instances[cursor]?
    else
      match (bucket.instances.drop cursor).filter (· ∉ visited) with
      | [candidate] => some candidate
      | candidates => bestCandidate score candidates
  (picked, { bucket with cursor })

/-- The state of the loop over the virtual children of one instance. -/
structure Pairing where
  map : InstanceMap
  buckets : Buckets
  visited : List Handle

/-- Pair one virtual child, and go on below it with `hydrate`. -/
def pairChild (dom : Dom V) (virtualInstances : Map String (VirtualInstance E))
    (hydrate : String → Handle → InstanceMap → Option InstanceMap) (state : Pairing)
    (childId : String) : Option Pairing := do
  let virtualChild ← virtualInstances.lookup childId
  let key := (virtualChild.name, virtualChild.className)
  match state.buckets.lookup key with
  | none => some state
  | some bucket =>
    let (picked, bucket) := pickMatch
      (fun inst => countMatchingProperties dom state.map inst virtualChild) state.visited bucket
    let state := { state with buckets := state.buckets.insert key bucket }
    match picked with
    | none => some state
    | some inst =>
      let map ← hydrate childId inst state.map
      some { state with map, visited := inst :: state.visited }

def hydrateInner (dom : Dom V) (virtualInstances : Map String (VirtualInstance E)) :
    ℕ → String → Handle → InstanceMap → Option InstanceMap
  | 0, _, _, _ => none
  | levels + 1, rootId, rootInstance, map => do
    let virtualInstance ← virtualInstances.lookup rootId
    let start : Pairing :=
      { map := map.insert dom rootId rootInstance
        buckets := (dom.getChildren rootInstance).foldl (addToBuckets dom) ∅
        visited := [] }
    let state ← virtualInstance.children.foldlM
      (pairChild dom virtualInstances (hydrateInner dom virtualInstances levels)) start
    some state.map

def hydrate (dom : Dom V) (map : InstanceMap) (virtualInstances : Map String (VirtualInstance E))
    (rootId : String) (rootInstance : Handle) : Option InstanceMap :=
  hydrateInner dom virtualInstances virtualInstances.keys.length rootId rootInstance map

end Roxo.Plugin
