import Roxo.Snapshot.Variant

/-!
# Instance metadata

What Rojo remembers about an instance besides its Roblox data: where it came from, which paths
can change it, the context its source is read in and the id other instances may name it by.
-/

namespace Roxo

/-- A path, compared as the standard library compares paths: by its components. -/
structure PathBuf where
  absolute : Bool
  components : List String
  deriving DecidableEq, Repr

/-- A user-specified id of an instance. -/
structure RojoRef where
  id : String
  deriving DecidableEq, Repr

/-- The attribute that gives an instance its id. -/
def refIdAttributeName : String := "Rojo_Id"

/-- The prefix of the attributes that set a `Ref` property by id. -/
def refPointerAttributePrefix : String := "Rojo_Target_"

/-! ## Project nodes -/

inductive AmbiguousValue where
  | bool (b : Bool)
  | string (s : String)
  | stringArray (strings : List String)
  | number (n : F64)
  | array2 (a : Vector F64 2)
  | array3 (a : Vector F64 3)
  | array4 (a : Vector F64 4)
  | array12 (a : Vector F64 12)
  | attributes (attributes : List (String × Variant))
  | font (font : Font)
  | materialColors (encoded : List UInt8)
  deriving DecidableEq

inductive UnresolvedValue where
  | fullyQualified (value : Variant)
  | ambiguous (value : AmbiguousValue)
  deriving DecidableEq

inductive PathNode where
  | required (path : PathBuf)
  | optional (path : PathBuf)
  deriving DecidableEq, Repr

/-- An instance and its descendants in a project. The maps are their entries in key order. -/
structure ProjectNode where
  className : Option String
  id : Option String
  children : List (String × ProjectNode)
  properties : List (String × UnresolvedValue)
  attributes : List (String × UnresolvedValue)
  ignoreUnknownInstances : Option Bool
  path : Option PathNode

namespace ProjectNode

mutual

def decEq : (a b : ProjectNode) → Decidable (a = b)
  | ⟨c, i, ch, p, at', u, pa⟩, ⟨c', i', ch', p', at'', u', pa'⟩ =>
    match decEqChildren ch ch' with
    | isTrue h =>
      decidable_of_iff (c = c' ∧ i = i' ∧ p = p' ∧ at' = at'' ∧ u = u' ∧ pa = pa')
        (by simp [h])
    | isFalse h => isFalse (by simp [h])

def decEqChildren : (a b : List (String × ProjectNode)) → Decidable (a = b)
  | [], [] => isTrue rfl
  | [], _ :: _ => isFalse nofun
  | _ :: _, [] => isFalse nofun
  | (k, a) :: as, (l, b) :: bs =>
    if hk : k = l then
      match decEq a b, decEqChildren as bs with
      | isTrue h, isTrue hs => isTrue (by rw [hk, h, hs])
      | isFalse h, _ => isFalse (by simp [h])
      | _, isFalse hs => isFalse (by simp [hs])
    else isFalse (by simp [hk])

end

instance : DecidableEq ProjectNode := decEq

end ProjectNode

/-- Where an instance came from. -/
inductive InstigatingSource where
  | path (path : PathBuf)
  | projectNode (path : PathBuf) (name : String) (node : ProjectNode) (parentClass : Option String)
  deriving DecidableEq

/-! ## Contexts -/

inductive Middleware where
  | csv
  | jsonModel
  | json
  | serverScript
  | clientScript
  | moduleScript
  | pluginScript
  | legacyClientScript
  | legacyServerScript
  | runContextServerScript
  | runContextClientScript
  | project
  | rbxm
  | rbxmx
  | toml
  | text
  | yaml
  | ignore
  | dir
  | serverScriptDir
  | clientScriptDir
  | pluginScriptDir
  | moduleScriptDir
  | csvDir
  deriving DecidableEq, Repr

/-- A glob, compared by its text. -/
structure Glob where
  glob : String
  deriving DecidableEq, Repr

structure IgnorableGlob where
  glob : Glob
  negated : Bool
  deriving DecidableEq, Repr

structure PathIgnoreRule where
  basePath : PathBuf
  glob : IgnorableGlob
  deriving DecidableEq, Repr

structure SyncRule where
  includeGlob : Glob
  excludeGlob : Option Glob
  middleware : Middleware
  suffix : Option String
  basePath : PathBuf
  deriving DecidableEq, Repr

/-- What carries over from one snapshot of a source to the next. -/
structure InstanceContext where
  pathIgnoreRules : List PathIgnoreRule := []
  emitLegacyScripts : Bool := true
  syncRules : List SyncRule := []
  deriving DecidableEq, Repr

/-- Rojo-specific metadata of an instance or a snapshot; the defaults are `InstanceMetadata::new`. -/
structure InstanceMetadata where
  ignoreUnknownInstances : Bool := false
  instigatingSource : Option InstigatingSource := none
  relevantPaths : List PathBuf := []
  context : InstanceContext := {}
  specifiedId : Option RojoRef := none
  middleware : Option Middleware := none
  schema : Option String := none
  deriving DecidableEq

end Roxo
