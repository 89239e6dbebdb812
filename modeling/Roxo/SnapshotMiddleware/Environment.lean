import Roxo.Snapshot.InstanceSnapshot
import Roxo.Vfs.Vfs

/-!
# What snapshotting rests on

The failures of the snapshot functions, the data that they decode from files, and the libraries
that decode it: parsers, glob matching and the reflection database are parameters.
-/

namespace Roxo

open AssocMap

/-! ## Failures -/

/-- Why a function did not return a value. -/
inductive Failure where
  /-- An `anyhow::Error`, the outermost message first. -/
  | error (messages : List String)
  | panic
  | stackOverflow
  deriving DecidableEq, Repr

abbrev Fallible (α : Type) := Except Failure α

theorem Except.bind_eq_ok {ε α β : Type} {x : Except ε α} {f : α → Except ε β} {b : β} :
    (x >>= f) = .ok b ↔ ∃ a, x = .ok a ∧ f a = .ok b := by
  cases x with
  | error e => exact ⟨nofun, fun ⟨_, h, _⟩ => nomatch h⟩
  | ok a =>
    refine ⟨fun h => ⟨a, rfl, h⟩, ?_⟩
    rintro ⟨_, heq, h⟩
    cases heq
    exact h

theorem Except.bind_eq_error {ε α β : Type} {x : Except ε α} {f : α → Except ε β} {e : ε} :
    (x >>= f) = .error e ↔ x = .error e ∨ ∃ a, x = .ok a ∧ f a = .error e := by
  cases x with
  | error e' =>
    exact ⟨fun h => Or.inl (by cases h; rfl), fun h => h.elim (fun h => by cases h; rfl) nofun⟩
  | ok a =>
    refine ⟨fun h => Or.inr ⟨a, rfl, h⟩, ?_⟩
    rintro (h | ⟨_, heq, h⟩)
    · cases h
    · cases heq
      exact h

namespace Fallible

variable {α : Type}

def bail (message : String) : Fallible α := .error (.error [message])

/-- `with_context`: a message around an error. -/
def withContext (message : String) : Fallible α → Fallible α
  | .error (.error messages) => .error (.error (message :: messages))
  | r => r

/-- An error of another type becomes an `anyhow::Error`. -/
def ofIo : Except IoError α → Fallible α
  | .ok v => .ok v
  | .error err => .error (.error [err.message])

def ofText : Except String α → Fallible α
  | .ok v => .ok v
  | .error message => .error (.error [message])

/-- `Option::unwrap`. -/
def unwrap : Option α → Fallible α
  | some v => .ok v
  | none => .error .panic

/-- An option that is expected to hold something, or else an error. -/
def context (message : String) : Option α → Fallible α
  | some v => .ok v
  | none => bail message

theorem ofText_eq_ok {x : Except String α} {a : α} : ofText x = .ok a ↔ x = .ok a := by
  cases x with
  | error e => exact ⟨nofun, nofun⟩
  | ok b => exact ⟨fun h => by cases h; rfl, fun h => by cases h; rfl⟩

theorem ofIo_eq_ok {x : Except IoError α} {a : α} : ofIo x = .ok a ↔ x = .ok a := by
  cases x with
  | error e => exact ⟨nofun, nofun⟩
  | ok b => exact ⟨fun h => by cases h; rfl, fun h => by cases h; rfl⟩

theorem unwrap_eq_ok {x : Option α} {a : α} : unwrap x = .ok a ↔ x = some a := by
  cases x with
  | none => exact ⟨nofun, nofun⟩
  | some b => exact ⟨fun h => by cases h; rfl, fun h => by cases h; rfl⟩

theorem withContext_eq_ok {message : String} {x : Fallible α} {a : α} :
    withContext message x = .ok a ↔ x = .ok a := by
  unfold withContext
  split
  · exact ⟨nofun, nofun⟩
  · rfl

theorem context_eq_ok {message : String} {x : Option α} {a : α} :
    context message x = .ok a ↔ x = some a := by
  cases x with
  | none => exact ⟨nofun, nofun⟩
  | some b => exact ⟨fun h => by cases h; rfl, fun h => by cases h; rfl⟩

end Fallible

/-! ## Decoded files -/

/-- All of the configuration for a project that snapshotting reads. -/
structure Project where
  name : Option String
  tree : ProjectNode
  emitLegacyScripts : Option Bool
  globIgnorePaths : List IgnorableGlob
  syncRules : List SyncRule
  /-- The path to the file that this project came from. -/
  fileLocation : PathBuf

/-- Metadata in a sibling file with the same basename. The maps are their entries in order. -/
structure AdjacentMetadata where
  schema : Option String
  id : Option String
  ignoreUnknownInstances : Option Bool
  properties : List (String × UnresolvedValue)
  attributes : List (String × UnresolvedValue)
  path : PathBuf

/-- Metadata that affects the instance resulting from the containing folder. -/
structure DirectoryMetadata extends AdjacentMetadata where
  className : Option String

structure JsonModel where
  schema : Option String
  name : Option String
  className : String
  id : Option String
  children : List JsonModel
  properties : List (String × UnresolvedValue)
  attributes : List (String × UnresolvedValue)

/-- An instance of a binary or XML model file, with everything below it. -/
structure ModelInstance where
  referent : Ref
  name : String
  className : String
  properties : UstrMap Variant
  children : List ModelInstance

/-! ## Libraries -/

/-- What the snapshot functions use of other code. -/
class Environment where
  /-- `GlobMatcher::is_match`. -/
  isMatch : Glob → PathBuf → Bool
  project : List UInt8 → Except String Project
  adjacentMetadata : List UInt8 → Except String AdjacentMetadata
  directoryMetadata : List UInt8 → Except String DirectoryMetadata
  jsonModel : String → Except String JsonModel
  /-- The top-level instances of a model file. -/
  rbxm : List UInt8 → Except String (List ModelInstance)
  rbxmx : List UInt8 → Except String (List ModelInstance)
  /-- The `Contents` of a localization table. -/
  localizationTable : List UInt8 → Except String String
  /-- The source of a module that returns the decoded value. -/
  jsonSource : List UInt8 → Except String String
  tomlSource : List UInt8 → Except String String
  yamlSource : String → Except String String
  /-- A value of a property of a class. -/
  resolve : UnresolvedValue → String → String → Except String Variant
  resolveUnambiguous : UnresolvedValue → Except String Variant
  /-- The class is in the reflection database and tagged as a service. -/
  isService : String → Bool
  /-- The items of the enum `RunContext`. -/
  runContext : String → Option UInt32

end Roxo
