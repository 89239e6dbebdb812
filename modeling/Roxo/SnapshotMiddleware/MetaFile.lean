import Roxo.SnapshotMiddleware.SyncRule

/-!
# Meta files

A file `name.meta.json` beside a file changes the instance of it, and `init.meta.json` in a
directory changes the instance of the directory; either may end in `.jsonc`. The paths of both are
relevant to the instance whether or not the files exist.
-/

namespace Roxo

open AssocMap

variable [Environment]

omit [Environment] in
/-- `Attributes::insert`: the entries stand in the order of their keys. -/
def insertAttribute (key : String) (value : Variant) :
    List (String × Variant) → List (String × Variant)
  | [] => [(key, value)]
  | (k, v) :: attributes =>
    if key = k then (key, value) :: attributes
    else if key < k then (key, value) :: (k, v) :: attributes
    else (k, v) :: insertAttribute key value attributes

/-- Attributes resolved one by one. -/
def resolveAttributes (attributes : List (String × UnresolvedValue)) :
    Except String (List (String × Variant)) :=
  attributes.foldlM (fun resolved (key, unresolved) => do
    let value ← Environment.resolveUnambiguous unresolved
    .ok (insertAttribute key value resolved)) []

namespace InstanceSnapshot

omit [Environment] in
/-- The metadata is given more relevant paths. -/
def pushRelevantPaths (snapshot : InstanceSnapshot) (paths : List PathBuf) : InstanceSnapshot :=
  { snapshot with metadata := { snapshot.metadata with
      relevantPaths := snapshot.metadata.relevantPaths ++ paths } }

omit [Environment] in
def insertProperty (snapshot : InstanceSnapshot) (key : String) (value : Variant) :
    InstanceSnapshot :=
  { snapshot with properties := snapshot.properties.insert key value }

end InstanceSnapshot

namespace AdjacentMetadata

omit [Environment] in
def applyIgnoreUnknownInstances (metadata : AdjacentMetadata) (snapshot : InstanceSnapshot) :
    InstanceSnapshot :=
  match metadata.ignoreUnknownInstances with
  | some ignore =>
    { snapshot with metadata := { snapshot.metadata with ignoreUnknownInstances := ignore } }
  | none => snapshot

def applyProperties (metadata : AdjacentMetadata) (snapshot : InstanceSnapshot) :
    Fallible InstanceSnapshot := do
  let snapshot ← metadata.properties.foldlM (fun snapshot (key, unresolved) => do
    let value ← Fallible.withContext s!"error applying meta file {metadata.path.display}"
      (Fallible.ofText (Environment.resolve unresolved snapshot.className key))
    .ok (snapshot.insertProperty key value)) snapshot
  if metadata.attributes = [] then .ok snapshot
  else do
    let attributes ← Fallible.ofText (resolveAttributes metadata.attributes)
    .ok (snapshot.insertProperty "Attributes" (.attributes attributes))

omit [Environment] in
def applyId (metadata : AdjacentMetadata) (snapshot : InstanceSnapshot) :
    Fallible InstanceSnapshot :=
  if metadata.id.isSome ∧ snapshot.metadata.specifiedId.isSome then
    let path := metadata.path.display
    Fallible.bail
      s!"cannot specify an ID using {path} (instance has an ID from somewhere else)"
  else
    .ok { snapshot with metadata := { snapshot.metadata with
      specifiedId := metadata.id.map RojoRef.mk } }

omit [Environment] in
def applySchema (metadata : AdjacentMetadata) (snapshot : InstanceSnapshot) :
    Fallible InstanceSnapshot :=
  if metadata.schema.isSome ∧ snapshot.metadata.schema.isSome then
    let path := metadata.path.display
    Fallible.bail (s!"cannot specify a schema using {path} (instance has a schema from " ++
      "somewhere else. how did we get here?)")
  else .ok { snapshot with metadata := { snapshot.metadata with schema := metadata.schema } }

def applyAll (metadata : AdjacentMetadata) (snapshot : InstanceSnapshot) :
    Fallible InstanceSnapshot := do
  let snapshot := metadata.applyIgnoreUnknownInstances snapshot
  let snapshot ← metadata.applyProperties snapshot
  let snapshot ← metadata.applyId snapshot
  metadata.applySchema snapshot

def fromSlice (slice : List UInt8) (path : PathBuf) : Fallible AdjacentMetadata := do
  let metadata ← Fallible.withContext
    s!"File contained malformed .meta.json data: {path.display}"
    (Fallible.ofText (Environment.adjacentMetadata slice))
  .ok { metadata with path := path }

/-- Applies the meta file at `path` if there is one; in its errors it goes by `reported`. -/
def readAndApply (vfs : Vfs) (path reported : PathBuf) (snapshot : InstanceSnapshot) :
    Fallible InstanceSnapshot := do
  match ← Fallible.ofIo (withNotFound (vfs.read path)) with
  | some contents => do
    let metadata ← fromSlice contents reported
    metadata.applyAll snapshot
  | none => .ok snapshot

omit [Environment] in
def metaPathJson (path : PathBuf) (name : String) : PathBuf :=
  path.withFileName s!"{name}.meta.json"

omit [Environment] in
def metaPathJsonc (path : PathBuf) (name : String) : PathBuf :=
  path.withFileName s!"{name}.meta.jsonc"

/-- Reads the meta files for the path and name and applies those that exist. -/
def readAndApplyAll (vfs : Vfs) (path : PathBuf) (name : String) (snapshot : InstanceSnapshot) :
    Fallible InstanceSnapshot := do
  let snapshot ← readAndApply vfs (metaPathJson path name) (metaPathJson path name) snapshot
  -- a `.meta.jsonc` file goes by the name of the other one in errors
  let snapshot ← readAndApply vfs (metaPathJsonc path name) (metaPathJson path name) snapshot
  .ok (snapshot.pushRelevantPaths [metaPathJson path name, metaPathJsonc path name])

end AdjacentMetadata

namespace DirectoryMetadata

omit [Environment] in
def applyClassName (metadata : DirectoryMetadata) (snapshot : InstanceSnapshot) :
    Fallible InstanceSnapshot :=
  match metadata.className with
  | some className =>
    if snapshot.className ≠ "Folder" then
      Fallible.bail ("className in init.meta.json can only be specified if the affected " ++
        "directory would turn into a Folder instance.")
    else .ok { snapshot with className := className }
  | none => .ok snapshot

def applyAll (metadata : DirectoryMetadata) (snapshot : InstanceSnapshot) :
    Fallible InstanceSnapshot := do
  let snapshot := metadata.applyIgnoreUnknownInstances snapshot
  let snapshot ← metadata.applyClassName snapshot
  let snapshot ← metadata.applyProperties snapshot
  let snapshot ← metadata.applyId snapshot
  metadata.applySchema snapshot

def fromSlice (slice : List UInt8) (path : PathBuf) : Fallible DirectoryMetadata := do
  let metadata ← Fallible.withContext
    s!"File contained malformed init.meta.json data: {path.display}"
    (Fallible.ofText (Environment.directoryMetadata slice))
  .ok { metadata with path := path }

def readAndApply (vfs : Vfs) (path : PathBuf) (snapshot : InstanceSnapshot) :
    Fallible InstanceSnapshot := do
  match ← Fallible.ofIo (withNotFound (vfs.read path)) with
  | some contents => do
    let metadata ← fromSlice contents path
    metadata.applyAll snapshot
  | none => .ok snapshot

omit [Environment] in
def metaPathJson (path : PathBuf) : PathBuf := path.joinStr "init.meta.json"

omit [Environment] in
def metaPathJsonc (path : PathBuf) : PathBuf := path.joinStr "init.meta.jsonc"

/-- Reads the `init.meta` files of a directory and applies those that exist. -/
def readAndApplyAll (vfs : Vfs) (path : PathBuf) (snapshot : InstanceSnapshot) :
    Fallible InstanceSnapshot := do
  let snapshot ← readAndApply vfs (metaPathJson path) snapshot
  let snapshot ← readAndApply vfs (metaPathJsonc path) snapshot
  .ok (snapshot.pushRelevantPaths [metaPathJson path, metaPathJsonc path])

end DirectoryMetadata

end Roxo
