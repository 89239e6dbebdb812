import Roxo.SnapshotMiddleware.MetaFile

/-!
# Snapshots of files

The middlewares that turn one file into instances.
-/

namespace Roxo

open AssocMap

variable [Environment]

omit [Environment] in
/-- A property map with one entry. -/
def oneProperty (key : String) (value : Variant) : UstrMap Variant :=
  (∅ : UstrMap Variant).insert key value

omit [Environment] in
/-- The metadata of a file's instance: it is made from the file, which is the one path that can
change it before meta files are looked at. -/
def fileMetadata (vfs : Vfs) (path : PathBuf) : Fallible InstanceMetadata := do
  let canonical ← Fallible.ofIo (vfs.canonicalize path)
  .ok { instigatingSource := some (.path path), relevantPaths := [canonical] }

/-- The context of the file is not kept. -/
def snapshotCsv (vfs : Vfs) (path : PathBuf) (name : String) :
    Fallible (Option InstanceSnapshot) := do
  let contents ← Fallible.ofIo (vfs.read path)
  let tableContents ← Fallible.withContext
    s!"File was not a valid LocalizationTable CSV file: {path.display}"
    (Fallible.ofText (Environment.localizationTable contents))
  let metadata ← fileMetadata vfs path
  let snapshot ← AdjacentMetadata.readAndApplyAll vfs path name
    { InstanceSnapshot.new with
      name := name
      className := "LocalizationTable"
      properties := oneProperty "Contents" (.string tableContents)
      metadata := metadata }
  .ok (some snapshot)

/-- A file with contents that become the source of a module. -/
def snapshotModule (context : InstanceContext) (vfs : Vfs) (path : PathBuf) (name source : String) :
    Fallible (Option InstanceSnapshot) := do
  let metadata ← fileMetadata vfs path
  let snapshot ← AdjacentMetadata.readAndApplyAll vfs path name
    { InstanceSnapshot.new with
      name := name
      className := "ModuleScript"
      properties := oneProperty "Source" (.string source)
      metadata := { metadata with context := context } }
  .ok (some snapshot)

def snapshotJson (context : InstanceContext) (vfs : Vfs) (path : PathBuf) (name : String) :
    Fallible (Option InstanceSnapshot) := do
  let contents ← Fallible.ofIo (vfs.read path)
  let asLua ← Fallible.withContext s!"File contains malformed JSON: {path.display}"
    (Fallible.ofText (Environment.jsonSource contents))
  snapshotModule context vfs path name asLua

def snapshotToml (context : InstanceContext) (vfs : Vfs) (path : PathBuf) (name : String) :
    Fallible (Option InstanceSnapshot) := do
  let contents ← Fallible.ofIo (vfs.read path)
  let asLua ← Fallible.withContext s!"File contains malformed TOML: {path.display}"
    (Fallible.ofText (Environment.tomlSource contents))
  snapshotModule context vfs path name asLua

def snapshotYaml (context : InstanceContext) (vfs : Vfs) (path : PathBuf) (name : String) :
    Fallible (Option InstanceSnapshot) := do
  let contents ← Fallible.ofIo (vfs.readToString path)
  let asLua ← Fallible.ofText (Environment.yamlSource contents)
  snapshotModule context vfs path name asLua

def snapshotTxt (context : InstanceContext) (vfs : Vfs) (path : PathBuf) (name : String) :
    Fallible (Option InstanceSnapshot) := do
  let contents ← Fallible.ofIo (vfs.readToString path)
  let metadata ← fileMetadata vfs path
  let snapshot ← AdjacentMetadata.readAndApplyAll vfs path name
    { InstanceSnapshot.new with
      name := name
      className := "StringValue"
      properties := oneProperty "Value" (.string contents)
      metadata := { metadata with context := context } }
  .ok (some snapshot)

inductive ScriptType where
  | server
  | client
  | module
  | plugin
  | legacyServer
  | legacyClient
  | runContextServer
  | runContextClient
  deriving DecidableEq, Repr

/-- The class of a script and its `RunContext`. -/
def scriptClass (context : InstanceContext) : ScriptType → String × Option UInt32
  | .server =>
    if context.emitLegacyScripts then ("Script", Environment.runContext "Legacy")
    else ("Script", Environment.runContext "Server")
  | .client =>
    if context.emitLegacyScripts then ("LocalScript", none)
    else ("Script", Environment.runContext "Client")
  | .module => ("ModuleScript", none)
  | .plugin => ("Script", Environment.runContext "Plugin")
  | .legacyServer => ("Script", Environment.runContext "Legacy")
  | .legacyClient => ("LocalScript", none)
  | .runContextServer => ("Script", Environment.runContext "Server")
  | .runContextClient => ("Script", Environment.runContext "Client")

def snapshotLua (context : InstanceContext) (vfs : Vfs) (path : PathBuf) (name : String)
    (scriptType : ScriptType) : Fallible (Option InstanceSnapshot) := do
  let (className, runContext) := scriptClass context scriptType
  let contents ← Fallible.ofIo (vfs.readToStringLfNormalized path)
  let properties := oneProperty "Source" (.string contents)
  let properties := match runContext with
    | some value => properties.insert "RunContext" (.value (.enum value))
    | none => properties
  let metadata ← fileMetadata vfs path
  let snapshot ← AdjacentMetadata.readAndApplyAll vfs path name
    { InstanceSnapshot.new with
      name := name
      className := className
      properties := properties
      metadata := { metadata with context := context } }
  .ok (some snapshot)

namespace ModelInstance

mutual

/-- The snapshot of an instance of a model file. -/
def toSnapshot : ModelInstance → InstanceSnapshot
  | ⟨referent, name, className, properties, children⟩ =>
    ⟨referent, {}, name, className, properties, toSnapshots children⟩

def toSnapshots : List ModelInstance → List InstanceSnapshot
  | [] => []
  | child :: children => toSnapshot child :: toSnapshots children

end

end ModelInstance

/-- A model file, whose one top-level instance is given the name and the metadata of the file. -/
def snapshotModel (context : InstanceContext) (vfs : Vfs) (path : PathBuf) (name : String)
    (topLevel : List ModelInstance) : Fallible (Option InstanceSnapshot) :=
  match topLevel with
  | [child] => do
    let metadata ← fileMetadata vfs path
    .ok (some { child.toSnapshot with
      name := name
      metadata := { metadata with context := context } })
  | _ =>
    let file := path.display
    Fallible.bail ("Rojo currently only supports model files with one top-level instance.\n\n " ++
      s!"Check the model file at path {file}")

def snapshotRbxm (context : InstanceContext) (vfs : Vfs) (path : PathBuf) (name : String) :
    Fallible (Option InstanceSnapshot) := do
  let contents ← Fallible.ofIo (vfs.read path)
  let topLevel ← Fallible.withContext s!"Malformed rbxm file: {path.display}"
    (Fallible.ofText (Environment.rbxm contents))
  snapshotModel context vfs path name topLevel

def snapshotRbxmx (context : InstanceContext) (vfs : Vfs) (path : PathBuf) (name : String) :
    Fallible (Option InstanceSnapshot) := do
  let contents ← Fallible.ofIo (vfs.read path)
  let topLevel ← Fallible.withContext s!"Malformed rbxmx file: {path.display}"
    (Fallible.ofText (Environment.rbxmx contents))
  snapshotModel context vfs path name topLevel

/-- Properties resolved one by one and added to a map. -/
def resolveProperties (className : String) (properties : List (String × UnresolvedValue)) :
    Except String (UstrMap Variant) :=
  properties.foldlM (fun resolved (key, unresolved) => do
    let value ← Environment.resolve unresolved className key
    .ok (resolved.insert key value)) (∅ : UstrMap Variant)

/-- Attributes, if there are any, resolved and added to a map as one property. -/
def insertAttributes (attributes : List (String × UnresolvedValue))
    (properties : UstrMap Variant) : Except String (UstrMap Variant) :=
  if attributes = [] then .ok properties
  else do
    let attributes ← resolveAttributes attributes
    .ok (properties.insert "Attributes" (.attributes attributes))

namespace JsonModel

mutual

def intoSnapshot : JsonModel → Except String InstanceSnapshot
  | ⟨_, name, className, _, children, properties, attributes⟩ => do
    let children ← intoSnapshots children
    let properties ← resolveProperties className properties
    let properties ← insertAttributes attributes properties
    .ok ⟨Ref.none, {}, name.getD className, className, properties, children⟩

def intoSnapshots : List JsonModel → Except String (List InstanceSnapshot)
  | [] => .ok []
  | child :: children => do
    let child ← intoSnapshot child
    let children ← intoSnapshots children
    .ok (child :: children)

end

end JsonModel

omit [Environment] in
/-- `char::is_whitespace`. -/
def isWhiteSpace (c : Char) : Bool :=
  let n := c.toNat
  (0x9 ≤ n && n ≤ 0xD) || n == 0x20 || n == 0x85 || n == 0xA0 || n == 0x1680 ||
    (0x2000 ≤ n && n ≤ 0x200A) || n == 0x2028 || n == 0x2029 || n == 0x202F || n == 0x205F ||
    n == 0x3000

omit [Environment] in
/-- `str::trim` leaves nothing. -/
def isBlank (text : String) : Bool := text.toList.all isWhiteSpace

def snapshotJsonModel (context : InstanceContext) (vfs : Vfs) (path : PathBuf) (name : String) :
    Fallible (Option InstanceSnapshot) := do
  let contents ← Fallible.ofIo (vfs.read path)
  let text ← Fallible.context s!"File was not valid UTF-8: {path.display}"
    (String.fromUTF8? ⟨contents.toArray⟩)
  if isBlank text then .ok none
  else do
    let model ← Fallible.withContext s!"File is not a valid JSON model: {path.display}"
      (Fallible.ofText (Environment.jsonModel text))
    let snapshot ← Fallible.withContext s!"Could not load JSON model: {path.display}"
      (Fallible.ofText { model with name := some name, id := none, schema := none }.intoSnapshot)
    let metadata ← fileMetadata vfs path
    .ok (some { snapshot with metadata := { metadata with
      context := context
      specifiedId := model.id.map RojoRef.mk
      schema := model.schema } })

end Roxo
