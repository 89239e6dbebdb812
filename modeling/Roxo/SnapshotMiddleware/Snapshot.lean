import Roxo.SnapshotMiddleware.Files

/-!
# Snapshots of directories and projects

A directory is a project if it has a default project file, a script or a table if it has an init
file, and a folder otherwise. Directories and projects are made of the snapshots of other paths,
so the functions here take the function that snapshots a path as an argument;
`snapshotFromVfs n` is the one whose calls nest at most `n` deep.
-/

namespace Roxo

open AssocMap

variable [Environment]

/-- Snapshots a path in a context. -/
abbrev SnapshotPath : Type := InstanceContext → PathBuf → Fallible (Option InstanceSnapshot)

/-! ## Directories -/

omit [Environment] in
/-- The names of the files that turn a directory into something other than a folder. -/
def initNames : List String :=
  ["init.lua", "init.luau", "init.server.lua", "init.server.luau", "init.client.lua",
    "init.client.luau", "init.plugin.lua", "init.plugin.luau", "init.csv"]

/-- The loop over the entries of a directory. -/
def snapshotEntries (recur : SnapshotPath) (context : InstanceContext) :
    List (Except IoError PathBuf) → Fallible (List InstanceSnapshot)
  | [] => .ok []
  | entry :: entries => do
    let path ← Fallible.ofIo entry
    if isPathIgnored context.pathIgnoreRules path then snapshotEntries recur context entries
    else do
      let child ← recur context path
      let children ← snapshotEntries recur context entries
      .ok (child.toList ++ children)

/-- A directory without its meta files. -/
def snapshotDirNoMeta (recur : SnapshotPath) (context : InstanceContext) (vfs : Vfs)
    (path : PathBuf) (name : String) : Fallible (Option InstanceSnapshot) := do
  let entries ← Fallible.ofIo (vfs.readDir path)
  let snapshotChildren ← snapshotEntries recur context entries
  let normalizedPath ← Fallible.ofIo (vfs.canonicalize path)
  .ok (some { InstanceSnapshot.new with
    name := name
    className := "Folder"
    children := snapshotChildren
    metadata :=
      { instigatingSource := some (.path path)
        relevantPaths := normalizedPath :: initNames.map normalizedPath.joinStr
        context := context } })

def snapshotDir (recur : SnapshotPath) (context : InstanceContext) (vfs : Vfs) (path : PathBuf)
    (name : String) : Fallible (Option InstanceSnapshot) := do
  match ← snapshotDirNoMeta recur context vfs path name with
  | some snapshot => do
    let snapshot ← DirectoryMetadata.readAndApplyAll vfs path snapshot
    .ok (some snapshot)
  | none => .ok none

/-- What an init file makes of its directory: the snapshot of the file with the children and the
metadata of the directory. -/
def snapshotInit (recur : SnapshotPath) (context : InstanceContext) (vfs : Vfs)
    (initPath : PathBuf) (name : String) (notFolder : PathBuf → String → String)
    (snapshotFile : String → Fallible (Option InstanceSnapshot)) :
    Fallible (Option InstanceSnapshot) := do
  let folderPath ← Fallible.unwrap initPath.parent
  let dirSnapshot ← (snapshotDirNoMeta recur context vfs folderPath name) >>= Fallible.unwrap
  if dirSnapshot.className ≠ "Folder" then
    Fallible.bail (notFolder folderPath dirSnapshot.className)
  else do
    let initSnapshot ← (snapshotFile dirSnapshot.name) >>= Fallible.unwrap
    let initSnapshot := { initSnapshot with
      children := dirSnapshot.children
      metadata := dirSnapshot.metadata }
    let initSnapshot ← DirectoryMetadata.readAndApplyAll vfs folderPath initSnapshot
    .ok (some initSnapshot)

def snapshotCsvInit (recur : SnapshotPath) (context : InstanceContext) (vfs : Vfs)
    (initPath : PathBuf) (name : String) : Fallible (Option InstanceSnapshot) :=
  snapshotInit recur context vfs initPath name
    (fun folder className =>
      let folder := folder.display
      "init.csv can only be used if the instance produced by the containing directory would be " ++
        s!"a Folder.\n\nThe directory {folder} turned into an instance of class {className}.")
    (snapshotCsv vfs initPath)

def snapshotLuaInit (recur : SnapshotPath) (context : InstanceContext) (vfs : Vfs)
    (initPath : PathBuf) (name : String) (scriptType : ScriptType) :
    Fallible (Option InstanceSnapshot) :=
  snapshotInit recur context vfs initPath name
    (fun folder className =>
      let folder := folder.display
      "init.lua, init.server.lua, and init.client.lua can only be used if the instance produced " ++
        s!"by the containing directory would be a Folder.\n\nThe directory {folder} turned " ++
        s!"into an instance of class {className}.")
    (fun name => snapshotLua context vfs initPath name scriptType)

/-! ## Projects -/

/-- The class of a child of a parent of the given class that is known by its name alone. -/
def inferClassName (name : String) : Option String → Option String
  | none => none
  | some parentClass =>
    if parentClass = "DataModel" then if Environment.isService name then some name else none
    else if parentClass = "StarterPlayer" then
      if name = "StarterPlayerScripts" ∨ name = "StarterCharacterScripts" then some name else none
    else if parentClass = "Workspace" then if name = "Terrain" then some name else none
    else none

omit [Environment] in
def PathNode.path : PathNode → PathBuf
  | .required path => path
  | .optional path => path

omit [Environment] in
/-- The class of the instance of a node, from the project, from what its path turned into and from
its name; `none` inside if the node is optional and stands for nothing. -/
def nodeClassName (projectPath : PathBuf) (instanceName : String)
    (project path inference : Option String) (node : Option PathNode) :
    Fallible (Option String) :=
  match project, path, inference, node with
  | some project, none, none, _ => .ok (some project)
  | none, some path, none, _ => .ok (some path)
  | none, none, some inference, _ => .ok (some inference)
  | some project, none, some _, _ => .ok (some project)
  | none, some path, some inference, _ =>
    .ok (some (if path = "Folder" then inference else path))
  | some project, some path, _, node =>
    if path = "Folder" then .ok (some project)
    else
      let projectPath := projectPath.display
      let nodePath := (node.map fun node => node.path.display).getD ""
      Fallible.bail
        (s!"ClassName for Instance \"{instanceName}\" was specified in both the project file " ++
          s!"(as \"{project}\") and from the filesystem (as \"{path}\").\n" ++
          "If $className and $path are both set, $path must refer to a Folder.\n\n" ++
          s!"Project path: {projectPath}\nFilesystem path: {nodePath}\n")
  | none, none, none, some (.optional _) => .ok none
  | none, none, none, some (.required path) =>
    let projectPath := projectPath.display
    let nodePath := path.display
    Fallible.bail
      ("Rojo project referred to a file using $path that could not be turned into a Roblox " ++
        "Instance by Rojo.\nCheck that the file exists and is a file type known by Rojo.\n\n" ++
        s!"Project path: {projectPath}\nFile $path: {nodePath}")
  | none, none, none, none =>
    let projectPath := projectPath.display
    Fallible.bail
      (s!"Instance \"{instanceName}\" is missing some required information.\n" ++
        "One of the following must be true:\n" ++
        "- $className must be set to the name of a Roblox class\n" ++
        "- $path must be set to a path of an instance\n" ++
        "- The instance must be a known service, like ReplicatedStorage\n\n" ++
        s!"Project path: {projectPath}")

/-- The properties of a project node, resolved and put over those of its path. -/
def nodeProperties (projectPath : PathBuf) (className : String)
    (unresolved : List (String × UnresolvedValue)) (properties : UstrMap Variant) :
    Fallible (UstrMap Variant) :=
  unresolved.foldlM (fun properties (key, unresolved) => do
    let value ← Fallible.withContext
      s!"Unresolvable property in project at path {projectPath.display}"
      (Fallible.ofText (Environment.resolve unresolved className key))
    if key = "Name" ∨ key = "Parent" then .ok properties
    else .ok (properties.insert key value)) properties

def nodeAttributes (projectPath : PathBuf) (attributes : List (String × UnresolvedValue))
    (properties : UstrMap Variant) : Fallible (UstrMap Variant) :=
  if attributes = [] then .ok properties
  else do
    let attributes ← attributes.foldlM (fun resolved (key, unresolved) => do
      let value ← Fallible.withContext
        s!"Unresolvable attribute in project at path {projectPath.display}"
        (Fallible.ofText (Environment.resolveUnambiguous unresolved))
      .ok (insertAttribute key value resolved)) ([] : List (String × Variant))
    .ok (properties.insert "Attributes" (.attributes attributes))

omit [Environment] in
/-- What a node says about the metadata that it takes over from its path. -/
def nodeMetadata (projectPath : PathBuf) (instanceName : String) (node : ProjectNode)
    (parentClass : Option String) (metadata : InstanceMetadata) : InstanceMetadata :=
  { metadata with
    ignoreUnknownInstances :=
      match node.ignoreUnknownInstances, node.path with
      | some ignore, _ => ignore
      | none, none => true
      | none, some _ => metadata.ignoreUnknownInstances
    specifiedId :=
      match node.id with
      | some id => some ⟨id⟩
      | none => metadata.specifiedId
    instigatingSource := some (.projectNode projectPath instanceName node parentClass) }

omit [Environment] in
/-- A property of all project nodes follows from its passing from children to their parent. -/
theorem ProjectNode.induct {motive : ProjectNode → Prop}
    (node : ∀ n, (∀ c ∈ n.children, motive c.2) → motive n) (n : ProjectNode) : motive n :=
  @ProjectNode.rec motive (fun children => ∀ c ∈ children, motive c.2) (fun c => motive c.2)
    (fun _ _ _ _ _ _ _ ih => node _ ih) (fun _ h => nomatch h)
    (fun _ _ hc ih _ h => (List.mem_cons.mp h).elim (fun h => h ▸ hc) (ih _)) (fun _ _ h => h) n

/-- The snapshot of the path of a node, if it has one. -/
def snapshotNodePath (recur : SnapshotPath) (context : InstanceContext) (projectFolder : PathBuf) :
    Option PathNode → Fallible (Option InstanceSnapshot)
  | some pathNode => recur context (projectFolder.join pathNode.path)
  | none => .ok none

mutual

def snapshotProjectNode (recur : SnapshotPath) (context : InstanceContext)
    (projectPath : PathBuf) (instanceName : String) (parentClass : Option String) :
    ProjectNode → Fallible (Option InstanceSnapshot)
  | ⟨nodeClass, id, nodeChildren, unresolved, attributes, ignoreUnknownInstances, path⟩ => do
    let projectFolder ← Fallible.unwrap projectPath.parent
    let found ← snapshotNodePath recur context projectFolder path
    match ← nodeClassName projectPath instanceName nodeClass (found.map (·.className))
        (inferClassName instanceName parentClass) path with
    | none => .ok none
    | some className => do
      let children ←
        snapshotProjectChildren recur context projectPath (some className) nodeChildren
      let properties ← nodeProperties projectPath className unresolved
        ((found.map (·.properties)).getD ∅)
      let properties ← nodeAttributes projectPath attributes properties
      .ok (some
        { snapshotId := Ref.none
          name := instanceName
          className := className
          properties := properties
          children := (found.map (·.children)).getD [] ++ children
          metadata := nodeMetadata projectPath instanceName
            ⟨nodeClass, id, nodeChildren, unresolved, attributes, ignoreUnknownInstances, path⟩
            parentClass ((found.map (·.metadata)).getD { context := context }) })

/-- The loop over the children of a node. -/
def snapshotProjectChildren (recur : SnapshotPath) (context : InstanceContext)
    (projectPath : PathBuf) (parentClass : Option String) :
    List (String × ProjectNode) → Fallible (List InstanceSnapshot)
  | [] => .ok []
  | (childName, child) :: nodes => do
    let child ← snapshotProjectNode recur context projectPath childName parentClass child
    let children ← snapshotProjectChildren recur context projectPath parentClass nodes
    .ok (child.toList ++ children)

end

namespace Project

omit [Environment] in
def defaultProjectNames : List String := ["default.project.json", "default.project.jsonc"]

omit [Environment] in
def folderLocation (project : Project) : Fallible PathBuf :=
  Fallible.unwrap project.fileLocation.parent

omit [Environment] in
/-- The name of a project that does not state one. -/
def fileProjectName (path : PathBuf) (fallback : Option String) : Fallible String := do
  let reported := path.display
  let fileName ← Fallible.context
    (s!"The file name of the provided project cannot be used as a project name: {reported}.\n" ++
      "Consider setting the \x60name\x60 field on this project.") path.fileName
  if fileName ∈ defaultProjectNames then do
    let folder ← Fallible.unwrap path.parent
    Fallible.context
      (s!"The folder for the provided project cannot be used as a project name: {reported}\n" ++
        "Consider setting the \x60name\x60 field on this project.") folder.fileName
  else Fallible.unwrap fallback

omit [Environment] in
def readFile (vfs : Vfs) (path : PathBuf) : Fallible (List UInt8) :=
  match vfs.read path with
  | .ok contents => .ok contents
  | .error err =>
    if err.kind = .notFound then
      let reported := path.display
      Fallible.bail
        (s!"Rojo requires a project file, but no project file was found in path {reported}\n" ++
          "See https://rojo.space/docs/ for guides and documentation.")
    else Fallible.ofIo (.error err)

/-- Loads a project from a path. -/
def loadExact (vfs : Vfs) (path : PathBuf) (fallback : Option String) : Fallible Project := do
  let reported := path.display
  let contents ← readFile vfs path
  let project ← Fallible.withContext s!"Error parsing Rojo project in path {reported}"
    (Fallible.ofText (Environment.project contents))
  let project := { project with fileLocation := path }
  match project.name with
  | some _ => .ok project
  | none => do
    let name ← fileProjectName path fallback
    .ok { project with name := some name }

omit [Environment] in
/-- The context of the instances of a project. -/
def extendContext (project : Project) (folder : PathBuf) (context : InstanceContext) :
    InstanceContext where
  pathIgnoreRules := context.pathIgnoreRules ++
    project.globIgnorePaths.map fun glob => ⟨folder, glob⟩
  emitLegacyScripts := project.emitLegacyScripts.getD true
  syncRules := project.syncRules.map fun rule => { rule with basePath := folder }

end Project

def snapshotProject (recur : SnapshotPath) (context : InstanceContext) (vfs : Vfs)
    (path : PathBuf) (name : String) : Fallible (Option InstanceSnapshot) := do
  let project ← Fallible.withContext s!"File was not a valid Rojo project: {path.display}"
    (Project.loadExact vfs path (some name))
  let projectName ← Fallible.unwrap project.name
  let folder ← project.folderLocation
  match ← snapshotProjectNode recur (project.extendContext folder context) path projectName none
      project.tree with
  | some snapshot =>
    .ok (some { snapshot with metadata := { snapshot.metadata with
      instigatingSource := some (.path path)
      relevantPaths := snapshot.metadata.relevantPaths ++ [path] } })
  | none => .ok none

/-! ## Paths -/

omit [Environment] in
/-- The init files of a directory, in the order in which they are tried. -/
def initPaths : List (Middleware × String) :=
  [ (.moduleScriptDir, "init.luau"), (.moduleScriptDir, "init.lua"),
    (.serverScriptDir, "init.server.luau"), (.serverScriptDir, "init.server.lua"),
    (.clientScriptDir, "init.client.luau"), (.clientScriptDir, "init.client.lua"),
    (.pluginScriptDir, "init.plugin.lua"), (.pluginScriptDir, "init.plugin.luau"),
    (.csvDir, "init.csv") ]

omit [Environment] in
/-- The first of some files of a directory that exists. -/
def firstExisting (vfs : Vfs) (dirPath : PathBuf) :
    List (Middleware × String) → Fallible (Option (Middleware × PathBuf))
  | [] => .ok none
  | (middleware, name) :: rest => do
    match ← Fallible.ofIo (withNotFound (vfs.metadata (dirPath.joinStr name))) with
    | some _ => .ok (some (middleware, dirPath.joinStr name))
    | none => firstExisting vfs dirPath rest

omit [Environment] in
/-- The middleware of a directory, its name and the path that the middleware takes. -/
def getDirMiddleware (vfs : Vfs) (dirPath : PathBuf) :
    Fallible (Middleware × String × PathBuf) := do
  let dirName ← Fallible.unwrap dirPath.fileName
  match ← firstExisting vfs dirPath
      (Project.defaultProjectNames.map (fun name => (Middleware.project, name)) ++ initPaths) with
  | some (middleware, path) => .ok (middleware, dirName, path)
  | none => .ok (.dir, dirName, dirPath)

/-- What the middleware itself returns. -/
def Middleware.output (recur : SnapshotPath) (middleware : Middleware)
    (context : InstanceContext) (vfs : Vfs) (path : PathBuf) (name : String) :
    Fallible (Option InstanceSnapshot) :=
  match middleware with
  | .csv => snapshotCsv vfs path name
  | .jsonModel => snapshotJsonModel context vfs path name
  | .json => snapshotJson context vfs path name
  | .serverScript => snapshotLua context vfs path name .server
  | .clientScript => snapshotLua context vfs path name .client
  | .moduleScript => snapshotLua context vfs path name .module
  | .pluginScript => snapshotLua context vfs path name .plugin
  | .legacyClientScript => snapshotLua context vfs path name .legacyClient
  | .legacyServerScript => snapshotLua context vfs path name .legacyServer
  | .runContextClientScript => snapshotLua context vfs path name .runContextClient
  | .runContextServerScript => snapshotLua context vfs path name .runContextServer
  | .project => snapshotProject recur context vfs path name
  | .rbxm => snapshotRbxm context vfs path name
  | .rbxmx => snapshotRbxmx context vfs path name
  | .toml => snapshotToml context vfs path name
  | .text => snapshotTxt context vfs path name
  | .yaml => snapshotYaml context vfs path name
  | .ignore => .ok none
  | .dir => snapshotDir recur context vfs path name
  | .serverScriptDir => snapshotLuaInit recur context vfs path name .server
  | .clientScriptDir => snapshotLuaInit recur context vfs path name .client
  | .pluginScriptDir => snapshotLuaInit recur context vfs path name .plugin
  | .moduleScriptDir => snapshotLuaInit recur context vfs path name .module
  | .csvDir => snapshotCsvInit recur context vfs path name

/-- Creates a snapshot for the given path with the provided name. -/
def Middleware.snapshot (recur : SnapshotPath) (middleware : Middleware)
    (context : InstanceContext) (vfs : Vfs) (path : PathBuf) (name : String) :
    Fallible (Option InstanceSnapshot) := do
  let output ← middleware.output recur context vfs path name
  .ok (output.map fun snapshot =>
    { snapshot with metadata := { snapshot.metadata with middleware := some middleware } })

/-- The rule for a file: the first of the project's rules that matches, or else the first of the
default ones. -/
def ruleForPath (context : InstanceContext) (path : PathBuf) : Option SyncRule :=
  context.getUserSyncRule path <|> defaultSyncRules.find? fun rule => rule.pathMatches path

def snapshotFromPath (recur : SnapshotPath) (context : InstanceContext) (vfs : Vfs)
    (path : PathBuf) : Fallible (Option InstanceSnapshot) :=
  match ruleForPath context path with
  | some rule => do
    let name ← rule.fileNameForPath path
    rule.middleware.snapshot recur context vfs path name
  | none => .ok none

omit [Environment] in
/-- The files that only the snapshot of their directory reads. -/
def refusedNames : List String :=
  ["init.server.luau", "init.server.lua", "init.client.luau", "init.client.lua",
    "init.plugin.luau", "init.plugin.lua", "init.luau", "init.lua", "init.csv"]

/-- One call of `snapshot_from_vfs`. -/
def snapshotStep (recur : SnapshotPath) (vfs : Vfs) : SnapshotPath := fun context path => do
  match ← Fallible.ofIo (withNotFound (vfs.metadata path)) with
  | none => .ok none
  | some metadata =>
    if metadata.isDir then do
      let (middleware, dirName, initPath) ← getDirMiddleware vfs path
      middleware.snapshot recur context vfs initPath dirName
    else do
      let fileName ← Fallible.context s!"file name of {path.display} is invalid" path.fileName
      if fileName ∈ refusedNames then .ok none
      else snapshotFromPath recur context vfs path

/-- `snapshot_from_vfs` with room for `n` nested calls. -/
def snapshotFromVfs (vfs : Vfs) : ℕ → SnapshotPath
  | 0 => fun _ _ => .error .stackOverflow
  | n + 1 => snapshotStep (snapshotFromVfs vfs n) vfs

end Roxo
