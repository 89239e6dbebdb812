import Roxo.SnapshotMiddleware.Snapshot
import Roxo.Syncback.Dir
import Roxo.Syncback.RefProperties

/-!
# Syncback of projects

`syncback_project` walks the nodes of a project, level by level, with their instances in the old
tree and in the new DOM. A node with a path is left to the middleware of the path. The children of
an instance that no node stands for are written beside the path of the node or removed. Properties
go into the nodes, and the project file is written if they have changed.
-/

namespace Roxo

open AssocMap WeakDom

/-- How a project and its values are written. -/
class ProjectWriter where
  /-- `UnresolvedValue::from_variant`, for a property of a class. -/
  fromVariant : Variant → String → String → UnresolvedValue
  fromVariantUnambiguous : Variant → UnresolvedValue
  /-- `serde_json::to_vec_pretty`. -/
  toVecPretty : Project → Except String (List UInt8)

/-! ## Middlewares -/

/-- This particular middleware sets its own properties. -/
def Middleware.handlesOwnProperties : Middleware → Bool
  | .jsonModel | .project | .rbxm | .rbxmx => true
  | _ => false

/-- The middleware that should be used for the given path. -/
def middlewareForPath [Environment] (vfs : Vfs) (syncRules : List SyncRule) (path : PathBuf) :
    Fallible (Option Middleware) := do
  match ← Fallible.ofIo (withNotFound (vfs.metadata path)) with
  | none => .ok none
  | some metadata =>
    if metadata.isDir then do
      let (middleware, _, _) ← getDirMiddleware vfs path
      .ok (some middleware)
    else
      .ok (((syncRules ++ defaultSyncRules).find? fun rule => rule.pathMatches path).map
        fun rule => rule.middleware)

/-! ## Properties -/

/-- `BTreeMap::insert`: the entries stand in the order of their keys. -/
def insertSorted {V : Type} (key : String) (value : V) : List (String × V) → List (String × V)
  | [] => [(key, value)]
  | (k, v) :: entries =>
    if key = k then (key, value) :: entries
    else if key < k then (key, value) :: (k, v) :: entries
    else (k, v) :: insertSorted key value entries

/-- The properties that an instance on the file system has from its file. -/
def filterOutProperty (inst : Instance) (propName : String) : Bool :=
  if inst.className ∈ ["Script", "LocalScript", "ModuleScript"] then
    propName = "Source" || propName = "ScriptGuid"
  else if inst.className = "LocalizationTable" then propName = "Contents"
  else if inst.className = "StringValue" then propName = "Value"
  else false

section Properties

variable [ProjectWriter] [ReflectionDatabase]

/-- The node with the properties of the instance, and whether properties that are back at their
default were taken out of it. -/
def projectNodePropertySyncback (filteredProperties : List (String × Variant))
    (newInst : Instance) (node : ProjectNode) : ProjectNode × Bool :=
  let properties := filteredProperties.foldl (fun properties (name, value) =>
    match value with
    | .attributes _ => properties
    | value => insertSorted name (ProjectWriter.fromVariant value newInst.className name) properties)
    node.properties
  let attributes := filteredProperties.foldl (fun attributes (_, value) =>
    match value with
    | .attributes attrs => attrs.foldl (fun attributes (attrName, attrValue) =>
        if (stripPrefix "RBX" attrName).isSome then attributes
        else insertSorted attrName (ProjectWriter.fromVariantUnambiguous attrValue) attributes)
        attributes
    | _ => attributes) []
  let kept := properties.filter fun (name, _) =>
    filteredProperties.any (fun (filtered, _) => filtered = name) ||
      !(defaultProperty newInst.className name).isSome
  ({ node with properties := kept, attributes := attributes }, kept.length < properties.length)

end Properties

section Reserialize

variable [Environment] [FloatCmp]

/-- The loop over the values of a node: one of them is missing from the instance or different. -/
def anyDiffers (held : String → Option Variant)
    (resolve : String → UnresolvedValue → Except String Variant) :
    List (String × UnresolvedValue) → Fallible Bool
  | [] => .ok false
  | (name, unresolved) :: entries =>
    match held name with
    | some instValue => do
      let nodeValue ← Fallible.ofText (resolve name unresolved)
      let same ← Fallible.unwrap (variantEq instValue nodeValue)
      if same then anyDiffers held resolve entries else .ok true
    | none => .ok true

def projectNodeShouldReserialize (nodeProperties nodeAttributes : List (String × UnresolvedValue))
    (inst : Instance) : Fallible Bool := do
  let differs ← anyDiffers inst.properties.lookup
    (fun propName unresolved => Environment.resolve unresolved inst.className propName)
    nodeProperties
  if differs then .ok true
  else
    match inst.properties.lookup "Attributes" with
    | some (.attributes instAttributes) =>
      if nodeAttributes.length ≠ instAttributes.length then .ok true
      else
        anyDiffers (fun attrName => List.lookup attrName instAttributes)
          (fun _ unresolved => Environment.resolveUnambiguous unresolved) nodeAttributes
    | some _ => .ok true
    | none => .ok (nodeAttributes ≠ [])

end Reserialize

/-! ## Nodes -/

namespace ProjectNode

mutual

/-- The number of nodes. -/
def count : ProjectNode → ℕ
  | ⟨_, _, children, _, _, _, _⟩ => countAll children + 1

def countAll : List (String × ProjectNode) → ℕ
  | [] => 0
  | (_, child) :: nodes => child.count + countAll nodes

end

mutual

/-- What is done to the node that the names lead to. -/
def modify (f : ProjectNode → ProjectNode) : List String → ProjectNode → ProjectNode
  | [], node => f node
  | name :: names, ⟨className, id, children, properties, attributes, ignore, path⟩ =>
    ⟨className, id, modifyChild f name names children, properties, attributes, ignore, path⟩

def modifyChild (f : ProjectNode → ProjectNode) (name : String) (names : List String) :
    List (String × ProjectNode) → List (String × ProjectNode)
  | [] => []
  | (childName, child) :: nodes =>
    if childName = name then (childName, child.modify f names) :: nodes
    else (childName, child) :: modifyChild f name names nodes

end

end ProjectNode

/-- A node in the queue: the names that lead to it, and its instances. -/
structure NodeEntry where
  names : List String
  node : ProjectNode
  oldInst : InstanceWithMeta
  newInst : Instance

/-- What the loop over the nodes has done. -/
structure ProjectState (D : Type) where
  tree : ProjectNode
  descendantSnapshots : List (SyncbackSnapshot D) := []
  removedDescendants : List InstanceWithMeta := []
  refToPathMap : Map Ref PathBuf := ∅
  nodeChangedMap : List (ProjectNode × InstanceWithMeta) := []
  removedStaleProperties : Bool := false

/-- The loop over the children of an instance, whose names must differ. -/
def childMap {α : Type} (get : Ref → Fallible α) (name : α → String)
    (duplicated : String → String) : List Ref → Map String α → Fallible (Map String α)
  | [], map => .ok map
  | childRef :: children, map => do
    let child ← get childRef
    if name child ∈ map then Fallible.bail (duplicated (name child))
    else childMap get name duplicated children (map.insert (name child) child)

/-- The path of the node is optional and there is nothing at it. -/
def isSkipped (vfs : Vfs) (basePath : PathBuf) (node : ProjectNode) : Bool :=
  match node.path with
  | some (.optional path) => (vfs.metadata (basePath.join path)).toOption.isNone
  | _ => false

/-- The loop over the child nodes: their entries, and the children that no node stands for. -/
def matchNodes (vfs : Vfs) (projectPath basePath : PathBuf) (parent : NodeEntry) :
    List (String × ProjectNode) → Map String Instance → Map String InstanceWithMeta →
      Fallible (List NodeEntry × Map String Instance × Map String InstanceWithMeta)
  | [], newMap, oldMap => .ok ([], newMap, oldMap)
  | (childName, child) :: nodes, newMap, oldMap =>
    if isSkipped vfs basePath child then matchNodes vfs projectPath basePath parent nodes newMap oldMap
    else
      let parentName := parent.oldInst.inst.name
      let project := projectPath.display
      match newMap.lookup childName, oldMap.lookup childName with
      | some new, some old => do
        let (entries, newMap, oldMap) ← matchNodes vfs projectPath basePath parent nodes
          (newMap.erase childName) (oldMap.erase childName)
        .ok (⟨parent.names ++ [childName], child, old, new⟩ :: entries, newMap, oldMap)
      | _, none =>
        Fallible.bail (s!"The child '{childName}' of Instance '{parentName}' would be " ++
          s!"removed.\nSyncback cannot add or remove Instances from project {project}")
      | none, some _ =>
        Fallible.bail (s!"The child '{childName}' of Instance '{parentName}' is present only in " ++
          "a project file,\nand not the provided file. Syncback cannot add or remove Instances " ++
          s!"from project:\n{project}.")

section Loop

variable {D : Type} [WeakDom D] [Environment]

/-- A snapshot of an instance in the given directory. -/
def SyncbackSnapshot.withBasePath (snapshot : SyncbackSnapshot D) (basePath : PathBuf)
    (newRef : Ref) (oldRef : Option Ref) : Fallible (SyncbackSnapshot D) :=
  { snapshot with path := basePath }.withJoinedPath newRef oldRef

/-- The loop over the new children that no node stands for: the snapshots of those that are not in
the old tree, and the old children that are left. -/
def addChildren (vfs : Vfs) (syncRules : List SyncRule) (snapshot : SyncbackSnapshot D)
    (refToPathMap : Map Ref PathBuf) :
    List (String × Instance) → Map String InstanceWithMeta →
      Fallible (List (SyncbackSnapshot D) × Map String InstanceWithMeta)
  | [], oldMap => .ok ([], oldMap)
  | (name, newChild) :: children, oldMap =>
    match refToPathMap.lookup newChild.parent with
    | none => addChildren vfs syncRules snapshot refToPathMap children oldMap
    | some parentPath =>
      if name ∈ oldMap then
        addChildren vfs syncRules snapshot refToPathMap children (oldMap.erase name)
      else do
        let parentMiddleware ← (middlewareForPath vfs syncRules parentPath) >>= Fallible.unwrap
        if parentMiddleware = .project then
          addChildren vfs syncRules snapshot refToPathMap children oldMap
        else do
          let child ← snapshot.withBasePath parentPath newChild.referent none
          let (added, oldMap) ←
            addChildren vfs syncRules snapshot refToPathMap children oldMap
          .ok (child :: added, oldMap)

variable [FloatCmp] [ReflectionDatabase] [ProjectWriter]

/-- The properties of an instance that its path does not have in a special place. -/
def SyncbackSnapshot.getPathFilteredProperties (snapshot : SyncbackSnapshot D) (newRef : Ref) :
    Fallible (List (String × Variant)) := do
  let inst ← Fallible.unwrap (getByRef snapshot.data.newTree newRef)
  let properties ← Fallible.unwrap (filterProperties snapshot.data.rules inst)
  .ok (properties.filter fun (name, _) => !filterOutProperty inst name)

/-- The part of the loop that is about the node itself: the snapshot of its path and its
properties. -/
def syncbackNode (vfs : Vfs) (snapshot : SyncbackSnapshot D) (syncRules : List SyncRule)
    (basePath : PathBuf) (entry : NodeEntry) (state : ProjectState D) :
    Fallible (ProjectNode × ProjectState D) :=
  match entry.node.path with
  | some pathNode => do
    let fullPath := basePath.join pathNode.path
    match ← middlewareForPath vfs syncRules fullPath with
    | none =>
      let reported := fullPath.display
      Fallible.bail ("path does not exist or could not be turned into a file Rojo " ++
        s!"understands: {reported}")
    | some middleware =>
      let child := { snapshot.withNewPath fullPath entry.newInst.referent
        (some entry.oldInst.inst.referent) with middleware := some middleware }
      let state := { state with
        descendantSnapshots := state.descendantSnapshots ++ [child]
        refToPathMap := state.refToPathMap.insert entry.newInst.referent fullPath }
      if middleware.handlesOwnProperties then .ok (entry.node, state)
      else do
        let filtered ← snapshot.getPathFilteredProperties entry.newInst.referent
        let (node, removed) := projectNodePropertySyncback filtered entry.newInst entry.node
        .ok (node, { state with
          tree := state.tree.modify (fun _ => node) entry.names
          removedStaleProperties := state.removedStaleProperties || removed })
  | none => do
    let filtered ← Fallible.unwrap (filterProperties snapshot.data.rules entry.newInst)
    let (node, removed) := projectNodePropertySyncback filtered entry.newInst entry.node
    .ok (node, { state with
      tree := state.tree.modify (fun _ => node) entry.names
      removedStaleProperties := state.removedStaleProperties || removed })

/-- One round of the loop over the nodes: the entries of the child nodes, and the state after. -/
def processNode (vfs : Vfs) (snapshot : SyncbackSnapshot D) (syncRules : List SyncRule)
    (projectPath basePath : PathBuf) (entry : NodeEntry) (state : ProjectState D) :
    Fallible (List NodeEntry × ProjectState D) :=
  let oldName := entry.oldInst.inst.name
  let oldClass := entry.oldInst.inst.className
  let newClass := entry.newInst.className
  if oldClass ≠ newClass then
    let project := projectPath.display
    Fallible.bail (s!"Cannot change the class of {oldName} in project file {project}.\n" ++
      s!"Current class is {oldClass}, it is a {newClass} in the input file.")
  else do
    let (node, state) ← syncbackNode vfs snapshot syncRules basePath entry state
    let unique := "Instances that are direct children of an Instance that is made by a project " ++
      "file must have a unique name.\n"
    let newMap ← childMap (fun child => Fallible.unwrap (getByRef snapshot.data.newTree child))
      (fun child => child.name)
      (fun name => unique ++ s!"The child '{name}' of '{oldName}' is duplicated in the place file.")
      entry.newInst.children ∅
    let oldMap ← childMap
      (fun child => Fallible.unwrap (snapshot.data.oldTree.getInstance child) >>= Fallible.unwrap)
      (fun child => child.inst.name)
      (fun name => unique ++
        s!"The child '{name}' of '{oldName}' is duplicated on the file system.")
      entry.oldInst.inst.children ∅
    let (entries, newMap, oldMap) ←
      matchNodes vfs projectPath basePath entry node.children newMap oldMap
    let (added, oldMap) ←
      addChildren vfs syncRules snapshot state.refToPathMap (toList newMap) oldMap
    .ok (entries, { state with
      descendantSnapshots := state.descendantSnapshots ++ added
      removedDescendants := state.removedDescendants ++ (toList oldMap).map Prod.snd
      nodeChangedMap := state.nodeChangedMap ++ [(node, entry.oldInst)] })

/-- The loop over the queue of nodes, with a bound on the number of rounds. -/
def nodeLoop (vfs : Vfs) (snapshot : SyncbackSnapshot D) (syncRules : List SyncRule)
    (projectPath basePath : PathBuf) :
    ℕ → List NodeEntry → ProjectState D → Fallible (ProjectState D)
  | _, [], state => .ok state
  | 0, _ :: _, _ => .error .stackOverflow
  | n + 1, entry :: queue, state => do
    let (entries, state) ←
      processNode vfs snapshot syncRules projectPath basePath entry state
    nodeLoop vfs snapshot syncRules projectPath basePath n (queue ++ entries) state

/-- The loop that looks for a node whose values are not those of its instance. -/
def needsReserialize : List (ProjectNode × InstanceWithMeta) → Fallible Bool
  | [] => .ok false
  | (node, oldInst) :: changed => do
    if ← projectNodeShouldReserialize node.properties node.attributes oldInst.inst then .ok true
    else needsReserialize changed

/-- Stale properties were taken out of a node, or a node differs from its instance. -/
def stateReserializes (state : ProjectState D) : Fallible Bool :=
  if state.removedStaleProperties then .ok true else needsReserialize state.nodeChangedMap

omit [Environment] [FloatCmp] [ReflectionDatabase] in
/-- The project file, if it is to be written. -/
def projectFiles (reserialize : Bool) (projectPath : PathBuf) (project : Project) :
    Fallible (Map PathBuf (List UInt8)) :=
  if reserialize then do
    let contents ← Fallible.ofText (ProjectWriter.toVecPretty project)
    .ok ((∅ : Map PathBuf (List UInt8)).insert projectPath contents)
  else .ok ∅

def syncbackProject (vfs : Vfs) (snapshot : SyncbackSnapshot D) : Fallible (SyncbackReturn D) := do
  let oldInst ← snapshot.oldInst >>= Fallible.unwrap
  let projectPath ← Fallible.unwrap oldInst.metadata.relevantPaths.getLast?
  let project ← Project.loadExact vfs projectPath none
  let basePath ← project.folderLocation
  let project : Project := { project with
    syncRules := project.syncRules.map fun rule => { rule with basePath := basePath } }
  let newInst ← snapshot.newInst
  let state ← nodeLoop vfs snapshot project.syncRules projectPath basePath project.tree.count
    [⟨[], project.tree, oldInst, newInst⟩] { tree := project.tree }
  let reserialize ← stateReserializes state
  let addedFiles ← projectFiles reserialize projectPath { project with tree := state.tree }
  .ok
    { fsSnapshot := { addedFiles := addedFiles }
      children := state.descendantSnapshots
      removedChildren := state.removedDescendants }

end Loop

end Roxo
