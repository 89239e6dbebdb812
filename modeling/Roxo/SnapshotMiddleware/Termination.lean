import Roxo.Library.BoundedCalls
import Roxo.SnapshotMiddleware.DirectPaths

/-!
# Calls of `snapshot_from_vfs`

A directory leads to its entries, a project to the paths of its nodes, and nothing else calls
`snapshot_from_vfs` again. Entries lie below their directory, but the path of a node may be any. The
calls are made one after the other: none follows one that fails, and none is made below a node that
stands for nothing. The snapshot of a path returns exactly if the calls from it do not go on for
ever.
-/

namespace Roxo

open AssocMap

namespace Fallible

variable {α β : Type} {x : Fallible α} {message : String}

/-- The function comes back: its calls did not run out of room. -/
def Returns (x : Fallible α) : Prop := x ≠ .error .stackOverflow

@[simp] theorem returns_ok (a : α) : Returns (.ok a : Fallible α) := nofun

@[simp] theorem returns_panic : Returns (.error .panic : Fallible α) := nofun

@[simp] theorem returns_bail : Returns (bail message : Fallible α) := nofun

@[simp] theorem returns_ofIo (r : Except IoError α) : Returns (ofIo r) := by
  cases r <;> exact nofun

@[simp] theorem returns_ofText (r : Except String α) : Returns (ofText r) := by
  cases r <;> exact nofun

@[simp] theorem returns_unwrap (r : Option α) : Returns (unwrap r) := by
  cases r <;> exact nofun

@[simp] theorem returns_context (r : Option α) : Returns (context message r) := by
  cases r <;> exact nofun

@[simp] theorem returns_withContext : Returns (withContext message x) ↔ Returns x := by
  unfold withContext Returns
  split
  · exact ⟨fun _ => nofun, fun _ => nofun⟩
  · rfl

@[simp] theorem returns_bind {f : α → Fallible β} :
    Returns (x >>= f) ↔ Returns x ∧ ∀ a, x = .ok a → Returns (f a) := by
  unfold Returns
  rw [ne_eq, Except.bind_eq_error]
  push Not
  rfl

@[simp] theorem returns_ite {p : Prop} [Decidable p] {y : Fallible α} :
    Returns (if p then x else y) ↔ (p → Returns x) ∧ (¬ p → Returns y) := by
  split_ifs with h <;> simp [h]

theorem returns_foldlM {f : β → α → Fallible β} (hf : ∀ b a, Returns (f b a)) (l : List α) (b : β) :
    Returns (l.foldlM f b) := by
  induction l generalizing b with
  | nil => exact returns_ok b
  | cons a l ih =>
    rw [List.foldlM_cons, returns_bind]
    exact ⟨hf b a, fun b _ => ih b⟩

end Fallible

open Fallible BoundedCalls

variable [Environment] {vfs : Vfs} {context : InstanceContext} {path : PathBuf} {name : String}
  {s : InstanceSnapshot}

/-! ## Files -/

omit [Environment] in
@[simp] theorem returns_fileMetadata : Returns (fileMetadata vfs path) := by
  simp [fileMetadata]

namespace AdjacentMetadata

variable {metadata : AdjacentMetadata}

omit [Environment] in
@[simp] theorem returns_applyId : Returns (metadata.applyId s) := by
  simp [applyId]

omit [Environment] in
@[simp] theorem returns_applySchema : Returns (metadata.applySchema s) := by
  simp [applySchema]

@[simp] theorem returns_applyProperties : Returns (metadata.applyProperties s) := by
  unfold applyProperties
  rw [returns_bind]
  exact ⟨returns_foldlM (fun s e => by simp) _ _, fun s _ => by simp⟩

@[simp] theorem returns_applyAll : Returns (metadata.applyAll s) := by
  simp [applyAll]

@[simp] theorem returns_readAndApply {reported : PathBuf} :
    Returns (readAndApply vfs path reported s) := by
  unfold readAndApply
  rw [returns_bind]
  refine ⟨returns_ofIo _, fun contents _ => ?_⟩
  cases contents <;> simp [fromSlice]

@[simp] theorem returns_readAndApplyAll : Returns (readAndApplyAll vfs path name s) := by
  simp [readAndApplyAll]

end AdjacentMetadata

namespace DirectoryMetadata

variable {metadata : DirectoryMetadata}

omit [Environment] in
@[simp] theorem returns_applyClassName : Returns (metadata.applyClassName s) := by
  unfold applyClassName
  split
  · exact returns_ite.mpr ⟨fun _ => returns_bail, fun _ => returns_ok _⟩
  · exact returns_ok s

@[simp] theorem returns_applyAll : Returns (metadata.applyAll s) := by
  unfold applyAll
  rw [returns_bind]
  exact ⟨returns_applyClassName, fun s _ => by simp⟩

@[simp] theorem returns_readAndApply : Returns (readAndApply vfs path s) := by
  unfold readAndApply
  rw [returns_bind]
  refine ⟨returns_ofIo _, fun contents _ => ?_⟩
  cases contents with
  | none => exact returns_ok s
  | some contents =>
    rw [returns_bind]
    refine ⟨?_, fun metadata _ => returns_applyAll⟩
    unfold fromSlice
    rw [returns_bind, returns_withContext]
    exact ⟨returns_ofText _, fun metadata _ => returns_ok _⟩

@[simp] theorem returns_readAndApplyAll : Returns (readAndApplyAll vfs path s) := by
  simp [readAndApplyAll]

end DirectoryMetadata

@[simp] theorem returns_snapshotCsv : Returns (snapshotCsv vfs path name) := by
  simp [snapshotCsv]

@[simp] theorem returns_snapshotModule {source : String} :
    Returns (snapshotModule context vfs path name source) := by
  simp [snapshotModule]

@[simp] theorem returns_snapshotTxt : Returns (snapshotTxt context vfs path name) := by
  simp [snapshotTxt]

@[simp] theorem returns_snapshotLua {scriptType : ScriptType} :
    Returns (snapshotLua context vfs path name scriptType) := by
  simp [snapshotLua]

omit [Environment] in
@[simp] theorem returns_snapshotModel {topLevel : List ModelInstance} :
    Returns (snapshotModel context vfs path name topLevel) := by
  unfold snapshotModel
  split <;> simp

@[simp] theorem returns_snapshotJsonModel : Returns (snapshotJsonModel context vfs path name) := by
  simp [snapshotJsonModel]

/-! ## Projects -/

omit [Environment] in
@[simp] theorem returns_nodeClassName {projectPath : PathBuf}
    {project found inference : Option String} {node : Option PathNode} :
    Returns (nodeClassName projectPath name project found inference node) := by
  unfold nodeClassName
  split <;> simp

@[simp] theorem returns_nodeProperties {className : String}
    {unresolved : List (String × UnresolvedValue)} {properties : UstrMap Variant} :
    Returns (nodeProperties path className unresolved properties) :=
  returns_foldlM (fun _ _ => by simp) _ _

@[simp] theorem returns_nodeAttributes {attributes : List (String × UnresolvedValue)}
    {properties : UstrMap Variant} : Returns (nodeAttributes path attributes properties) := by
  unfold nodeAttributes
  rw [returns_ite]
  refine ⟨fun _ => returns_ok _, fun _ => ?_⟩
  rw [returns_bind]
  exact ⟨returns_foldlM (fun _ _ => by simp) _ _, fun _ _ => returns_ok _⟩

namespace Project

omit [Environment] in
@[simp] theorem returns_fileProjectName {fallback : Option String} :
    Returns (fileProjectName path fallback) := by
  simp [fileProjectName]

omit [Environment] in
@[simp] theorem returns_readFile : Returns (readFile vfs path) := by
  unfold readFile
  split <;> simp

@[simp] theorem returns_loadExact {fallback : Option String} :
    Returns (loadExact vfs path fallback) := by
  simp only [loadExact, returns_bind, returns_readFile, returns_withContext, returns_ofText,
    true_and]
  intro _ _ project _
  split <;> simp

omit [Environment] in
@[simp] theorem returns_folderLocation {project : Project} : Returns project.folderLocation :=
  returns_unwrap _

end Project

omit [Environment] in
@[simp] theorem returns_fileNameForPath {rule : SyncRule} :
    Returns (rule.fileNameForPath path) := by
  unfold SyncRule.fileNameForPath
  split <;> simp

omit [Environment] in
theorem returns_firstExisting (l : List (Middleware × String)) :
    Returns (firstExisting vfs path l) := by
  induction l with
  | nil => exact returns_ok _
  | cons e l ih =>
    obtain ⟨middleware, name⟩ := e
    rw [firstExisting, returns_bind]
    refine ⟨returns_ofIo _, fun found _ => ?_⟩
    cases found with
    | none => exact ih
    | some metadata => exact returns_ok _

omit [Environment] in
@[simp] theorem returns_getDirMiddleware : Returns (getDirMiddleware vfs path) := by
  unfold getDirMiddleware
  rw [returns_bind]
  refine ⟨returns_unwrap _, fun dirName _ => ?_⟩
  rw [returns_bind]
  refine ⟨returns_firstExisting _, fun found _ => ?_⟩
  cases found <;> exact returns_ok _

/-! ## Calls -/

/-- The arguments of a call: the context and the path. -/
abbrev Call : Type := InstanceContext × PathBuf

section Calls

variable (recur : SnapshotPath) (vfs : Vfs) (context : InstanceContext)

omit [Environment] in
/-- The calls for the entries of a directory, up to one that fails or cannot be read. -/
def entryCalls : List (Except IoError PathBuf) → List Call
  | [] => []
  | entry :: entries => after (ofIo entry) fun path =>
    if isPathIgnored context.pathIgnoreRules path then entryCalls entries
    else (context, path) :: after (recur context path) fun _ => entryCalls entries

omit [Environment] in
def dirCalls (dir : PathBuf) : List Call :=
  after (ofIo (vfs.readDir dir)) (entryCalls recur context)

omit [Environment] in
/-- The calls for the entries beside an init file. -/
def initCalls (initPath : PathBuf) : List Call :=
  after (unwrap initPath.parent) (dirCalls recur vfs context)

omit [Environment] in
def nodePathCalls (projectFolder : PathBuf) (path : Option PathNode) : List Call :=
  path.toList.map fun pathNode => (context, projectFolder.join pathNode.path)

mutual

/-- The calls for the path of a node, and for the nodes below it if it stands for something. -/
def nodeCalls (projectPath : PathBuf) (instanceName : String) (parentClass : Option String) :
    ProjectNode → List Call
  | ⟨nodeClass, _, nodeChildren, _, _, _, path⟩ =>
    after (unwrap projectPath.parent) fun projectFolder =>
      nodePathCalls context projectFolder path ++
      after (snapshotNodePath recur context projectFolder path) fun found =>
        after (nodeClassName projectPath instanceName nodeClass (found.map (·.className))
            (inferClassName instanceName parentClass) path) fun
          | none => []
          | some className => nodesCalls projectPath (some className) nodeChildren

/-- The calls for nodes, up to one that fails. -/
def nodesCalls (projectPath : PathBuf) (parentClass : Option String) :
    List (String × ProjectNode) → List Call
  | [] => []
  | (childName, child) :: nodes =>
    nodeCalls projectPath childName parentClass child ++
      after (snapshotProjectNode recur context projectPath childName parentClass child) fun _ =>
        nodesCalls projectPath parentClass nodes

end

def projectCalls (path : PathBuf) (name : String) : List Call :=
  after (Project.loadExact vfs path (some name)) fun project =>
    after (unwrap project.name) fun projectName =>
      after project.folderLocation fun folder =>
        nodeCalls recur (project.extendContext folder context) path projectName none project.tree

def Middleware.calls (path : PathBuf) (name : String) : Middleware → List Call
  | .project => projectCalls recur vfs context path name
  | .dir => dirCalls recur vfs context path
  | .serverScriptDir | .clientScriptDir | .pluginScriptDir | .moduleScriptDir | .csvDir =>
    initCalls recur vfs context path
  | _ => []

/-- The calls that a call makes, one after the other, where these come to what `recur` says. -/
def calls (path : PathBuf) : List Call :=
  match vfs.metadata path with
  | .ok metadata =>
    if metadata.isDir then
      after (getDirMiddleware vfs path) fun (middleware, dirName, initPath) =>
        middleware.calls recur vfs context initPath dirName
    else
      match path.fileName, ruleForPath context path with
      | some fileName, some rule =>
        if fileName ∈ refusedNames then []
        else
          after (rule.fileNameForPath path) fun name =>
            rule.middleware.calls recur vfs context path name
      | _, _ => []
  | .error _ => []

end Calls

/-! ## What the calls are for -/

/-- What depends on the calls of a list only. -/
abbrev Calling {α : Type} (value : SnapshotPath → Fallible α) (calls : SnapshotPath → List Call) :
    Prop :=
  Makes .stackOverflow (fun recur : Call → Fallible (Option InstanceSnapshot) => value recur.curry)
    fun recur => calls recur.curry

theorem calling_entries (entries : List (Except IoError PathBuf)) :
    Calling (fun recur => snapshotEntries recur context entries)
      fun recur => entryCalls recur context entries := by
  induction entries with
  | nil => exact Makes.const nofun
  | cons entry entries ih =>
    refine Makes.const_bind (returns_ofIo entry) fun path _ => ?_
    split_ifs
    · exact ih
    · exact (Makes.call (context, path)).bind fun child => ih.bind_const fun children => nofun

theorem calling_dirNoMeta : Calling (fun recur => snapshotDirNoMeta recur context vfs path name)
    fun recur => dirCalls recur vfs context path := by
  refine Makes.const_bind (returns_ofIo _) fun entries _ => ?_
  refine (calling_entries entries).bind_const fun children => ?_
  exact returns_bind.mpr ⟨returns_ofIo _, fun canonical _ => returns_ok _⟩

theorem calling_dir : Calling (fun recur => snapshotDir recur context vfs path name)
    fun recur => dirCalls recur vfs context path := by
  refine calling_dirNoMeta.bind_const fun found => ?_
  cases found with
  | none => exact returns_ok _
  | some snapshot => exact returns_bind.mpr ⟨by simp, fun _ _ => returns_ok _⟩

theorem calling_init {notFolder : PathBuf → String → String}
    {snapshotFile : String → Fallible (Option InstanceSnapshot)}
    (hfile : ∀ name, Returns (snapshotFile name)) :
    Calling (fun recur => snapshotInit recur context vfs path name notFolder snapshotFile)
      fun recur => initCalls recur vfs context path := by
  refine Makes.const_bind (returns_unwrap _) fun folder _ => ?_
  refine (calling_dirNoMeta.bind_const fun found => returns_unwrap found).bind_const fun dir => ?_
  refine returns_ite.mpr ⟨fun _ => returns_bail, fun _ => ?_⟩
  refine returns_bind.mpr ⟨?_, fun init _ => by simp⟩
  exact returns_bind.mpr ⟨hfile _, fun found _ => returns_unwrap found⟩

theorem calling_luaInit {scriptType : ScriptType} :
    Calling (fun recur => snapshotLuaInit recur context vfs path name scriptType)
      fun recur => initCalls recur vfs context path :=
  calling_init fun _ => returns_snapshotLua

theorem calling_csvInit : Calling (fun recur => snapshotCsvInit recur context vfs path name)
    fun recur => initCalls recur vfs context path :=
  calling_init fun _ => returns_snapshotCsv

omit [Environment] in
theorem calling_nodePath {folder : PathBuf} (pathNode : Option PathNode) :
    Calling (fun recur => snapshotNodePath recur context folder pathNode)
      fun _ => nodePathCalls context folder pathNode := by
  cases pathNode with
  | none => exact Makes.const nofun
  | some pathNode => exact Makes.call (context, folder.join pathNode.path)

theorem calling_projectChildren {projectPath : PathBuf} {parentClass : Option String}
    {nodes : List (String × ProjectNode)}
    (h : ∀ child ∈ nodes, Calling
      (fun recur => snapshotProjectNode recur context projectPath child.1 parentClass child.2)
      fun recur => nodeCalls recur context projectPath child.1 parentClass child.2) :
    Calling (fun recur => snapshotProjectChildren recur context projectPath parentClass nodes)
      fun recur => nodesCalls recur context projectPath parentClass nodes := by
  induction nodes with
  | nil =>
    simp only [snapshotProjectChildren, nodesCalls]
    exact Makes.const (returns_ok _)
  | cons child nodes ih =>
    simp only [snapshotProjectChildren, nodesCalls]
    refine (h child List.mem_cons_self).bind fun found => ?_
    exact (ih fun child hc => h child (List.mem_cons_of_mem _ hc)).bind_const fun _ => returns_ok _

theorem calling_projectNode {projectPath : PathBuf} {parentClass : Option String}
    (node : ProjectNode) :
    Calling (fun recur => snapshotProjectNode recur context projectPath name parentClass node)
      fun recur => nodeCalls recur context projectPath name parentClass node := by
  induction node using ProjectNode.induct generalizing name parentClass with
  | node node ih =>
    obtain ⟨nodeClass, id, nodeChildren, unresolved, attributes, ignore, path⟩ := node
    simp only [snapshotProjectNode, nodeCalls]
    refine Makes.const_bind (returns_unwrap _) fun folder _ => ?_
    refine (calling_nodePath path).bind fun found => ?_
    refine Makes.const_bind returns_nodeClassName fun className _ => ?_
    cases className with
    | none => exact Makes.const (returns_ok _)
    | some className =>
      refine (calling_projectChildren fun child hc => ih child hc).bind_const fun children => ?_
      exact returns_bind.mpr ⟨returns_nodeProperties, fun _ _ =>
        returns_bind.mpr ⟨returns_nodeAttributes, fun _ _ => returns_ok _⟩⟩

theorem calling_project : Calling (fun recur => snapshotProject recur context vfs path name)
    fun recur => projectCalls recur vfs context path name := by
  unfold Calling snapshotProject projectCalls
  cases hload : Project.loadExact vfs path (some name) with
  | error e =>
    cases e with
    | stackOverflow => exact absurd hload Project.returns_loadExact
    | error messages => exact Makes.const nofun
    | panic => exact Makes.const nofun
  | ok project =>
    refine Makes.const_bind (returns_withContext.mpr (returns_ok project)) fun project _ => ?_
    refine Makes.const_bind (returns_unwrap _) fun projectName _ => ?_
    refine Makes.const_bind Project.returns_folderLocation fun folder _ => ?_
    refine (calling_projectNode project.tree).bind_const fun found => ?_
    cases found <;> exact returns_ok _

/-- The middleware of a file makes no calls. -/
theorem Middleware.calling_file {middleware : Middleware}
    (hfile : ∀ recur, middleware.output recur context vfs path name =
      middleware.output (fun _ _ => .ok none) context vfs path name)
    (hreturns : Returns (middleware.output (fun _ _ => .ok none) context vfs path name)) :
    Calling (fun recur => middleware.output recur context vfs path name) fun _ => [] := by
  unfold Calling
  simp only [hfile]
  exact Makes.const hreturns

theorem Middleware.calling_snapshot (middleware : Middleware) :
    Calling (fun recur => middleware.snapshot recur context vfs path name)
      fun recur => middleware.calls recur vfs context path name := by
  refine Makes.bind_const ?_ fun output => returns_ok _
  cases middleware
  case project => exact calling_project
  case dir => exact calling_dir
  case serverScriptDir => exact calling_luaInit
  case clientScriptDir => exact calling_luaInit
  case pluginScriptDir => exact calling_luaInit
  case moduleScriptDir => exact calling_luaInit
  case csvDir => exact calling_csvInit
  all_goals
    refine calling_file (fun _ => rfl) ?_
    simp [Middleware.output, snapshotJson, snapshotToml, snapshotYaml, snapshotRbxm, snapshotRbxmx]

/-- A call depends on the calls that it makes, and on nothing else that runs out of room. -/
theorem calling_step : Calling (fun recur => snapshotStep recur vfs context path)
    fun recur => calls recur vfs context path := by
  unfold Calling snapshotStep calls
  cases vfs.metadata path with
  | error e =>
    unfold withNotFound
    dsimp only
    split_ifs <;> exact Makes.const nofun
  | ok metadata =>
    unfold withNotFound
    dsimp only
    change Makes _ (fun recur : Call → Fallible (Option InstanceSnapshot) =>
      if metadata.isDir then _ else _) _
    split_ifs with hdir
    · refine Makes.const_bind returns_getDirMiddleware fun found _ => ?_
      exact found.1.calling_snapshot
    · cases path.fileName with
      | none => exact Makes.const nofun
      | some fileName =>
        unfold snapshotFromPath
        cases ruleForPath context path with
        | none =>
          change Makes _ (fun recur : Call → Fallible (Option InstanceSnapshot) =>
            if fileName ∈ refusedNames then _ else _) _
          split_ifs <;> exact Makes.const nofun
        | some rule =>
          change Makes _ (fun recur : Call → Fallible (Option InstanceSnapshot) =>
            if fileName ∈ refusedNames then _ else _) fun recur =>
              if fileName ∈ refusedNames then _ else _
          split_ifs
          · exact Makes.const nofun
          · refine Makes.const_bind returns_fileNameForPath fun name _ => ?_
            exact rule.middleware.calling_snapshot

/-! ## Termination -/

/-- With enough room for nested calls the snapshot of a path returns. -/
def Terminates (vfs : Vfs) (context : InstanceContext) (path : PathBuf) : Prop :=
  ∃ n, Returns (snapshotFromVfs vfs n context path)

/-- The snapshot of a path, with enough room for what comes first, calls for that of another one. -/
def LeadsTo (vfs : Vfs) (call call' : Call) : Prop :=
  ∃ n, call' ∈ calls (snapshotFromVfs vfs n) vfs call.1 call.2

/-- The snapshot of a path calls for that of another one if the calls before come to the right
results. -/
def MayLeadTo (vfs : Vfs) (call call' : Call) : Prop :=
  ∃ recur, call' ∈ calls recur vfs call.1 call.2

/-- `snapshotStep` with the arguments of a call in one. -/
def callStep (vfs : Vfs) (recur : Call → Fallible (Option InstanceSnapshot)) (call : Call) :
    Fallible (Option InstanceSnapshot) :=
  snapshotStep recur.curry vfs call.1 call.2

theorem snapshotFromVfs_eq_run (n : ℕ) :
    snapshotFromVfs vfs n = (BoundedCalls.run .stackOverflow (callStep vfs) n).curry := by
  induction n with
  | zero => rfl
  | succ n ih =>
    funext context path
    rw [snapshotFromVfs, ih]
    rfl

theorem leadsTo_eq : LeadsTo vfs =
    Leads .stackOverflow (callStep vfs) fun recur call => calls recur.curry vfs call.1 call.2 := by
  funext call call'
  unfold LeadsTo Leads
  simp only [snapshotFromVfs_eq_run]

def ownText : String := "\x7b\"tree\":\x7b\"$path\":\".\"\x7d\x7d"

/-- A project that is its own directory. -/
def ownProject : Project := .ofTree (pathNode (.required (.ofString ".")))

def ownDisk : Disk where
  entries :=
    [(["proj"], none), (["proj", "default.project.json"], some ownText.toUTF8.data.toList)]
  named := by decide

def absentText : String :=
  "\x7b\"tree\":\x7b\"$className\":\"Folder\"," ++
    "\"A\":\x7b\"$path\":\x7b\"optional\":\"missing\"\x7d,\"B\":\x7b\"$path\":\".\"\x7d\x7d\x7d\x7d"

/-- A project that has its own directory below a node that stands for nothing. -/
def absentProject : Project := .ofTree
  { className := some "Folder", id := none, properties := [], attributes := []
    ignoreUnknownInstances := none, path := none
    children := [("A", { pathNode (.optional (.ofString "missing")) with
      children := [("B", pathNode (.required (.ofString ".")))] })] }

def absentDisk : Disk where
  entries :=
    [(["proj"], none), (["proj", "default.project.json"], some absentText.toUTF8.data.toList)]
  named := by decide

end Roxo
