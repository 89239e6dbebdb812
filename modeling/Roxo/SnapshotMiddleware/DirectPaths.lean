import Roxo.SnapshotMiddleware.RelevantPaths
import Roxo.Vfs.Disk

/-!
# Direct places

The condition under which everything that a snapshot lists is in canonical form, place by place:
where a middleware lists a path as it was reached, the path is direct. It follows the calls of
`snapshot_from_vfs` into what becomes an instance.
-/

namespace Roxo

open AssocMap

variable [Environment] (recur : SnapshotPath) (direct : InstanceContext → PathBuf → Prop)
  (vfs : Vfs)

omit [Environment] in
/-- A snapshot was made. -/
def Yields (result : Fallible (Option InstanceSnapshot)) : Prop := ∃ S, result = .ok (some S)

/-- The entries of a directory that become instances are direct. -/
def EntriesDirect (context : InstanceContext) (entries : List (Except IoError PathBuf)) : Prop :=
  ∀ path, .ok path ∈ entries → isPathIgnored context.pathIgnoreRules path = false →
    Yields (recur context path) → direct context path

/-- No init file of the directory is a symbolic link, its meta files are direct, and so are its
entries. -/
def DirDirect (context : InstanceContext) (path : PathBuf) : Prop :=
  (∀ canonical, vfs.canonicalize path = .ok canonical →
    ∀ name ∈ initNames, Direct vfs (canonical.joinStr name)) ∧
  Direct vfs (DirectoryMetadata.metaPathJson path) ∧
  Direct vfs (DirectoryMetadata.metaPathJsonc path) ∧
  ∀ entries, vfs.readDir path = .ok entries → EntriesDirect recur direct context entries

mutual

/-- The path of a node is direct where it becomes the instance, and so are the nodes below. -/
def NodeDirect (context : InstanceContext) (projectPath : PathBuf) (instanceName : String)
    (parentClass : Option String) : ProjectNode → Prop
  | ⟨nodeClass, _, nodeChildren, _, _, _, path⟩ =>
    ∀ folder, projectPath.parent = some folder →
      (∀ pathNode, path = some pathNode → Yields (recur context (folder.join pathNode.path)) →
        direct context (folder.join pathNode.path)) ∧
      ∀ found className, snapshotNodePath recur context folder path = .ok found →
        nodeClassName projectPath instanceName nodeClass (found.map (·.className))
          (inferClassName instanceName parentClass) path = .ok (some className) →
        NodesDirect context projectPath (some className) nodeChildren

def NodesDirect (context : InstanceContext) (projectPath : PathBuf)
    (parentClass : Option String) : List (String × ProjectNode) → Prop
  | [] => True
  | (childName, child) :: nodes =>
    (Yields (snapshotProjectNode recur context projectPath childName parentClass child) →
      NodeDirect context projectPath childName parentClass child) ∧
    NodesDirect context projectPath parentClass nodes

end

/-- The project file and the places that its nodes lead to are direct. -/
def ProjectDirect (context : InstanceContext) (path : PathBuf) (name : String) : Prop :=
  Direct vfs path ∧ ∀ project projectName folder,
    Project.loadExact vfs path (some name) = .ok project → project.name = some projectName →
    project.folderLocation = .ok folder →
    NodeDirect recur direct (project.extendContext folder context) path projectName none
      project.tree

/-- The places of a middleware: models list the canonical path of their file only. -/
def Middleware.PlacesDirect (middleware : Middleware) (context : InstanceContext)
    (path : PathBuf) (name : String) : Prop :=
  match middleware with
  | .csv | .json | .serverScript | .clientScript | .moduleScript | .pluginScript
  | .legacyClientScript | .legacyServerScript | .runContextClientScript
  | .runContextServerScript | .toml | .text | .yaml => MetaDirect vfs path name
  | .jsonModel | .rbxm | .rbxmx | .ignore => True
  | .project => ProjectDirect recur direct vfs context path name
  | .dir => DirDirect recur direct vfs context path
  | .serverScriptDir | .clientScriptDir | .pluginScriptDir | .moduleScriptDir | .csvDir =>
    ∀ folder, path.parent = some folder → DirDirect recur direct vfs context folder

def StepDirect (context : InstanceContext) (path : PathBuf) : Prop :=
  ∀ metadata, vfs.metadata path = .ok metadata →
    if metadata.isDir then
      ∀ middleware dirName initPath, getDirMiddleware vfs path = .ok (middleware, dirName, initPath) →
        middleware.PlacesDirect recur direct vfs context initPath dirName
    else
      ∀ rule name, ruleForPath context path = some rule → rule.fileNameForPath path = .ok name →
        rule.middleware.PlacesDirect recur direct vfs context path name

/-- Every place that the snapshot of a path is made from is direct. -/
def SnapshotDirect : ℕ → InstanceContext → PathBuf → Prop
  | 0 => fun _ _ => True
  | n + 1 => StepDirect (snapshotFromVfs vfs n) (SnapshotDirect n) vfs

variable {recur direct vfs} {context : InstanceContext} {path : PathBuf} {name : String}
  {S : InstanceSnapshot}

/-! ## Directories -/

section Directories

variable (h : vfs.Lawful)
  (ih : ∀ context path S, recur context path = .ok (some S) →
    (Keyed vfs S ↔ direct context path))
include ih

theorem snapshotEntries_keyed {entries : List (Except IoError PathBuf)}
    {children : List InstanceSnapshot}
    (heq : snapshotEntries recur context entries = .ok children) :
    (∀ c ∈ children, Keyed vfs c) ↔ EntriesDirect recur direct context entries := by
  induction entries generalizing children with
  | nil =>
    cases heq
    exact ⟨fun _ _ h => absurd h List.not_mem_nil, fun _ _ h => absurd h List.not_mem_nil⟩
  | cons entry entries ihe =>
    rw [snapshotEntries] at heq
    obtain ⟨path, hpath, hstep⟩ := Except.bind_eq_ok.mp heq
    obtain rfl := Fallible.ofIo_eq_ok.mp hpath
    have hcons : EntriesDirect recur direct context (.ok path :: entries) ↔
        (isPathIgnored context.pathIgnoreRules path = false → Yields (recur context path) →
          direct context path) ∧ EntriesDirect recur direct context entries := by
      unfold EntriesDirect
      simp only [List.mem_cons, Except.ok.injEq, forall_eq_or_imp]
    rw [hcons]
    split_ifs at hstep with hignored
    · rw [ihe hstep, hignored]
      simp only [Bool.true_eq_false, false_imp_iff, true_and]
    · obtain ⟨child, hchild, hstep⟩ := Except.bind_eq_ok.mp hstep
      obtain ⟨rest, hrest, hstep⟩ := Except.bind_eq_ok.mp hstep
      cases hstep
      have hself : (∀ c ∈ child.toList, Keyed vfs c) ↔
          (isPathIgnored context.pathIgnoreRules path = false → Yields (recur context path) →
            direct context path) := by
        rw [hchild]
        cases child with
        | none =>
          refine ⟨fun _ _ hyields => ?_, fun _ c hc => absurd hc List.not_mem_nil⟩
          obtain ⟨S, hS⟩ := hyields
          cases hS
        | some S =>
          simp only [Option.toList_some, List.mem_singleton, forall_eq]
          rw [ih context path S hchild]
          exact ⟨fun hd _ _ => hd, fun hd => hd (by simpa using hignored) ⟨S, rfl⟩⟩
      rw [← hself, ← ihe hrest]
      simp only [List.mem_append, or_imp, forall_and]

include h

theorem snapshotDirNoMeta_keyed {paths : List PathBuf}
    (heq : snapshotDirNoMeta recur context vfs path name = .ok (some S)) :
    Keyed vfs (S.pushRelevantPaths paths) ↔
      (∀ canonical, vfs.canonicalize path = .ok canonical →
        ∀ name ∈ initNames, Direct vfs (canonical.joinStr name)) ∧
      (∀ p ∈ paths, Direct vfs p) ∧
      ∀ entries, vfs.readDir path = .ok entries → EntriesDirect recur direct context entries := by
  unfold snapshotDirNoMeta at heq
  obtain ⟨entries, hentries, heq⟩ := Except.bind_eq_ok.mp heq
  obtain ⟨children, hchildren, heq⟩ := Except.bind_eq_ok.mp heq
  obtain ⟨canonical, hcanonical, heq⟩ := Except.bind_eq_ok.mp heq
  cases heq
  replace hentries := Fallible.ofIo_eq_ok.mp hentries
  replace hcanonical := Fallible.ofIo_eq_ok.mp hcanonical
  rw [keyed_iff h, hentries, hcanonical]
  have hself := direct_of_canonical h (h.canonical hcanonical)
  have hkeyed := snapshotEntries_keyed ih hchildren
  simp only [InstanceSnapshot.pushRelevantPaths, List.cons_append, List.mem_cons, List.mem_append,
    List.mem_map, Except.ok.injEq, forall_eq']
  rw [hkeyed]
  constructor
  · rintro ⟨hpaths, hdirect⟩
    exact ⟨fun name hname => hpaths _ (Or.inr (Or.inl ⟨name, hname, rfl⟩)),
      fun p hp => hpaths p (Or.inr (Or.inr hp)), hdirect⟩
  · rintro ⟨hinit, hmeta, hdirect⟩
    refine ⟨?_, hdirect⟩
    rintro p (rfl | ⟨name, hname, rfl⟩ | hp)
    · exact hself
    · exact hinit name hname
    · exact hmeta p hp

theorem snapshotDir_keyed (heq : snapshotDir recur context vfs path name = .ok (some S)) :
    Keyed vfs S ↔ DirDirect recur direct vfs context path := by
  unfold snapshotDir at heq
  obtain ⟨dir, hdir, heq⟩ := Except.bind_eq_ok.mp heq
  cases dir with
  | none => cases heq
  | some dir =>
    obtain ⟨s, hs, heq⟩ := Except.bind_eq_ok.mp heq
    cases heq
    rw [(DirectoryMetadata.readAndApplyAll_lists hs).keyed h, snapshotDirNoMeta_keyed h ih hdir]
    simp only [DirDirect, List.mem_cons, List.not_mem_nil, or_false, forall_eq_or_imp, forall_eq,
      and_assoc]

/-- An init file leaves the places of its directory as they are. -/
theorem snapshotInit_keyed {notFolder : PathBuf → String → String}
    {snapshotFile : String → Fallible (Option InstanceSnapshot)}
    (heq : snapshotInit recur context vfs path name notFolder snapshotFile = .ok (some S)) :
    Keyed vfs S ↔ ∀ folder, path.parent = some folder →
      DirDirect recur direct vfs context folder := by
  unfold snapshotInit at heq
  obtain ⟨folder, hfolder, heq⟩ := Except.bind_eq_ok.mp heq
  obtain ⟨dir, hdir, heq⟩ := Except.bind_eq_ok.mp heq
  obtain ⟨dir', hdir', hsome⟩ := Except.bind_eq_ok.mp hdir
  obtain rfl := Fallible.unwrap_eq_ok.mp hsome
  split_ifs at heq with hclass
  · cases heq
  · obtain ⟨init, -, heq⟩ := Except.bind_eq_ok.mp heq
    obtain ⟨s, hs, heq⟩ := Except.bind_eq_ok.mp heq
    cases heq
    have hplaces := DirectoryMetadata.readAndApplyAll_lists hs
    have hdirPlaces : SamePlaces (dir.pushRelevantPaths
        [DirectoryMetadata.metaPathJson folder, DirectoryMetadata.metaPathJsonc folder]) S :=
      ⟨hplaces.paths, hplaces.children⟩
    rw [hdirPlaces.keyed h, snapshotDirNoMeta_keyed h ih hdir']
    simp only [Fallible.unwrap_eq_ok.mp hfolder, Option.some.injEq, forall_eq', DirDirect,
      List.mem_cons, List.not_mem_nil, or_false, forall_eq_or_imp, forall_eq, and_assoc]

theorem snapshotLuaInit_keyed {scriptType : ScriptType}
    (heq : snapshotLuaInit recur context vfs path name scriptType = .ok (some S)) :
    Keyed vfs S ↔ ∀ folder, path.parent = some folder →
      DirDirect recur direct vfs context folder := by
  unfold snapshotLuaInit at heq
  exact snapshotInit_keyed h ih heq

theorem snapshotCsvInit_keyed
    (heq : snapshotCsvInit recur context vfs path name = .ok (some S)) :
    Keyed vfs S ↔ ∀ folder, path.parent = some folder →
      DirDirect recur direct vfs context folder := by
  unfold snapshotCsvInit at heq
  exact snapshotInit_keyed h ih heq

end Directories

/-! ## Projects -/

section Projects

variable (h : vfs.Lawful)
  (ih : ∀ context path S, recur context path = .ok (some S) →
    (Keyed vfs S ↔ direct context path))
include h ih

omit h ih in
theorem snapshotProjectChildren_keyed {projectPath : PathBuf} {parentClass : Option String}
    {nodes : List (String × ProjectNode)} {children : List InstanceSnapshot}
    (hnodes : ∀ child ∈ nodes, ∀ S, snapshotProjectNode recur context projectPath child.1
      parentClass child.2 = .ok (some S) →
        (Keyed vfs S ↔ NodeDirect recur direct context projectPath child.1 parentClass child.2))
    (heq : snapshotProjectChildren recur context projectPath parentClass nodes = .ok children) :
    (∀ c ∈ children, Keyed vfs c) ↔
      NodesDirect recur direct context projectPath parentClass nodes := by
  induction nodes generalizing children with
  | nil =>
    rw [snapshotProjectChildren] at heq
    cases heq
    rw [NodesDirect]
    exact ⟨fun _ => trivial, fun _ _ hc => absurd hc List.not_mem_nil⟩
  | cons node nodes ihn =>
    obtain ⟨childName, node⟩ := node
    rw [snapshotProjectChildren] at heq
    obtain ⟨child, hchild, heq⟩ := Except.bind_eq_ok.mp heq
    obtain ⟨rest, hrest, heq⟩ := Except.bind_eq_ok.mp heq
    cases heq
    have hself : (∀ c ∈ child.toList, Keyed vfs c) ↔
        (Yields (snapshotProjectNode recur context projectPath childName parentClass node) →
          NodeDirect recur direct context projectPath childName parentClass node) := by
      rw [hchild]
      cases child with
      | none =>
        refine ⟨fun _ hyields => ?_, fun _ c hc => absurd hc List.not_mem_nil⟩
        obtain ⟨S, hS⟩ := hyields
        cases hS
      | some S =>
        simp only [Option.toList_some, List.mem_singleton, forall_eq]
        rw [hnodes (childName, node) List.mem_cons_self S hchild]
        exact ⟨fun hd _ => hd, fun hd => hd ⟨S, rfl⟩⟩
    rw [NodesDirect, ← hself,
      ← ihn (fun child hc => hnodes child (List.mem_cons_of_mem _ hc)) hrest]
    simp only [List.mem_append, or_imp, forall_and]

omit [Environment] h in
theorem snapshotNodePath_keyed {folder : PathBuf} {node : Option PathNode}
    {found : Option InstanceSnapshot}
    (heq : snapshotNodePath recur context folder node = .ok found) :
    (∀ S, found = some S → Keyed vfs S) ↔ ∀ pathNode, node = some pathNode →
      Yields (recur context (folder.join pathNode.path)) →
        direct context (folder.join pathNode.path) := by
  cases node with
  | none =>
    cases heq
    exact ⟨(fun _ _ hnode => nomatch hnode), (fun _ _ hfound => nomatch hfound)⟩
  | some pathNode =>
    rw [snapshotNodePath] at heq
    simp only [Option.some.injEq, forall_eq', heq]
    constructor
    · rintro hkeyed ⟨S, hS⟩
      obtain rfl := Except.ok.inj hS
      exact (ih context _ S heq).mp (hkeyed S rfl)
    · rintro hdirect S rfl
      exact (ih context _ S heq).mpr (hdirect ⟨S, rfl⟩)

/-- What a node lists is what its path and the nodes below it list. -/
theorem snapshotProjectNode_keyed {projectPath : PathBuf} {instanceName : String}
    {parentClass : Option String} {node : ProjectNode}
    (heq : snapshotProjectNode recur context projectPath instanceName parentClass node =
      .ok (some S)) :
    Keyed vfs S ↔ NodeDirect recur direct context projectPath instanceName parentClass node := by
  induction node using ProjectNode.induct generalizing instanceName parentClass S with
  | node node ihn =>
    obtain ⟨nodeClass, id, nodeChildren, unresolved, attributes, ignore, path⟩ := node
    rw [snapshotProjectNode] at heq
    obtain ⟨folder, hfolder, heq⟩ := Except.bind_eq_ok.mp heq
    obtain ⟨found, hfound, heq⟩ := Except.bind_eq_ok.mp heq
    obtain ⟨className, hclass, heq⟩ := Except.bind_eq_ok.mp heq
    cases className with
    | none => cases heq
    | some className =>
      obtain ⟨children, hchildren, heq⟩ := Except.bind_eq_ok.mp heq
      obtain ⟨_, -, heq⟩ := Except.bind_eq_ok.mp heq
      obtain ⟨_, -, heq⟩ := Except.bind_eq_ok.mp heq
      cases heq
      have hbelow : (∀ c ∈ children, Keyed vfs c) ↔
          NodesDirect recur direct context projectPath (some className) nodeChildren :=
        snapshotProjectChildren_keyed (fun child hc S hS => ihn child hc hS) hchildren
      have hpath : (∀ S, found = some S → Keyed vfs S) ↔
          ∀ pathNode, path = some pathNode →
            Yields (recur context (folder.join pathNode.path)) →
              direct context (folder.join pathNode.path) :=
        snapshotNodePath_keyed ih hfound
      have hcondition : NodeDirect recur direct context projectPath instanceName parentClass
          ⟨nodeClass, id, nodeChildren, unresolved, attributes, ignore, path⟩ ↔
            (∀ S, found = some S → Keyed vfs S) ∧ ∀ c ∈ children, Keyed vfs c := by
        rw [NodeDirect, Fallible.unwrap_eq_ok.mp hfolder, hpath, hbelow]
        simp only [Option.some.injEq, forall_eq', hfound, Except.ok.injEq]
        refine and_congr_right fun _ => ⟨fun hall => hall found className rfl hclass, ?_⟩
        rintro hd _ name rfl hname
        obtain rfl := Option.some.inj (Except.ok.inj (hclass.symm.trans hname))
        exact hd
      rw [hcondition, keyed_iff h]
      cases found with
      | none =>
        simp only [Option.map_none, Option.getD_none, List.nil_append, nodeMetadata,
          List.not_mem_nil, false_imp_iff, implies_true, true_and, reduceCtorEq]
      | some S =>
        simp only [Option.map_some, Option.getD_some, nodeMetadata, Option.some.injEq, forall_eq',
          List.mem_append, or_imp, forall_and]
        rw [keyed_iff h, and_assoc]

theorem snapshotProject_keyed
    (heq : snapshotProject recur context vfs path name = .ok (some S)) :
    Keyed vfs S ↔ ProjectDirect recur direct vfs context path name := by
  unfold snapshotProject at heq
  obtain ⟨project, hproject, heq⟩ := Except.bind_eq_ok.mp heq
  obtain ⟨projectName, hname, heq⟩ := Except.bind_eq_ok.mp heq
  obtain ⟨folder, hfolder, heq⟩ := Except.bind_eq_ok.mp heq
  obtain ⟨node, hnode, heq⟩ := Except.bind_eq_ok.mp heq
  cases node with
  | none => cases heq
  | some node =>
    cases heq
    have hkeyed := snapshotProjectNode_keyed h ih hnode
    have hcondition : ProjectDirect recur direct vfs context path name ↔
        Direct vfs path ∧ NodeDirect recur direct (project.extendContext folder context) path
          projectName none project.tree := by
      unfold ProjectDirect
      rw [Fallible.withContext_eq_ok.mp hproject]
      refine and_congr_right fun _ =>
        ⟨fun hall => hall project projectName folder rfl (Fallible.unwrap_eq_ok.mp hname) hfolder, ?_⟩
      rintro hd _ name' folder' heq' hname' hfolder'
      obtain rfl := Except.ok.inj heq'
      obtain rfl := Option.some.inj ((Fallible.unwrap_eq_ok.mp hname).symm.trans hname')
      obtain rfl := Except.ok.inj (hfolder.symm.trans hfolder')
      exact hd
    rw [hcondition, ← hkeyed, keyed_iff h, keyed_iff h]
    simp only [List.mem_append, List.mem_singleton, or_imp, forall_and, forall_eq]
    tauto

end Projects

/-! ## Paths -/

section Paths

variable (h : vfs.Lawful)
  (ih : ∀ context path S, recur context path = .ok (some S) →
    (Keyed vfs S ↔ direct context path))
include h ih

theorem Middleware.snapshot_keyed {middleware : Middleware}
    (heq : middleware.snapshot recur context vfs path name = .ok (some S)) :
    Keyed vfs S ↔ middleware.PlacesDirect recur direct vfs context path name := by
  unfold Middleware.snapshot at heq
  obtain ⟨output, houtput, heq⟩ := Except.bind_eq_ok.mp heq
  cases output with
  | none => cases heq
  | some s =>
    cases heq
    have hsame : Keyed vfs { s with metadata := { s.metadata with middleware := some middleware } } ↔
        Keyed vfs s := SamePlaces.keyed h ⟨rfl, rfl⟩
    rw [hsame]
    unfold PlacesDirect
    unfold Middleware.output at houtput
    cases middleware with
    | csv => exact (snapshotCsv_lists houtput).keyed_iff h
    | json => exact (snapshotJson_lists houtput).keyed_iff h
    | toml => exact (snapshotToml_lists houtput).keyed_iff h
    | text => exact (snapshotTxt_lists houtput).keyed_iff h
    | yaml => exact (snapshotYaml_lists houtput).keyed_iff h
    | jsonModel => exact iff_true_intro ((snapshotJsonModel_lists houtput).keyed h)
    | rbxm => exact iff_true_intro ((snapshotRbxm_lists houtput).keyed h)
    | rbxmx => exact iff_true_intro ((snapshotRbxmx_lists houtput).keyed h)
    | ignore => cases houtput
    | project => exact snapshotProject_keyed h ih houtput
    | dir => exact snapshotDir_keyed h ih houtput
    | serverScriptDir | clientScriptDir | pluginScriptDir | moduleScriptDir =>
      exact snapshotLuaInit_keyed h ih houtput
    | csvDir => exact snapshotCsvInit_keyed h ih houtput
    | serverScript | clientScript | moduleScript | pluginScript | legacyClientScript
    | legacyServerScript | runContextServerScript | runContextClientScript =>
      exact (snapshotLua_lists houtput).keyed_iff h

theorem snapshotStep_keyed (heq : snapshotStep recur vfs context path = .ok (some S)) :
    Keyed vfs S ↔ StepDirect recur direct vfs context path := by
  unfold snapshotStep at heq
  obtain ⟨metadata, hmetadata, heq⟩ := Except.bind_eq_ok.mp heq
  cases metadata with
  | none => cases heq
  | some metadata =>
    unfold StepDirect
    rw [withNotFound_eq_some.mp (Fallible.ofIo_eq_ok.mp hmetadata)]
    simp only [Except.ok.injEq, forall_eq']
    dsimp only at heq
    split_ifs at heq ⊢ with hdir
    · obtain ⟨⟨middleware, dirName, initPath⟩, hdirs, heq⟩ := Except.bind_eq_ok.mp heq
      rw [Middleware.snapshot_keyed h ih heq, hdirs]
      simp only [Except.ok.injEq, Prod.mk.injEq]
      constructor
      · rintro hd _ _ _ ⟨rfl, rfl, rfl⟩
        exact hd
      · exact fun hall => hall _ _ _ ⟨rfl, rfl, rfl⟩
    · obtain ⟨fileName, -, heq⟩ := Except.bind_eq_ok.mp heq
      split_ifs at heq with hrefused
      · cases heq
      · unfold snapshotFromPath at heq
        cases hrule : ruleForPath context path with
        | none =>
          rw [hrule] at heq
          cases heq
        | some rule =>
          rw [hrule] at heq
          obtain ⟨name, hname, heq⟩ := Except.bind_eq_ok.mp heq
          rw [Middleware.snapshot_keyed h ih heq]
          constructor
          · rintro hd rule' name' hrule' hname'
            obtain rfl := Option.some.inj hrule'
            obtain rfl := Except.ok.inj (hname.symm.trans hname')
            exact hd
          · exact fun hall => hall rule name rfl hname

end Paths

/-- **Everything that a snapshot lists is in the form in which events name it exactly if every
place that the snapshot was made from is direct.** -/
theorem keyed_iff_direct (h : vfs.Lawful) {n : ℕ}
    (heq : snapshotFromVfs vfs n context path = .ok (some S)) :
    Keyed vfs S ↔ SnapshotDirect vfs n context path := by
  induction n generalizing context path S with
  | zero => cases heq
  | succ n ih => exact snapshotStep_keyed h (fun _ _ _ hS => ih hS) heq

/-! ## A project beside its source -/

namespace Environment

omit [Environment] in
/-- The globs of the default rules: a suffix of the path, or one of two. -/
def suffixMatch (glob : Glob) (path : PathBuf) : Bool :=
  if glob.glob = "*.\x7blua,luau\x7d" then
    endsWith path.display ".lua" || endsWith path.display ".luau"
  else if glob.glob = "*.\x7byml,yaml\x7d" then
    endsWith path.display ".yml" || endsWith path.display ".yaml"
  else endsWith path.display (String.ofList (glob.glob.toList.drop 1))

omit [Environment] in
/-- An environment in which some texts are known to be projects and nothing else is decoded. -/
@[reducible] def ofProjects (projects : List (String × Project)) : Environment where
  isMatch := suffixMatch
  project contents :=
    match projects.find? fun project => project.1.toUTF8.data.toList = contents with
    | some project => .ok project.2
    | none => .error "Failed to parse JSONC"
  adjacentMetadata _ := .error "Failed to parse JSONC"
  directoryMetadata _ := .error "Failed to parse JSONC"
  jsonModel _ := .error "Failed to parse JSONC"
  rbxm _ := .error "Invalid file header"
  rbxmx _ := .error "Unexpected end of stream"
  localizationTable _ := .error "CSV error"
  jsonSource _ := .error "Failed to parse JSONC"
  tomlSource _ := .error "expected an equals"
  yamlSource _ := .error "did not find expected node content"
  resolve _ className property := .error s!"Could not resolve {className}.{property}"
  resolveUnambiguous _ := .error "Could not resolve attribute"
  isService name := name ∈ ["Workspace", "ReplicatedStorage", "ServerScriptService"]
  runContext
    | "Legacy" => some 0
    | "Server" => some 1
    | "Client" => some 2
    | "Plugin" => some 3
    | _ => none

end Environment

/-- A node for a path. -/
def pathNode (path : PathNode) : ProjectNode where
  className := none
  id := none
  children := []
  properties := []
  attributes := []
  ignoreUnknownInstances := none
  path := some path

def Project.ofTree (tree : ProjectNode) : Project where
  name := none
  tree := tree
  emitLegacyScripts := none
  globIgnorePaths := []
  syncRules := []
  fileLocation := ⟨false, []⟩

def insideText : String := "\x7b\"tree\":\x7b\"$path\":\"src\"\x7d\x7d"

/-- A project that is a directory below its own. -/
def insideProject : Project := .ofTree (pathNode (.required ⟨false, ["src"]⟩))

def insideDisk : Disk where
  entries :=
    [(["proj"], none), (["proj", "default.project.json"], some insideText.toUTF8.data.toList),
      (["proj", "src"], none), (["proj", "src", "foo.lua"], some "return 1".toUTF8.data.toList),
      (["proj", "src", "sub"], none),
      (["proj", "src", "sub", "init.lua"], some "return 2".toUTF8.data.toList)]
  named := by decide

def besideText : String := "\x7b\"tree\":\x7b\"$path\":\"../shared/foo.lua\"\x7d\x7d"

/-- A project that is a module in a directory beside its own. -/
def besideProject : Project := .ofTree (pathNode (.required ⟨false, ["..", "shared", "foo.lua"]⟩))

def besideDisk : Disk where
  entries :=
    [(["proj"], none), (["proj", "default.project.json"], some besideText.toUTF8.data.toList),
      (["shared"], none), (["shared", "foo.lua"], some "return 1".toUTF8.data.toList)]
  named := by decide

/-- The paths that a successful result lists. -/
def listedPaths : Fallible (Option InstanceSnapshot) → Option (List PathBuf)
  | .ok (some S) => some (S.nodes.flatMap fun node => node.metadata.relevantPaths)
  | _ => none

omit [Environment] in
theorem listedPaths_eq_some {result : Fallible (Option InstanceSnapshot)} {paths : List PathBuf}
    (h : listedPaths result = some paths) : ∃ S, result = .ok (some S) ∧
      ∀ path, path ∈ paths ↔ ∃ node ∈ S.nodes, path ∈ node.metadata.relevantPaths := by
  cases result with
  | error e => cases h
  | ok found =>
    cases found with
    | none => cases h
    | some S =>
      refine ⟨S, rfl, fun path => ?_⟩
      rw [← Option.some.inj h, List.mem_flatMap]

omit [Environment] in
/-- A project, its directory, and a module and a directory in that: all of their places are direct. -/
theorem keyed_inside : letI := Environment.ofProjects [(insideText, insideProject)]
    ∃ S, snapshotFromVfs insideDisk.vfs 4 {} ⟨true, ["proj"]⟩ = .ok (some S) ∧
      Keyed insideDisk.vfs S ∧ SnapshotDirect insideDisk.vfs 4 {} ⟨true, ["proj"]⟩ := by
  let _ := Environment.ofProjects [(insideText, insideProject)]
  have hall : (listedPaths (snapshotFromVfs insideDisk.vfs 4 {} ⟨true, ["proj"]⟩)).any fun paths =>
      ∀ path ∈ paths, canonicalizeEventPath insideDisk.vfs path = .ok path := by
    decide +kernel
  obtain ⟨paths, hlisted, hcanonical⟩ := (Option.any_eq_true _ _).mp hall
  obtain ⟨S, heq, hpaths⟩ := listedPaths_eq_some hlisted
  have hkeyed : Keyed insideDisk.vfs S := fun node hnode path hpath =>
    of_decide_eq_true hcanonical path ((hpaths path).mpr ⟨node, hnode, hpath⟩)
  exact ⟨S, heq, hkeyed, (keyed_iff_direct insideDisk.lawful heq).mp hkeyed⟩

omit [Environment] in
/-- The meta file of the module is listed as it is reached from the project. -/
theorem not_keyed_beside : letI := Environment.ofProjects [(besideText, besideProject)]
    ¬ ∀ (vfs : Vfs) (n : ℕ) (context : InstanceContext) (path : PathBuf) (S : InstanceSnapshot),
      vfs.Lawful → snapshotFromVfs vfs n context path = .ok (some S) → Keyed vfs S := by
  let _ := Environment.ofProjects [(besideText, besideProject)]
  intro hall
  have hlisted : listedPaths (snapshotFromVfs besideDisk.vfs 3 {} ⟨true, ["proj"]⟩) =
      some [⟨true, ["shared", "foo.lua"]⟩, ⟨true, ["proj", "..", "shared", "foo.meta.json"]⟩,
        ⟨true, ["proj", "..", "shared", "foo.meta.jsonc"]⟩,
        ⟨true, ["proj", "default.project.json"]⟩] := by decide +kernel
  obtain ⟨S, heq, hpaths⟩ := listedPaths_eq_some hlisted
  obtain ⟨node, hnode, hmem⟩ :=
    (hpaths ⟨true, ["proj", "..", "shared", "foo.meta.json"]⟩).mp (by decide)
  have hkeyed := hall _ _ _ _ _ besideDisk.lawful heq node hnode _ hmem
  have hcanonical : canonicalizeEventPath besideDisk.vfs
      ⟨true, ["proj", "..", "shared", "foo.meta.json"]⟩ =
        .ok ⟨true, ["shared", "foo.meta.json"]⟩ := by rfl
  exact absurd (Except.ok.inj (hcanonical.symm.trans hkeyed)) (by decide)

end Roxo
