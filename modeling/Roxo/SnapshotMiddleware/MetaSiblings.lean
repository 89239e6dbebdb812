import Roxo.SnapshotMiddleware.DirectPaths

/-!
# Meta files and the files beside them

A meta file `N.meta.json` in a directory is for what is made from the entries of the directory
that are named `N`. A directory with an init file goes by its own name in the middleware of the
file, which takes a meta file of that name in the directory for its own
(`metaForEntries_iff`).
-/

namespace Roxo

/-! ## Filesystems that differ in some files -/

/-- The two answer alike, but what is read at other paths may be different. -/
structure Vfs.AgreeOn (vfs : Vfs) (paths : List PathBuf) (vfs' : Vfs) : Prop where
  metadata : vfs'.metadata = vfs.metadata
  readDir : vfs'.readDir = vfs.readDir
  canonicalize : vfs'.canonicalize = vfs.canonicalize
  read : ∀ path ∈ paths, vfs'.read path = vfs.read path

variable {vfs vfs' : Vfs} {paths : List PathBuf} {path dir : PathBuf} {name : String}

namespace Vfs.AgreeOn

variable (h : vfs.AgreeOn paths vfs')

include h

theorem readToString (hpath : path ∈ paths) : vfs'.readToString path = vfs.readToString path := by
  unfold Vfs.readToString
  rw [h.read path hpath]

theorem readToStringLfNormalized (hpath : path ∈ paths) :
    vfs'.readToStringLfNormalized path = vfs.readToStringLfNormalized path := by
  unfold Vfs.readToStringLfNormalized
  rw [h.readToString hpath]

theorem fileMetadata (path : PathBuf) : fileMetadata vfs' path = fileMetadata vfs path := by
  unfold Roxo.fileMetadata
  rw [h.canonicalize]

theorem firstExisting (dirPath : PathBuf) (files : List (Middleware × String)) :
    firstExisting vfs' dirPath files = firstExisting vfs dirPath files := by
  induction files with
  | nil => rfl
  | cons file files ih =>
    unfold Roxo.firstExisting
    rw [h.metadata, ih]

theorem getDirMiddleware (dirPath : PathBuf) :
    getDirMiddleware vfs' dirPath = getDirMiddleware vfs dirPath := by
  unfold Roxo.getDirMiddleware
  simp only [h.firstExisting]

end Vfs.AgreeOn

variable [Environment]

namespace Middleware

/-- The middleware takes the meta files of the name it is given. -/
def readsAdjacent : Middleware → Bool
  | .jsonModel | .rbxm | .rbxmx | .project | .ignore | .dir => false
  | _ => true

/-- The files that the middleware may read. -/
def files (middleware : Middleware) (path : PathBuf) (name : String) : List PathBuf :=
  (if middleware.readsAdjacent then
    [AdjacentMetadata.metaPathJson path name, AdjacentMetadata.metaPathJsonc path name] else []) ++
    path :: (path :: path.parent.toList).flatMap fun folder =>
      [DirectoryMetadata.metaPathJson folder, DirectoryMetadata.metaPathJsonc folder]

end Middleware

namespace Vfs.AgreeOn

section

variable (h : vfs.AgreeOn paths vfs')

include h

theorem adjacent (hjson : AdjacentMetadata.metaPathJson path name ∈ paths)
    (hjsonc : AdjacentMetadata.metaPathJsonc path name ∈ paths) :
    AdjacentMetadata.readAndApplyAll vfs' path name =
      AdjacentMetadata.readAndApplyAll vfs path name := by
  funext snapshot
  unfold AdjacentMetadata.readAndApplyAll AdjacentMetadata.readAndApply
  rw [h.read _ hjson, h.read _ hjsonc]

theorem directory (hjson : DirectoryMetadata.metaPathJson path ∈ paths)
    (hjsonc : DirectoryMetadata.metaPathJsonc path ∈ paths) :
    DirectoryMetadata.readAndApplyAll vfs' path = DirectoryMetadata.readAndApplyAll vfs path := by
  funext snapshot
  unfold DirectoryMetadata.readAndApplyAll DirectoryMetadata.readAndApply
  rw [h.read _ hjson, h.read _ hjsonc]

theorem snapshotDirNoMeta (recur : SnapshotPath) (context : InstanceContext) (path : PathBuf)
    (name : String) : snapshotDirNoMeta recur context vfs' path name =
      snapshotDirNoMeta recur context vfs path name := by
  unfold Roxo.snapshotDirNoMeta
  rw [h.readDir, h.canonicalize]

end

section Adjacent

variable (h : vfs.AgreeOn paths vfs') (hpath : path ∈ paths)
  (hjson : AdjacentMetadata.metaPathJson path name ∈ paths)
  (hjsonc : AdjacentMetadata.metaPathJsonc path name ∈ paths) (context : InstanceContext)

include h hpath hjson hjsonc

omit hpath in
theorem snapshotModule (source : String) :
    snapshotModule context vfs' path name source = snapshotModule context vfs path name source := by
  unfold Roxo.snapshotModule
  rw [h.fileMetadata, h.adjacent hjson hjsonc]

theorem snapshotCsv : snapshotCsv vfs' path name = snapshotCsv vfs path name := by
  unfold Roxo.snapshotCsv
  rw [h.read _ hpath, h.fileMetadata, h.adjacent hjson hjsonc]

theorem snapshotJson :
    snapshotJson context vfs' path name = snapshotJson context vfs path name := by
  unfold Roxo.snapshotJson
  rw [h.read _ hpath]
  simp only [h.snapshotModule hjson hjsonc]

theorem snapshotToml :
    snapshotToml context vfs' path name = snapshotToml context vfs path name := by
  unfold Roxo.snapshotToml
  rw [h.read _ hpath]
  simp only [h.snapshotModule hjson hjsonc]

theorem snapshotYaml :
    snapshotYaml context vfs' path name = snapshotYaml context vfs path name := by
  unfold Roxo.snapshotYaml
  rw [h.readToString hpath]
  simp only [h.snapshotModule hjson hjsonc]

theorem snapshotTxt : snapshotTxt context vfs' path name = snapshotTxt context vfs path name := by
  unfold Roxo.snapshotTxt
  rw [h.readToString hpath, h.fileMetadata, h.adjacent hjson hjsonc]

theorem snapshotLua (scriptType : ScriptType) :
    snapshotLua context vfs' path name scriptType =
      snapshotLua context vfs path name scriptType := by
  unfold Roxo.snapshotLua
  rw [h.readToStringLfNormalized hpath, h.fileMetadata, h.adjacent hjson hjsonc]

end Adjacent

section Alone

variable (h : vfs.AgreeOn paths vfs') (hpath : path ∈ paths) (context : InstanceContext)

include h

omit [Environment] in
theorem snapshotModel (topLevel : List ModelInstance) :
    snapshotModel context vfs' path name topLevel =
      snapshotModel context vfs path name topLevel := by
  unfold Roxo.snapshotModel
  rw [h.fileMetadata]

include hpath

theorem snapshotRbxm :
    snapshotRbxm context vfs' path name = snapshotRbxm context vfs path name := by
  unfold Roxo.snapshotRbxm
  rw [h.read _ hpath]
  simp only [h.snapshotModel]

theorem snapshotRbxmx :
    snapshotRbxmx context vfs' path name = snapshotRbxmx context vfs path name := by
  unfold Roxo.snapshotRbxmx
  rw [h.read _ hpath]
  simp only [h.snapshotModel]

theorem snapshotJsonModel :
    snapshotJsonModel context vfs' path name = snapshotJsonModel context vfs path name := by
  unfold Roxo.snapshotJsonModel
  rw [h.read _ hpath, h.fileMetadata]

theorem snapshotProject (recur : SnapshotPath) :
    snapshotProject recur context vfs' path name = snapshotProject recur context vfs path name := by
  unfold Roxo.snapshotProject Project.loadExact Project.readFile
  rw [h.read _ hpath]

end Alone

section Folders

variable (h : vfs.AgreeOn paths vfs') (recur : SnapshotPath) (context : InstanceContext)

include h

theorem snapshotDir (hjson : DirectoryMetadata.metaPathJson path ∈ paths)
    (hjsonc : DirectoryMetadata.metaPathJsonc path ∈ paths) :
    snapshotDir recur context vfs' path name = snapshotDir recur context vfs path name := by
  unfold Roxo.snapshotDir
  rw [h.snapshotDirNoMeta, h.directory hjson hjsonc]

omit h in
/-- What is made of a directory without its meta files has the name that is given. -/
theorem name_of_snapshotDirNoMeta {snapshot : InstanceSnapshot}
    (hdir : Roxo.snapshotDirNoMeta recur context vfs path name = .ok (some snapshot)) :
    snapshot.name = name := by
  unfold Roxo.snapshotDirNoMeta at hdir
  obtain ⟨entries, -, hdir⟩ := Except.bind_eq_ok.mp hdir
  obtain ⟨children, -, hdir⟩ := Except.bind_eq_ok.mp hdir
  obtain ⟨normalized, -, hdir⟩ := Except.bind_eq_ok.mp hdir
  cases hdir
  rfl

theorem snapshotInit {notFolder : PathBuf → String → String}
    {snapshotFile snapshotFile' : String → Fallible (Option InstanceSnapshot)}
    (hfile : snapshotFile' name = snapshotFile name)
    (hfolder : ∀ folder, path.parent = some folder →
      DirectoryMetadata.metaPathJson folder ∈ paths ∧
        DirectoryMetadata.metaPathJsonc folder ∈ paths) :
    snapshotInit recur context vfs' path name notFolder snapshotFile' =
      snapshotInit recur context vfs path name notFolder snapshotFile := by
  unfold Roxo.snapshotInit
  cases hparent : path.parent with
  | none => rfl
  | some folder =>
    obtain ⟨hjson, hjsonc⟩ := hfolder folder hparent
    have hbind : ∀ f : PathBuf → Fallible (Option InstanceSnapshot),
        (Fallible.unwrap (some folder) >>= f) = f folder := fun _ => rfl
    rw [hbind, hbind, h.snapshotDirNoMeta, h.directory hjson hjsonc]
    cases hdir : Roxo.snapshotDirNoMeta recur context vfs folder name with
    | error err => rfl
    | ok found =>
      cases found with
      | none => rfl
      | some snapshot =>
        have hname : snapshot.name = name := name_of_snapshotDirNoMeta recur context hdir
        have hfound : ∀ f : InstanceSnapshot → Fallible (Option InstanceSnapshot),
            (((Except.ok (some snapshot) : Fallible _) >>= Fallible.unwrap) >>= f) = f snapshot :=
          fun _ => rfl
        rw [hfound, hfound, hname, hfile]

end Folders

end Vfs.AgreeOn

/-- A middleware makes the same of a path where its files are the same. -/
theorem Middleware.output_eq {middleware : Middleware} {recur : SnapshotPath}
    {context : InstanceContext} (h : vfs.AgreeOn (middleware.files path name) vfs') :
    middleware.output recur context vfs' path name =
      middleware.output recur context vfs path name := by
  have hpath : path ∈ middleware.files path name :=
    List.mem_append_right _ List.mem_cons_self
  have hmeta : ∀ folder ∈ path :: path.parent.toList,
      DirectoryMetadata.metaPathJson folder ∈ middleware.files path name ∧
        DirectoryMetadata.metaPathJsonc folder ∈ middleware.files path name := by
    intro folder hfolder
    refine ⟨List.mem_append_right _ (List.mem_cons_of_mem _ ?_),
      List.mem_append_right _ (List.mem_cons_of_mem _ ?_)⟩
    · exact List.mem_flatMap.mpr ⟨folder, hfolder, List.mem_cons_self⟩
    · exact List.mem_flatMap.mpr ⟨folder, hfolder, List.mem_cons_of_mem _ List.mem_cons_self⟩
  have hfolder : ∀ folder, path.parent = some folder →
      DirectoryMetadata.metaPathJson folder ∈ middleware.files path name ∧
        DirectoryMetadata.metaPathJsonc folder ∈ middleware.files path name := by
    intro folder hparent
    refine hmeta folder (List.mem_cons_of_mem _ ?_)
    rw [hparent]
    exact List.mem_singleton.mpr rfl
  have hadjacent : middleware.readsAdjacent = true →
      AdjacentMetadata.metaPathJson path name ∈ middleware.files path name ∧
        AdjacentMetadata.metaPathJsonc path name ∈ middleware.files path name := by
    intro hreads
    unfold files
    rw [if_pos hreads]
    exact ⟨List.mem_append_left _ List.mem_cons_self,
      List.mem_append_left _ (List.mem_cons_of_mem _ List.mem_cons_self)⟩
  unfold output
  cases middleware with
  | csv => exact h.snapshotCsv hpath (hadjacent rfl).1 (hadjacent rfl).2
  | jsonModel => exact h.snapshotJsonModel hpath context
  | json => exact h.snapshotJson hpath (hadjacent rfl).1 (hadjacent rfl).2 context
  | serverScript => exact h.snapshotLua hpath (hadjacent rfl).1 (hadjacent rfl).2 context _
  | clientScript => exact h.snapshotLua hpath (hadjacent rfl).1 (hadjacent rfl).2 context _
  | moduleScript => exact h.snapshotLua hpath (hadjacent rfl).1 (hadjacent rfl).2 context _
  | pluginScript => exact h.snapshotLua hpath (hadjacent rfl).1 (hadjacent rfl).2 context _
  | legacyClientScript => exact h.snapshotLua hpath (hadjacent rfl).1 (hadjacent rfl).2 context _
  | legacyServerScript => exact h.snapshotLua hpath (hadjacent rfl).1 (hadjacent rfl).2 context _
  | runContextClientScript =>
    exact h.snapshotLua hpath (hadjacent rfl).1 (hadjacent rfl).2 context _
  | runContextServerScript =>
    exact h.snapshotLua hpath (hadjacent rfl).1 (hadjacent rfl).2 context _
  | project => exact h.snapshotProject hpath context recur
  | rbxm => exact h.snapshotRbxm hpath context
  | rbxmx => exact h.snapshotRbxmx hpath context
  | toml => exact h.snapshotToml hpath (hadjacent rfl).1 (hadjacent rfl).2 context
  | text => exact h.snapshotTxt hpath (hadjacent rfl).1 (hadjacent rfl).2 context
  | yaml => exact h.snapshotYaml hpath (hadjacent rfl).1 (hadjacent rfl).2 context
  | ignore => rfl
  | dir =>
    exact h.snapshotDir recur context (hmeta path List.mem_cons_self).1
      (hmeta path List.mem_cons_self).2
  | serverScriptDir =>
    exact h.snapshotInit recur context
      (h.snapshotLua hpath (hadjacent rfl).1 (hadjacent rfl).2 context _) hfolder
  | clientScriptDir =>
    exact h.snapshotInit recur context
      (h.snapshotLua hpath (hadjacent rfl).1 (hadjacent rfl).2 context _) hfolder
  | pluginScriptDir =>
    exact h.snapshotInit recur context
      (h.snapshotLua hpath (hadjacent rfl).1 (hadjacent rfl).2 context _) hfolder
  | moduleScriptDir =>
    exact h.snapshotInit recur context
      (h.snapshotLua hpath (hadjacent rfl).1 (hadjacent rfl).2 context _) hfolder
  | csvDir =>
    exact h.snapshotInit recur context
      (h.snapshotCsv hpath (hadjacent rfl).1 (hadjacent rfl).2) hfolder

theorem Middleware.snapshot_eq {middleware : Middleware} {recur : SnapshotPath}
    {context : InstanceContext} (h : vfs.AgreeOn (middleware.files path name) vfs') :
    middleware.snapshot recur context vfs' path name =
      middleware.snapshot recur context vfs path name := by
  unfold Middleware.snapshot
  rw [Middleware.output_eq h]

/-! ## Where meta files are -/

namespace PathBuf

omit [Environment]

theorem joinStr_of_name {s : String} (hs : IsName s) (dir : PathBuf) :
    dir.joinStr s = ⟨dir.absolute, dir.components ++ [s]⟩ := by
  have hkeep : [s].filter (fun component => component ≠ ".") = [s] := by
    rw [List.filter_singleton, decide_eq_true hs.ne_dot]
    rfl
  unfold joinStr join
  rw [ofString_of_name hs, if_neg Bool.false_ne_true]
  split_ifs with hempty
  · rw [hempty.1, hempty.2]
    rfl
  · dsimp only
    rw [hkeep]

theorem parent_joinStr {s : String} (hs : IsName s) (dir : PathBuf) :
    (dir.joinStr s).parent = some dir := by
  rw [joinStr_of_name hs]
  unfold parent
  rw [if_neg (List.append_ne_nil_of_right_ne_nil _ (List.cons_ne_nil _ _))]
  dsimp only
  rw [List.dropLast_concat]

end PathBuf

/-- The meta files of a name in a directory. -/
def metaFilesOf (dir : PathBuf) (name : String) : List PathBuf :=
  [dir.joinStr s!"{name}.meta.json", dir.joinStr s!"{name}.meta.jsonc"]

omit [Environment] in
theorem toList_metaJson (name : String) :
    (s!"{name}.meta.json").toList = name.toList ++ ".meta.json".toList :=
  String.toList_append

omit [Environment] in
theorem toList_metaJsonc (name : String) :
    (s!"{name}.meta.jsonc").toList = name.toList ++ ".meta.jsonc".toList :=
  String.toList_append

omit [Environment] in
theorem isName_metaJson (hname : '/' ∉ name.toList) : PathBuf.IsName s!"{name}.meta.json" := by
  have hlength : 10 ≤ (s!"{name}.meta.json").toList.length := by
    rw [toList_metaJson, List.length_append]
    exact Nat.le_add_left _ _
  refine ⟨?_, fun h => ?_, fun h => ?_, fun h => ?_⟩
  · rw [toList_metaJson, List.mem_append, not_or]
    exact ⟨hname, by decide⟩
  · rw [h] at hlength
    exact absurd hlength (by decide)
  · rw [h] at hlength
    exact absurd hlength (by decide)
  · rw [h] at hlength
    exact absurd hlength (by decide)

omit [Environment] in
theorem isName_metaJsonc (hname : '/' ∉ name.toList) : PathBuf.IsName s!"{name}.meta.jsonc" := by
  have hlength : 11 ≤ (s!"{name}.meta.jsonc").toList.length := by
    rw [toList_metaJsonc, List.length_append]
    exact Nat.le_add_left _ _
  refine ⟨?_, fun h => ?_, fun h => ?_, fun h => ?_⟩
  · rw [toList_metaJsonc, List.mem_append, not_or]
    exact ⟨hname, by decide⟩
  · rw [h] at hlength
    exact absurd hlength (by decide)
  · rw [h] at hlength
    exact absurd hlength (by decide)
  · rw [h] at hlength
    exact absurd hlength (by decide)

omit [Environment] in
theorem metaJson_inj {other : String} :
    s!"{name}.meta.json" = s!"{other}.meta.json" ↔ name = other := by
  rw [← String.toList_inj, toList_metaJson, toList_metaJson, List.append_left_inj,
    String.toList_inj]

omit [Environment] in
theorem metaJsonc_inj {other : String} :
    s!"{name}.meta.jsonc" = s!"{other}.meta.jsonc" ↔ name = other := by
  rw [← String.toList_inj, toList_metaJsonc, toList_metaJsonc, List.append_left_inj,
    String.toList_inj]

omit [Environment] in
theorem metaJson_ne_metaJsonc {other : String} : s!"{name}.meta.json" ≠ s!"{other}.meta.jsonc" := by
  intro h
  have hlast : (s!"{name}.meta.json").toList.getLast? =
      (s!"{other}.meta.jsonc").toList.getLast? := by
    rw [h]
  rw [toList_metaJson, toList_metaJsonc, List.getLast?_append, List.getLast?_append] at hlast
  have hn : ".meta.json".toList.getLast? = some 'n' := by decide
  have hc : ".meta.jsonc".toList.getLast? = some 'c' := by decide
  rw [hn, hc] at hlast
  exact absurd (Option.some.inj hlast) (by decide)

omit [Environment] in
/-- Meta files of two names in two directories are the same only if names and directories are. -/
theorem metaFiles_cases {dir' : PathBuf} {other : String} (hname : '/' ∉ name.toList)
    (hother : '/' ∉ other.toList) (hfile : path ∈ metaFilesOf dir name)
    (hfile' : path ∈ metaFilesOf dir' other) : dir = dir' ∧ name = other := by
  have hsame : ∀ {s s' : String}, PathBuf.IsName s → PathBuf.IsName s' →
      dir.joinStr s = dir'.joinStr s' → dir = dir' ∧ s = s' := by
    intro s s' hs hs' heq
    rw [PathBuf.joinStr_of_name hs, PathBuf.joinStr_of_name hs', PathBuf.mk.injEq] at heq
    obtain ⟨hcomponents, hlast⟩ := List.append_inj' heq.2 rfl
    cases dir
    cases dir'
    exact ⟨PathBuf.mk.injEq _ _ _ _ ▸ ⟨heq.1, hcomponents⟩, (List.cons.inj hlast).1⟩
  have hj := isName_metaJson hname
  have hjc := isName_metaJsonc hname
  have hj' := isName_metaJson hother
  have hjc' := isName_metaJsonc hother
  unfold metaFilesOf at hfile hfile'
  simp only [List.mem_cons, List.not_mem_nil, or_false] at hfile hfile'
  rcases hfile with rfl | rfl <;> rcases hfile' with heq | heq
  · exact (hsame hj hj' heq).imp_right metaJson_inj.mp
  · exact absurd (hsame hj hjc' heq).2 metaJson_ne_metaJsonc
  · exact absurd (hsame hjc hj' heq).2.symm metaJson_ne_metaJsonc
  · exact (hsame hjc hjc' heq).imp_right metaJsonc_inj.mp

omit [Environment] in
/-- A file beside the meta files is none of them if its name does not end like theirs. -/
theorem not_mem_metaFiles {file : String} (hname : '/' ∉ name.toList) (hfile : PathBuf.IsName file)
    (hend : endsWith file ".meta.json" = false ∧ endsWith file ".meta.jsonc" = false)
    (folder : PathBuf) : folder.joinStr file ∉ metaFilesOf dir name := by
  have hdiffer : ∀ {s : String}, PathBuf.IsName s → folder.joinStr file = dir.joinStr s →
      file = s := by
    intro s hs heq
    rw [PathBuf.joinStr_of_name hfile, PathBuf.joinStr_of_name hs, PathBuf.mk.injEq] at heq
    exact (List.cons.inj (List.append_inj' heq.2 rfl).2).1
  unfold metaFilesOf
  simp only [List.mem_cons, List.not_mem_nil, or_false, not_or]
  refine ⟨fun heq => ?_, fun heq => ?_⟩
  · have hends : endsWith file ".meta.json" = true :=
      endsWith_iff.mpr ⟨name, hdiffer (isName_metaJson hname) heq⟩
    rw [hend.1] at hends
    cases hends
  · have hends : endsWith file ".meta.jsonc" = true :=
      endsWith_iff.mpr ⟨name, hdiffer (isName_metaJsonc hname) heq⟩
    rw [hend.2] at hends
    cases hends

/-! ## What a directory is made with -/

omit [Environment] in
/-- The first file of some that is there. -/
theorem mem_of_firstExisting {files : List (Middleware × String)} {middleware : Middleware}
    (h : firstExisting vfs dir files = .ok (some (middleware, path))) :
    ∃ file, (middleware, file) ∈ files ∧ path = dir.joinStr file := by
  induction files with
  | nil => cases h
  | cons entry files ih =>
    obtain ⟨first, file⟩ := entry
    unfold firstExisting at h
    obtain ⟨found, -, h⟩ := Except.bind_eq_ok.mp h
    cases found with
    | some metadata =>
      cases h
      exact ⟨file, List.mem_cons_self, rfl⟩
    | none =>
      obtain ⟨file', hmem, hpath⟩ := ih h
      exact ⟨file', List.mem_cons_of_mem _ hmem, hpath⟩

omit [Environment] in
theorem getDirMiddleware_cases {middleware : Middleware}
    (h : getDirMiddleware vfs dir = .ok (middleware, name, path)) :
    dir.fileName = some name ∧ (middleware = .dir ∧ path = dir ∨
      ∃ file, (middleware, file) ∈
          Project.defaultProjectNames.map (fun name => (Middleware.project, name)) ++ initPaths ∧
        path = dir.joinStr file) := by
  unfold getDirMiddleware at h
  obtain ⟨dirName, hname, h⟩ := Except.bind_eq_ok.mp h
  obtain ⟨found, hfound, h⟩ := Except.bind_eq_ok.mp h
  cases found with
  | none =>
    cases h
    exact ⟨Fallible.unwrap_eq_ok.mp hname, .inl ⟨rfl, rfl⟩⟩
  | some found =>
    cases h
    exact ⟨Fallible.unwrap_eq_ok.mp hname, .inr (mem_of_firstExisting hfound)⟩

omit [Environment] in
/-- The files that decide what a directory becomes are files in it, and no meta files. -/
theorem initFile_spec {middleware : Middleware} {file : String} (h : (middleware, file) ∈
      Project.defaultProjectNames.map (fun name => (Middleware.project, name)) ++ initPaths) :
    PathBuf.IsName file ∧
      (endsWith file ".meta.json" = false ∧ endsWith file ".meta.jsonc" = false) ∧
      (middleware.readsAdjacent = true → (middleware, file) ∈ initPaths) := by
  have hall : ∀ entry ∈
      Project.defaultProjectNames.map (fun name => (Middleware.project, name)) ++ initPaths,
      ('/' ∉ entry.2.toList ∧ entry.2 ≠ "" ∧ entry.2 ≠ "." ∧ entry.2 ≠ "..") ∧
      (endsWith entry.2 ".meta.json" = false ∧ endsWith entry.2 ".meta.jsonc" = false) ∧
      (entry.1.readsAdjacent = true → entry ∈ initPaths) := by decide
  obtain ⟨⟨hseparator, hempty, hdot, hparent⟩, hend, hreads⟩ := hall _ h
  exact ⟨⟨hseparator, hempty, hdot, hparent⟩, hend, hreads⟩

/-! ## Init files -/

/-- What the middleware of an init file makes of the file itself. -/
def Middleware.ofInit (middleware : Middleware) (context : InstanceContext) (vfs : Vfs)
    (path : PathBuf) (name : String) : Fallible (Option InstanceSnapshot) :=
  match middleware with
  | .serverScriptDir => snapshotLua context vfs path name .server
  | .clientScriptDir => snapshotLua context vfs path name .client
  | .pluginScriptDir => snapshotLua context vfs path name .plugin
  | .moduleScriptDir => snapshotLua context vfs path name .module
  | .csvDir => snapshotCsv vfs path name
  | _ => .ok none

/-- The init file is read, and comes to its meta files. -/
structure InitRead (middleware : Middleware) (vfs : Vfs) (path : PathBuf) : Prop where
  contents : if middleware = .csvDir then
      ∃ contents table, vfs.read path = .ok contents ∧
        Environment.localizationTable contents = .ok table
    else ∃ text, vfs.readToString path = .ok text
  place : ∃ canonical, vfs.canonicalize path = .ok canonical

theorem output_of_init {middleware : Middleware} {file : String}
    (h : (middleware, file) ∈ initPaths) : ∃ notFolder, ∀ recur context vfs path name,
      middleware.output recur context vfs path name =
        snapshotInit recur context vfs path name notFolder
          (middleware.ofInit context vfs path) := by
  have hcases : middleware = .moduleScriptDir ∨ middleware = .serverScriptDir ∨
      middleware = .clientScriptDir ∨ middleware = .pluginScriptDir ∨ middleware = .csvDir := by
    simp only [initPaths, List.mem_cons, Prod.mk.injEq, List.not_mem_nil, or_false] at h
    tauto
  rcases hcases with rfl | rfl | rfl | rfl | rfl
  all_goals
    apply Exists.intro
    intro recur context vfs path name
    unfold Middleware.output
    dsimp only
    first | unfold snapshotLuaInit | unfold snapshotCsvInit
    rfl

omit [Environment] in
theorem isOk_fileMetadata : (∃ metadata, fileMetadata vfs path = .ok metadata) ↔
    ∃ canonical, vfs.canonicalize path = .ok canonical := by
  unfold fileMetadata
  cases vfs.canonicalize path with
  | error err =>
    constructor
    · rintro ⟨metadata, hmetadata⟩
      cases hmetadata
    · rintro ⟨canonical, hcanonical⟩
      cases hcanonical
  | ok canonical => exact iff_of_true ⟨_, rfl⟩ ⟨_, rfl⟩

section Script

variable (context : InstanceContext) (scriptType : ScriptType)

/-- A script without text or place fails as it does with any meta files. -/
theorem snapshotLua_eq_of_not (h : vfs.AgreeOn [path] vfs')
    (hno : ¬ ((∃ text, vfs.readToString path = .ok text) ∧
      ∃ canonical, vfs.canonicalize path = .ok canonical)) :
    snapshotLua context vfs' path name scriptType =
      snapshotLua context vfs path name scriptType := by
  unfold snapshotLua
  rw [h.readToStringLfNormalized List.mem_cons_self, h.fileMetadata]
  unfold Vfs.readToStringLfNormalized
  cases htext : vfs.readToString path with
  | error err => rfl
  | ok text =>
    cases hmetadata : fileMetadata vfs path with
    | error err => rfl
    | ok metadata =>
      exact absurd ⟨⟨text, htext⟩, isOk_fileMetadata.mp ⟨metadata, hmetadata⟩⟩ hno

theorem snapshotLua_eq_error {failure : Failure} (htext : ∃ text, vfs.readToString path = .ok text)
    (hplace : ∃ canonical, vfs.canonicalize path = .ok canonical)
    (hmeta : ∀ snapshot,
      AdjacentMetadata.readAndApplyAll vfs path name snapshot = .error failure) :
    snapshotLua context vfs path name scriptType = .error failure := by
  obtain ⟨text, htext⟩ := htext
  obtain ⟨metadata, hmetadata⟩ := isOk_fileMetadata.mpr hplace
  have hfun : AdjacentMetadata.readAndApplyAll vfs path name = fun _ => .error failure :=
    funext hmeta
  unfold snapshotLua Vfs.readToStringLfNormalized
  rw [htext, hmetadata, hfun]
  rfl

end Script

theorem snapshotCsv_eq_of_not (h : vfs.AgreeOn [path] vfs')
    (hno : ¬ ((∃ contents table, vfs.read path = .ok contents ∧
        Environment.localizationTable contents = .ok table) ∧
      ∃ canonical, vfs.canonicalize path = .ok canonical)) :
    snapshotCsv vfs' path name = snapshotCsv vfs path name := by
  unfold snapshotCsv
  rw [h.read path List.mem_cons_self, h.fileMetadata]
  cases hcontents : vfs.read path with
  | error err => rfl
  | ok contents =>
    cases htable : Environment.localizationTable contents with
    | error message =>
      have hbind : ∀ f : List UInt8 → Fallible (Option InstanceSnapshot),
          (Fallible.ofIo (.ok contents) >>= f) = f contents := fun _ => rfl
      rw [hbind, hbind, htable]
      rfl
    | ok table =>
      cases hmetadata : fileMetadata vfs path with
      | error err => rfl
      | ok metadata =>
        exact absurd ⟨⟨contents, table, hcontents, htable⟩,
          isOk_fileMetadata.mp ⟨metadata, hmetadata⟩⟩ hno

theorem snapshotCsv_eq_error {failure : Failure}
    (hcontents : ∃ contents table, vfs.read path = .ok contents ∧
      Environment.localizationTable contents = .ok table)
    (hplace : ∃ canonical, vfs.canonicalize path = .ok canonical)
    (hmeta : ∀ snapshot,
      AdjacentMetadata.readAndApplyAll vfs path name snapshot = .error failure) :
    snapshotCsv vfs path name = .error failure := by
  obtain ⟨contents, table, hcontents, htable⟩ := hcontents
  obtain ⟨metadata, hmetadata⟩ := isOk_fileMetadata.mpr hplace
  have hfun : AdjacentMetadata.readAndApplyAll vfs path name = fun _ => .error failure :=
    funext hmeta
  have hbind : ∀ f : List UInt8 → Fallible (Option InstanceSnapshot),
      (Fallible.ofIo (.ok contents) >>= f) = f contents := fun _ => rfl
  unfold snapshotCsv
  rw [hcontents, hbind, htable, hmetadata, hfun]
  rfl

theorem ofInit_eq_of_not {middleware : Middleware} (context : InstanceContext)
    (h : vfs.AgreeOn [path] vfs') (hno : ¬ InitRead middleware vfs path) :
    middleware.ofInit context vfs' path name = middleware.ofInit context vfs path name := by
  unfold Middleware.ofInit
  cases middleware with
  | serverScriptDir =>
    exact snapshotLua_eq_of_not context _ h fun hread => hno ⟨hread.1, hread.2⟩
  | clientScriptDir =>
    exact snapshotLua_eq_of_not context _ h fun hread => hno ⟨hread.1, hread.2⟩
  | pluginScriptDir =>
    exact snapshotLua_eq_of_not context _ h fun hread => hno ⟨hread.1, hread.2⟩
  | moduleScriptDir =>
    exact snapshotLua_eq_of_not context _ h fun hread => hno ⟨hread.1, hread.2⟩
  | csvDir => exact snapshotCsv_eq_of_not h fun hread => hno ⟨hread.1, hread.2⟩
  | _ => rfl

theorem ofInit_eq_error {middleware : Middleware} {file : String} (context : InstanceContext)
    {failure : Failure} (hinit : (middleware, file) ∈ initPaths)
    (hread : InitRead middleware vfs path)
    (hmeta : ∀ snapshot,
      AdjacentMetadata.readAndApplyAll vfs path name snapshot = .error failure) :
    middleware.ofInit context vfs path name = .error failure := by
  obtain ⟨hcontents, hplace⟩ := hread
  unfold Middleware.ofInit
  cases middleware with
  | serverScriptDir => exact snapshotLua_eq_error context _ hcontents hplace hmeta
  | clientScriptDir => exact snapshotLua_eq_error context _ hcontents hplace hmeta
  | pluginScriptDir => exact snapshotLua_eq_error context _ hcontents hplace hmeta
  | moduleScriptDir => exact snapshotLua_eq_error context _ hcontents hplace hmeta
  | csvDir => exact snapshotCsv_eq_error hcontents hplace hmeta
  | _ => exact absurd hinit (by simp [initPaths])

/-- The directory is listed and has a canonical path. -/
structure DirRead (vfs : Vfs) (dir : PathBuf) : Prop where
  entries : ∃ entries, vfs.readDir dir = .ok entries ∧ ∀ entry ∈ entries, ∃ path, entry = .ok path
  place : ∃ canonical, vfs.canonicalize dir = .ok canonical

theorem entries_of_snapshotEntries {recur : SnapshotPath} {context : InstanceContext}
    {entries : List (Except IoError PathBuf)} {children : List InstanceSnapshot}
    (h : snapshotEntries recur context entries = .ok children) :
    ∀ entry ∈ entries, ∃ path, entry = .ok path := by
  induction entries generalizing children with
  | nil => nofun
  | cons entry entries ih =>
    unfold snapshotEntries at h
    obtain ⟨path, hpath, h⟩ := Except.bind_eq_ok.mp h
    intro e he
    rcases List.mem_cons.mp he with rfl | he
    · exact ⟨path, Fallible.ofIo_eq_ok.mp hpath⟩
    · split_ifs at h
      · exact ih h e he
      · obtain ⟨child, -, h⟩ := Except.bind_eq_ok.mp h
        obtain ⟨rest, hrest, -⟩ := Except.bind_eq_ok.mp h
        exact ih hrest e he

theorem dirRead_of_snapshotDirNoMeta {recur : SnapshotPath} {context : InstanceContext}
    {found : Option InstanceSnapshot}
    (h : snapshotDirNoMeta recur context vfs dir name = .ok found) :
    DirRead vfs dir := by
  unfold snapshotDirNoMeta at h
  obtain ⟨entries, hentries, h⟩ := Except.bind_eq_ok.mp h
  obtain ⟨children, hchildren, h⟩ := Except.bind_eq_ok.mp h
  obtain ⟨canonical, hcanonical, -⟩ := Except.bind_eq_ok.mp h
  exact ⟨⟨entries, Fallible.ofIo_eq_ok.mp hentries, entries_of_snapshotEntries hchildren⟩,
    canonical, Fallible.ofIo_eq_ok.mp hcanonical⟩

/-- Where no entry makes an instance. -/
theorem snapshotEntries_nothing {context : InstanceContext}
    {entries : List (Except IoError PathBuf)} (h : ∀ entry ∈ entries, ∃ path, entry = .ok path) :
    snapshotEntries (fun _ _ => .ok none) context entries = .ok [] := by
  induction entries with
  | nil => rfl
  | cons entry entries ih =>
    obtain ⟨path, rfl⟩ := h entry List.mem_cons_self
    have hrest := ih fun e he => h e (List.mem_cons_of_mem _ he)
    unfold snapshotEntries
    refine Except.bind_eq_ok.mpr ⟨path, rfl, ?_⟩
    split_ifs
    · exact hrest
    · exact Except.bind_eq_ok.mpr ⟨none, rfl, Except.bind_eq_ok.mpr ⟨[], hrest, rfl⟩⟩

theorem exists_snapshotDirNoMeta (h : DirRead vfs dir) (context : InstanceContext) (name : String) :
    ∃ snapshot, snapshotDirNoMeta (fun _ _ => .ok none) context vfs dir name = .ok (some snapshot) ∧
      snapshot.className = "Folder" ∧ snapshot.name = name := by
  obtain ⟨⟨entries, hentries, hall⟩, canonical, hcanonical⟩ := h
  have hok : ∃ snapshot, snapshotDirNoMeta (fun _ _ => .ok none) context vfs dir name =
      .ok (some snapshot) ∧ snapshot.className = "Folder" := by
    unfold snapshotDirNoMeta
    rw [hentries, hcanonical]
    exact ⟨_, Except.bind_eq_ok.mpr ⟨entries, rfl, Except.bind_eq_ok.mpr
      ⟨[], snapshotEntries_nothing hall, rfl⟩⟩, rfl⟩
  obtain ⟨snapshot, hsnapshot, hclass⟩ := hok
  exact ⟨snapshot, hsnapshot, hclass,
    Vfs.AgreeOn.name_of_snapshotDirNoMeta _ context hsnapshot⟩

/-! ## Whose meta files they are -/

/-- The two filesystems differ at most in what is read at some paths. -/
structure Vfs.DiffersAt (vfs : Vfs) (paths : List PathBuf) (vfs' : Vfs) : Prop where
  metadata : vfs'.metadata = vfs.metadata
  readDir : vfs'.readDir = vfs.readDir
  canonicalize : vfs'.canonicalize = vfs.canonicalize
  read : ∀ path ∉ paths, vfs'.read path = vfs.read path

omit [Environment] in
theorem Vfs.DiffersAt.agreeOn {files : List PathBuf} (h : vfs.DiffersAt paths vfs')
    (hfiles : ∀ file ∈ files, file ∉ paths) : vfs.AgreeOn files vfs' :=
  ⟨h.metadata, h.readDir, h.canonicalize, fun file hfile => h.read file (hfiles file hfile)⟩

/-- No component has a separator. -/
def PathBuf.Spelled (path : PathBuf) : Prop := ∀ component ∈ path.components, '/' ∉ component.toList

instance (path : PathBuf) : Decidable path.Spelled :=
  inferInstanceAs (Decidable (∀ component ∈ path.components, '/' ∉ component.toList))

/-- An entry of the directory whose instance is given the name. The meta files count among them if
a rule makes instances of them. -/
def EntryNamed (context : InstanceContext) (dir : PathBuf) (name : String)
    (path : PathBuf) : Prop :=
  path ∈ metaFilesOf dir name ∨
    path.parent = some dir ∧ ∃ rule, ruleForPath context path = some rule ∧
      rule.fileNameForPath path = .ok name

/-- Whatever the meta files of a name hold, all instances are made in the same way of the same
instances below them, but for those of the entries of the name. -/
def MetaForEntries (vfs : Vfs) (dir : PathBuf) (name : String) : Prop :=
  ∀ vfs', vfs.DiffersAt (metaFilesOf dir name) vfs' → ∀ recur context path, path.Spelled →
    ¬ EntryNamed context dir name path →
    snapshotStep recur vfs' context path = snapshotStep recur vfs context path

/-- The directory has the name itself, and an init file that comes to its meta files. -/
structure TakesMeta (vfs : Vfs) (dir : PathBuf) (name : String) : Prop where
  isDir : vfs.metadata dir = .ok ⟨false⟩
  init : ∃ middleware file, (middleware, file) ∈ initPaths ∧
    getDirMiddleware vfs dir = .ok (middleware, name, dir.joinStr file) ∧
    InitRead middleware vfs (dir.joinStr file)
  dirRead : DirRead vfs dir

omit [Environment] in
theorem metaPath_mem (name : String) {folder : PathBuf} (hname : path.fileName.isSome)
    (hparent : path.parent = some folder) :
    AdjacentMetadata.metaPathJson path name ∈ metaFilesOf folder name ∧
      AdjacentMetadata.metaPathJsonc path name ∈ metaFilesOf folder name := by
  have hfolder : { path with components := path.components.dropLast } = folder := by
    unfold PathBuf.parent at hparent
    split_ifs at hparent
    exact Option.some.inj hparent
  unfold AdjacentMetadata.metaPathJson AdjacentMetadata.metaPathJsonc PathBuf.withFileName
    metaFilesOf
  rw [if_pos hname, if_pos hname, hfolder]
  exact ⟨List.mem_cons_self, List.mem_cons_of_mem _ List.mem_cons_self⟩

omit [Environment] in
/-- The files of a middleware are none of the meta files if the path and its own meta files are
not. -/
theorem files_disjoint {middleware : Middleware} {own : String} (hname : '/' ∉ name.toList)
    (hinit : name ≠ "init") (hpath : path ∉ metaFilesOf dir name)
    (hadjacent : middleware.readsAdjacent = true →
      AdjacentMetadata.metaPathJson path own ∉ metaFilesOf dir name ∧
        AdjacentMetadata.metaPathJsonc path own ∉ metaFilesOf dir name) :
    ∀ file ∈ middleware.files path own, file ∉ metaFilesOf dir name := by
  have hfolder : ∀ folder : PathBuf, ∀ file ∈ metaFilesOf folder "init",
      file ∉ metaFilesOf dir name :=
    fun folder file hfile hmem => hinit (metaFiles_cases hname (by decide) hmem hfile).2
  intro file hfile
  unfold Middleware.files at hfile
  rcases List.mem_append.mp hfile with hown | hfile
  · split_ifs at hown with hreads
    · simp only [List.mem_cons, List.not_mem_nil, or_false] at hown
      rcases hown with rfl | rfl
      · exact (hadjacent hreads).1
      · exact (hadjacent hreads).2
    · cases hown
  · rcases List.mem_cons.mp hfile with rfl | hfile
    · exact hpath
    · obtain ⟨folder, -, hmem⟩ := List.mem_flatMap.mp hfile
      exact hfolder folder file hmem

omit [Environment] in
theorem PathBuf.Spelled.fileName {file : String} (h : path.Spelled)
    (hfile : path.fileName = some file) : '/' ∉ file.toList := by
  refine h file ?_
  unfold PathBuf.fileName at hfile
  split at hfile
  · next component hlast =>
    split_ifs at hfile
    cases hfile
    exact List.mem_of_getLast? hlast
  · cases hfile

omit [Environment] in
theorem not_mem_of_fileNameForPath {rule : SyncRule} (hspelled : path.Spelled)
    (h : rule.fileNameForPath path = .ok name) : '/' ∉ name.toList := by
  unfold SyncRule.fileNameForPath at h
  cases hsuffix : rule.suffix with
  | some suffix =>
    rw [hsuffix] at h
    obtain ⟨file, hname, h⟩ := Except.bind_eq_ok.mp h
    have hslash := hspelled.fileName (Fallible.context_eq_ok.mp hname)
    cases h
    unfold matchTrailing
    split_ifs
    · rw [Option.getD_some, String.toList_ofList]
      exact fun hmem => hslash (List.mem_of_mem_take hmem)
    · exact hslash
  | none =>
    rw [hsuffix] at h
    have hstem := Fallible.context_eq_ok.mp h
    obtain ⟨file, hname, rfl⟩ := Option.map_eq_some_iff.mp hstem
    have hslash := hspelled.fileName hname
    unfold PathBuf.stemOf
    dsimp only
    split_ifs
    · exact hslash
    · rw [String.toList_ofList, List.mem_reverse]
      intro hmem
      have hdrop := (List.dropWhile_sublist _).subset (List.mem_of_mem_drop hmem)
      exact hslash (List.mem_reverse.mp hdrop)

/-- What is made of a file other than an entry of the name. -/
theorem snapshotFromPath_eq {recur : SnapshotPath} {context : InstanceContext}
    (hdiffers : vfs.DiffersAt (metaFilesOf dir name) vfs') (hname : '/' ∉ name.toList)
    (hinit : name ≠ "init") (hspelled : path.Spelled) (hfile : path.fileName.isSome)
    (hother : ¬ EntryNamed context dir name path) :
    snapshotFromPath recur context vfs' path = snapshotFromPath recur context vfs path := by
  unfold snapshotFromPath
  cases hrule : ruleForPath context path with
  | none => rfl
  | some rule =>
    dsimp only
    cases hown : rule.fileNameForPath path with
    | error err => rfl
    | ok own =>
      refine Middleware.snapshot_eq (hdiffers.agreeOn (files_disjoint hname hinit
        (fun hmem => hother (.inl hmem)) fun _ => ?_))
      obtain ⟨folder, hfolder⟩ : ∃ folder, path.parent = some folder := by
        unfold PathBuf.parent
        refine ⟨_, if_neg fun hnil => ?_⟩
        unfold PathBuf.fileName at hfile
        rw [hnil] at hfile
        cases hfile
      obtain ⟨hjson, hjsonc⟩ := metaPath_mem own hfile hfolder
      have hslash := not_mem_of_fileNameForPath hspelled hown
      refine ⟨fun hmem => hother (.inr ?_), fun hmem => hother (.inr ?_)⟩
      · obtain ⟨rfl, rfl⟩ := metaFiles_cases hname hslash hmem hjson
        exact ⟨hfolder, rule, hrule, hown⟩
      · obtain ⟨rfl, rfl⟩ := metaFiles_cases hname hslash hmem hjsonc
        exact ⟨hfolder, rule, hrule, hown⟩

/-- An init file that does not come to its meta files makes the same of its directory. -/
theorem snapshot_init_eq {recur : SnapshotPath} {context : InstanceContext}
    {middleware : Middleware} {file : String} (hinit : (middleware, file) ∈ initPaths)
    (hparent : path.parent = some dir)
    (hagree : vfs.AgreeOn (path :: metaFilesOf dir "init") vfs')
    (hno : ¬ (InitRead middleware vfs path ∧ DirRead vfs dir)) :
    middleware.snapshot recur context vfs' path name =
      middleware.snapshot recur context vfs path name := by
  obtain ⟨notFolder, houtput⟩ := output_of_init hinit
  unfold Middleware.snapshot
  rw [houtput, houtput]
  by_cases hdir : DirRead vfs dir
  · have hfile : middleware.ofInit context vfs' path name =
        middleware.ofInit context vfs path name :=
      ofInit_eq_of_not context
        ⟨hagree.metadata, hagree.readDir, hagree.canonicalize, fun p hp => by
          rw [List.mem_singleton.mp hp]
          exact hagree.read path List.mem_cons_self⟩ fun hread => hno ⟨hread, hdir⟩
    rw [hagree.snapshotInit recur context hfile fun folder hfolder => ?_]
    cases hparent.symm.trans hfolder
    exact ⟨List.mem_cons_of_mem _ List.mem_cons_self,
      List.mem_cons_of_mem _ (List.mem_cons_of_mem _ List.mem_cons_self)⟩
  · have hfails : ∀ w : Vfs, w.readDir = vfs.readDir → w.canonicalize = vfs.canonicalize →
        ∀ f, snapshotInit recur context w path name notFolder f =
          (snapshotDirNoMeta recur context vfs dir name >>= fun _ => .ok none) := by
      intro w hreadDir hcanonicalize f
      have hsame : snapshotDirNoMeta recur context w dir name =
          snapshotDirNoMeta recur context vfs dir name := by
        unfold snapshotDirNoMeta
        rw [hreadDir, hcanonicalize]
      have hbind : ∀ g : PathBuf → Fallible (Option InstanceSnapshot),
          (Fallible.unwrap (some dir) >>= g) = g dir := fun _ => rfl
      unfold snapshotInit
      rw [hparent, hbind, hsame]
      cases hfound : snapshotDirNoMeta recur context vfs dir name with
      | error err => rfl
      | ok found => exact absurd (dirRead_of_snapshotDirNoMeta hfound) hdir
    rw [hfails vfs' hagree.readDir hagree.canonicalize, hfails vfs rfl rfl]

theorem InitRead.of_agreeOn {middleware : Middleware} (hread : InitRead middleware vfs path)
    (h : vfs.AgreeOn [path] vfs') : InitRead middleware vfs' path := by
  obtain ⟨hcontents, hplace⟩ := hread
  refine ⟨?_, by rwa [h.canonicalize]⟩
  rw [h.read path List.mem_cons_self, h.readToString List.mem_cons_self]
  exact hcontents

/-- The filesystem with meta files that cannot be read. -/
def Vfs.withUnreadable (vfs : Vfs) (paths : List PathBuf) (message : String) : Vfs :=
  { vfs with read := fun path =>
      if path ∈ paths then .error ⟨.other, message⟩ else vfs.read path }

omit [Environment] in
theorem Vfs.differsAt_withUnreadable (vfs : Vfs) (paths : List PathBuf) (message : String) :
    vfs.DiffersAt paths (vfs.withUnreadable paths message) :=
  ⟨rfl, rfl, rfl, fun _ hpath => if_neg hpath⟩

theorem adjacent_unreadable {message : String}
    (hjson : AdjacentMetadata.metaPathJson path name ∈ paths)
    (snapshot : InstanceSnapshot) :
    AdjacentMetadata.readAndApplyAll (vfs.withUnreadable paths message) path name snapshot =
      .error (.error [message]) := by
  have hread : (vfs.withUnreadable paths message).read (AdjacentMetadata.metaPathJson path name) =
      .error ⟨.other, message⟩ := if_pos hjson
  unfold AdjacentMetadata.readAndApplyAll AdjacentMetadata.readAndApply
  rw [hread]
  rfl

theorem snapshotStep_of_error {recur : SnapshotPath} {context : InstanceContext} {err : IoError}
    (h : vfs.metadata path = .error err) : snapshotStep recur vfs context path =
      if err.kind = .notFound then .ok none else .error (.error [err.message]) := by
  unfold snapshotStep withNotFound
  rw [h]
  dsimp only
  split_ifs <;> rfl

theorem snapshotStep_of_ok {recur : SnapshotPath} {context : InstanceContext} {metadata : Metadata}
    (h : vfs.metadata path = .ok metadata) : snapshotStep recur vfs context path =
      if metadata.isDir then
        getDirMiddleware vfs path >>= fun found =>
          found.1.snapshot recur context vfs found.2.2 found.2.1
      else
        Fallible.context s!"file name of {path.display} is invalid" path.fileName >>= fun file =>
          if file ∈ refusedNames then .ok none else snapshotFromPath recur context vfs path := by
  unfold snapshotStep
  rw [h]
  rfl

/-- The step fails where the meta file that the init file takes for its own cannot be read. -/
theorem snapshotStep_unreadable (hname : '/' ∉ name.toList) (h : TakesMeta vfs dir name)
    (context : InstanceContext) (message : String) :
    snapshotStep (fun _ _ => .ok none) (vfs.withUnreadable (metaFilesOf dir name) message)
      context dir =
      .error (.error [message]) := by
  obtain ⟨hdirectory, ⟨middleware, file, hinit, hget, hread⟩, hdirRead⟩ := h
  obtain ⟨hfile, hend, -⟩ := initFile_spec (List.mem_append_right _ hinit)
  have hdiffers := vfs.differsAt_withUnreadable (metaFilesOf dir name) message
  have hagree : vfs.AgreeOn [dir.joinStr file]
      (vfs.withUnreadable (metaFilesOf dir name) message) :=
    hdiffers.agreeOn fun p hp => by
      rw [List.mem_singleton.mp hp]
      exact not_mem_metaFiles hname hfile hend dir
  have hparent := PathBuf.parent_joinStr hfile dir
  have hadjacent := metaPath_mem name
    (Option.isSome_iff_exists.mpr ⟨file, PathBuf.fileName_joinStr_of_name dir hfile⟩) hparent
  have hown := ofInit_eq_error context hinit (hread.of_agreeOn hagree)
    (adjacent_unreadable hadjacent.1)
  obtain ⟨notFolder, houtput⟩ := output_of_init hinit
  obtain ⟨snapshot, hsnapshot, hclass, hsnapshotName⟩ :=
    exists_snapshotDirNoMeta hdirRead context name
  have hinitFails : snapshotInit (fun _ _ => .ok none) context
      (vfs.withUnreadable (metaFilesOf dir name) message) (dir.joinStr file) name notFolder
      (middleware.ofInit context (vfs.withUnreadable (metaFilesOf dir name) message)
        (dir.joinStr file)) = .error (.error [message]) := by
    have hbind : ∀ g : PathBuf → Fallible (Option InstanceSnapshot),
        (Fallible.unwrap (some dir) >>= g) = g dir := fun _ => rfl
    have hfound : ∀ g : InstanceSnapshot → Fallible (Option InstanceSnapshot),
        (((Except.ok (some snapshot) : Fallible _) >>= Fallible.unwrap) >>= g) = g snapshot :=
      fun _ => rfl
    unfold snapshotInit
    rw [hparent, hbind, hagree.snapshotDirNoMeta, hsnapshot, hfound, hclass,
      if_neg (not_not.mpr rfl),
      hsnapshotName, hown]
    rfl
  have hmetadata : (vfs.withUnreadable (metaFilesOf dir name) message).metadata dir = .ok ⟨false⟩ :=
    hdirectory
  have hmiddleware : ∀ g : Middleware × String × PathBuf → Fallible (Option InstanceSnapshot),
      ((Except.ok (middleware, name, dir.joinStr file) : Fallible _) >>= g) =
        g (middleware, name, dir.joinStr file) := fun _ => rfl
  rw [snapshotStep_of_ok hmetadata, if_pos (by decide), hagree.getDirMiddleware, hget, hmiddleware]
  unfold Middleware.snapshot
  rw [houtput, hinitFails]
  rfl

theorem not_entryNamed_self (hname : '/' ∉ name.toList) (context : InstanceContext) :
    ¬ EntryNamed context dir name dir := by
  have hlonger : ∀ {s : String}, PathBuf.IsName s → dir ≠ dir.joinStr s := by
    intro s hs heq
    rw [PathBuf.joinStr_of_name hs] at heq
    have hlength := congrArg (fun path : PathBuf => path.components.length) heq
    simp at hlength
  rintro (hmem | ⟨hparent, -⟩)
  · unfold metaFilesOf at hmem
    simp only [List.mem_cons, List.not_mem_nil, or_false] at hmem
    rcases hmem with heq | heq
    · exact hlonger (isName_metaJson hname) heq
    · exact hlonger (isName_metaJsonc hname) heq
  · unfold PathBuf.parent at hparent
    split_ifs at hparent with hnil
    have hlength :=
      congrArg (fun path : PathBuf => path.components.length) (Option.some.inj hparent)
    have hpos : 0 < dir.components.length := List.length_pos_iff.mpr hnil
    simp only [List.length_dropLast] at hlength
    omega

/-- The meta file changes what is made of the directory, which is no entry of itself. -/
theorem not_metaForEntries (hdir : dir.Spelled) (hname : '/' ∉ name.toList)
    (h : TakesMeta vfs dir name) : ¬ MetaForEntries vfs dir name := by
  intro hmeta
  have hsame : ∀ message : String,
      snapshotStep (fun _ _ => .ok none) vfs {} dir = .error (.error [message]) := by
    intro message
    rw [← hmeta _ (vfs.differsAt_withUnreadable _ message) (fun _ _ => .ok none) {} dir hdir
      (not_entryNamed_self hname {})]
    exact snapshotStep_unreadable hname h {} message
  have heq := (hsame "a").symm.trans (hsame "b")
  injection heq with heq
  injection heq with heq
  exact absurd (List.cons.inj heq).1 (by decide)

/-- A directory that the meta files are not taken for is made in the same way. -/
theorem snapshot_made_eq {recur : SnapshotPath} {context : InstanceContext} {own : String}
    {made : PathBuf} {middleware : Middleware}
    (hdiffers : vfs.DiffersAt (metaFilesOf dir name) vfs') (hname : '/' ∉ name.toList)
    (hinit : name ≠ "init") (hspelled : path.Spelled) (hpath : path ∉ metaFilesOf dir name)
    (hget : getDirMiddleware vfs path = .ok (middleware, own, made))
    (hno : ∀ file, (middleware, file) ∈ initPaths → made = dir.joinStr file → path = dir →
      own = name → ¬ (InitRead middleware vfs made ∧ DirRead vfs dir)) :
    middleware.snapshot recur context vfs' made own =
      middleware.snapshot recur context vfs made own := by
  obtain ⟨hfileName, ⟨rfl, rfl⟩ | ⟨file, hfile, rfl⟩⟩ := getDirMiddleware_cases hget
  · exact Middleware.snapshot_eq (hdiffers.agreeOn
      (files_disjoint hname hinit hpath fun hreads => by cases hreads))
  · obtain ⟨hisName, hend, hreads⟩ := initFile_spec hfile
    have hparent := PathBuf.parent_joinStr hisName path
    have hmade : path.joinStr file ∉ metaFilesOf dir name :=
      not_mem_metaFiles hname hisName hend path
    by_cases hhere : middleware.readsAdjacent = true ∧ path = dir ∧ own = name
    · obtain ⟨hadjacent, rfl, rfl⟩ := hhere
      refine snapshot_init_eq (hreads hadjacent) hparent (hdiffers.agreeOn fun p hp => ?_)
        (hno file (hreads hadjacent) rfl rfl rfl)
      rcases List.mem_cons.mp hp with rfl | hp
      · exact hmade
      · exact fun hmem => hinit (metaFiles_cases hname (by decide) hmem hp).2
    · refine Middleware.snapshot_eq (hdiffers.agreeOn (files_disjoint hname hinit hmade
        fun hadjacent => ?_))
      have hslash := hspelled.fileName hfileName
      obtain ⟨hjson, hjsonc⟩ := metaPath_mem own
        (Option.isSome_iff_exists.mpr ⟨file, PathBuf.fileName_joinStr_of_name path hisName⟩) hparent
      refine ⟨fun hmem => hhere ?_, fun hmem => hhere ?_⟩
      · obtain ⟨rfl, rfl⟩ := metaFiles_cases hname hslash hmem hjson
        exact ⟨hadjacent, rfl, rfl⟩
      · obtain ⟨rfl, rfl⟩ := metaFiles_cases hname hslash hmem hjsonc
        exact ⟨hadjacent, rfl, rfl⟩

/-- **The meta files of a name in a directory are only for its entries of the name, exactly if the
directory does not have the name itself and an init file that takes them for its own.** -/
theorem metaForEntries_iff (hdir : dir.Spelled) (hname : '/' ∉ name.toList)
    (hinit : name ≠ "init") : MetaForEntries vfs dir name ↔ ¬ TakesMeta vfs dir name := by
  refine ⟨fun hmeta htakes => not_metaForEntries hdir hname htakes hmeta, fun hno => ?_⟩
  intro vfs' hdiffers recur context path hspelled hother
  have hpath : path ∉ metaFilesOf dir name := fun hmem => hother (.inl hmem)
  cases hmetadata : vfs.metadata path with
  | error err =>
    have hmetadata' : vfs'.metadata path = .error err := by rw [hdiffers.metadata, hmetadata]
    rw [snapshotStep_of_error hmetadata, snapshotStep_of_error hmetadata']
  | ok metadata =>
    have hmetadata' : vfs'.metadata path = .ok metadata := by rw [hdiffers.metadata, hmetadata]
    rw [snapshotStep_of_ok hmetadata, snapshotStep_of_ok hmetadata']
    split_ifs with hisDir
    · have hnone : vfs.AgreeOn [] vfs' := hdiffers.agreeOn nofun
      rw [hnone.getDirMiddleware]
      cases hget : getDirMiddleware vfs path with
      | error err => rfl
      | ok found =>
        obtain ⟨middleware, own, made⟩ := found
        refine snapshot_made_eq hdiffers hname hinit hspelled hpath hget ?_
        rintro file hfile rfl rfl rfl ⟨hread, hdirRead⟩
        refine hno ⟨?_, ⟨middleware, file, hfile, hget, hread⟩, hdirRead⟩
        rw [hmetadata]
        obtain ⟨isFile⟩ := metadata
        cases isFile with
        | false => rfl
        | true => cases hisDir
    · cases hfile : path.fileName with
      | none => rfl
      | some file =>
        have hbind : ∀ g : String → Fallible (Option InstanceSnapshot),
            (Fallible.context s!"file name of {path.display} is invalid" (some file) >>= g) =
              g file := fun _ => rfl
        rw [hbind, hbind, snapshotFromPath_eq hdiffers hname hinit hspelled
          (Option.isSome_iff_exists.mpr ⟨file, hfile⟩) hother]

/-! ## A module with a meta file of its directory's name -/

/-- A directory that is a module. -/
def moduleDisk : Disk where
  entries := [(["Foo"], none), (["Foo", "init.lua"], some [])]
  named := by decide

def fooDir : PathBuf := ⟨true, ["Foo"]⟩

omit [Environment] in
theorem metaForEntries_bar : letI := Environment.ofProjects []
    MetaForEntries moduleDisk.vfs fooDir "Bar" := by
  let _ := Environment.ofProjects []
  refine (metaForEntries_iff (by decide) (by decide) (by decide)).mpr ?_
  rintro ⟨-, ⟨middleware, file, -, hget, -⟩, -⟩
  exact absurd (getDirMiddleware_cases hget).1 (by decide)

omit [Environment] in
/-- The module takes the meta file of an entry with the name of its directory for its own. -/
theorem not_metaForEntries_foo : letI := Environment.ofProjects []
    ¬ ∀ (vfs : Vfs) (dir : PathBuf) (name : String), dir.Spelled → '/' ∉ name.toList →
      name ≠ "init" → MetaForEntries vfs dir name := by
  let _ := Environment.ofProjects []
  intro hall
  refine not_metaForEntries (by decide) (by decide) ⟨by decide, ?_, ?_⟩
    (hall moduleDisk.vfs fooDir "Foo" (by decide) (by decide) (by decide))
  · refine ⟨.moduleScriptDir, "init.lua", by decide, by decide +kernel, ⟨?_, ?_⟩⟩
    · rw [if_neg (by decide)]
      exact ⟨"", by decide +kernel⟩
    · exact ⟨fooDir.joinStr "init.lua", by decide +kernel⟩
  · exact ⟨⟨[.ok (fooDir.joinStr "init.lua")], by decide +kernel, by simp⟩, fooDir,
      by decide +kernel⟩

end Roxo
