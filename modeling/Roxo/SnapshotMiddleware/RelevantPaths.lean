import Roxo.SnapshotMiddleware.Snapshot
import Roxo.Vfs.EventPath

/-!
# The paths that snapshots list

A snapshot is found again when a path that it lists changes, if the path is in the form in which
events name it. Most middlewares list the canonical path of their file; meta files and project
files are listed as they were reached. What a snapshot lists is in canonical form exactly if the
places that were reached along the way are direct (`keyed_iff_direct`).
-/

namespace Roxo

open AssocMap

variable {vfs : Vfs} {context : InstanceContext} {path : PathBuf} {name : String}
  {s s' S : InstanceSnapshot}

/-- The paths that a snapshot and everything below it list are in the form in which events name
them. -/
def Keyed (vfs : Vfs) (S : InstanceSnapshot) : Prop :=
  ∀ node ∈ S.nodes, ∀ path ∈ node.metadata.relevantPaths,
    canonicalizeEventPath vfs path = .ok path

theorem keyed_iff (h : vfs.Lawful) : Keyed vfs S ↔
    (∀ path ∈ S.metadata.relevantPaths, Direct vfs path) ∧ ∀ c ∈ S.children, Keyed vfs c := by
  unfold Keyed
  rw [InstanceSnapshot.nodes_eq]
  simp only [List.mem_cons, List.mem_flatMap, canonicalizeEventPath_eq_self_iff h]
  constructor
  · intro hall
    exact ⟨hall S (Or.inl rfl), fun c hc node hnode => hall node (Or.inr ⟨c, hc, hnode⟩)⟩
  · rintro ⟨hself, hchildren⟩ node (rfl | ⟨c, hc, hnode⟩)
    · exact hself
    · exact hchildren c hc node hnode

/-- The two snapshots list the same paths and have the same children. -/
structure SamePlaces (s s' : InstanceSnapshot) : Prop where
  paths : s'.metadata.relevantPaths = s.metadata.relevantPaths
  children : s'.children = s.children

theorem SamePlaces.refl (s : InstanceSnapshot) : SamePlaces s s := ⟨rfl, rfl⟩

theorem SamePlaces.trans {s₁ s₂ s₃ : InstanceSnapshot} (h : SamePlaces s₁ s₂)
    (h' : SamePlaces s₂ s₃) : SamePlaces s₁ s₃ :=
  ⟨h'.paths.trans h.paths, h'.children.trans h.children⟩

theorem SamePlaces.keyed (h : vfs.Lawful) (hs : SamePlaces s s') :
    Keyed vfs s' ↔ Keyed vfs s := by
  rw [keyed_iff h, keyed_iff h, hs.paths, hs.children]

/-! ## Meta files -/

namespace AdjacentMetadata

variable {metadata : AdjacentMetadata}

theorem samePlaces_applyIgnoreUnknownInstances :
    SamePlaces s (metadata.applyIgnoreUnknownInstances s) := by
  unfold applyIgnoreUnknownInstances
  split <;> exact ⟨rfl, rfl⟩

theorem samePlaces_applyId (heq : metadata.applyId s = .ok s') : SamePlaces s s' := by
  unfold applyId at heq
  split_ifs at heq
  · cases heq
  · cases heq
    exact ⟨rfl, rfl⟩

theorem samePlaces_applySchema (heq : metadata.applySchema s = .ok s') : SamePlaces s s' := by
  unfold applySchema at heq
  split_ifs at heq
  · cases heq
  · cases heq
    exact ⟨rfl, rfl⟩

variable [Environment]

omit [Environment] in
theorem samePlaces_foldlM {f : InstanceSnapshot → String × UnresolvedValue →
      Fallible InstanceSnapshot} {l : List (String × UnresolvedValue)}
    (hf : ∀ s e s', f s e = .ok s' → SamePlaces s s') (heq : l.foldlM f s = .ok s') :
    SamePlaces s s' := by
  induction l generalizing s with
  | nil =>
    cases heq
    exact .refl _
  | cons e l ih =>
    rw [List.foldlM_cons] at heq
    obtain ⟨s₁, h₁, heq⟩ := Except.bind_eq_ok.mp heq
    exact (hf _ _ _ h₁).trans (ih heq)

theorem samePlaces_applyProperties (heq : metadata.applyProperties s = .ok s') :
    SamePlaces s s' := by
  unfold applyProperties at heq
  obtain ⟨s₁, h₁, heq⟩ := Except.bind_eq_ok.mp heq
  have hfold : SamePlaces s s₁ := by
    refine samePlaces_foldlM (fun s e s' he => ?_) h₁
    obtain ⟨v, -, he⟩ := Except.bind_eq_ok.mp he
    cases he
    exact ⟨rfl, rfl⟩
  split_ifs at heq
  · cases heq
    exact hfold
  · obtain ⟨attributes, -, heq⟩ := Except.bind_eq_ok.mp heq
    cases heq
    exact hfold.trans ⟨rfl, rfl⟩

theorem samePlaces_applyAll (heq : metadata.applyAll s = .ok s') : SamePlaces s s' := by
  unfold applyAll at heq
  obtain ⟨s₁, h₁, heq⟩ := Except.bind_eq_ok.mp heq
  obtain ⟨s₂, h₂, heq⟩ := Except.bind_eq_ok.mp heq
  exact samePlaces_applyIgnoreUnknownInstances.trans <|
    (samePlaces_applyProperties h₁).trans <| (samePlaces_applyId h₂).trans <|
    samePlaces_applySchema heq

theorem samePlaces_readAndApply {reported : PathBuf}
    (heq : readAndApply vfs path reported s = .ok s') : SamePlaces s s' := by
  unfold readAndApply at heq
  obtain ⟨contents, -, heq⟩ := Except.bind_eq_ok.mp heq
  cases contents with
  | some contents =>
    obtain ⟨metadata, -, heq⟩ := Except.bind_eq_ok.mp heq
    exact samePlaces_applyAll heq
  | none =>
    cases heq
    exact .refl s

/-- Reading the meta files of a file lists their paths. -/
theorem readAndApplyAll_lists (heq : readAndApplyAll vfs path name s = .ok s') :
    SamePlaces (s.pushRelevantPaths [metaPathJson path name, metaPathJsonc path name]) s' := by
  unfold readAndApplyAll at heq
  obtain ⟨s₁, h₁, heq⟩ := Except.bind_eq_ok.mp heq
  obtain ⟨s₂, h₂, heq⟩ := Except.bind_eq_ok.mp heq
  cases heq
  have hplaces := (samePlaces_readAndApply h₁).trans (samePlaces_readAndApply h₂)
  exact ⟨congrArg (· ++ _) hplaces.paths, hplaces.children⟩

end AdjacentMetadata

namespace DirectoryMetadata

variable [Environment] {metadata : DirectoryMetadata}

omit [Environment] in
theorem samePlaces_applyClassName (heq : metadata.applyClassName s = .ok s') :
    SamePlaces s s' := by
  unfold applyClassName at heq
  split at heq
  · split_ifs at heq
    · cases heq
    · cases heq
      exact ⟨rfl, rfl⟩
  · cases heq
    exact .refl _

theorem samePlaces_applyAll (heq : metadata.applyAll s = .ok s') : SamePlaces s s' := by
  unfold applyAll at heq
  obtain ⟨s₁, h₁, heq⟩ := Except.bind_eq_ok.mp heq
  obtain ⟨s₂, h₂, heq⟩ := Except.bind_eq_ok.mp heq
  obtain ⟨s₃, h₃, heq⟩ := Except.bind_eq_ok.mp heq
  exact AdjacentMetadata.samePlaces_applyIgnoreUnknownInstances.trans <|
    (samePlaces_applyClassName h₁).trans <|
    (AdjacentMetadata.samePlaces_applyProperties h₂).trans <|
    (AdjacentMetadata.samePlaces_applyId h₃).trans <|
    AdjacentMetadata.samePlaces_applySchema heq

theorem samePlaces_readAndApply (heq : readAndApply vfs path s = .ok s') : SamePlaces s s' := by
  unfold readAndApply at heq
  obtain ⟨contents, -, heq⟩ := Except.bind_eq_ok.mp heq
  cases contents with
  | some contents =>
    obtain ⟨metadata, -, heq⟩ := Except.bind_eq_ok.mp heq
    exact samePlaces_applyAll heq
  | none =>
    cases heq
    exact .refl _

theorem readAndApplyAll_lists (heq : readAndApplyAll vfs path s = .ok s') :
    SamePlaces (s.pushRelevantPaths [metaPathJson path, metaPathJsonc path]) s' := by
  unfold readAndApplyAll at heq
  obtain ⟨s₁, h₁, heq⟩ := Except.bind_eq_ok.mp heq
  obtain ⟨s₂, h₂, heq⟩ := Except.bind_eq_ok.mp heq
  cases heq
  have hplaces := (samePlaces_readAndApply h₁).trans (samePlaces_readAndApply h₂)
  exact ⟨congrArg (· ++ _) hplaces.paths, hplaces.children⟩

end DirectoryMetadata

/-! ## Files -/

/-- The snapshot of a file with meta files lists the canonical path of the file and the paths of
the meta files. -/
structure ListsFile (vfs : Vfs) (path : PathBuf) (name : String) (S : InstanceSnapshot) :
    Prop where
  paths : ∃ canonical, vfs.canonicalize path = .ok canonical ∧ S.metadata.relevantPaths =
    [canonical, AdjacentMetadata.metaPathJson path name, AdjacentMetadata.metaPathJsonc path name]
  children : S.children = []

/-- Neither the snapshot nor anything below it lists a path. -/
def Unlisted (S : InstanceSnapshot) : Prop := ∀ node ∈ S.nodes, node.metadata.relevantPaths = []

theorem unlisted_iff :
    Unlisted S ↔ S.metadata.relevantPaths = [] ∧ ∀ c ∈ S.children, Unlisted c := by
  unfold Unlisted
  rw [InstanceSnapshot.nodes_eq]
  simp only [List.mem_cons, List.mem_flatMap, forall_eq_or_imp]
  refine and_congr_right fun _ => ⟨fun h c hc node hnode => h node ⟨c, hc, hnode⟩, ?_⟩
  rintro h node ⟨c, hc, hnode⟩
  exact h c hc node hnode

/-- The snapshot of a model lists the canonical path of its file; nothing below it lists
anything. -/
structure ListsModel (vfs : Vfs) (path : PathBuf) (S : InstanceSnapshot) : Prop where
  paths : ∃ canonical, vfs.canonicalize path = .ok canonical ∧
    S.metadata.relevantPaths = [canonical]
  children : ∀ c ∈ S.children, Unlisted c

/-- The paths of the meta files of a file are direct. -/
def MetaDirect (vfs : Vfs) (path : PathBuf) (name : String) : Prop :=
  Direct vfs (AdjacentMetadata.metaPathJson path name) ∧
    Direct vfs (AdjacentMetadata.metaPathJsonc path name)

theorem ListsFile.keyed_iff (h : vfs.Lawful) (hS : ListsFile vfs path name S) :
    Keyed vfs S ↔ MetaDirect vfs path name := by
  obtain ⟨canonical, hcanonical, hpaths⟩ := hS.paths
  rw [Roxo.keyed_iff h, hpaths, hS.children]
  simp only [List.mem_cons, List.not_mem_nil, or_false, forall_eq_or_imp, forall_eq,
    false_imp_iff, implies_true, and_true]
  exact and_iff_right (direct_of_canonical h (h.canonical hcanonical))

theorem ListsModel.keyed (h : vfs.Lawful) (hS : ListsModel vfs path S) : Keyed vfs S := by
  obtain ⟨canonical, hcanonical, hpaths⟩ := hS.paths
  rw [keyed_iff h, hpaths]
  constructor
  · intro p hp
    rw [List.mem_singleton.mp hp]
    exact direct_of_canonical h (h.canonical hcanonical)
  · intro c hc node hnode p hp
    rw [hS.children c hc node hnode] at hp
    exact absurd hp List.not_mem_nil

section Files

variable [Environment]

omit [Environment] in
theorem fileMetadata_lists {metadata : InstanceMetadata}
    (heq : fileMetadata vfs path = .ok metadata) :
    ∃ canonical, vfs.canonicalize path = .ok canonical ∧ metadata.relevantPaths = [canonical] := by
  unfold fileMetadata at heq
  obtain ⟨canonical, hcanonical, heq⟩ := Except.bind_eq_ok.mp heq
  cases heq
  exact ⟨canonical, Fallible.ofIo_eq_ok.mp hcanonical, rfl⟩

/-- The last step of every middleware for a file with meta files. -/
theorem listsFile_of_metadata {metadata : InstanceMetadata}
    (hmetadata : fileMetadata vfs path = .ok metadata)
    (hpaths : s.metadata.relevantPaths = metadata.relevantPaths) (hchildren : s.children = [])
    (heq : AdjacentMetadata.readAndApplyAll vfs path name s = .ok S) :
    ListsFile vfs path name S := by
  obtain ⟨canonical, hcanonical, hlists⟩ := fileMetadata_lists hmetadata
  have hplaces := AdjacentMetadata.readAndApplyAll_lists heq
  refine ⟨⟨canonical, hcanonical, ?_⟩, hplaces.children.trans hchildren⟩
  rw [hplaces.paths]
  show s.metadata.relevantPaths ++ _ = _
  rw [hpaths, hlists]
  rfl

theorem snapshotCsv_lists (heq : snapshotCsv vfs path name = .ok (some S)) :
    ListsFile vfs path name S := by
  unfold snapshotCsv at heq
  obtain ⟨_, -, heq⟩ := Except.bind_eq_ok.mp heq
  obtain ⟨_, -, heq⟩ := Except.bind_eq_ok.mp heq
  obtain ⟨metadata, hmetadata, heq⟩ := Except.bind_eq_ok.mp heq
  obtain ⟨s, hs, heq⟩ := Except.bind_eq_ok.mp heq
  cases heq
  exact listsFile_of_metadata hmetadata rfl rfl hs

theorem snapshotModule_lists {source : String}
    (heq : snapshotModule context vfs path name source = .ok (some S)) :
    ListsFile vfs path name S := by
  unfold snapshotModule at heq
  obtain ⟨metadata, hmetadata, heq⟩ := Except.bind_eq_ok.mp heq
  obtain ⟨s, hs, heq⟩ := Except.bind_eq_ok.mp heq
  cases heq
  exact listsFile_of_metadata hmetadata rfl rfl hs

theorem snapshotJson_lists (heq : snapshotJson context vfs path name = .ok (some S)) :
    ListsFile vfs path name S := by
  unfold snapshotJson at heq
  obtain ⟨_, -, heq⟩ := Except.bind_eq_ok.mp heq
  obtain ⟨_, -, heq⟩ := Except.bind_eq_ok.mp heq
  exact snapshotModule_lists heq

theorem snapshotToml_lists (heq : snapshotToml context vfs path name = .ok (some S)) :
    ListsFile vfs path name S := by
  unfold snapshotToml at heq
  obtain ⟨_, -, heq⟩ := Except.bind_eq_ok.mp heq
  obtain ⟨_, -, heq⟩ := Except.bind_eq_ok.mp heq
  exact snapshotModule_lists heq

theorem snapshotYaml_lists (heq : snapshotYaml context vfs path name = .ok (some S)) :
    ListsFile vfs path name S := by
  unfold snapshotYaml at heq
  obtain ⟨_, -, heq⟩ := Except.bind_eq_ok.mp heq
  obtain ⟨_, -, heq⟩ := Except.bind_eq_ok.mp heq
  exact snapshotModule_lists heq

theorem snapshotTxt_lists (heq : snapshotTxt context vfs path name = .ok (some S)) :
    ListsFile vfs path name S := by
  unfold snapshotTxt at heq
  obtain ⟨_, -, heq⟩ := Except.bind_eq_ok.mp heq
  obtain ⟨metadata, hmetadata, heq⟩ := Except.bind_eq_ok.mp heq
  obtain ⟨s, hs, heq⟩ := Except.bind_eq_ok.mp heq
  cases heq
  exact listsFile_of_metadata hmetadata rfl rfl hs

theorem snapshotLua_lists {scriptType : ScriptType}
    (heq : snapshotLua context vfs path name scriptType = .ok (some S)) :
    ListsFile vfs path name S := by
  unfold snapshotLua at heq
  obtain ⟨_, -, heq⟩ := Except.bind_eq_ok.mp heq
  obtain ⟨metadata, hmetadata, heq⟩ := Except.bind_eq_ok.mp heq
  obtain ⟨s, hs, heq⟩ := Except.bind_eq_ok.mp heq
  cases heq
  exact listsFile_of_metadata hmetadata rfl rfl hs

omit [Environment] in
theorem ModelInstance.unlisted_toSnapshot (m : ModelInstance) : Unlisted m.toSnapshot :=
  @ModelInstance.rec (fun m => Unlisted m.toSnapshot)
    (fun children => ∀ c ∈ toSnapshots children, Unlisted c)
    (fun _ _ _ _ _ ih => unlisted_iff.mpr ⟨rfl, ih⟩) (fun _ h => nomatch h)
    (fun _ _ hc ih _ h => (List.mem_cons.mp h).elim (fun h => h ▸ hc) (ih _)) m

omit [Environment] in
theorem snapshotModel_lists {topLevel : List ModelInstance}
    (heq : snapshotModel context vfs path name topLevel = .ok (some S)) :
    ListsModel vfs path S := by
  unfold snapshotModel at heq
  split at heq
  next child =>
    obtain ⟨metadata, hmetadata, heq⟩ := Except.bind_eq_ok.mp heq
    cases heq
    obtain ⟨canonical, hcanonical, hlists⟩ := fileMetadata_lists hmetadata
    exact ⟨⟨canonical, hcanonical, hlists⟩, (unlisted_iff.mp child.unlisted_toSnapshot).2⟩
  next => cases heq

theorem snapshotRbxm_lists (heq : snapshotRbxm context vfs path name = .ok (some S)) :
    ListsModel vfs path S := by
  unfold snapshotRbxm at heq
  obtain ⟨_, -, heq⟩ := Except.bind_eq_ok.mp heq
  obtain ⟨_, -, heq⟩ := Except.bind_eq_ok.mp heq
  exact snapshotModel_lists heq

theorem snapshotRbxmx_lists (heq : snapshotRbxmx context vfs path name = .ok (some S)) :
    ListsModel vfs path S := by
  unfold snapshotRbxmx at heq
  obtain ⟨_, -, heq⟩ := Except.bind_eq_ok.mp heq
  obtain ⟨_, -, heq⟩ := Except.bind_eq_ok.mp heq
  exact snapshotModel_lists heq

/-- What a JSON model turns into lists no path. -/
theorem JsonModel.unlisted_intoSnapshot (model : JsonModel) :
    ∀ S, model.intoSnapshot = .ok S → Unlisted S := by
  refine @JsonModel.rec (fun model => ∀ S, model.intoSnapshot = .ok S → Unlisted S)
    (fun children => ∀ l, intoSnapshots children = .ok l → ∀ c ∈ l, Unlisted c)
    ?_ ?_ ?_ model
  · intro _ _ _ _ children _ _ ih S heq
    rw [intoSnapshot] at heq
    obtain ⟨l, hl, heq⟩ := Except.bind_eq_ok.mp heq
    obtain ⟨_, -, heq⟩ := Except.bind_eq_ok.mp heq
    obtain ⟨_, -, heq⟩ := Except.bind_eq_ok.mp heq
    cases heq
    exact unlisted_iff.mpr ⟨rfl, ih l hl⟩
  · intro l heq c hc
    rw [intoSnapshots] at heq
    cases heq
    exact absurd hc List.not_mem_nil
  · intro child children hchild ih l heq c hc
    rw [intoSnapshots] at heq
    obtain ⟨S, hS, heq⟩ := Except.bind_eq_ok.mp heq
    obtain ⟨rest, hrest, heq⟩ := Except.bind_eq_ok.mp heq
    cases heq
    rcases List.mem_cons.mp hc with rfl | hc
    · exact hchild _ hS
    · exact ih rest hrest c hc

theorem snapshotJsonModel_lists (heq : snapshotJsonModel context vfs path name = .ok (some S)) :
    ListsModel vfs path S := by
  unfold snapshotJsonModel at heq
  obtain ⟨_, -, heq⟩ := Except.bind_eq_ok.mp heq
  obtain ⟨text, -, heq⟩ := Except.bind_eq_ok.mp heq
  split_ifs at heq
  · cases heq
  · obtain ⟨model, -, heq⟩ := Except.bind_eq_ok.mp heq
    obtain ⟨snapshot, hsnapshot, heq⟩ := Except.bind_eq_ok.mp heq
    obtain ⟨metadata, hmetadata, heq⟩ := Except.bind_eq_ok.mp heq
    cases heq
    have hinto := Fallible.ofText_eq_ok.mp (Fallible.withContext_eq_ok.mp hsnapshot)
    obtain ⟨canonical, hcanonical, hlists⟩ := fileMetadata_lists hmetadata
    exact ⟨⟨canonical, hcanonical, hlists⟩,
      (unlisted_iff.mp (JsonModel.unlisted_intoSnapshot _ _ hinto)).2⟩

end Files

end Roxo
