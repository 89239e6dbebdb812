import Roxo.SnapshotMiddleware.MetaFields
import Roxo.Syncback.Loop
import Roxo.Syncback.Project
import Roxo.Syncback.WrittenProperties

/-!
# Scripts and texts

The file of a script has its source and the file of a string value has its text. Syncback writes
the other properties into a meta file beside it, if there are any. The snapshot of the file is the
instance again, a script with the line ends of Unix (`syncbackLua_readBack`,
`syncbackTxt_readBack`).
-/

namespace Roxo

open AssocMap WeakDom

/-! ## Writing -/

/-- `serde_json::to_vec_pretty` of a meta file. -/
class MetaWriter where
  toVecPretty : AdjacentMetadata → Except String (List UInt8)

def FsSnapshot.addFile (fsSnapshot : FsSnapshot) (path : PathBuf) (data : List UInt8) :
    FsSnapshot :=
  { fsSnapshot with addedFiles := fsSnapshot.addedFiles.insert path data }

/-- `IndexMap::shift_remove`. -/
def shiftRemove {V : Type} (key : String) (entries : List (String × V)) : List (String × V) :=
  entries.filter fun e => e.1 ≠ key

def PathBuf.parentErr (path : PathBuf) : Fallible PathBuf :=
  Fallible.context s!"Path does not have a parent: {path.display}" path.parent

theorem PathBuf.parentErr_of_named {path : PathBuf} (h : path.fileName.isSome) :
    path.parentErr = .ok { path with components := path.components.dropLast } := by
  refine Fallible.context_eq_ok.mpr (if_neg fun hnil => ?_)
  unfold PathBuf.fileName at h
  rw [hnil] at h
  cases h

section Writing

variable [ReflectionDatabase] [FloatCmp] {D : Type} [WeakDom D]

namespace AdjacentMetadata

/-- The meta file for a snapshot, unless the old instance comes from another file. -/
def fromSyncbackSnapshot (snapshot : SyncbackSnapshot D) (path : PathBuf) :
    Fallible (Option AdjacentMetadata) := do
  let old ← snapshot.oldInst
  if (old.bind (·.metadata.instigatingSource)).any fun source => source.toPath ≠ path then
    .ok none
  else do
    let newInst ← snapshot.newInst
    let filtered ← snapshot.getPathFilteredProperties snapshot.new
    let (properties, attributes) := collectEntries newInst.className filtered
    .ok (some
      { schema := old.bind (·.metadata.schema)
        id := none
        ignoreUnknownInstances :=
          if old.any (·.metadata.ignoreUnknownInstances) then some true else none
        properties := properties
        attributes := attributes
        path := path })

omit [ReflectionDatabase] [FloatCmp] in
/-- There is nothing in it that is worth persisting. -/
def isEmpty (metadata : AdjacentMetadata) : Bool :=
  metadata.attributes.isEmpty && metadata.properties.isEmpty &&
    metadata.ignoreUnknownInstances.isNone

end AdjacentMetadata

variable [MetaWriter]

/-- Adds the meta file without the property that is in the file, unless it is empty then. -/
def addMetaFile (property unwritten : String) (path : PathBuf) (name : String)
    (fsSnapshot : FsSnapshot) : Option AdjacentMetadata → Fallible FsSnapshot
  | some metadata =>
    let metadata := { metadata with properties := shiftRemove property metadata.properties }
    if metadata.isEmpty then .ok fsSnapshot
    else do
      let parent ← path.parentErr
      let data ← Fallible.withContext unwritten
        (Fallible.ofText (MetaWriter.toVecPretty metadata))
      .ok (fsSnapshot.addFile (parent.joinStr s!"{name}.meta.json") data)
  | none => .ok fsSnapshot

/-- Syncback of an instance with a property that is the contents of its file. -/
def syncbackFile (property missing unwritten : String) (snapshot : SyncbackSnapshot D) :
    Fallible (SyncbackReturn D) := do
  let newInst ← snapshot.newInst
  match newInst.properties.lookup property with
  | some (.string source) => do
    let fsSnapshot := FsSnapshot.addFile {} snapshot.path source.toUTF8.data.toList
    let metadata ← AdjacentMetadata.fromSyncbackSnapshot snapshot snapshot.path
    let fsSnapshot ←
      addMetaFile property unwritten snapshot.path newInst.name fsSnapshot metadata
    .ok ⟨fsSnapshot, [], []⟩
  | _ => Fallible.bail missing

def syncbackTxt (snapshot : SyncbackSnapshot D) : Fallible (SyncbackReturn D) :=
  syncbackFile "Value" "StringValues must have a `Value` property that is a String"
    "could not serialize metadata" snapshot

def syncbackLua (snapshot : SyncbackSnapshot D) : Fallible (SyncbackReturn D) :=
  syncbackFile "Source" "Scripts must have a `Source` property that is a String"
    "cannot serialize metadata" snapshot

end Writing

/-! ## Reading -/

namespace AdjacentMetadata

section Reading

variable [Environment]

/-- The loop over the properties of a meta file. -/
theorem foldlM_insertProperty_eq (message : String) {g : String → Variant}
    {entries : List (String × UnresolvedValue)} {s : InstanceSnapshot}
    (h : ∀ e ∈ entries, Environment.resolve e.2 s.className e.1 = .ok (g e.1)) :
    entries.foldlM (fun (snapshot : InstanceSnapshot) e => do
      let value ← Fallible.withContext message
        (Fallible.ofText (Environment.resolve e.2 snapshot.className e.1))
      .ok (snapshot.insertProperty e.1 value)) s =
      .ok { s with properties := extend s.properties (entries.map fun e => (e.1, g e.1)) } := by
  induction entries generalizing s with
  | nil =>
    cases s
    rfl
  | cons e entries ih =>
    obtain ⟨hkey, hrest⟩ := List.forall_mem_cons.mp h
    rw [List.foldlM_cons]
    refine Except.bind_eq_ok.mpr ⟨s.insertProperty e.1 (g e.1), ?_, ih hrest⟩
    rw [hkey]
    rfl

variable [ReflectionDatabase] [ValueText] {metadata : AdjacentMetadata} {s : InstanceSnapshot}
  {written : List (String × Variant)}

theorem applyProperties_of_collected
    (h : Collected s.className written metadata.properties metadata.attributes)
    (henv : ResolvesValues) (htell : Tellable s.className written) :
    ∃ restored, metadata.applyProperties s = .ok { s with properties := restored } ∧
      Restores s.properties written restored := by
  obtain ⟨g, hg, hplain⟩ := h.resolves henv htell
  obtain ⟨attrs, hattrs, hlookup⟩ := h.resolvesAttributes henv
  have hloop := foldlM_insertProperty_eq
    s!"error applying meta file {metadata.path.display}" hg
  unfold applyProperties
  by_cases hempty : metadata.attributes = []
  · have hnone := h.attributes_eq_nil_iff.mp hempty
    exact ⟨_, Except.bind_eq_ok.mpr ⟨_, hloop, if_pos hempty⟩, fun k _ => hplain s.properties k,
      fun hsome => absurd hnone hsome⟩
  · refine ⟨_, Except.bind_eq_ok.mpr ⟨_, hloop, ?_⟩, Restores.insert (hplain s.properties) hlookup
      fun hnone => hempty (h.attributes_eq_nil_iff.mpr hnone)⟩
    rw [if_neg hempty]
    exact Except.bind_eq_ok.mpr ⟨attrs, Fallible.ofText_eq_ok.mpr hattrs, rfl⟩

/-- A meta file without an id, on an instance without a schema. -/
theorem applyAll_of_collected (metadata : AdjacentMetadata) (s : InstanceSnapshot)
    (h : Collected s.className written metadata.properties metadata.attributes)
    (henv : ResolvesValues) (htell : Tellable s.className written) (hid : metadata.id = none)
    (hschema : s.metadata.schema = none) :
    ∃ restored, metadata.applyAll s = .ok { s with
        properties := restored
        metadata := { s.metadata with
          ignoreUnknownInstances :=
            metadata.ignoreUnknownInstances.getD s.metadata.ignoreUnknownInstances
          specifiedId := none
          schema := metadata.schema } } ∧
      Restores s.properties written restored := by
  let s' : InstanceSnapshot := { s with metadata := { s.metadata with
    ignoreUnknownInstances :=
      metadata.ignoreUnknownInstances.getD s.metadata.ignoreUnknownInstances } }
  obtain ⟨restored, hrestored, hrestores⟩ := applyProperties_of_collected (s := s') h henv htell
  refine ⟨restored, ?_, hrestores⟩
  unfold applyAll
  rw [DirectoryMetadata.applyIgnoreUnknownInstances_eq]
  refine Except.bind_eq_ok.mpr ⟨_, hrestored, Except.bind_eq_ok.mpr
    ⟨{ s' with properties := restored, metadata := { s'.metadata with specifiedId := none } },
      ?_, ?_⟩⟩
  · unfold applyId
    rw [hid]
    rfl
  · unfold applySchema
    rw [if_neg fun hboth => absurd hboth.2 (by simp [s', hschema])]

variable {vfs : Vfs} {path reported : PathBuf}

omit [ReflectionDatabase] [ValueText] in
theorem readAndApply_of_notFound
    (h : ∃ err, vfs.read path = .error err ∧ err.kind = .notFound) :
    readAndApply vfs path reported s = .ok s := by
  obtain ⟨err, hread, hkind⟩ := h
  have hnone : withNotFound (vfs.read path) = .ok none := by
    rw [hread]
    exact if_pos hkind
  unfold readAndApply
  exact Except.bind_eq_ok.mpr ⟨none, Fallible.ofIo_eq_ok.mpr hnone, rfl⟩

omit [ReflectionDatabase] [ValueText] in
theorem readAndApply_of_read {data : List UInt8} {s' : InstanceSnapshot}
    (hread : vfs.read path = .ok data) (hparsed : Environment.adjacentMetadata data = .ok metadata)
    (happlied : { metadata with path := reported }.applyAll s = .ok s') :
    readAndApply vfs path reported s = .ok s' := by
  have hsome : withNotFound (vfs.read path) = .ok (some data) := withNotFound_eq_some.mpr hread
  unfold readAndApply
  refine Except.bind_eq_ok.mpr ⟨some data, Fallible.ofIo_eq_ok.mpr hsome,
    Except.bind_eq_ok.mpr ⟨_, ?_, happlied⟩⟩
  exact Except.bind_eq_ok.mpr ⟨metadata,
    Fallible.withContext_eq_ok.mpr (Fallible.ofText_eq_ok.mpr hparsed), rfl⟩

end Reading

end AdjacentMetadata

/-! ## What is written of an instance with a file -/

section Written

variable [ReflectionDatabase] [FloatCmp] {D : Type} [WeakDom D]

/-- The instance of the snapshot, which has a property in its file, and the old one. -/
structure OwnFile [ValueText] (snapshot : SyncbackSnapshot D) (property source : String)
    (old : Option InstanceWithMeta) (inst : Instance) (written : List (String × Variant)) :
    Prop where
  oldInst : snapshot.oldInst = .ok old
  /-- The old instance does not come from another file. -/
  instigating : ∀ src, old.bind (·.metadata.instigatingSource) = some src →
    src.toPath = snapshot.path
  found : snapshot.newInst = .ok inst
  contents : inst.properties.lookup property = some (.string source)
  filtered : snapshot.getPathFilteredProperties snapshot.new = .ok written
  tellable : Tellable inst.className written
  named : snapshot.path.fileName.isSome

/-- What is read of the meta file is what was written, except for its path. -/
def ReadsMeta [Environment] [MetaWriter] (metadata : AdjacentMetadata) : Prop :=
  ∃ data path, MetaWriter.toVecPretty metadata = .ok data ∧
    Environment.adjacentMetadata data = .ok { metadata with path := path }

variable [ValueText] {snapshot : SyncbackSnapshot D} {property source : String}
  {old : Option InstanceWithMeta} {inst : Instance} {written : List (String × Variant)}

omit [ReflectionDatabase] [FloatCmp] [ValueText] in
theorem not_mem_of_filterOut {filtered : List (String × Variant)}
    (hspecial : filterOutProperty inst property = true)
    (hwritten : written = filtered.filter fun e => !filterOutProperty inst e.1) :
    property ∉ written.map Prod.fst := by
  intro hmem
  obtain ⟨⟨name, value⟩, he, rfl⟩ := List.mem_map.mp hmem
  rw [hwritten, List.mem_filter, hspecial] at he
  exact absurd he.2 Bool.false_ne_true

omit [FloatCmp] [ValueText] [ReflectionDatabase] in
theorem mem_keys_of_plain {k : String} (h : k ∈ (plainProperties written).map Prod.fst) :
    k ∈ written.map Prod.fst := by
  induction written with
  | nil => exact h
  | cons e written ih =>
    obtain ⟨name, value⟩ := e
    cases value with
    | attributes attrs => exact List.mem_cons_of_mem _ (ih h)
    | value value =>
      rcases List.mem_cons.mp h with rfl | h
      · exact List.mem_cons_self
      · exact List.mem_cons_of_mem _ (ih h)

omit [FloatCmp] [ValueText] in
/-- What is not written need not be removed. -/
theorem Collected.shiftRemove {properties attributes : List (String × UnresolvedValue)}
    (h : Collected inst.className written properties attributes)
    (hkey : property ∉ written.map Prod.fst) : shiftRemove property properties = properties := by
  refine List.filter_eq_self.mpr fun e he => decide_eq_true ?_
  rintro rfl
  have hsome := (h.properties.mem_keys e.1).mp (List.mem_map_of_mem (f := Prod.fst) he)
  rw [lookup_extend_of_not_mem fun hmem => hkey (mem_keys_of_plain hmem),
    AList.lookup_empty] at hsome
  cases hsome

namespace OwnFile

theorem not_mem_keys (h : OwnFile snapshot property source old inst written)
    (hspecial : filterOutProperty inst property = true) :
    property ∉ written.map Prod.fst := by
  obtain ⟨i, hi, hfiltered⟩ := Except.bind_eq_ok.mp h.filtered
  obtain ⟨filtered, -, hfiltered⟩ := Except.bind_eq_ok.mp hfiltered
  have hsame : i = inst := Except.ok.inj (hi.symm.trans h.found)
  subst hsame
  exact not_mem_of_filterOut hspecial (Except.ok.inj hfiltered).symm

/-- The meta file for an instance. -/
theorem fromSyncbackSnapshot (h : OwnFile snapshot property source old inst written) :
    ∃ metadata, AdjacentMetadata.fromSyncbackSnapshot snapshot snapshot.path =
        .ok (some metadata) ∧
      Collected inst.className written metadata.properties metadata.attributes ∧
      metadata.id = none ∧ metadata.schema = old.bind (·.metadata.schema) ∧
      metadata.ignoreUnknownInstances.getD false = old.any (·.metadata.ignoreUnknownInstances) := by
  refine ⟨{ schema := old.bind (·.metadata.schema), id := none
            ignoreUnknownInstances :=
              if old.any (·.metadata.ignoreUnknownInstances) then some true else none
            properties := (collectEntries inst.className written).1
            attributes := (collectEntries inst.className written).2
            path := snapshot.path }, ?_, collected_collectEntries _ _, rfl, rfl, ?_⟩
  · unfold AdjacentMetadata.fromSyncbackSnapshot
    refine Except.bind_eq_ok.mpr ⟨old, h.oldInst, ?_⟩
    rw [if_neg]
    · exact Except.bind_eq_ok.mpr ⟨inst, h.found,
        Except.bind_eq_ok.mpr ⟨written, h.filtered, rfl⟩⟩
    · rw [Option.any_eq_true]
      rintro ⟨source, hsource, hne⟩
      exact of_decide_eq_true hne (h.instigating source hsource)
  · dsimp only
    cases old.any (·.metadata.ignoreUnknownInstances) <;> rfl

variable [Environment] [MetaWriter]

/-- The file is written, and a meta file if there is something to put in it. -/
theorem syncbackFile (h : OwnFile snapshot property source old inst written)
    (hspecial : filterOutProperty inst property = true)
    (hserde : ∀ metadata, AdjacentMetadata.fromSyncbackSnapshot snapshot snapshot.path =
      .ok (some metadata) → ReadsMeta metadata) (missing unwritten : String) :
    ∃ ret metadata, Roxo.syncbackFile property missing unwritten snapshot = .ok ret ∧
      AdjacentMetadata.fromSyncbackSnapshot snapshot snapshot.path = .ok (some metadata) ∧
      (metadata.isEmpty = true ∧ ret.fsSnapshot.addedFiles =
          (∅ : Map PathBuf (List UInt8)).insert snapshot.path source.toUTF8.data.toList ∨
        metadata.isEmpty = false ∧ ∃ data path,
          Environment.adjacentMetadata data = .ok { metadata with path := path } ∧
          ret.fsSnapshot.addedFiles =
            ((∅ : Map PathBuf (List UInt8)).insert snapshot.path source.toUTF8.data.toList).insert
              (AdjacentMetadata.metaPathJson snapshot.path inst.name) data) := by
  obtain ⟨metadata, hmetadata, hcollected, -⟩ := h.fromSyncbackSnapshot
  obtain ⟨data, path, hdata, hparsed⟩ := hserde metadata hmetadata
  have hkept : { metadata with properties := shiftRemove property metadata.properties } =
      metadata := by
    rw [hcollected.shiftRemove (h.not_mem_keys hspecial)]
  have hreturn (fsSnapshot : FsSnapshot)
      (hadd : addMetaFile property unwritten snapshot.path inst.name
        (FsSnapshot.addFile {} snapshot.path source.toUTF8.data.toList) (some metadata) =
          .ok fsSnapshot) :
      Roxo.syncbackFile property missing unwritten snapshot = .ok ⟨fsSnapshot, [], []⟩ := by
    refine Except.bind_eq_ok.mpr ⟨inst, h.found, ?_⟩
    rw [h.contents]
    exact Except.bind_eq_ok.mpr ⟨some metadata, hmetadata,
      Except.bind_eq_ok.mpr ⟨fsSnapshot, hadd, rfl⟩⟩
  cases hempty : metadata.isEmpty with
  | true =>
    refine ⟨_, metadata, hreturn (FsSnapshot.addFile {} snapshot.path
      source.toUTF8.data.toList) ?_, hmetadata, .inl ⟨hempty, rfl⟩⟩
    unfold addMetaFile
    dsimp only
    rw [hkept, if_pos hempty]
  | false =>
    refine ⟨_, metadata, hreturn ((FsSnapshot.addFile {} snapshot.path
      source.toUTF8.data.toList).addFile
        (AdjacentMetadata.metaPathJson snapshot.path inst.name) data) ?_, hmetadata,
      .inr ⟨hempty, data, path, hparsed, rfl⟩⟩
    unfold addMetaFile
    dsimp only
    rw [hkept, if_neg (by rw [hempty]; exact Bool.false_ne_true)]
    refine Except.bind_eq_ok.mpr ⟨_, PathBuf.parentErr_of_named h.named,
      Except.bind_eq_ok.mpr ⟨data,
      Fallible.withContext_eq_ok.mpr (Fallible.ofText_eq_ok.mpr hdata), ?_⟩⟩
    unfold AdjacentMetadata.metaPathJson PathBuf.withFileName
    rw [if_pos h.named]

end OwnFile

/-- The disk has the files and no other meta files for the name. -/
structure OnDisk (vfs : Vfs) (files : Map PathBuf (List UInt8)) (path : PathBuf)
    (name : String) : Prop where
  present : ∀ p data, files.lookup p = some data → vfs.read p = .ok data
  json : AdjacentMetadata.metaPathJson path name ∉ files →
    ∃ err, vfs.read (AdjacentMetadata.metaPathJson path name) = .error err ∧
      err.kind = .notFound
  jsonc : ∃ err, vfs.read (AdjacentMetadata.metaPathJsonc path name) = .error err ∧
    err.kind = .notFound
  /-- The file is no meta file of its own. -/
  own : path ≠ AdjacentMetadata.metaPathJson path name

/-- The snapshot is the instance, with what is in the file in `base`. The schema of the old
instance is kept if a meta file is written. -/
structure ReadsBack (snapshot : SyncbackSnapshot D) (base : UstrMap Variant)
    (old : Option InstanceWithMeta) (inst : Instance) (written : List (String × Variant))
    (files : Map PathBuf (List UInt8)) (S : InstanceSnapshot) : Prop where
  name : S.name = inst.name
  className : S.className = inst.className
  children : S.children = []
  properties : Restores base written S.properties
  ignoreUnknownInstances : S.metadata.ignoreUnknownInstances =
    old.any (·.metadata.ignoreUnknownInstances)
  specifiedId : S.metadata.specifiedId = none
  schema : S.metadata.schema =
    if AdjacentMetadata.metaPathJson snapshot.path inst.name ∈ files then
      old.bind (·.metadata.schema)
    else none

variable [Environment] [MetaWriter]

/-- A snapshot that has only what is in the file becomes the one of the instance. -/
theorem OwnFile.readAndApplyAll (h : OwnFile snapshot property source old inst written)
    (hspecial : filterOutProperty inst property = true) (henv : ResolvesValues)
    (hserde : ∀ metadata, AdjacentMetadata.fromSyncbackSnapshot snapshot snapshot.path =
      .ok (some metadata) → ReadsMeta metadata)
    {missing unwritten : String} {ret : SyncbackReturn D}
    (hret : Roxo.syncbackFile property missing unwritten snapshot = .ok ret) {vfs : Vfs}
    (hdisk : OnDisk vfs ret.fsSnapshot.addedFiles snapshot.path inst.name)
    (base : UstrMap Variant) (metadata : InstanceMetadata)
    (hignore : metadata.ignoreUnknownInstances = false) (hid : metadata.specifiedId = none)
    (hschema : metadata.schema = none) :
    ∃ S, AdjacentMetadata.readAndApplyAll vfs snapshot.path inst.name
        ⟨Ref.none, metadata, inst.name, inst.className, base, []⟩ = .ok S ∧
      ReadsBack snapshot base old inst written ret.fsSnapshot.addedFiles S := by
  obtain ⟨ret', metaFile', hret', hmeta, hcases⟩ := h.syncbackFile hspecial hserde missing unwritten
  obtain ⟨metaFile, hmeta', hcollected, hmetaId, hmetaSchema, hmetaIgnore⟩ :=
    h.fromSyncbackSnapshot
  obtain rfl := Except.ok.inj (hret'.symm.trans hret)
  obtain rfl := Option.some.inj (Except.ok.inj (hmeta'.symm.trans hmeta))
  rcases hcases with ⟨hempty, hfiles⟩ | ⟨-, data, path, hparsed, hfiles⟩
  · have hnot : AdjacentMetadata.metaPathJson snapshot.path inst.name ∉
        ret'.fsSnapshot.addedFiles := by
      rw [hfiles, AList.mem_insert, not_or]
      exact ⟨fun heq => hdisk.own heq.symm, AList.notMem_empty _⟩
    unfold AdjacentMetadata.isEmpty at hempty
    rw [Bool.and_eq_true, Bool.and_eq_true, List.isEmpty_iff, List.isEmpty_iff,
      Option.isNone_iff_eq_none] at hempty
    obtain ⟨⟨hattributes, hproperties⟩, hnone⟩ := hempty
    refine ⟨_, Except.bind_eq_ok.mpr
      ⟨_, AdjacentMetadata.readAndApply_of_notFound (hdisk.json hnot), Except.bind_eq_ok.mpr
        ⟨_, AdjacentMetadata.readAndApply_of_notFound hdisk.jsonc, rfl⟩⟩, ?_⟩
    obtain ⟨g, -, hplain⟩ := hcollected.resolves henv h.tellable
    rw [hproperties] at hplain
    refine ⟨rfl, rfl, rfl, ⟨fun k _ => hplain base k, fun hsome => ?_⟩, ?_, hid, ?_⟩
    · exact absurd (hcollected.attributes_eq_nil_iff.mp hattributes) hsome
    · rw [← hmetaIgnore, hnone]
      exact hignore
    · rw [if_neg hnot]
      exact hschema
  · have hmem : AdjacentMetadata.metaPathJson snapshot.path inst.name ∈
        ret'.fsSnapshot.addedFiles := by
      rw [hfiles, AList.mem_insert]
      exact .inl rfl
    have hread : vfs.read (AdjacentMetadata.metaPathJson snapshot.path inst.name) = .ok data := by
      refine hdisk.present _ _ ?_
      rw [hfiles]
      exact AList.lookup_insert _
    obtain ⟨restored, happlied, hrestores⟩ := AdjacentMetadata.applyAll_of_collected
      { metaFile with path := AdjacentMetadata.metaPathJson snapshot.path inst.name }
      ⟨Ref.none, metadata, inst.name, inst.className, base, []⟩ hcollected henv h.tellable
      hmetaId hschema
    refine ⟨_, Except.bind_eq_ok.mpr
      ⟨_, AdjacentMetadata.readAndApply_of_read hread hparsed happlied, Except.bind_eq_ok.mpr
        ⟨_, AdjacentMetadata.readAndApply_of_notFound hdisk.jsonc, rfl⟩⟩, ?_⟩
    refine ⟨rfl, rfl, rfl, hrestores, ?_, rfl, ?_⟩
    · rw [← hmetaIgnore, ← hignore]
      rfl
    · rw [if_pos hmem, ← hmetaSchema]
      rfl

/-- The text in the file. -/
theorem OwnFile.readToString (h : OwnFile snapshot property source old inst written)
    (hspecial : filterOutProperty inst property = true)
    (hserde : ∀ metadata, AdjacentMetadata.fromSyncbackSnapshot snapshot snapshot.path =
      .ok (some metadata) → ReadsMeta metadata)
    {missing unwritten : String} {ret : SyncbackReturn D}
    (hret : Roxo.syncbackFile property missing unwritten snapshot = .ok ret) {vfs : Vfs}
    (hdisk : OnDisk vfs ret.fsSnapshot.addedFiles snapshot.path inst.name) :
    vfs.readToString snapshot.path = .ok source := by
  obtain ⟨ret', _, hret', -, hcases⟩ := h.syncbackFile hspecial hserde missing unwritten
  obtain rfl := Except.ok.inj (hret'.symm.trans hret)
  have hlookup : ret'.fsSnapshot.addedFiles.lookup snapshot.path =
      some source.toUTF8.data.toList := by
    rcases hcases with ⟨-, hfiles⟩ | ⟨-, data, path, -, hfiles⟩
    · rw [hfiles]
      exact AList.lookup_insert _
    · rw [hfiles, AList.lookup_insert_ne hdisk.own]
      exact AList.lookup_insert _
  unfold Vfs.readToString
  refine Except.bind_eq_ok.mpr ⟨_, hdisk.present _ _ hlookup, ?_⟩
  rw [fromUTF8?_toUTF8]

/-- **The file of a string value reads back** with its meta file, if the file is named like the
instance. -/
theorem syncbackTxt_readBack (henv : ResolvesValues)
    (h : OwnFile snapshot "Value" source old inst written) (hclass : inst.className = "StringValue")
    (hserde : ∀ metadata, AdjacentMetadata.fromSyncbackSnapshot snapshot snapshot.path =
      .ok (some metadata) → ReadsMeta metadata)
    {vfs : Vfs} {canonical : PathBuf}
    (hdisk : ∀ ret, syncbackTxt snapshot = .ok ret →
      OnDisk vfs ret.fsSnapshot.addedFiles snapshot.path inst.name)
    (hcanonical : vfs.canonicalize snapshot.path = .ok canonical) (context : InstanceContext) :
    ∃ ret S, syncbackTxt snapshot = .ok ret ∧
      snapshotTxt context vfs snapshot.path inst.name = .ok (some S) ∧
      ReadsBack snapshot (oneProperty "Value" (.string source)) old inst written
        ret.fsSnapshot.addedFiles S := by
  have hspecial : filterOutProperty inst "Value" = true := by
    unfold filterOutProperty
    rw [hclass]
    rfl
  obtain ⟨ret, -, hret, -⟩ := h.syncbackFile hspecial hserde
    "StringValues must have a `Value` property that is a String" "could not serialize metadata"
  have hmetadata : fileMetadata vfs snapshot.path = .ok
      { instigatingSource := some (.path snapshot.path), relevantPaths := [canonical] } :=
    Except.bind_eq_ok.mpr ⟨canonical, Fallible.ofIo_eq_ok.mpr hcanonical, rfl⟩
  obtain ⟨S, hS, hback⟩ := h.readAndApplyAll hspecial henv hserde hret (hdisk ret hret)
    (oneProperty "Value" (.string source))
    { instigatingSource := some (.path snapshot.path)
      relevantPaths := [canonical]
      context := context } rfl rfl rfl
  rw [hclass] at hS
  refine ⟨ret, S, hret, ?_, hback⟩
  exact Except.bind_eq_ok.mpr ⟨source,
    Fallible.ofIo_eq_ok.mpr (h.readToString hspecial hserde hret (hdisk ret hret)),
    Except.bind_eq_ok.mpr ⟨_, hmetadata, Except.bind_eq_ok.mpr ⟨S, hS, rfl⟩⟩⟩

end Written

/-! ## Scripts -/

section Scripts

variable [Environment]

/-- What the file of a script and its name say. -/
def scriptProperties (runContext : Option UInt32) (contents : String) : UstrMap Variant :=
  match runContext with
  | some value =>
    (oneProperty "Source" (.string contents)).insert "RunContext" (.value (.enum value))
  | none => oneProperty "Source" (.string contents)

theorem scriptClass_mem (context : InstanceContext) (scriptType : ScriptType) :
    (scriptClass context scriptType).1 ∈ ["Script", "LocalScript", "ModuleScript"] := by
  unfold scriptClass
  cases scriptType with
  | server | client =>
    dsimp only
    split_ifs <;> exact of_decide_eq_true rfl
  | _ =>
    dsimp only
    decide

variable [ReflectionDatabase] [FloatCmp] [ValueText] [MetaWriter] {D : Type} [WeakDom D]
  {snapshot : SyncbackSnapshot D} {source : String} {old : Option InstanceWithMeta}
  {inst : Instance} {written : List (String × Variant)}

/-- **The file of a script reads back** with its meta file, if the file is named like the instance
and its type is one for the class. -/
theorem syncbackLua_readBack (henv : ResolvesValues)
    (h : OwnFile snapshot "Source" source old inst written) {context : InstanceContext}
    {scriptType : ScriptType} (hclass : (scriptClass context scriptType).1 = inst.className)
    (hserde : ∀ metadata, AdjacentMetadata.fromSyncbackSnapshot snapshot snapshot.path =
      .ok (some metadata) → ReadsMeta metadata)
    {vfs : Vfs} {canonical : PathBuf}
    (hdisk : ∀ ret, syncbackLua snapshot = .ok ret →
      OnDisk vfs ret.fsSnapshot.addedFiles snapshot.path inst.name)
    (hcanonical : vfs.canonicalize snapshot.path = .ok canonical) :
    ∃ ret S, syncbackLua snapshot = .ok ret ∧
      snapshotLua context vfs snapshot.path inst.name scriptType = .ok (some S) ∧
      ReadsBack snapshot (scriptProperties (scriptClass context scriptType).2
        (String.ofList (Vfs.lfNormalized source.toList))) old inst written
        ret.fsSnapshot.addedFiles S := by
  have hspecial : filterOutProperty inst "Source" = true := by
    unfold filterOutProperty
    rw [if_pos (hclass ▸ scriptClass_mem context scriptType)]
    rfl
  obtain ⟨ret, -, hret, -⟩ := h.syncbackFile hspecial hserde
    "Scripts must have a `Source` property that is a String" "cannot serialize metadata"
  have hmetadata : fileMetadata vfs snapshot.path = .ok
      { instigatingSource := some (.path snapshot.path), relevantPaths := [canonical] } :=
    Except.bind_eq_ok.mpr ⟨canonical, Fallible.ofIo_eq_ok.mpr hcanonical, rfl⟩
  have htext : vfs.readToStringLfNormalized snapshot.path =
      .ok (String.ofList (Vfs.lfNormalized source.toList)) :=
    Except.bind_eq_ok.mpr
      ⟨source, h.readToString hspecial hserde hret (hdisk ret hret), rfl⟩
  obtain ⟨S, hS, hback⟩ := h.readAndApplyAll hspecial henv hserde hret (hdisk ret hret)
    (scriptProperties (scriptClass context scriptType).2
      (String.ofList (Vfs.lfNormalized source.toList)))
    { instigatingSource := some (.path snapshot.path)
      relevantPaths := [canonical]
      context := context } rfl rfl rfl
  rw [← hclass] at hS
  refine ⟨ret, S, hret, ?_, hback⟩
  exact Except.bind_eq_ok.mpr ⟨_, Fallible.ofIo_eq_ok.mpr htext,
    Except.bind_eq_ok.mpr ⟨_, hmetadata, Except.bind_eq_ok.mpr ⟨S, hS, rfl⟩⟩⟩

end Scripts

/-! ### A module with attributes -/

def mainInst : Instance where
  referent := Ref.some 0
  children := []
  parent := Ref.none
  name := "Main"
  className := "ModuleScript"
  properties := (((∅ : UstrMap Variant).insert "Source" (.string "return 1\x0d\n")).insert
    "Archivable" (.bool false)).insert
      "Attributes" (.attributes [("RBXHidden", .bool true), ("Team", .string "red")])

def mainDom : MapDom where
  nodes := [⟨0, none, mainInst.name, mainInst.className, mainInst.properties⟩]
  root := 0
  next := MapDom.firstFree
  sorted := by decide
  parents := by decide
  has_root := by decide
  bound := by decide

def mainSnapshot : SyncbackSnapshot MapDom where
  data :=
    { oldTree := blankTree
      newTree := mainDom
      rules := none
      debugModelFormat := none }
  old := none
  new := Ref.some 0
  path := ⟨true, ["Main.luau"]⟩
  middleware := some .moduleScript

/-- What is written of the module besides its source. -/
def mainWritten : List (String × Variant) :=
  [("Attributes", .attributes [("RBXHidden", .bool true), ("Team", .string "red")]),
    ("Archivable", .bool false)]

theorem filterLoop_empty [FloatCmp] {rules : Option SyncbackRules} {className : String}
    {l : List (String × Variant)} : letI := ReflectionDatabase.empty
    (∀ e ∈ l, skipsProperty rules className e.1 e.2 = false) →
      filterLoop rules className l = some l := by
  let _ := ReflectionDatabase.empty
  intro h
  induction l with
  | nil => rfl
  | cons e l ih =>
    obtain ⟨hkept, hrest⟩ := List.forall_mem_cons.mp h
    unfold filterLoop
    rw [ih hrest]
    show (if skipsProperty rules className e.1 e.2 then some l else some (e :: l)) = some (e :: l)
    rw [hkept]
    rfl

theorem findDescriptor_empty (className propName : String) : letI := ReflectionDatabase.empty
    findDescriptor className propName = none := by
  unfold findDescriptor
  rfl

theorem ownFile_main : letI := ReflectionDatabase.empty
    letI := FloatCmp.exact
    letI := uriText
    OwnFile mainSnapshot "Source" "return 1\x0d\n" none mainInst mainWritten := by
  let _ := ReflectionDatabase.empty
  let _ := FloatCmp.exact
  let _ := uriText
  have hfiltered : filterProperties none mainInst =
      some (mainWritten ++ [("Source", .string "return 1\x0d\n")]) := by
    refine filterLoop_empty fun e he => ?_
    change e ∈ mainWritten ++ [("Source", .string "return 1\x0d\n")] at he
    rcases List.mem_append.mp he with hmem | hmem
    · rcases List.mem_pair.mp hmem with rfl | rfl <;>
        simp [skipsProperty, shouldPropertySerialize_empty]
    · rw [List.mem_singleton.mp hmem]
      simp [skipsProperty, shouldPropertySerialize_empty]
  refine ⟨rfl, fun src hsrc => ?_, rfl, rfl, ?_, fun k v hmem => ?_, rfl⟩
  · cases hsrc
  · exact Except.bind_eq_ok.mpr ⟨mainInst, rfl, Except.bind_eq_ok.mpr
      ⟨_, Fallible.unwrap_eq_ok.mpr hfiltered, rfl⟩⟩
  · obtain ⟨rfl, rfl⟩ := Prod.mk.inj (List.mem_singleton.mp hmem)
    refine ⟨fun property hproperty => ?_, rfl, trivial⟩
    rw [findDescriptor_empty] at hproperty
    cases hproperty

/-- What `serde_json` writes for the meta file. -/
def mainMetaText : String :=
  "\x7b\n  \"properties\": \x7b\n    \"Archivable\": \x7b\n      \"Bool\": false\n    \x7d\n" ++
    "  \x7d,\n  \"attributes\": \x7b\n    \"Team\": \"red\"\n  \x7d\n\x7d"

def mainMeta : AdjacentMetadata where
  schema := none
  id := none
  ignoreUnknownInstances := none
  properties := [("Archivable", .fullyQualified (.bool false))]
  attributes := [("Team", .ambiguous (.string "red"))]
  path := mainSnapshot.path

/-- The files that syncback made. -/
def mainDisk : Disk where
  entries := [(["Main.luau"], some "return 1\x0d\n".toUTF8.data.toList),
    (["Main.meta.json"], some mainMetaText.toUTF8.data.toList)]
  named := by decide

@[reducible] def MetaWriter.ofText (text : String) : MetaWriter :=
  ⟨fun _ => .ok text.toUTF8.data.toList⟩

/-- The text is the one of the meta file, whose path is not in it. -/
@[reducible] def Environment.ofMeta (text : String) (metadata : AdjacentMetadata) : Environment :=
  { Environment.ofProjects [] with
    adjacentMetadata := fun data =>
      if data = text.toUTF8.data.toList then .ok { metadata with path := ⟨false, []⟩ }
      else .error "No meta file" }

theorem fromSyncbackSnapshot_main : letI := ReflectionDatabase.empty
    letI := FloatCmp.exact
    AdjacentMetadata.fromSyncbackSnapshot mainSnapshot mainSnapshot.path =
      .ok (some mainMeta) := by
  let _ := ReflectionDatabase.empty
  let _ := FloatCmp.exact
  let _ := uriText
  have hvalue : UnresolvedValue.fromVariant (.bool false) "ModuleScript" "Archivable" =
      .fullyQualified (.bool false) := by
    unfold UnresolvedValue.fromVariant
    rw [findDescriptor_empty]
  have hentries : collectEntries mainInst.className mainWritten =
      (mainMeta.properties, mainMeta.attributes) := by
    show ([("Archivable", UnresolvedValue.fromVariant (.bool false) "ModuleScript" "Archivable")],
      _) = (_ : List (String × UnresolvedValue) × List (String × UnresolvedValue))
    rw [hvalue]
    rfl
  refine Except.bind_eq_ok.mpr ⟨none, rfl, Except.bind_eq_ok.mpr ⟨mainInst, rfl,
    Except.bind_eq_ok.mpr ⟨mainWritten, ownFile_main.filtered, ?_⟩⟩⟩
  rw [hentries]
  rfl

theorem onDisk_main : letI := ReflectionDatabase.empty
    letI := FloatCmp.exact
    letI := MetaWriter.ofText mainMetaText
    ∀ ret, syncbackLua mainSnapshot = .ok ret →
      OnDisk mainDisk.vfs ret.fsSnapshot.addedFiles mainSnapshot.path mainInst.name := by
  let _ := ReflectionDatabase.empty
  let _ := FloatCmp.exact
  let _ := uriText
  let _ := MetaWriter.ofText mainMetaText
  intro ret hret
  obtain rfl : ret = ⟨(FsSnapshot.addFile {} mainSnapshot.path
      "return 1\x0d\n".toUTF8.data.toList).addFile ⟨true, ["Main.meta.json"]⟩
        mainMetaText.toUTF8.data.toList, [], []⟩ := by
    refine Except.ok.inj (hret.symm.trans (Except.bind_eq_ok.mpr ⟨mainInst, rfl, ?_⟩))
    exact Except.bind_eq_ok.mpr ⟨some mainMeta, fromSyncbackSnapshot_main, rfl⟩
  refine ⟨fun p data hdata => ?_, fun hnot => absurd ?_ hnot, ⟨_, rfl, rfl⟩, by decide⟩
  · change ((AList.insert _ _ (AList.insert _ _ ∅)).lookup p) = _ at hdata
    rw [lookup_insert_eq, lookup_insert_eq, AList.lookup_empty] at hdata
    split_ifs at hdata with hmeta hown
    · obtain rfl := Option.some.inj hdata
      rw [hmeta]
      rfl
    · obtain rfl := Option.some.inj hdata
      rw [hown]
      rfl
  · exact AList.mem_insert _ |>.mpr (.inl (by decide))

/-- The module comes back with a Unix line end. -/
theorem syncbackLua_main : letI := ReflectionDatabase.empty
    letI := FloatCmp.exact
    letI := uriText
    letI := MetaWriter.ofText mainMetaText
    letI := (Environment.ofMeta mainMetaText mainMeta).resolving
    ∃ ret S, syncbackLua mainSnapshot = .ok ret ∧
      snapshotLua {} mainDisk.vfs mainSnapshot.path "Main" .module = .ok (some S) ∧
      ReadsBack mainSnapshot (scriptProperties none (String.ofList
          (Vfs.lfNormalized "return 1\x0d\n".toList))) none mainInst mainWritten
        ret.fsSnapshot.addedFiles S := by
  let _ := ReflectionDatabase.empty
  let _ := FloatCmp.exact
  let _ := uriText
  let _ := MetaWriter.ofText mainMetaText
  let _ := (Environment.ofMeta mainMetaText mainMeta).resolving
  refine syncbackLua_readBack (resolvesValues_resolving _) ownFile_main rfl
    (fun metadata hmetadata => ?_) onDisk_main
    (rfl : mainDisk.vfs.canonicalize mainSnapshot.path = .ok _)
  obtain rfl := Option.some.inj (Except.ok.inj (fromSyncbackSnapshot_main.symm.trans hmetadata))
  exact ⟨_, ⟨false, []⟩, rfl, if_pos rfl⟩

end Roxo
