import Roxo.SnapshotMiddleware.MetaFile
import Roxo.Vfs.Disk

/-!
# What meta files change

An instance can have two meta files, one in `.json` and one in `.jsonc`, which are applied one
after the other. What they do not state of the class name, of `ignoreUnknownInstances` and of the
properties is left as it is, but an id or a schema is not: a file without one takes away the one
that the instance had (`DirectoryMetadata.readAndApplyAll_changesOnlyStated_iff`).
-/

namespace Roxo

open AssocMap

/-! ## A value and two files -/

section OnlyStated

universe u v

variable {α : Type u} {β : Type v}

/-- A value that neither of two files states stays, and one that exactly one of them states is
afterwards what that file says. -/
structure OnlyStated (first second : Option (Except String α)) (before after : α) : Prop where
  neither : first = none → second = none → after = before
  onlyFirst : ∀ value, first = some value → second = none → value = .ok after
  onlySecond : ∀ value, first = none → second = some value → value = .ok after

theorem OnlyStated.of_getD {first second : Option (Except String α)} {before between after : α}
    (hfirst : first.getD (.ok before) = .ok between)
    (hsecond : second.getD (.ok between) = .ok after) :
    OnlyStated first second before after := by
  refine ⟨?_, ?_, ?_⟩
  · rintro rfl rfl
    cases hfirst
    cases hsecond
    rfl
  · rintro value rfl rfl
    cases hsecond
    exact hfirst
  · rintro value rfl rfl
    exact hsecond

theorem join_map_eq_bind (f : α → Option β) (file : Option α) :
    (file.map f).join = file.bind f := by
  cases file <;> rfl

theorem not_isSome_and {a : Option α} {b : Option β} (h : ¬(a.isSome ∧ b.isSome)) :
    a = none ∨ b = none := by
  rcases a with _ | a
  · exact .inl rfl
  · rcases b with _ | b
    · exact .inr rfl
    · exact absurd ⟨rfl, rfl⟩ h

theorem getD_map_ok {stated : Option α} {before after : α} (h : after = stated.getD before) :
    (stated.map (@Except.ok String α)).getD (.ok before) = .ok after := by
  rw [h]
  cases stated <;> rfl

/-- Of two optional files, the last one that is there gives the optional field, or else nothing
gave it before. -/
def LastGives (first second : Option (Option α)) (before : Option β) : Prop :=
  match second <|> first with
  | none => True
  | some (some _) => True
  | some none => before = none ∧ first.join = none

/-- An optional value that each file overwrites, where a file gives one only if there was none. -/
theorem onlyStated_iff_lastGives {f : α → β} {first second : Option (Option α)}
    {before between after : Option β} (hbetween : between = first.elim before (Option.map f))
    (hafter : after = second.elim between (Option.map f))
    (hfirst : first.join = none ∨ before = none) (hsecond : second.join = none ∨ between = none) :
    OnlyStated (first.join.map fun a => .ok (some (f a)))
        (second.join.map fun a => .ok (some (f a))) before after ↔
      LastGives first second before := by
  subst hbetween hafter
  constructor
  · intro h
    rcases second with _ | _ | b
    · rcases first with _ | _ | a
      · trivial
      · exact ⟨(h.neither rfl rfl).symm, rfl⟩
      · trivial
    · rcases first with _ | _ | a
      · exact ⟨(h.neither rfl rfl).symm, rfl⟩
      · exact ⟨(h.neither rfl rfl).symm, rfl⟩
      · cases h.onlyFirst _ rfl rfl
    · rcases first with _ | _ | a <;> trivial
  · intro h
    rcases second with _ | _ | b
    · rcases first with _ | _ | a
      · exact ⟨fun _ _ => rfl, nofun, nofun⟩
      · obtain ⟨rfl, -⟩ := h
        exact ⟨fun _ _ => rfl, nofun, nofun⟩
      · exact ⟨nofun, by rintro _ ⟨⟩ -; rfl, nofun⟩
    · obtain ⟨rfl, hnone⟩ : before = none ∧ first.join = none := by
        rcases first with _ | _ | a <;> exact h
      exact ⟨fun _ _ => rfl, fun value hvalue => by simp [hnone] at hvalue, nofun⟩
    · refine ⟨nofun, nofun, ?_⟩
      rintro _ - ⟨⟩
      rfl

end OnlyStated

variable [Environment]

/-! ## What one file states -/

namespace DirectoryMetadata

/-- What a file says about a property of an instance of a class. Attributes are written after the
properties, and the last entry under a key is written last. -/
def statedProperty (metadata : DirectoryMetadata) (className key : String) :
    Option (Except String (Option Variant)) :=
  if key = "Attributes" ∧ metadata.attributes ≠ [] then
    some ((resolveAttributes metadata.attributes).map fun attributes =>
      some (.attributes attributes))
  else (metadata.properties.reverse.lookup key).map fun unresolved =>
    (Environment.resolve unresolved className key).map some

/-- What applying one file has done to a snapshot. -/
structure Applied (metadata : DirectoryMetadata) (s s' : InstanceSnapshot) : Prop where
  className : s'.className = metadata.className.getD s.className
  ignoreUnknownInstances : s'.metadata.ignoreUnknownInstances =
    metadata.ignoreUnknownInstances.getD s.metadata.ignoreUnknownInstances
  specifiedId : s'.metadata.specifiedId = metadata.id.map RojoRef.mk
  idOnce : metadata.id = none ∨ s.metadata.specifiedId = none
  schema : s'.metadata.schema = metadata.schema
  schemaOnce : metadata.schema = none ∨ s.metadata.schema = none
  properties : ∀ key, (metadata.statedProperty s'.className key).getD
    (.ok (s.properties.lookup key)) = .ok (s'.properties.lookup key)

end DirectoryMetadata

/-- What applying a file, or doing without it, has done to a snapshot. -/
def DirectoryMetadata.AppliedIfAny (file : Option DirectoryMetadata) (s s' : InstanceSnapshot) :
    Prop :=
  match file with
  | some metadata => metadata.Applied s s'
  | none => s' = s

namespace AdjacentMetadata

variable {metadata : AdjacentMetadata} {s s' : InstanceSnapshot}

omit [Environment] in
theorem applyId_eq_ok (h : metadata.applyId s = .ok s') :
    (metadata.id = none ∨ s.metadata.specifiedId = none) ∧
      s' = { s with metadata := { s.metadata with
        specifiedId := metadata.id.map RojoRef.mk } } := by
  unfold applyId at h
  split_ifs at h with hboth
  · cases h
  · exact ⟨not_isSome_and hboth, (Except.ok.inj h).symm⟩

omit [Environment] in
theorem applySchema_eq_ok (h : metadata.applySchema s = .ok s') :
    (metadata.schema = none ∨ s.metadata.schema = none) ∧
      s' = { s with metadata := { s.metadata with schema := metadata.schema } } := by
  unfold applySchema at h
  split_ifs at h with hboth
  · cases h
  · exact ⟨not_isSome_and hboth, (Except.ok.inj h).symm⟩

/-- The loop over the properties of a file. -/
theorem foldlM_insertProperty_eq_ok {message : String} (l : List (String × UnresolvedValue))
    (h : l.foldlM (fun (snapshot : InstanceSnapshot) e => do
      let value ← Fallible.withContext message
        (Fallible.ofText (Environment.resolve e.2 snapshot.className e.1))
      .ok (snapshot.insertProperty e.1 value)) s = .ok s') :
    ∃ properties, s' = { s with properties := properties } ∧
      ∀ key, ((l.reverse.lookup key).map fun unresolved =>
          (Environment.resolve unresolved s.className key).map some).getD
        (.ok (s.properties.lookup key)) = .ok (properties.lookup key) := by
  induction l using List.reverseRecOn generalizing s' with
  | nil =>
    refine ⟨s.properties, (Except.ok.inj h).symm.trans ?_, fun key => rfl⟩
    cases s
    rfl
  | append_singleton l e ih =>
    rw [List.foldlM_append] at h
    obtain ⟨between, hbetween, h⟩ := Except.bind_eq_ok.mp h
    obtain ⟨properties, rfl, hproperties⟩ := ih hbetween
    rw [List.foldlM_cons] at h
    obtain ⟨inserted, hinsert, h⟩ := Except.bind_eq_ok.mp h
    cases h
    obtain ⟨value, hvalue, hinsert⟩ := Except.bind_eq_ok.mp hinsert
    cases hinsert
    rw [Fallible.withContext_eq_ok, Fallible.ofText_eq_ok] at hvalue
    refine ⟨properties.insert e.1 value, rfl, fun key => ?_⟩
    rw [List.reverse_concat, List.lookup_cons, lookup_insert_eq]
    by_cases hkey : key = e.1
    · rw [if_pos hkey, beq_iff_eq.mpr hkey]
      subst hkey
      exact congrArg (Except.map some) hvalue
    · rw [if_neg hkey, beq_eq_false_iff_ne.mpr hkey]
      exact hproperties key

theorem applyProperties_eq_ok (h : metadata.applyProperties s = .ok s') :
    ∃ properties, s' = { s with properties := properties } ∧
      ∀ key, (DirectoryMetadata.statedProperty ⟨metadata, none⟩ s.className key).getD
        (.ok (s.properties.lookup key)) = .ok (properties.lookup key) := by
  obtain ⟨between, hbetween, h⟩ := Except.bind_eq_ok.mp h
  obtain ⟨properties, rfl, hproperties⟩ := foldlM_insertProperty_eq_ok _ hbetween
  split_ifs at h with hnil
  · refine ⟨properties, (Except.ok.inj h).symm, fun key => ?_⟩
    rw [DirectoryMetadata.statedProperty, if_neg fun hkey => hkey.2 hnil]
    exact hproperties key
  · obtain ⟨attributes, hattributes, h⟩ := Except.bind_eq_ok.mp h
    rw [Fallible.ofText_eq_ok] at hattributes
    refine ⟨_, (Except.ok.inj h).symm, fun key => ?_⟩
    rw [DirectoryMetadata.statedProperty, lookup_insert_eq]
    by_cases hkey : key = "Attributes"
    · rw [if_pos ⟨hkey, hnil⟩, if_pos hkey, hattributes]
      rfl
    · rw [if_neg fun hboth => hkey hboth.1, if_neg hkey]
      exact hproperties key

end AdjacentMetadata

namespace DirectoryMetadata

variable {metadata : DirectoryMetadata} {s s' : InstanceSnapshot}

omit [Environment] in
theorem applyClassName_eq_ok (h : metadata.applyClassName s = .ok s') :
    s' = { s with className := metadata.className.getD s.className } := by
  unfold applyClassName at h
  cases hclass : metadata.className with
  | some className =>
    rw [hclass] at h
    by_cases hfolder : s.className ≠ "Folder"
    · cases (if_pos hfolder).symm.trans h
    · exact (Except.ok.inj ((if_neg hfolder).symm.trans h)).symm
  | none =>
    rw [hclass] at h
    rw [← Except.ok.inj h]
    cases s
    rfl

omit [Environment] in
theorem applyIgnoreUnknownInstances_eq (metadata : AdjacentMetadata) (s : InstanceSnapshot) :
    metadata.applyIgnoreUnknownInstances s = { s with metadata := { s.metadata with
      ignoreUnknownInstances :=
        metadata.ignoreUnknownInstances.getD s.metadata.ignoreUnknownInstances } } := by
  unfold AdjacentMetadata.applyIgnoreUnknownInstances
  cases metadata.ignoreUnknownInstances with
  | some ignore => rfl
  | none =>
    cases s
    rfl

theorem applied_of_applyAll (h : metadata.applyAll s = .ok s') : metadata.Applied s s' := by
  unfold applyAll at h
  obtain ⟨s₁, hclass, h⟩ := Except.bind_eq_ok.mp h
  obtain ⟨s₂, hproperties, h⟩ := Except.bind_eq_ok.mp h
  obtain ⟨s₃, hid, hschema⟩ := Except.bind_eq_ok.mp h
  rw [applyIgnoreUnknownInstances_eq] at hclass
  cases applyClassName_eq_ok hclass
  obtain ⟨properties, rfl, hkeys⟩ := AdjacentMetadata.applyProperties_eq_ok hproperties
  obtain ⟨hidOnce, rfl⟩ := AdjacentMetadata.applyId_eq_ok hid
  obtain ⟨hschemaOnce, rfl⟩ := AdjacentMetadata.applySchema_eq_ok hschema
  exact ⟨rfl, rfl, rfl, hidOnce, rfl, hschemaOnce, hkeys⟩

end DirectoryMetadata

/-! ## Both files -/

namespace AdjacentMetadata

/-- The meta file at a path, if there is one. -/
def readFile (vfs : Vfs) (path reported : PathBuf) : Fallible (Option AdjacentMetadata) := do
  match ← Fallible.ofIo (withNotFound (vfs.read path)) with
  | some contents => do
    let metadata ← fromSlice contents reported
    .ok (some metadata)
  | none => .ok none

end AdjacentMetadata

namespace DirectoryMetadata

def readFile (vfs : Vfs) (path : PathBuf) : Fallible (Option DirectoryMetadata) := do
  match ← Fallible.ofIo (withNotFound (vfs.read path)) with
  | some contents => do
    let metadata ← fromSlice contents path
    .ok (some metadata)
  | none => .ok none

end DirectoryMetadata

variable {vfs : Vfs} {path reported : PathBuf} {name : String}
  {first second : Option DirectoryMetadata} {s between s' : InstanceSnapshot}

namespace AdjacentMetadata

/-- The file as one of a directory. -/
def toDirectory (metadata : AdjacentMetadata) : DirectoryMetadata := ⟨metadata, none⟩

theorem applied_of_readAndApply (h : readAndApply vfs path reported s = .ok s') :
    ∃ file, readFile vfs path reported = .ok file ∧
      DirectoryMetadata.AppliedIfAny (file.map toDirectory) s s' := by
  unfold readAndApply at h
  obtain ⟨contents, hread, h⟩ := Except.bind_eq_ok.mp h
  cases contents with
  | none => exact ⟨none, Except.bind_eq_ok.mpr ⟨none, hread, rfl⟩, (Except.ok.inj h).symm⟩
  | some contents =>
    obtain ⟨metadata, hmetadata, h⟩ := Except.bind_eq_ok.mp h
    refine ⟨some metadata, ?_, DirectoryMetadata.applied_of_applyAll h⟩
    exact Except.bind_eq_ok.mpr
      ⟨some contents, hread, Except.bind_eq_ok.mpr ⟨metadata, hmetadata, rfl⟩⟩

end AdjacentMetadata

namespace DirectoryMetadata

theorem applied_of_readAndApply (h : readAndApply vfs path s = .ok s') :
    ∃ file, readFile vfs path = .ok file ∧ AppliedIfAny file s s' := by
  unfold readAndApply at h
  obtain ⟨contents, hread, h⟩ := Except.bind_eq_ok.mp h
  cases contents with
  | none => exact ⟨none, Except.bind_eq_ok.mpr ⟨none, hread, rfl⟩, (Except.ok.inj h).symm⟩
  | some contents =>
    obtain ⟨metadata, hmetadata, h⟩ := Except.bind_eq_ok.mp h
    refine ⟨some metadata, ?_, applied_of_applyAll h⟩
    exact Except.bind_eq_ok.mpr
      ⟨some contents, hread, Except.bind_eq_ok.mpr ⟨metadata, hmetadata, rfl⟩⟩

end DirectoryMetadata

/-- Two optional files have changed only what they state. The second one is resolved for the class
that the first one has left. -/
structure ChangesOnlyStated (first second : Option DirectoryMetadata)
    (s s' : InstanceSnapshot) : Prop where
  id : OnlyStated ((first.bind (·.id)).map fun id => .ok (some (RojoRef.mk id)))
    ((second.bind (·.id)).map fun id => .ok (some (RojoRef.mk id)))
    s.metadata.specifiedId s'.metadata.specifiedId
  schema : OnlyStated ((first.bind (·.schema)).map fun schema => .ok (some schema))
    ((second.bind (·.schema)).map fun schema => .ok (some schema))
    s.metadata.schema s'.metadata.schema
  ignoreUnknownInstances : OnlyStated ((first.bind (·.ignoreUnknownInstances)).map .ok)
    ((second.bind (·.ignoreUnknownInstances)).map .ok)
    s.metadata.ignoreUnknownInstances s'.metadata.ignoreUnknownInstances
  className : OnlyStated ((first.bind (·.className)).map .ok) ((second.bind (·.className)).map .ok)
    s.className s'.className
  properties : ∀ key, OnlyStated
    (first.bind (·.statedProperty ((first.bind (·.className)).getD s.className) key))
    (second.bind (·.statedProperty s'.className key))
    (s.properties.lookup key) (s'.properties.lookup key)

namespace DirectoryMetadata

/-! One file that is there or not, field by field. -/

namespace AppliedIfAny

variable {file : Option DirectoryMetadata}

theorem className (h : AppliedIfAny file s s') :
    s'.className = (file.bind (·.className)).getD s.className := by
  rcases file with _ | metadata
  · exact congrArg (·.className) h
  · exact h.className

theorem ignoreUnknownInstances (h : AppliedIfAny file s s') :
    s'.metadata.ignoreUnknownInstances =
      (file.bind (·.ignoreUnknownInstances)).getD s.metadata.ignoreUnknownInstances := by
  rcases file with _ | metadata
  · exact congrArg (·.metadata.ignoreUnknownInstances) h
  · exact h.ignoreUnknownInstances

theorem specifiedId (h : AppliedIfAny file s s') :
    s'.metadata.specifiedId =
      (file.map (·.id)).elim s.metadata.specifiedId (Option.map RojoRef.mk) := by
  rcases file with _ | metadata
  · exact congrArg (·.metadata.specifiedId) h
  · exact h.specifiedId

theorem idOnce (h : AppliedIfAny file s s') :
    (file.map (·.id)).join = none ∨ s.metadata.specifiedId = none := by
  rcases file with _ | metadata
  · exact .inl rfl
  · exact h.idOnce

theorem schema (h : AppliedIfAny file s s') :
    s'.metadata.schema = (file.map (·.schema)).elim s.metadata.schema (Option.map id) := by
  rcases file with _ | metadata
  · exact congrArg (·.metadata.schema) h
  · exact h.schema.trans Option.map_id'.symm

theorem schemaOnce (h : AppliedIfAny file s s') :
    (file.map (·.schema)).join = none ∨ s.metadata.schema = none := by
  rcases file with _ | metadata
  · exact .inl rfl
  · exact h.schemaOnce

theorem properties (h : AppliedIfAny file s s') (key : String) :
    (file.bind (·.statedProperty s'.className key)).getD (.ok (s.properties.lookup key)) =
      .ok (s'.properties.lookup key) := by
  rcases file with _ | metadata
  · rw [show s' = s from h]
    rfl
  · exact h.properties key

end AppliedIfAny

/-- What two files leave alone, of which the ids and the schemas depend on the files. -/
theorem AppliedIfAny.changesOnlyStated_iff (hfirst : AppliedIfAny first s between)
    (hsecond : AppliedIfAny second between s') :
    ChangesOnlyStated first second s s' ↔
      LastGives (first.map (·.id)) (second.map (·.id)) s.metadata.specifiedId ∧
        LastGives (first.map (·.schema)) (second.map (·.schema)) s.metadata.schema := by
  have hid : OnlyStated _ _ s.metadata.specifiedId s'.metadata.specifiedId ↔ _ :=
    onlyStated_iff_lastGives hfirst.specifiedId hsecond.specifiedId hfirst.idOnce hsecond.idOnce
  have hschema : OnlyStated _ _ s.metadata.schema s'.metadata.schema ↔ _ :=
    onlyStated_iff_lastGives hfirst.schema hsecond.schema hfirst.schemaOnce hsecond.schemaOnce
  rw [join_map_eq_bind, join_map_eq_bind] at hid hschema
  refine ⟨fun h => ⟨hid.mp h.id, hschema.mp h.schema⟩, fun h => ⟨hid.mpr h.1, hschema.mpr h.2, ?_,
    ?_, fun key => ?_⟩⟩
  · exact .of_getD (getD_map_ok hfirst.ignoreUnknownInstances)
      (getD_map_ok hsecond.ignoreUnknownInstances)
  · exact .of_getD (getD_map_ok hfirst.className) (getD_map_ok hsecond.className)
  · have hbefore := hfirst.properties key
    rw [hfirst.className] at hbefore
    exact .of_getD hbefore (hsecond.properties key)

theorem changesOnlyStated_pushRelevantPaths {paths : List PathBuf} :
    ChangesOnlyStated first second s (s'.pushRelevantPaths paths) ↔
      ChangesOnlyStated first second s s' :=
  ⟨fun h => ⟨h.id, h.schema, h.ignoreUnknownInstances, h.className, h.properties⟩,
    fun h => ⟨h.id, h.schema, h.ignoreUnknownInstances, h.className, h.properties⟩⟩

end DirectoryMetadata

/-- Meta files that were applied changed only what they state exactly if, for the id and for the
schema, there is no file, or the last one that is there gives it, or there was none before that
one. -/
theorem readAndApplyAll_changesOnlyStated_iff (vfs : Vfs) (path : PathBuf)
    (s s' : InstanceSnapshot) :
    (∀ name, AdjacentMetadata.readAndApplyAll vfs path name s = .ok s' →
      ∃ first second,
        AdjacentMetadata.readFile vfs (AdjacentMetadata.metaPathJson path name)
          (AdjacentMetadata.metaPathJson path name) = .ok first ∧
        AdjacentMetadata.readFile vfs (AdjacentMetadata.metaPathJsonc path name)
          (AdjacentMetadata.metaPathJson path name) = .ok second ∧
        (ChangesOnlyStated (first.map (·.toDirectory)) (second.map (·.toDirectory)) s s' ↔
          LastGives (first.map (·.id)) (second.map (·.id)) s.metadata.specifiedId ∧
            LastGives (first.map (·.schema)) (second.map (·.schema)) s.metadata.schema)) ∧
    (DirectoryMetadata.readAndApplyAll vfs path s = .ok s' →
      ∃ first second,
        DirectoryMetadata.readFile vfs (DirectoryMetadata.metaPathJson path) = .ok first ∧
        DirectoryMetadata.readFile vfs (DirectoryMetadata.metaPathJsonc path) = .ok second ∧
        (ChangesOnlyStated first second s s' ↔
          LastGives (first.map (·.id)) (second.map (·.id)) s.metadata.specifiedId ∧
            LastGives (first.map (·.schema)) (second.map (·.schema)) s.metadata.schema)) := by
  constructor
  · intro name h
    obtain ⟨between, hbetween, h⟩ := Except.bind_eq_ok.mp h
    obtain ⟨after, hafter, h⟩ := Except.bind_eq_ok.mp h
    obtain ⟨first, hfirst, hbefore⟩ := AdjacentMetadata.applied_of_readAndApply hbetween
    obtain ⟨second, hsecond, hthen⟩ := AdjacentMetadata.applied_of_readAndApply hafter
    refine ⟨first, second, hfirst, hsecond, ?_⟩
    rw [← Except.ok.inj h, DirectoryMetadata.changesOnlyStated_pushRelevantPaths,
      hbefore.changesOnlyStated_iff hthen]
    simp only [Option.map_map]
    rfl
  · intro h
    obtain ⟨between, hbetween, h⟩ := Except.bind_eq_ok.mp h
    obtain ⟨after, hafter, h⟩ := Except.bind_eq_ok.mp h
    obtain ⟨first, hfirst, hbefore⟩ := DirectoryMetadata.applied_of_readAndApply hbetween
    obtain ⟨second, hsecond, hthen⟩ := DirectoryMetadata.applied_of_readAndApply hafter
    refine ⟨first, second, hfirst, hsecond, ?_⟩
    rw [← Except.ok.inj h, DirectoryMetadata.changesOnlyStated_pushRelevantPaths,
      hbefore.changesOnlyStated_iff hthen]

/-! ## An id that is taken away -/

omit [Environment] in
/-- An environment in which some texts are known to be meta files. -/
@[reducible] def Environment.ofMetaFiles (files : List (String × AdjacentMetadata)) :
    Environment where
  isMatch _ _ := false
  project _ := .error "Failed to parse JSONC"
  adjacentMetadata contents :=
    match files.find? fun file => file.1.toUTF8.data.toList = contents with
    | some file => .ok file.2
    | none => .error "Failed to parse JSONC"
  directoryMetadata contents :=
    match files.find? fun file => file.1.toUTF8.data.toList = contents with
    | some file => .ok ⟨file.2, none⟩
    | none => .error "Failed to parse JSONC"
  jsonModel _ := .error "Failed to parse JSONC"
  rbxm _ := .error "Invalid file header"
  rbxmx _ := .error "Unexpected end of stream"
  localizationTable _ := .error "CSV error"
  jsonSource _ := .error "Failed to parse JSONC"
  tomlSource _ := .error "expected an equals"
  yamlSource _ := .error "did not find expected node content"
  resolve _ className property := .error s!"Could not resolve {className}.{property}"
  resolveUnambiguous _ := .error "Could not resolve attribute"
  isService _ := false
  runContext _ := none

/-- A meta file that may have an id and has nothing else. -/
def metaFile (id : Option String) : AdjacentMetadata where
  schema := none
  id := id
  ignoreUnknownInstances := none
  properties := []
  attributes := []
  path := ⟨false, []⟩

def idText : String := "\x7b\"id\":\"door\"\x7d"

def emptyText : String := "\x7b\x7d"

omit [Environment] in
@[reducible] def metaFiles : Environment :=
  .ofMetaFiles [(idText, metaFile (some "door")), (emptyText, metaFile none)]

/-- A module and a directory with one meta file each. -/
def keptDisk : Disk where
  entries :=
    [(["foo.lua"], some []), (["foo.meta.json"], some idText.toUTF8.data.toList),
      (["bar"], none), (["bar", "init.meta.jsonc"], some idText.toUTF8.data.toList)]
  named := by decide

omit [Environment] in
/-- A single file that has an id changes nothing else. -/
theorem changesOnlyStated_kept : letI := metaFiles
    (∃ s', AdjacentMetadata.readAndApplyAll keptDisk.vfs ⟨true, ["foo.lua"]⟩ "foo"
        InstanceSnapshot.new = .ok s' ∧ ∃ file : DirectoryMetadata, file.id = some "door" ∧
      ChangesOnlyStated (some file) none InstanceSnapshot.new s') ∧
    ∃ s', DirectoryMetadata.readAndApplyAll keptDisk.vfs ⟨true, ["bar"]⟩
        InstanceSnapshot.new = .ok s' ∧ ∃ file : DirectoryMetadata, file.id = some "door" ∧
      ChangesOnlyStated none (some file) InstanceSnapshot.new s' := by
  let _ := metaFiles
  constructor
  · obtain ⟨first, second, hfirst, hsecond, hiff⟩ := (readAndApplyAll_changesOnlyStated_iff
      keptDisk.vfs ⟨true, ["foo.lua"]⟩ InstanceSnapshot.new _).1 "foo" rfl
    cases hfirst
    cases hsecond
    exact ⟨_, rfl, _, rfl, hiff.mpr ⟨trivial, rfl, rfl⟩⟩
  · obtain ⟨first, second, hfirst, hsecond, hiff⟩ := (readAndApplyAll_changesOnlyStated_iff
      keptDisk.vfs ⟨true, ["bar"]⟩ InstanceSnapshot.new _).2 rfl
    cases hfirst
    cases hsecond
    exact ⟨_, rfl, _, rfl, hiff.mpr ⟨trivial, rfl, rfl⟩⟩

/-- A module with an id in its first meta file, and a second one that is empty. -/
def takenDisk : Disk where
  entries :=
    [(["foo.lua"], some []), (["foo.meta.json"], some idText.toUTF8.data.toList),
      (["foo.meta.jsonc"], some emptyText.toUTF8.data.toList)]
  named := by decide

omit [Environment] in
/-- The empty file is applied last and the id is gone, although only the first file states one. -/
theorem not_changesOnlyStated_taken : letI := metaFiles
    ¬ ∀ (vfs : Vfs) (path : PathBuf) (name : String) (s s' : InstanceSnapshot)
        (first second : Option AdjacentMetadata),
      AdjacentMetadata.readAndApplyAll vfs path name s = .ok s' →
      AdjacentMetadata.readFile vfs (AdjacentMetadata.metaPathJson path name)
        (AdjacentMetadata.metaPathJson path name) = .ok first →
      AdjacentMetadata.readFile vfs (AdjacentMetadata.metaPathJsonc path name)
        (AdjacentMetadata.metaPathJson path name) = .ok second →
      ChangesOnlyStated (first.map (·.toDirectory)) (second.map (·.toDirectory)) s s' := by
  let _ := metaFiles
  intro hall
  have h := hall takenDisk.vfs ⟨true, ["foo.lua"]⟩ "foo" InstanceSnapshot.new _ _ _ rfl rfl rfl
  cases h.id.onlyFirst _ rfl rfl

end Roxo
