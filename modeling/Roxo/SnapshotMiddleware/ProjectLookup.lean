import Roxo.SnapshotMiddleware.Snapshot
import Roxo.Vfs.Disk

/-!
# Which project a directory has

Three functions look for the default project file of a directory: `locate` for the commands that
take a project from anywhere, `loadInitialProject` for the one that is served, and
`getDirMiddleware` for directories inside of it. They agree if `default.project.json` is a file or
if there is no default project, and only then (`Project.resolversAgree_iff`).
-/

namespace Roxo

/-- Something is at the path, as far as that can be told. -/
def Vfs.exists (vfs : Vfs) (path : PathBuf) : Except IoError Bool :=
  (withNotFound (vfs.metadata path)).map Option.isSome

namespace Project

/-- The path is that of a project by its name. -/
def isProjectFile (path : PathBuf) : Bool :=
  match path.fileName with
  | some name => endsWith name ".project.json" || endsWith name ".project.jsonc"
  | none => false

/-- The loop of `locate` over the default names. It is left as soon as there is nothing under a
name, also when later names have not been tried. -/
def locateDefault (vfs : Vfs) (path : PathBuf) : List String → Option PathBuf
  | [] => none
  | filename :: rest =>
    match vfs.metadata (path.joinStr filename) with
    | .ok childMeta =>
      if childMeta.isFile then some (path.joinStr filename) else locateDefault vfs path rest
    | .error _ => none

/-- Attempts to locate a project represented by the given path. -/
def locate (vfs : Vfs) (path : PathBuf) : Option PathBuf :=
  match vfs.metadata path with
  | .ok metadata =>
    if metadata.isFile then if isProjectFile path then some path else none
    else locateDefault vfs path defaultProjectNames
  | .error _ => none

/-- Loads a project from a path, or from the directory there. -/
def loadFuzzy [Environment] (vfs : Vfs) (path : PathBuf) : Fallible (Option Project) := do
  match locate vfs path with
  | some projectPath => do
    let project ← loadExact vfs projectPath none
    .ok (some project)
  | none => .ok none

/-- The first of some names under which there is something. -/
def firstThere (vfs : Vfs) (path : PathBuf) : List String → Option PathBuf
  | [] => none
  | name :: rest =>
    match vfs.exists (path.joinStr name) with
    | .ok true => some (path.joinStr name)
    | _ => firstThere vfs path rest

/-- The project file that is served when Rojo starts at a path. -/
def initialProjectPath (vfs : Vfs) (path : PathBuf) : Option PathBuf :=
  if isProjectFile path then some path else firstThere vfs path defaultProjectNames

def loadInitialProject [Environment] (vfs : Vfs) (path : PathBuf) : Fallible Project :=
  match initialProjectPath vfs path with
  | some projectPath => loadExact vfs projectPath none
  | none =>
    let path := path.display
    Fallible.bail
      (s!"Rojo requires a project file, but no project file was found in path {path}\n" ++
        "See https://rojo.space/docs/ for guides and documentation.")

/-- What the middleware of a directory takes for its project file. -/
def projectOfMiddleware (selected : Middleware × String × PathBuf) : Option PathBuf :=
  if selected.1 = .project then some selected.2.2 else none

/-- The three functions select the same project file, or all of them none. -/
def ResolversAgree (vfs : Vfs) (path : PathBuf) : Prop :=
  initialProjectPath vfs path = locate vfs path ∧
    ∃ selected, getDirMiddleware vfs path = .ok selected ∧
      projectOfMiddleware selected = locate vfs path

/-! ## The names one by one -/

/-- The names that are looked for in a directory. -/
def specialNames : List String := defaultProjectNames ++ initPaths.map Prod.snd

/-- What is under a name is known: nothing, a file or a directory. -/
def Known (vfs : Vfs) (path : PathBuf) : Prop :=
  withNotFound (vfs.metadata path) = .ok none ∨ vfs.metadata path = .ok ⟨true⟩ ∨
    vfs.metadata path = .ok ⟨false⟩

instance (vfs : Vfs) (path : PathBuf) : Decidable (Known vfs path) :=
  inferInstanceAs (Decidable (_ ∨ _ ∨ _))

variable {vfs : Vfs} {path : PathBuf} {name : String}

theorem firstThere_missing {rest : List String}
    (h : withNotFound (vfs.metadata (path.joinStr name)) = .ok none) :
    firstThere vfs path (name :: rest) = firstThere vfs path rest := by
  rw [firstThere, Vfs.exists, h]
  rfl

theorem firstThere_there {rest : List String} {metadata : Metadata}
    (h : vfs.metadata (path.joinStr name) = .ok metadata) :
    firstThere vfs path (name :: rest) = some (path.joinStr name) := by
  rw [firstThere, Vfs.exists, h]
  rfl

theorem firstExisting_missing {middleware : Middleware} {rest : List (Middleware × String)}
    (h : withNotFound (vfs.metadata (path.joinStr name)) = .ok none) :
    firstExisting vfs path ((middleware, name) :: rest) = firstExisting vfs path rest := by
  rw [firstExisting, h]
  rfl

theorem firstExisting_there {middleware : Middleware} {rest : List (Middleware × String)}
    {metadata : Metadata} (h : vfs.metadata (path.joinStr name) = .ok metadata) :
    firstExisting vfs path ((middleware, name) :: rest) =
      .ok (some (middleware, path.joinStr name)) := by
  rw [firstExisting, h]
  rfl

theorem Known.cases (h : Known vfs path) :
    withNotFound (vfs.metadata path) = .ok none ∨ ∃ metadata, vfs.metadata path = .ok metadata := by
  rcases h with h | h | h
  · exact .inl h
  · exact .inr ⟨_, h⟩
  · exact .inr ⟨_, h⟩

/-- The init files of a directory do not make it a project. -/
theorem exists_firstExisting {l : List (Middleware × String)}
    (hknown : ∀ e ∈ l, Known vfs (path.joinStr e.2)) :
    ∃ found, firstExisting vfs path l = .ok found ∧ ∀ f ∈ found, f.1 ∈ l.map Prod.fst := by
  induction l with
  | nil => exact ⟨none, rfl, nofun⟩
  | cons e l ih =>
    rcases (hknown e List.mem_cons_self).cases with h | ⟨metadata, h⟩
    · obtain ⟨found, heq, hfound⟩ := ih fun e he => hknown e (List.mem_cons_of_mem _ he)
      refine ⟨found, (firstExisting_missing h).trans heq, fun f hf => ?_⟩
      exact List.mem_cons_of_mem _ (hfound f hf)
    · refine ⟨_, firstExisting_there h, ?_⟩
      rintro f ⟨⟩
      exact List.mem_cons_self

/-- The middleware of a directory looks for projects as the initial one is looked for. -/
theorem exists_firstExisting_default {inits : List (Middleware × String)} {names : List String}
    (hnames : ∀ name ∈ names, Known vfs (path.joinStr name))
    (hinits : ∀ e ∈ inits, Known vfs (path.joinStr e.2))
    (hother : Middleware.project ∉ inits.map Prod.fst) :
    ∃ found, firstExisting vfs path (names.map (fun name => (Middleware.project, name)) ++ inits) =
        .ok found ∧
      (found.bind fun f => if f.1 = .project then some f.2 else none) =
        firstThere vfs path names := by
  induction names with
  | nil =>
    obtain ⟨found, heq, hfound⟩ := exists_firstExisting hinits
    refine ⟨found, heq, ?_⟩
    rcases found with _ | f
    · rfl
    · refine if_neg fun hproject => hother ?_
      rw [← hproject]
      exact hfound f rfl
  | cons name names ih =>
    rcases (hnames name List.mem_cons_self).cases with h | ⟨metadata, h⟩
    · obtain ⟨found, heq, hfound⟩ := ih fun name hname => hnames name (List.mem_cons_of_mem _ hname)
      refine ⟨found, (firstExisting_missing h).trans heq, ?_⟩
      rw [hfound, firstThere_missing h]
    · exact ⟨_, firstExisting_there h, (firstThere_there h).symm⟩

theorem exists_getDirMiddleware (hname : path.fileName.isSome)
    (hknown : ∀ name ∈ specialNames, Known vfs (path.joinStr name)) :
    ∃ selected, getDirMiddleware vfs path = .ok selected ∧
      projectOfMiddleware selected = firstThere vfs path defaultProjectNames := by
  obtain ⟨dirName, hdirName⟩ := Option.isSome_iff_exists.mp hname
  obtain ⟨found, heq, hfound⟩ := exists_firstExisting_default
    (fun name (hname : name ∈ defaultProjectNames) => hknown name (List.mem_append_left _ hname))
    (fun e (he : e ∈ initPaths) =>
      hknown e.2 (List.mem_append_right _ (List.mem_map_of_mem he))) (by decide)
  unfold getDirMiddleware
  rw [hdirName, heq, ← hfound]
  rcases found with _ | f
  · exact ⟨_, rfl, rfl⟩
  · exact ⟨_, rfl, rfl⟩

/-! ## Agreement -/

/-- A default project is in the directory. -/
theorem locate_eq (hdir : vfs.metadata path = .ok ⟨false⟩) :
    locate vfs path = locateDefault vfs path defaultProjectNames := by
  rw [locate, hdir]
  rfl

theorem joinStr_default_ne (hname : path.fileName.isSome) (h : name ∈ defaultProjectNames) :
    path.joinStr name ≠ path := by
  have hsuffix : PathBuf.ofString name = ⟨false, [name]⟩ ∧ name ≠ "." := by
    revert name
    decide
  have hcomponents : path.components ≠ [] := by
    intro hnil
    rw [PathBuf.fileName, hnil] at hname
    cases hname
  intro heq
  have hlength := congrArg (fun path => path.components.length) heq
  rw [PathBuf.joinStr, PathBuf.join, hsuffix.1, if_neg Bool.false_ne_true,
    if_neg fun hboth => hcomponents hboth.1, List.filter_singleton, decide_eq_true hsuffix.2] at hlength
  simp at hlength

/-- What is located in a directory is not the directory. -/
theorem locateDefault_ne_self (hname : path.fileName.isSome) {names : List String}
    (h : ∀ name ∈ names, name ∈ defaultProjectNames) :
    locateDefault vfs path names ≠ some path := by
  induction names with
  | nil => nofun
  | cons name names ih =>
    unfold locateDefault
    split
    · split_ifs
      · exact fun heq =>
          joinStr_default_ne hname (h name List.mem_cons_self) (Option.some.inj heq)
      · exact ih fun name hmem => h name (List.mem_cons_of_mem _ hmem)
    · nofun

theorem locateDefault_missing {rest : List String}
    (h : withNotFound (vfs.metadata (path.joinStr name)) = .ok none) :
    locateDefault vfs path (name :: rest) = none := by
  unfold locateDefault
  split
  · rename_i hfound
    rw [hfound] at h
    cases h
  · rfl

theorem locateDefault_there {rest : List String} {metadata : Metadata}
    (h : vfs.metadata (path.joinStr name) = .ok metadata) :
    locateDefault vfs path (name :: rest) =
      if metadata.isFile then some (path.joinStr name) else locateDefault vfs path rest := by
  rw [locateDefault, h]

theorem not_missing {metadata : Metadata} (h : vfs.metadata path = .ok metadata) :
    withNotFound (vfs.metadata path) ≠ .ok none := by
  rw [h]
  nofun

/-- Nothing but the first default name can be located, and it only as a file. -/
theorem locateDefault_ne_firstThere
    (hjson : vfs.metadata (path.joinStr "default.project.json") = .ok ⟨false⟩)
    (hjsonc : Known vfs (path.joinStr "default.project.jsonc")) :
    locateDefault vfs path defaultProjectNames ≠ firstThere vfs path defaultProjectNames := by
  have hne : path.joinStr "default.project.jsonc" ≠ path.joinStr "default.project.json" := by
    intro heq
    have hnames := congrArg PathBuf.fileName heq
    rw [PathBuf.fileName_joinStr_of_name _ ⟨by decide, by decide, by decide, by decide⟩,
      PathBuf.fileName_joinStr_of_name _ ⟨by decide, by decide, by decide, by decide⟩] at hnames
    exact absurd (Option.some.inj hnames) (by decide)
  unfold defaultProjectNames
  rw [locateDefault_there hjson, firstThere_there hjson, if_neg Bool.false_ne_true]
  rcases hjsonc with h | h | h
  · rw [locateDefault_missing h]
    nofun
  · rw [locateDefault_there h, if_pos rfl]
    exact fun heq => hne (Option.some.inj heq)
  · rw [locateDefault_there h, if_neg Bool.false_ne_true]
    nofun

theorem locateDefault_eq_firstThere_iff
    (hjson : Known vfs (path.joinStr "default.project.json"))
    (hjsonc : Known vfs (path.joinStr "default.project.jsonc")) :
    locateDefault vfs path defaultProjectNames = firstThere vfs path defaultProjectNames ↔
      vfs.metadata (path.joinStr "default.project.json") = .ok ⟨true⟩ ∨
        ∀ name ∈ defaultProjectNames, withNotFound (vfs.metadata (path.joinStr name)) = .ok none := by
  rcases hjson with h | h | h
  · have hleft : locateDefault vfs path defaultProjectNames = none := locateDefault_missing h
    have hright : firstThere vfs path defaultProjectNames =
        firstThere vfs path ["default.project.jsonc"] := firstThere_missing h
    rw [hleft, hright]
    rcases hjsonc.cases with hc | ⟨metadata, hc⟩
    · rw [firstThere_missing hc]
      refine iff_of_true rfl (.inr fun name hname => ?_)
      rcases List.mem_pair.mp hname with rfl | rfl
      · exact h
      · exact hc
    · rw [firstThere_there hc]
      refine iff_of_false nofun ?_
      rintro (hfile | hnone)
      · exact not_missing hfile h
      · exact not_missing hc (hnone _ (List.mem_pair.mpr (.inr rfl)))
  · refine iff_of_true ?_ (.inl h)
    unfold defaultProjectNames
    rw [locateDefault_there h, firstThere_there h, if_pos rfl]
  · refine iff_of_false (locateDefault_ne_firstThere h hjsonc) ?_
    rintro (hfile | hnone)
    · cases h.symm.trans hfile
    · exact not_missing h (hnone _ (List.mem_pair.mpr (.inl rfl)))

/-- The three functions agree on a directory exactly if it is not itself named like a project, and
`default.project.json` in it is a file or there is no default project at all. -/
theorem resolversAgree_iff (hname : path.fileName.isSome) (hdir : vfs.metadata path = .ok ⟨false⟩)
    (hknown : ∀ name ∈ specialNames, Known vfs (path.joinStr name)) :
    ResolversAgree vfs path ↔ isProjectFile path = false ∧
      (vfs.metadata (path.joinStr "default.project.json") = .ok ⟨true⟩ ∨
        ∀ name ∈ defaultProjectNames, withNotFound (vfs.metadata (path.joinStr name)) = .ok none) := by
  obtain ⟨selected, heq, hselected⟩ := exists_getDirMiddleware hname hknown
  rw [← locateDefault_eq_firstThere_iff (hknown _ (by decide)) (hknown _ (by decide))]
  unfold ResolversAgree
  rw [locate_eq hdir]
  constructor
  · rintro ⟨hinitial, -⟩
    unfold initialProjectPath at hinitial
    split_ifs at hinitial with hproject
    · exact absurd hinitial.symm (locateDefault_ne_self hname fun name hmem => hmem)
    · exact ⟨Bool.eq_false_iff.mpr hproject, hinitial.symm⟩
  · rintro ⟨hproject, hagree⟩
    refine ⟨?_, selected, heq, hselected.trans hagree.symm⟩
    rw [initialProjectPath, hproject, if_neg Bool.false_ne_true, hagree]

/-! ## Directories with one default project -/

def jsonDisk : Disk where
  entries := [(["game"], none), (["game", "default.project.json"], some [])]
  named := by decide

theorem resolversAgree_json : ResolversAgree jsonDisk.vfs ⟨true, ["game"]⟩ :=
  (resolversAgree_iff rfl rfl (by decide)).mpr ⟨by decide, .inl rfl⟩

def jsoncDisk : Disk where
  entries := [(["game"], none), (["game", "default.project.jsonc"], some [])]
  named := by decide

/-- The project is served and synced, and the commands that locate one say that there is none. -/
theorem not_resolversAgree_jsonc : ¬ ∀ (vfs : Vfs) (path : PathBuf), path.fileName.isSome →
    vfs.metadata path = .ok ⟨false⟩ → (∀ name ∈ specialNames, Known vfs (path.joinStr name)) →
    ResolversAgree vfs path := by
  intro hall
  obtain ⟨hinitial, -⟩ := hall jsoncDisk.vfs ⟨true, ["game"]⟩ rfl rfl (by decide)
  exact absurd hinitial (by decide)

end Project

end Roxo
