import Roxo.Syncback.Dir

/-!
# Where children are written

A child whose file name is made of a validated name and an extension, or taken from its old path,
is written directly into the directory of its parent. A child that becomes a directory is joined
under its bare name, which may spell any path: it stays exactly if its name has one piece that is
a name (`confined_iff`), or if the last component is refused.
-/

namespace Roxo

open Lowercase WeakDom PathBuf

/-- The path is that of an entry of the directory. -/
def DirectChild (dir path : PathBuf) : Prop :=
  path.absolute = dir.absolute ∧ ∃ name, name ≠ ".." ∧ path.named = dir.named ++ [name]

/-- The text, joined to the directory, spells an entry of it: one name, or the directory itself
and one name. -/
def SpellsEntry (dir : PathBuf) (text : String) : Prop :=
  if text.toList.head? = some '/' then
    dir.absolute = true ∧ ∃ name, name ≠ ".." ∧ pieces text = dir.named ++ [name]
  else ∃ name, name ≠ ".." ∧ pieces text = [name]

/-- The components are names as they stand in paths. -/
def PathBuf.WellFormed (path : PathBuf) : Prop :=
  ∀ component ∈ path.components, component ≠ "" ∧ '/' ∉ component.toList

section Paths

variable {dir path : PathBuf} {text name : String}

theorem directChild_joinStr : DirectChild dir (dir.joinStr text) ↔ SpellsEntry dir text := by
  have habs := absolute_ofString text
  unfold DirectChild SpellsEntry
  rw [absolute_joinStr, named_joinStr]
  by_cases hhead : text.toList.head? = some '/'
  · rw [habs.mpr hhead, if_pos rfl, if_pos hhead, Bool.true_or]
    exact and_congr_left' eq_comm
  · rw [Bool.eq_false_iff.mpr (mt habs.mp hhead), if_neg Bool.false_ne_true, if_neg hhead,
      Bool.false_or]
    simp only [true_and, List.append_cancel_left_eq]

theorem spellsEntry_of_name (h : IsName text) : SpellsEntry dir text := by
  have hhead : text.toList.head? ≠ some '/' := fun hhead =>
    h.separator (List.mem_of_mem_head? hhead)
  unfold SpellsEntry
  rw [if_neg hhead]
  exact ⟨text, h.ne_parent, pieces_of_name h⟩

theorem fileName_eq_some (h : path.fileName = some name) :
    name ∈ path.components ∧ name ≠ ".." ∧ name ≠ "." := by
  unfold fileName at h
  cases hlast : path.components.getLast? with
  | none =>
    rw [hlast] at h
    cases h
  | some component =>
    rw [hlast] at h
    dsimp only at h
    split_ifs at h with hspecial
    obtain rfl := Option.some.inj h
    rw [not_or] at hspecial
    exact ⟨List.mem_of_getLast? hlast, hspecial⟩

end Paths

variable {D : Type} [WeakDom D]

/-- The paths that a tree lists are paths. -/
def RojoTree.PathsWellFormed (tree : RojoTree D) : Prop :=
  ∀ id metadata, tree.metadataMap.lookup id = some metadata →
    ∀ path ∈ metadata.relevantPaths, path.WellFormed

/-- If the path of the child is accepted, it is that of an entry of the directory. -/
def Confined (snapshot child : SyncbackSnapshot D) : Prop :=
  checkPath child.path = .ok () → DirectChild snapshot.path child.path

/-- A child that is new and becomes a directory has a name that spells an entry, or a name that
is refused. -/
def NameStays (snapshot child : SyncbackSnapshot D) : Prop :=
  ∀ inst, child.newInst = .ok inst → child.oldInst = .ok none →
    (newMiddleware snapshot.data.debugModelFormat inst).isDir = true →
      SpellsEntry snapshot.path inst.name ∨
        checkPath (snapshot.path.joinStr inst.name) ≠ .ok ()

/-- An instance of the old tree is written where it was. -/
theorem directChild_old {snapshot child : SyncbackSnapshot D} {old : InstanceWithMeta}
    {source : PathBuf} {name : String} (hpaths : snapshot.data.oldTree.PathsWellFormed)
    (hdata : child.data = snapshot.data) (hold : child.oldInst = .ok (some old))
    (hsource : old.metadata.relevantPaths.head? = some source)
    (hname : source.fileName = some name) : SpellsEntry snapshot.path name := by
  have hmetadata : ∃ id, snapshot.data.oldTree.metadataMap.lookup id = some old.metadata := by
    unfold SyncbackSnapshot.oldInst at hold
    rw [hdata] at hold
    cases hid : child.old with
    | none =>
      rw [hid] at hold
      cases hold
    | some id =>
      rw [hid] at hold
      have hget := Fallible.unwrap_eq_ok.mp hold
      unfold RojoTree.getInstance at hget
      cases hinst : getByRef snapshot.data.oldTree.inner id with
      | none =>
        rw [hinst] at hget
        cases hget
      | some inst =>
        rw [hinst] at hget
        obtain ⟨metadata, hlookup, hget⟩ := Option.bind_eq_some_iff.mp hget
        obtain rfl := Option.some.inj (Option.some.inj hget)
        exact ⟨id, hlookup⟩
  obtain ⟨id, hlookup⟩ := hmetadata
  obtain ⟨hmem, hparent, hdot⟩ := fileName_eq_some hname
  obtain ⟨hne, hsep⟩ := hpaths id _ hlookup source (List.mem_of_mem_head? hsource) name hmem
  exact spellsEntry_of_name ⟨hsep, hne, hdot, hparent⟩

section Confined

variable [ReflectionDatabase] [FloatCmp] [Hashing] [CaseTables]
  {snapshot child : SyncbackSnapshot D} {ret : SyncbackReturn D}

/-- Where a directory puts a child that it accepts. -/
theorem confined_iff (hpaths : snapshot.data.oldTree.PathsWellFormed)
    (hret : syncbackDirNoMeta snapshot = .ok ret) (hchild : child ∈ ret.children) :
    Confined snapshot child ↔ NameStays snapshot child := by
  obtain ⟨newRef, oldRef, hjoined⟩ := syncbackDirNoMeta_joined hret hchild
  obtain ⟨middleware, inst, oldInst, name, hcontents, hmiddleware, hinst, hold, hname⟩ :=
    SyncbackSnapshot.withJoinedPath_eq_ok hjoined
  have hdata : child.data = snapshot.data := by rw [hcontents]
  have hpath : child.path = snapshot.path.joinStr name := by rw [hcontents]
  have hdirect : Confined snapshot child ↔
      SpellsEntry snapshot.path name ∨ checkPath (snapshot.path.joinStr name) ≠ .ok () := by
    unfold Confined
    rw [hpath, directChild_joinStr, imp_iff_not_or, or_comm]
  rw [hdirect]
  rcases nameForInst_eq_ok hname with ⟨old, source, rfl, hsource, hfile⟩ |
      ⟨rfl, hdir, rfl⟩ | ⟨rfl, hfile, extension, hext, hvalid, rfl⟩
  · -- the child is in the old tree too
    refine ⟨fun _ inst' _ hnone => ?_, fun _ => Or.inl ?_⟩
    · rw [hold] at hnone
      cases hnone
    · exact directChild_old hpaths hdata hold hsource hfile
  · -- the bare name of a new directory
    have hbest : middleware = newMiddleware snapshot.data.debugModelFormat inst := by
      rw [← hdata]
      exact SyncbackSnapshot.getBestMiddleware_new (by rw [hcontents]) hinst hold hmiddleware
    constructor
    · intro h inst' hinst' _ _
      obtain rfl := Except.ok.inj (hinst.symm.trans hinst')
      exact h
    · intro h
      exact h inst hinst hold (hbest ▸ hdir)
  · -- the name of a new file
    have hbest : middleware = newMiddleware snapshot.data.debugModelFormat inst := by
      rw [← hdata]
      exact SyncbackSnapshot.getBestMiddleware_new (by rw [hcontents]) hinst hold hmiddleware
    refine ⟨fun _ inst' hinst' _ hdir => ?_, fun _ => Or.inl ?_⟩
    · obtain rfl := Except.ok.inj (hinst.symm.trans hinst')
      rw [← hbest, hfile] at hdir
      cases hdir
    · exact spellsEntry_of_name (isName_of_extension hext hvalid)

end Confined

/-! ## A folder with one child -/

/-- A folder at `/project/src` whose only child is a new folder. -/
def folderWith (childName : String) : SyncbackSnapshot MapDom :=
  let dom : MapDom := WeakDom.new (InstanceBuilder.new "Folder")
  let root := rootRef dom
  let child := (InstanceBuilder.new "Folder").withName childName
  let dom := ((WeakDom.insert dom root child).map Prod.snd).getD dom
  { data := ⟨⟨dom, ∅, MultiMap.new, MultiMap.new⟩, dom, none, none⟩
    old := none
    new := root
    path := ⟨true, ["project", "src"]⟩
    middleware := none }

/-- The paths that syncback of a directory gives to the children. -/
def childPaths [ReflectionDatabase] [FloatCmp] [Hashing] [CaseTables]
    (snapshot : SyncbackSnapshot MapDom) : Option (List PathBuf) :=
  (syncbackDirNoMeta snapshot).toOption.map fun ret => ret.children.map (·.path)

theorem childPaths_eq_some [ReflectionDatabase] [FloatCmp] [Hashing] [CaseTables]
    {snapshot : SyncbackSnapshot MapDom} {path : PathBuf}
    (h : childPaths snapshot = some [path]) :
    ∃ ret child, syncbackDirNoMeta snapshot = .ok ret ∧ child ∈ ret.children ∧
      child.path = path := by
  unfold childPaths at h
  obtain ⟨ret, hret, hpaths⟩ := Option.map_eq_some_iff.mp h
  obtain ⟨child, hchild, hpath⟩ := List.map_eq_singleton_iff.mp hpaths
  refine ⟨ret, child, ?_, hchild ▸ List.mem_singleton_self child, hpath⟩
  cases hok : syncbackDirNoMeta snapshot with
  | error e =>
    rw [hok] at hret
    cases hret
  | ok r =>
    rw [hok] at hret
    rw [Option.some.inj hret]

theorem folderWith_pathsWellFormed (childName : String) :
    (folderWith childName).data.oldTree.PathsWellFormed := by
  intro id metadata h
  cases h

theorem confined_lib : letI := ReflectionDatabase.empty; letI := FloatCmp.exact
    letI := Hashing.truncated; letI := CaseTables.ascii
    ∃ ret child, syncbackDirNoMeta (folderWith "lib") = .ok ret ∧ child ∈ ret.children ∧
      Confined (folderWith "lib") child ∧ NameStays (folderWith "lib") child := by
  let _ := ReflectionDatabase.empty
  let _ := FloatCmp.exact
  let _ := Hashing.truncated
  let _ := CaseTables.ascii
  have hpaths : childPaths (folderWith "lib") = some [⟨true, ["project", "src", "lib"]⟩] := by
    decide +kernel
  obtain ⟨ret, child, hret, hchild, hpath⟩ := childPaths_eq_some hpaths
  have hconfined : Confined (folderWith "lib") child := by
    intro _
    rw [hpath]
    exact ⟨rfl, "lib", by decide, rfl⟩
  exact ⟨ret, child, hret, hchild, hconfined,
    (confined_iff (folderWith_pathsWellFormed "lib") hret hchild).mp hconfined⟩

/-- A folder named `..` is written into the parent of the directory. -/
theorem not_confined_parent : letI := ReflectionDatabase.empty; letI := FloatCmp.exact
    letI := Hashing.truncated; letI := CaseTables.ascii
    ¬ ∀ (snapshot child : SyncbackSnapshot MapDom) (ret : SyncbackReturn MapDom),
      snapshot.data.oldTree.PathsWellFormed → syncbackDirNoMeta snapshot = .ok ret →
        child ∈ ret.children → Confined snapshot child := by
  let _ := ReflectionDatabase.empty
  let _ := FloatCmp.exact
  let _ := Hashing.truncated
  let _ := CaseTables.ascii
  intro hall
  have hpaths : childPaths (folderWith "..") = some [⟨true, ["project", "src", ".."]⟩] := by
    decide +kernel
  obtain ⟨ret, child, hret, hchild, hpath⟩ := childPaths_eq_some hpaths
  have hconfined := hall _ _ _ (folderWith_pathsWellFormed "..") hret hchild
  unfold Confined at hconfined
  rw [hpath] at hconfined
  obtain ⟨-, name, hname, hnamed⟩ := hconfined rfl
  have hlast : (["project", "src", ".."] : List String) = ["project", "src"] ++ [name] := hnamed
  exact hname (by simpa using hlast.symm)

end Roxo
