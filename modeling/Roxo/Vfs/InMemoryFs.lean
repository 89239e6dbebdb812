import Mathlib.Data.Finset.Erase
import Mathlib.Data.Finset.Insert
import Mathlib.Logic.Relation
import Roxo.Library.AssocMap
import Roxo.Library.Transition
import Roxo.Vfs.Vfs

/-!
# The filesystem in memory

The backend of the tests keeps what is stored at each path, the listing of every directory, and
the paths without a stored parent. Loading a snapshot makes its files and directories one after
the other (`loadSnapshot_eq`). A directory is made with an empty listing even if it is stored
already, and removing does not touch the listing of the parent, so that the three views drift
apart; they agree all along a run exactly if every operation meets `Careful`
(`staysConsistent_iff`).
-/

namespace Roxo

open AssocMap Transition

mutual

/-- A slice of a tree of files. -/
inductive VfsSnapshot where
  | file (contents : List UInt8)
  | dir (children : VfsChildren)

/-- The children of a directory by their names. -/
inductive VfsChildren where
  | nil
  | cons (name : String) (child : VfsSnapshot) (rest : VfsChildren)

end

namespace InMemoryFs

inductive Entry where
  | file (contents : List UInt8)
  | dir (children : List PathBuf)
  deriving DecidableEq

end InMemoryFs

structure InMemoryFs where
  entries : Map PathBuf InMemoryFs.Entry
  orphans : Finset PathBuf

namespace InMemoryFs

def new : InMemoryFs := ⟨∅, ∅⟩

def mustBeFile (path : PathBuf) : IoError :=
  ⟨.other, "path " ++ path.display ++ " was a directory, but must be a file"⟩

def mustBeDir (path : PathBuf) : IoError :=
  ⟨.other, "path " ++ path.display ++ " was a file, but must be a directory"⟩

def notFound (path : PathBuf) : IoError := ⟨.notFound, "path " ++ path.display ++ " not found"⟩

/-- Lists the path in its parent, or as an orphan. -/
def register (fs : InMemoryFs) (path : PathBuf) : Except IoError InMemoryFs :=
  match path.parent with
  | some parentPath =>
    match fs.entries.lookup parentPath with
    | some (.dir children) =>
      .ok { fs with entries := fs.entries.insert parentPath (.dir (children.insert path)) }
    | some (.file _) => .error (mustBeDir parentPath)
    | none => .ok { fs with orphans := insert path fs.orphans }
  | none => .ok { fs with orphans := insert path fs.orphans }

def store (fs : InMemoryFs) (path : PathBuf) (entry : Entry) : InMemoryFs :=
  { fs with entries := fs.entries.insert path entry }

/-- The `?` operator: an error ends the operation. -/
def andThen (result : InMemoryFs × Except IoError Unit)
    (next : InMemoryFs → InMemoryFs × Except IoError Unit) : InMemoryFs × Except IoError Unit :=
  match result.2 with
  | .error err => (result.1, .error err)
  | .ok () => next result.1

mutual

def loadSnapshot (fs : InMemoryFs) (path : PathBuf) :
    VfsSnapshot → InMemoryFs × Except IoError Unit
  | .file contents =>
    match fs.register path with
    | .error err => (fs, .error err)
    | .ok fs => (fs.store path (.file contents), .ok ())
  | .dir children =>
    match fs.register path with
    | .error err => (fs, .error err)
    | .ok fs => loadChildren (fs.store path (.dir [])) path children

/-- The loop over the children of a snapshot. -/
def loadChildren (fs : InMemoryFs) (path : PathBuf) :
    VfsChildren → InMemoryFs × Except IoError Unit
  | .nil => (fs, .ok ())
  | .cons name child rest =>
    andThen (loadSnapshot fs (path.joinStr name) child) fun fs => loadChildren fs path rest

end

/-- What removing a path gives to remove next. -/
def childrenOf (entries : Map PathBuf Entry) (path : PathBuf) : List PathBuf :=
  match entries.lookup path with
  | some (.dir children) => children
  | _ => []

theorem removeLoop_decreases (entries : Map PathBuf Entry) (path : PathBuf)
    (toRemove : List PathBuf) :
    Prod.Lex (· < ·) (· < ·)
      ((entries.erase path).keys.length, (toRemove ++ childrenOf entries path).length)
      (entries.keys.length, (path :: toRemove).length) := by
  rw [AList.keys_erase]
  by_cases hmem : path ∈ entries.keys
  · refine .left _ _ ?_
    rw [List.length_erase_of_mem hmem]
    exact Nat.sub_lt (List.length_pos_of_mem hmem) Nat.one_pos
  · have hnone : entries.lookup path = none :=
      AList.lookup_eq_none.mpr fun h => hmem (AList.mem_keys.mpr h)
    rw [List.erase_of_not_mem hmem, childrenOf, hnone, List.append_nil]
    exact .right _ (Nat.lt_succ_self _)

/-- What the queue of paths to remove leaves of the entries. -/
def removeLoop (entries : Map PathBuf Entry) : List PathBuf → Map PathBuf Entry
  | [] => entries
  | path :: toRemove => removeLoop (entries.erase path) (toRemove ++ childrenOf entries path)
  termination_by toRemove => (entries.keys.length, toRemove.length)
  decreasing_by exact removeLoop_decreases entries path toRemove

def remove (fs : InMemoryFs) (rootPath : PathBuf) : InMemoryFs :=
  ⟨removeLoop fs.entries [rootPath], fs.orphans.erase rootPath⟩

def write (fs : InMemoryFs) (path : PathBuf) (data : List UInt8) :
    InMemoryFs × Except IoError Unit := fs.loadSnapshot path (.file data)

def createDir (fs : InMemoryFs) (path : PathBuf) : InMemoryFs × Except IoError Unit :=
  fs.loadSnapshot path (.dir .nil)

/-- Makes directories one after the other until one fails. -/
def createDirs (fs : InMemoryFs) : List PathBuf → InMemoryFs × Except IoError Unit
  | [] => (fs, .ok ())
  | path :: paths => andThen (fs.createDir path) fun fs => createDirs fs paths

/-- The parents are made from the path upwards, and the path at last. -/
def createDirAll (fs : InMemoryFs) (path : PathBuf) : InMemoryFs × Except IoError Unit :=
  fs.createDirs (path.ancestors.tail ++ [path])

def removeFile (fs : InMemoryFs) (path : PathBuf) : InMemoryFs × Except IoError Unit :=
  match fs.entries.lookup path with
  | some (.file _) => (fs.remove path, .ok ())
  | some (.dir _) => (fs, .error (mustBeFile path))
  | none => (fs, .error (notFound path))

def removeDirAll (fs : InMemoryFs) (path : PathBuf) : InMemoryFs × Except IoError Unit :=
  match fs.entries.lookup path with
  | some (.dir _) => (fs.remove path, .ok ())
  | some (.file _) => (fs, .error (mustBeDir path))
  | none => (fs, .error (notFound path))

def readDir (fs : InMemoryFs) (path : PathBuf) : Except IoError (List PathBuf) :=
  match fs.entries.lookup path with
  | some (.dir children) => .ok children
  | some (.file _) => .error (mustBeDir path)
  | none => .error (notFound path)

/-- What is done with the filesystem. -/
inductive Op where
  | loadSnapshot (path : PathBuf) (snapshot : VfsSnapshot)
  | write (path : PathBuf) (data : List UInt8)
  | createDir (path : PathBuf)
  | createDirAll (path : PathBuf)
  | removeFile (path : PathBuf)
  | removeDirAll (path : PathBuf)

/-- An operation leaves its changes behind even if it fails. -/
def apply (fs : InMemoryFs) : Op → InMemoryFs × Except IoError Unit
  | .loadSnapshot path snapshot => fs.loadSnapshot path snapshot
  | .write path data => fs.write path data
  | .createDir path => fs.createDir path
  | .createDirAll path => fs.createDirAll path
  | .removeFile path => fs.removeFile path
  | .removeDirAll path => fs.removeDirAll path

def Act (fs : InMemoryFs) (op : Op) (fs' : InMemoryFs) : Prop := fs' = (fs.apply op).1

/-! ## What a filesystem is -/

def Stored (fs : InMemoryFs) (path : PathBuf) : Prop := (fs.entries.lookup path).isSome

/-- What is stored without a stored parent is an orphan. -/
def HasOrphans (fs : InMemoryFs) : Prop :=
  ∀ path, fs.Stored path → (∀ dir, path.parent = some dir → ¬fs.Stored dir) → path ∈ fs.orphans

/-- The three views of the filesystem agree. -/
structure Consistent (fs : InMemoryFs) : Prop where
  listed : ∀ dir children, fs.entries.lookup dir = some (.dir children) →
    ∀ path, path ∈ children ↔ fs.Stored path ∧ path.parent = some dir
  orphan : fs.HasOrphans

/-- Every existing child is read, and no removed one. -/
theorem Consistent.mem_readDir {fs : InMemoryFs} (h : fs.Consistent) {dir : PathBuf}
    {children : List PathBuf} (hread : fs.readDir dir = .ok children) (path : PathBuf) :
    path ∈ children ↔ fs.Stored path ∧ path.parent = some dir := by
  refine h.listed dir children ?_ path
  unfold readDir at hread
  split at hread <;> simp_all

/-- Files keep their contents and directories what they list. -/
structure Kept (fs fs' : InMemoryFs) : Prop where
  file : ∀ path contents, fs.entries.lookup path = some (.file contents) →
    fs'.entries.lookup path = some (.file contents)
  dir : ∀ path children, fs.entries.lookup path = some (.dir children) →
    ∃ children', fs'.entries.lookup path = some (.dir children') ∧ children ⊆ children'

/-! ## Removing -/

/-- The path is listed by the directory. -/
def Listed (entries : Map PathBuf Entry) (dir path : PathBuf) : Prop :=
  path ∈ childrenOf entries dir

/-- The path is reached from the root of a tree through listings. -/
def Below (entries : Map PathBuf Entry) : PathBuf → PathBuf → Prop :=
  Relation.ReflTransGen (Listed entries)

theorem listed_iff {entries : Map PathBuf Entry} {dir path : PathBuf} :
    Listed entries dir path ↔
      ∃ children, entries.lookup dir = some (.dir children) ∧ path ∈ children := by
  unfold Listed childrenOf
  cases entries.lookup dir with
  | none => simp
  | some entry => cases entry <;> simp

theorem listed_erase {entries : Map PathBuf Entry} {removed dir path : PathBuf} :
    Listed (entries.erase removed) dir path ↔ dir ≠ removed ∧ Listed entries dir path := by
  rw [listed_iff, listed_iff, lookup_erase_eq]
  split_ifs with h <;> simp [h]

theorem Below.of_erase {entries : Map PathBuf Entry} {removed dir path : PathBuf}
    (h : Below (entries.erase removed) dir path) : Below entries dir path := by
  have hsub : Listed (entries.erase removed) ≤ Listed entries := fun _ _ hlisted =>
    (listed_erase.mp hlisted).2
  exact Relation.ReflTransGen.mono hsub _ _ h

/-- What is reached from a path is reached without the removed one, or from what that lists. -/
theorem Below.erase {entries : Map PathBuf Entry} {dir path : PathBuf}
    (h : Below entries dir path) (removed : PathBuf) : path = removed ∨
      ∃ start, (start = dir ∧ dir ≠ removed ∨ Listed entries removed start) ∧
        Below (entries.erase removed) start path := by
  induction h using Relation.ReflTransGen.head_induction_on with
  | refl =>
    by_cases heq : path = removed
    · exact .inl heq
    · exact .inr ⟨path, .inl ⟨rfl, heq⟩, .refl⟩
  | @head dir next hlisted _ ih =>
    rcases ih with heq | ⟨start, hstart | hstart, hbelow⟩
    · exact .inl heq
    · obtain ⟨rfl, -⟩ := hstart
      by_cases heq : dir = removed
      · exact .inr ⟨start, .inr (heq ▸ hlisted), hbelow⟩
      · exact .inr ⟨dir, .inl ⟨rfl, heq⟩, hbelow.head (listed_erase.mpr ⟨heq, hlisted⟩)⟩
    · exact .inr ⟨start, .inr hstart, hbelow⟩

/-- What is not reached from the queue stays. -/
theorem lookup_removeLoop_of_not_below {entries : Map PathBuf Entry} {toRemove : List PathBuf}
    {path : PathBuf} (h : ∀ root ∈ toRemove, ¬Below entries root path) :
    (removeLoop entries toRemove).lookup path = entries.lookup path := by
  fun_induction removeLoop entries toRemove with
  | case1 entries => rfl
  | case2 entries removed toRemove ih =>
    have hne : path ≠ removed := by
      rintro rfl
      exact h path List.mem_cons_self .refl
    rw [ih, lookup_erase_eq, if_neg hne]
    intro root hroot hbelow
    rcases List.mem_append.mp hroot with hroot | hroot
    · exact h root (List.mem_cons_of_mem _ hroot) hbelow.of_erase
    · exact h removed List.mem_cons_self (hbelow.of_erase.head hroot)

/-- What is reached from the queue is removed. -/
theorem lookup_removeLoop_of_below {entries : Map PathBuf Entry} {toRemove : List PathBuf}
    {root path : PathBuf} (hroot : root ∈ toRemove) (h : Below entries root path) :
    (removeLoop entries toRemove).lookup path = none := by
  fun_induction removeLoop entries toRemove generalizing root with
  | case1 entries => exact absurd hroot List.not_mem_nil
  | case2 entries removed toRemove ih =>
    rcases h.erase removed with heq | ⟨start, hstart, hbelow⟩
    · by_cases hbelow : ∃ start ∈ toRemove ++ childrenOf entries removed,
          Below (entries.erase removed) start path
      · obtain ⟨start, hmem, hbelow⟩ := hbelow
        exact ih hmem hbelow
      · rw [lookup_removeLoop_of_not_below fun start hmem hstart => hbelow ⟨start, hmem, hstart⟩,
          lookup_erase_eq, if_pos heq]
    · refine ih (List.mem_append.mpr ?_) hbelow
      rcases hstart with ⟨rfl, hne⟩ | hlisted
      · exact .inl (List.mem_of_ne_of_mem hne hroot)
      · exact .inr hlisted

theorem length_parent {path dir : PathBuf} (h : path.parent = some dir) :
    path.components.length = dir.components.length + 1 := by
  unfold PathBuf.parent at h
  split_ifs at h with hempty
  obtain rfl := Option.some.inj h
  have hpos : 0 < path.components.length := List.length_pos_iff.mpr hempty
  rw [List.length_dropLast]
  omega

section

variable {fs : InMemoryFs}

theorem Consistent.parent_of_listed (h : fs.Consistent) {dir path : PathBuf}
    (hlisted : Listed fs.entries dir path) : path.parent = some dir ∧ fs.Stored path := by
  obtain ⟨children, hdir, hmem⟩ := listed_iff.mp hlisted
  exact ((h.listed dir children hdir path).mp hmem).symm

theorem Consistent.length_le_of_below (h : fs.Consistent) {root path : PathBuf}
    (hbelow : Below fs.entries root path) :
    root.components.length ≤ path.components.length := by
  induction hbelow with
  | refl => exact le_rfl
  | tail _ hlisted ih =>
    have := length_parent (h.parent_of_listed hlisted).1
    omega

/-- What is below a path other than itself has its parent below it, which is a directory. -/
theorem Consistent.parent_below (h : fs.Consistent) {root path : PathBuf}
    (hbelow : Below fs.entries root path) (hne : path ≠ root) :
    ∃ dir, path.parent = some dir ∧ Below fs.entries root dir ∧ Listed fs.entries dir path := by
  rcases Relation.ReflTransGen.cases_tail hbelow with heq | ⟨dir, hdir, hlisted⟩
  · exact absurd heq hne
  · exact ⟨dir, (h.parent_of_listed hlisted).1, hdir, hlisted⟩

theorem lookup_remove_of_below {root path : PathBuf} (h : Below fs.entries root path) :
    (fs.remove root).entries.lookup path = none :=
  lookup_removeLoop_of_below (List.mem_singleton.mpr rfl) h

theorem lookup_remove_of_not_below {root path : PathBuf} (h : ¬Below fs.entries root path) :
    (fs.remove root).entries.lookup path = fs.entries.lookup path :=
  lookup_removeLoop_of_not_below (by simpa using h)

theorem not_below_of_stored {root path : PathBuf} (h : (fs.remove root).Stored path) :
    ¬Below fs.entries root path := by
  intro hbelow
  rw [Stored, lookup_remove_of_below hbelow] at h
  cases h

theorem stored_remove {root path : PathBuf} :
    (fs.remove root).Stored path ↔ fs.Stored path ∧ ¬Below fs.entries root path := by
  constructor
  · intro h
    have hbelow := not_below_of_stored h
    rw [Stored, lookup_remove_of_not_below hbelow] at h
    exact ⟨h, hbelow⟩
  · rintro ⟨h, hbelow⟩
    rwa [Stored, lookup_remove_of_not_below hbelow]

/-- The parent of the path lists nothing, and what is stored below the files that are removed is
an orphan already. -/
structure LeavesNothing (fs : InMemoryFs) (root : PathBuf) : Prop where
  parent : ∀ dir children, root.parent = some dir → fs.entries.lookup dir ≠ some (.dir children)
  orphan : ∀ file contents path, Below fs.entries root file →
    fs.entries.lookup file = some (.file contents) → fs.Stored path → path.parent = some file →
      path ∈ fs.orphans

theorem LeavesNothing.consistent {root : PathBuf} (hleaves : fs.LeavesNothing root)
    (h : fs.Consistent) : (fs.remove root).Consistent := by
  constructor
  · intro dir children hdir path
    have hdirBelow : ¬Below fs.entries root dir :=
      not_below_of_stored (by rw [Stored, hdir]; rfl)
    rw [lookup_remove_of_not_below hdirBelow] at hdir
    rw [h.listed dir children hdir path, stored_remove]
    refine and_congr_left fun hparent => (and_iff_left fun hbelow => ?_).symm
    by_cases heq : path = root
    · exact hleaves.parent dir children (heq ▸ hparent) hdir
    · obtain ⟨dir', hdir', hbelow', -⟩ := h.parent_below hbelow heq
      exact hdirBelow (Option.some.inj (hparent.symm.trans hdir') ▸ hbelow')
  · intro path hpath horphan
    obtain ⟨hstored, hbelow⟩ := stored_remove.mp hpath
    refine Finset.mem_erase.mpr ⟨fun heq => hbelow (heq ▸ .refl), ?_⟩
    by_cases hdirs : ∀ dir, path.parent = some dir → ¬fs.Stored dir
    · exact h.orphan path hstored hdirs
    · obtain ⟨dir, hparent, hdir⟩ : ∃ dir, path.parent = some dir ∧ fs.Stored dir := by
        by_contra hnone
        exact hdirs fun dir hparent hdir => hnone ⟨dir, hparent, hdir⟩
      have hremoved : Below fs.entries root dir := by
        by_contra hnot
        exact horphan dir hparent (stored_remove.mpr ⟨hdir, hnot⟩)
      obtain ⟨entry, hentry⟩ := Option.isSome_iff_exists.mp hdir
      cases entry with
      | file contents => exact hleaves.orphan dir contents path hremoved hentry hstored hparent
      | dir children =>
        have hlisted : Listed fs.entries dir path :=
          listed_iff.mpr ⟨children, hentry, (h.listed dir children hentry path).mpr
            ⟨hstored, hparent⟩⟩
        exact absurd (hremoved.tail hlisted) hbelow

theorem leavesNothing_of_consistent {root : PathBuf} (h : fs.Consistent)
    (hroot : fs.Stored root) (hremoved : (fs.remove root).Consistent) : fs.LeavesNothing root := by
  constructor
  · intro dir children hparent hdir
    have hdirBelow : ¬Below fs.entries root dir := fun hbelow =>
      absurd (h.length_le_of_below hbelow) (by have := length_parent hparent; omega)
    have hdir' : (fs.remove root).entries.lookup dir = some (.dir children) := by
      rw [lookup_remove_of_not_below hdirBelow, hdir]
    have hmem := (h.listed dir children hdir root).mpr ⟨hroot, hparent⟩
    exact not_below_of_stored ((hremoved.listed dir children hdir' root).mp hmem).1 .refl
  · intro file contents path hfile hcontents hstored hparent
    have hbelow : ¬Below fs.entries root path := by
      intro hbelow
      have hne : path ≠ root := by
        rintro rfl
        have := h.length_le_of_below hfile
        have := length_parent hparent
        omega
      obtain ⟨dir, hdir, -, hlisted⟩ := h.parent_below hbelow hne
      obtain rfl := Option.some.inj (hparent.symm.trans hdir)
      obtain ⟨children, hchildren, -⟩ := listed_iff.mp hlisted
      exact absurd (hcontents.symm.trans hchildren) (by simp)
    refine Finset.mem_of_mem_erase (hremoved.orphan path (stored_remove.mpr ⟨hstored, hbelow⟩) ?_)
    intro dir hdir hdirStored
    obtain rfl := Option.some.inj (hparent.symm.trans hdir)
    exact not_below_of_stored hdirStored hfile

end

/-! ## Making files and directories -/

/-- A path with the contents of a file that is made there, or a new directory. -/
abbrev Placement := PathBuf × Option (List UInt8)

def newEntry : Option (List UInt8) → Entry
  | some contents => .file contents
  | none => .dir []

def paths (placements : List Placement) : List PathBuf := placements.map Prod.fst

/-- What is made in order, until a parent is a file. -/
def made (fs : InMemoryFs) : List Placement → List Placement
  | [] => []
  | placement :: placements =>
    match fs.register placement.1 with
    | .error _ => []
    | .ok fs => placement :: made (fs.store placement.1 (newEntry placement.2)) placements

def makeAll (fs : InMemoryFs) : List Placement → InMemoryFs × Except IoError Unit
  | [] => (fs, .ok ())
  | placement :: placements =>
    match fs.register placement.1 with
    | .error err => (fs, .error err)
    | .ok fs => makeAll (fs.store placement.1 (newEntry placement.2)) placements

mutual

/-- What a snapshot places, directories before their children. -/
def placements (path : PathBuf) : VfsSnapshot → List Placement
  | .file contents => [(path, some contents)]
  | .dir children => (path, none) :: childPlacements path children

def childPlacements (path : PathBuf) : VfsChildren → List Placement
  | .nil => []
  | .cons name child rest => placements (path.joinStr name) child ++ childPlacements path rest

end

theorem makeAll_append (fs : InMemoryFs) (first second : List Placement) :
    fs.makeAll (first ++ second) = andThen (fs.makeAll first) fun fs => fs.makeAll second := by
  induction first generalizing fs with
  | nil => rfl
  | cons placement first ih =>
    simp only [List.cons_append, makeAll]
    cases fs.register placement.1 with
    | error err => rfl
    | ok fs => exact ih _

mutual

theorem loadSnapshot_eq (fs : InMemoryFs) (path : PathBuf) (snapshot : VfsSnapshot) :
    fs.loadSnapshot path snapshot = fs.makeAll (placements path snapshot) := by
  cases snapshot with
  | file contents =>
    simp only [loadSnapshot, placements, makeAll]
    cases fs.register path <;> rfl
  | dir children =>
    simp only [loadSnapshot, placements, makeAll]
    cases fs.register path with
    | error err => rfl
    | ok fs => exact loadChildren_eq _ path children

theorem loadChildren_eq (fs : InMemoryFs) (path : PathBuf) (children : VfsChildren) :
    fs.loadChildren path children = fs.makeAll (childPlacements path children) := by
  cases children with
  | nil => rfl
  | cons name child rest =>
    rw [loadChildren, childPlacements, makeAll_append, loadSnapshot_eq fs _ child]
    exact congrArg _ (funext fun fs => loadChildren_eq fs path rest)

end

theorem createDirs_eq (fs : InMemoryFs) (dirs : List PathBuf) :
    fs.createDirs dirs = fs.makeAll (dirs.map fun dir => (dir, none)) := by
  induction dirs generalizing fs with
  | nil => rfl
  | cons dir dirs ih =>
    rw [createDirs, createDir, loadSnapshot_eq, List.map_cons, ← List.singleton_append,
      makeAll_append]
    exact congrArg _ (funext ih)

/-- The placements are made one after the other, and none of them fails. -/
inductive Makes : InMemoryFs → List Placement → InMemoryFs → Prop
  | nil (fs : InMemoryFs) : Makes fs [] fs
  | cons {fs listed fs' : InMemoryFs} {placement : Placement} {placements : List Placement} :
      fs.register placement.1 = .ok listed →
      Makes (listed.store placement.1 (newEntry placement.2)) placements fs' →
      Makes fs (placement :: placements) fs'

theorem makes_made (fs : InMemoryFs) (placements : List Placement) :
    Makes fs (fs.made placements) (fs.makeAll placements).1 := by
  induction placements generalizing fs with
  | nil => exact .nil fs
  | cons placement placements ih =>
    rw [made, makeAll]
    cases hregister : fs.register placement.1 with
    | error err => exact .nil fs
    | ok listed => exact .cons hregister (ih _)

/-- What a directory becomes if the path is listed in it. -/
def Entry.withChild (path : PathBuf) : Entry → Entry
  | .file contents => .file contents
  | .dir children => .dir (children.insert path)

/-- A path is listed in its stored parent, or as an orphan if no parent is stored. -/
theorem register_cases {fs listed : InMemoryFs} {path : PathBuf}
    (h : fs.register path = .ok listed) :
    (∃ dir children, path.parent = some dir ∧ fs.entries.lookup dir = some (.dir children) ∧
      listed = { fs with entries := fs.entries.insert dir (.dir (children.insert path)) }) ∨
    (∀ dir, path.parent = some dir → fs.entries.lookup dir = none) ∧
      listed = { fs with orphans := insert path fs.orphans } := by
  unfold register at h
  cases hparent : path.parent with
  | none =>
    rw [hparent] at h
    exact .inr ⟨by simp, (Except.ok.inj h).symm⟩
  | some parentPath =>
    simp only [hparent] at h
    cases hentry : fs.entries.lookup parentPath with
    | none =>
      simp only [hentry, Except.ok.injEq] at h
      exact .inr ⟨by simp [hentry], h.symm⟩
    | some entry =>
      cases entry with
      | file contents => simp [hentry] at h
      | dir children =>
        simp only [hentry, Except.ok.injEq] at h
        exact .inl ⟨parentPath, children, rfl, hentry, h.symm⟩

theorem lookup_register {fs listed : InMemoryFs} {path : PathBuf}
    (h : fs.register path = .ok listed) (dir : PathBuf) : listed.entries.lookup dir =
      if path.parent = some dir then (fs.entries.lookup dir).map (Entry.withChild path)
      else fs.entries.lookup dir := by
  rcases register_cases h with ⟨parentPath, children, hparent, hentry, rfl⟩ | ⟨hnone, rfl⟩
  · by_cases heq : parentPath = dir
    · subst heq
      simp [hparent, hentry, Entry.withChild]
    · simp [hparent, heq, Ne.symm heq]
  · split_ifs with hparent
    · simp [hnone dir hparent]
    · rfl

theorem orphans_register {fs listed : InMemoryFs} {path : PathBuf}
    (h : fs.register path = .ok listed) : fs.orphans ⊆ listed.orphans ∧
      ((∀ dir, path.parent = some dir → ¬fs.Stored dir) → path ∈ listed.orphans) := by
  rcases register_cases h with ⟨dir, children, hparent, hentry, rfl⟩ | ⟨-, rfl⟩
  · refine ⟨subset_rfl, fun hdirs => absurd ?_ (hdirs dir hparent)⟩
    simp [Stored, hentry]
  · exact ⟨Finset.subset_insert _ _, fun _ => Finset.mem_insert_self _ _⟩

section

variable {fs fs' listed : InMemoryFs} {placement : Placement} {ps : List Placement}
  {dir path : PathBuf}

theorem lookup_store (fs : InMemoryFs) (path dir : PathBuf) (entry : Entry) :
    (fs.store path entry).entries.lookup dir =
      if dir = path then some entry else fs.entries.lookup dir :=
  lookup_insert_eq _ _ _ _

/-- What one placement leaves at the other paths. -/
theorem lookup_place_of_ne (h : fs.register path = .ok listed) (hne : dir ≠ path)
    (entry : Entry) : (listed.store path entry).entries.lookup dir =
      if path.parent = some dir then (fs.entries.lookup dir).map (Entry.withChild path)
      else fs.entries.lookup dir := by
  rw [lookup_store, if_neg hne, lookup_register h]

theorem stored_place (h : fs.register path = .ok listed) (entry : Entry) :
    (listed.store path entry).Stored dir ↔ dir = path ∨ fs.Stored dir := by
  unfold Stored
  by_cases heq : dir = path
  · simp [lookup_store, heq]
  · rw [lookup_place_of_ne h heq]
    split_ifs <;> simp [heq]

theorem paths_cons (placement : Placement) (ps : List Placement) :
    paths (placement :: ps) = placement.1 :: paths ps := rfl

/-- Nothing is removed. -/
theorem Makes.stored_iff (h : Makes fs ps fs') :
    fs'.Stored path ↔ fs.Stored path ∨ path ∈ paths ps := by
  induction h with
  | nil fs => simp [paths]
  | cons hregister _ ih =>
    rw [ih, stored_place hregister, paths_cons, List.mem_cons]
    tauto

/-- A file that is not made anew keeps its contents. -/
theorem Makes.lookup_file (h : Makes fs ps fs') (hdir : dir ∉ paths ps) {contents : List UInt8}
    (hfile : fs.entries.lookup dir = some (.file contents)) :
    fs'.entries.lookup dir = some (.file contents) := by
  induction h with
  | nil fs => exact hfile
  | cons hregister _ ih =>
    obtain ⟨hne, hrest⟩ := not_or.mp (List.mem_cons.not.mp hdir)
    refine ih hrest ?_
    rw [lookup_place_of_ne hregister hne, hfile]
    split_ifs <;> rfl

/-- A directory that is not made anew lists what is made in it besides what it has listed. -/
theorem Makes.lookup_dir (h : Makes fs ps fs') (hdir : dir ∉ paths ps) {children : List PathBuf}
    (hchildren : fs.entries.lookup dir = some (.dir children)) :
    ∃ children', fs'.entries.lookup dir = some (.dir children') ∧
      ∀ path, path ∈ children' ↔ path ∈ children ∨ path ∈ paths ps ∧ path.parent = some dir := by
  induction h generalizing children with
  | nil fs => exact ⟨children, hchildren, fun path => by simp [paths]⟩
  | @cons fs listed fs' placement ps hregister _ ih =>
    obtain ⟨hne, hrest⟩ := not_or.mp (List.mem_cons.not.mp hdir)
    have hlookup := lookup_place_of_ne hregister hne (newEntry placement.2)
    rw [hchildren] at hlookup
    by_cases hparent : placement.1.parent = some dir
    · rw [if_pos hparent, Option.map_some, Entry.withChild] at hlookup
      obtain ⟨children', hchildren', hiff⟩ := ih hrest hlookup
      refine ⟨children', hchildren', fun path => ?_⟩
      rw [hiff, List.mem_insert_iff, paths_cons, List.mem_cons, or_and_right]
      constructor
      · rintro ((rfl | hmem) | hmem)
        · exact .inr (.inl ⟨rfl, hparent⟩)
        · exact .inl hmem
        · exact .inr (.inr hmem)
      · rintro (hmem | ⟨rfl, -⟩ | hmem)
        · exact .inl (.inr hmem)
        · exact .inl (.inl rfl)
        · exact .inr hmem
    · rw [if_neg hparent] at hlookup
      obtain ⟨children', hchildren', hiff⟩ := ih hrest hlookup
      refine ⟨children', hchildren', fun path => ?_⟩
      rw [hiff, paths_cons, List.mem_cons, or_and_right]
      refine or_congr_right (Iff.symm (or_iff_right ?_))
      rintro ⟨rfl, h⟩
      exact hparent h

theorem Makes.append {first second : List Placement} (h : Makes fs (first ++ second) fs') :
    ∃ mid, Makes fs first mid ∧ Makes mid second fs' := by
  induction first generalizing fs with
  | nil => exact ⟨fs, .nil fs, h⟩
  | cons placement first ih =>
    cases h with
    | cons hregister hrest =>
      obtain ⟨mid, hfirst, hsecond⟩ := ih hrest
      exact ⟨mid, .cons hregister hfirst, hsecond⟩

/-- The last placement at a path decides what is there. -/
theorem exists_last {path : PathBuf} (h : path ∈ paths ps) :
    ∃ first new second, ps = first ++ (path, new) :: second ∧ path ∉ paths second := by
  induction ps with
  | nil => exact absurd h List.not_mem_nil
  | cons placement ps ih =>
    by_cases hrest : path ∈ paths ps
    · obtain ⟨first, new, second, rfl, hsecond⟩ := ih hrest
      exact ⟨placement :: first, new, second, rfl, hsecond⟩
    · obtain rfl := (List.mem_cons.mp h).resolve_right hrest
      exact ⟨[], placement.2, ps, rfl, hrest⟩

theorem Makes.lookup_last_file {first second : List Placement} {contents : List UInt8}
    (h : Makes fs (first ++ (dir, some contents) :: second) fs') (hdir : dir ∉ paths second) :
    fs'.entries.lookup dir = some (.file contents) := by
  obtain ⟨mid, -, hsecond⟩ := h.append
  cases hsecond with
  | cons hregister hrest => exact hrest.lookup_file hdir (by simp [lookup_store, newEntry])

theorem Makes.lookup_last_dir {first second : List Placement}
    (h : Makes fs (first ++ (dir, none) :: second) fs') (hdir : dir ∉ paths second) :
    ∃ children, fs'.entries.lookup dir = some (.dir children) ∧
      ∀ path, path ∈ children ↔ path ∈ paths second ∧ path.parent = some dir := by
  obtain ⟨mid, -, hsecond⟩ := h.append
  cases hsecond with
  | @cons _ listed _ _ _ hregister hrest =>
    have hempty : (listed.store dir (newEntry none)).entries.lookup dir = some (.dir []) := by
      simp [lookup_store, newEntry]
    simpa using hrest.lookup_dir hdir hempty

/-! ## When the views agree -/

theorem HasOrphans.place (h : fs.HasOrphans) (hregister : fs.register path = .ok listed)
    (entry : Entry) : (listed.store path entry).HasOrphans := by
  intro other hother hdirs
  have hdirs' : ∀ dir, other.parent = some dir → ¬fs.Stored dir := fun dir hparent hdir =>
    hdirs dir hparent ((stored_place hregister entry).mpr (.inr hdir))
  obtain ⟨hsub, hnew⟩ := orphans_register hregister
  rcases (stored_place hregister entry).mp hother with rfl | hstored
  · exact hnew hdirs'
  · exact hsub (h other hstored hdirs')

theorem HasOrphans.makes (h : fs.HasOrphans) (hmakes : Makes fs ps fs') : fs'.HasOrphans := by
  induction hmakes with
  | nil fs => exact h
  | cons hregister _ ih => exact ih (h.place hregister _)

/-- Whatever is directly below a directory that is made, stored before or made too, is made after
that directory was made for the last time. -/
def Relists (fs : InMemoryFs) (ps : List Placement) : Prop :=
  ∀ first second dir path, ps = first ++ (dir, none) :: second → dir ∉ paths second →
    path.parent = some dir → fs.Stored path ∨ path ∈ paths ps → path ∈ paths second

theorem Makes.consistent_iff (hmakes : Makes fs ps fs') (h : fs.Consistent) :
    fs'.Consistent ↔ fs.Relists ps := by
  constructor
  · rintro hfs' first second dir path rfl hsecond hparent hstored
    obtain ⟨children, hchildren, hiff⟩ := hmakes.lookup_last_dir hsecond
    have hmem := (hfs'.listed dir children hchildren path).mpr
      ⟨hmakes.stored_iff.mpr hstored, hparent⟩
    exact ((hiff path).mp hmem).1
  · refine fun hrelists => ⟨fun dir children hdir path => ?_, h.orphan.makes hmakes⟩
    rw [hmakes.stored_iff]
    by_cases hmade : dir ∈ paths ps
    · obtain ⟨first, new, second, rfl, hsecond⟩ := exists_last hmade
      cases new with
      | some contents =>
        rw [hmakes.lookup_last_file hsecond] at hdir
        cases hdir
      | none =>
        obtain ⟨children', hchildren', hiff⟩ := hmakes.lookup_last_dir hsecond
        obtain rfl := Entry.dir.inj (Option.some.inj (hchildren'.symm.trans hdir))
        rw [hiff]
        refine and_congr_left fun hparent => ⟨fun hmem => .inr ?_, fun hstored => ?_⟩
        · simp only [paths, List.map_append, List.map_cons, List.mem_append, List.mem_cons]
          exact .inr (.inr hmem)
        · exact hrelists first second dir path rfl hsecond hparent hstored
    · cases hbefore : fs.entries.lookup dir with
      | none =>
        have hstored := hmakes.stored_iff.mp (show fs'.Stored dir by rw [Stored, hdir]; rfl)
        rw [Stored, hbefore] at hstored
        exact absurd (hstored.resolve_left (by simp)) hmade
      | some entry =>
        cases entry with
        | file contents =>
          rw [hmakes.lookup_file hmade hbefore] at hdir
          cases hdir
        | dir children₀ =>
          obtain ⟨children', hchildren', hiff⟩ := hmakes.lookup_dir hmade hbefore
          obtain rfl := Entry.dir.inj (Option.some.inj (hchildren'.symm.trans hdir))
          rw [hiff, h.listed dir children₀ hbefore, or_and_right]

/-- Making directories keeps what there was unless one is made in place of a file. -/
theorem Makes.kept_iff (hmakes : Makes fs ps fs') (h : fs.Consistent) (hrelists : fs.Relists ps)
    (hdirs : ∀ p ∈ ps, p.2 = none) : fs.Kept fs' ↔
      ∀ path ∈ paths ps, ∀ contents, fs.entries.lookup path ≠ some (.file contents) := by
  constructor
  · intro hkept path hpath contents hfile
    obtain ⟨first, new, second, rfl, hsecond⟩ := exists_last hpath
    have hnew : new = none := hdirs (path, new) (by simp)
    subst hnew
    obtain ⟨children, hchildren, -⟩ := hmakes.lookup_last_dir hsecond
    rw [hkept.file path contents hfile] at hchildren
    cases hchildren
  · intro hfiles
    constructor
    · intro path contents hfile
      exact hmakes.lookup_file (fun hpath => hfiles path hpath contents hfile) hfile
    · intro dir children hchildren
      by_cases hmade : dir ∈ paths ps
      · obtain ⟨first, new, second, rfl, hsecond⟩ := exists_last hmade
        have hnew : new = none := hdirs (dir, new) (by simp)
        subst hnew
        obtain ⟨children', hchildren', hiff⟩ := hmakes.lookup_last_dir hsecond
        refine ⟨children', hchildren', fun path hpath => (hiff path).mpr ?_⟩
        obtain ⟨hstored, hparent⟩ := (h.listed dir children hchildren path).mp hpath
        exact ⟨hrelists first second dir path rfl hsecond hparent (.inl hstored), hparent⟩
      · obtain ⟨children', hchildren', hiff⟩ := hmakes.lookup_dir hmade hchildren
        exact ⟨children', hchildren', fun path hpath => (hiff path).mpr (.inl hpath)⟩

end

/-! ## Runs -/

/-- What `create_dir_all` makes: the parents from the path upwards, then the path. -/
def dirPlacements (path : PathBuf) : List Placement :=
  (path.ancestors.tail ++ [path]).map fun dir => (dir, none)

/-- The operation is done where the views of the filesystem go on to agree. -/
def Careful (fs : InMemoryFs) : Op → Prop
  | .loadSnapshot path snapshot => fs.Relists (fs.made (placements path snapshot))
  | .write _ _ => True
  | .createDir path => fs.Relists (fs.made [(path, none)])
  | .createDirAll path =>
    fs.Relists (fs.made (dirPlacements path)) ∧
      ∀ dir ∈ paths (fs.made (dirPlacements path)), ∀ contents,
        fs.entries.lookup dir ≠ some (.file contents)
  | .removeFile path =>
    ∀ contents, fs.entries.lookup path = some (.file contents) → fs.LeavesNothing path
  | .removeDirAll path =>
    ∀ children, fs.entries.lookup path = some (.dir children) → fs.LeavesNothing path

/-- After the operation the views agree, and `create_dir_all` has kept what there was. -/
structure StaysConsistent (fs : InMemoryFs) (op : Op) (fs' : InMemoryFs) : Prop where
  consistent : fs'.Consistent
  kept : ∀ path, op = .createDirAll path → fs.Kept fs'

theorem consistent_new : new.Consistent := by
  constructor
  · intro dir children hdir
    simp [new] at hdir
  · intro path hpath
    simp [new, Stored] at hpath

theorem consistent_makeAll_iff {fs : InMemoryFs} (h : fs.Consistent) (ps : List Placement) :
    (fs.makeAll ps).1.Consistent ↔ fs.Relists (fs.made ps) :=
  (makes_made fs ps).consistent_iff h

theorem consistent_remove_iff {fs : InMemoryFs} (h : fs.Consistent) {path : PathBuf}
    (hstored : fs.Stored path) : (fs.remove path).Consistent ↔ fs.LeavesNothing path :=
  ⟨leavesNothing_of_consistent h hstored, fun hleaves => hleaves.consistent h⟩

theorem made_sublist (fs : InMemoryFs) (ps : List Placement) : (fs.made ps).Sublist ps := by
  induction ps generalizing fs with
  | nil => exact .slnil
  | cons placement ps ih =>
    rw [made]
    cases fs.register placement.1 with
    | error err => exact List.nil_sublist _
    | ok fs => exact (ih _).cons_cons placement

/-- A file has nothing to list. -/
theorem relists_file (fs : InMemoryFs) (path : PathBuf) (data : List UInt8) :
    fs.Relists (fs.made [(path, some data)]) := by
  intro first second dir other heq
  have hmem : (dir, none) ∈ fs.made [(path, some data)] := by simp [heq]
  simpa using (made_sublist fs _).subset hmem

theorem createDirAll_eq (fs : InMemoryFs) (path : PathBuf) :
    fs.createDirAll path = fs.makeAll (dirPlacements path) := createDirs_eq fs _

theorem staysConsistent_createDirAll_iff {fs : InMemoryFs} (h : fs.Consistent) (path : PathBuf) :
    (fs.createDirAll path).1.Consistent ∧ fs.Kept (fs.createDirAll path).1 ↔
      fs.Careful (.createDirAll path) := by
  have hmakes := makes_made fs (dirPlacements path)
  rw [createDirAll_eq, consistent_makeAll_iff h]
  refine and_congr_right fun hrelists => hmakes.kept_iff h hrelists fun p hp => ?_
  obtain ⟨dir, -, rfl⟩ := List.mem_map.mp ((made_sublist fs _).subset hp)
  rfl

theorem staysConsistent_apply_iff {fs : InMemoryFs} (h : fs.Consistent) (op : Op) :
    fs.StaysConsistent op (fs.apply op).1 ↔ fs.Careful op := by
  have hother : (∀ path, op ≠ .createDirAll path) →
      (fs.StaysConsistent op (fs.apply op).1 ↔ (fs.apply op).1.Consistent) := fun hne =>
    ⟨fun hstays => hstays.consistent, fun hconsistent =>
      ⟨hconsistent, fun path heq => absurd heq (hne path)⟩⟩
  cases op with
  | loadSnapshot path snapshot =>
    rw [hother (by simp), apply, loadSnapshot_eq, consistent_makeAll_iff h, Careful]
  | write path data =>
    rw [hother (by simp), apply, write, loadSnapshot_eq, placements, consistent_makeAll_iff h]
    exact iff_of_true (relists_file fs path data) trivial
  | createDir path =>
    rw [hother (by simp), apply, createDir, loadSnapshot_eq, placements, childPlacements,
      consistent_makeAll_iff h, Careful]
  | createDirAll path =>
    rw [← staysConsistent_createDirAll_iff h]
    exact ⟨fun hstays => ⟨hstays.consistent, hstays.kept path rfl⟩, fun hboth =>
      ⟨hboth.1, fun _ _ => hboth.2⟩⟩
  | removeFile path =>
    rw [hother (by simp), apply, removeFile, Careful]
    cases hentry : fs.entries.lookup path with
    | none => simp [h]
    | some entry =>
      cases entry with
      | file contents =>
        simp [consistent_remove_iff h (show fs.Stored path by simp [Stored, hentry])]
      | dir children => simp [h]
  | removeDirAll path =>
    rw [hother (by simp), apply, removeDirAll, Careful]
    cases hentry : fs.entries.lookup path with
    | none => simp [h]
    | some entry =>
      cases entry with
      | file contents => simp [h]
      | dir children =>
        simp [consistent_remove_iff h (show fs.Stored path by simp [Stored, hentry])]

/-- All along a run the views agree, and `create_dir_all` keeps what there was, exactly if every
operation is careful. -/
theorem staysConsistent_iff {run : List (Op × InMemoryFs)} (hrun : Run Act new run) :
    Run (fun fs op fs' => Act fs op fs' ∧ fs.StaysConsistent op fs') new run ↔
      Run (When Act Careful) new run := by
  refine hrun.steps_iff (fun _ _ _ _ _ hstays => hstays.consistent) ?_ consistent_new
  rintro fs op _ h rfl
  exact staysConsistent_apply_iff h op

def inRoot (names : List String) : PathBuf := ⟨true, names⟩

/-- A file in a new directory. -/
theorem staysConsistent_write :
    ((new.createDir (inRoot [])).1.write (inRoot ["a"]) []).1.Consistent := by
  have hmade : new.made [(inRoot [], none)] = [(inRoot [], none)] := by decide +kernel
  have hrelists : new.Relists (new.made [(inRoot [], none)]) := by
    rw [hmade]
    intro first second dir path _ _ hparent hstored
    rcases hstored with hstored | hroot
    · simp [new, Stored] at hstored
    · obtain rfl := List.mem_singleton.mp hroot
      simp [inRoot, PathBuf.parent] at hparent
  have hcareful : Run (When Act Careful) new
      [(.createDir (inRoot []), (new.createDir (inRoot [])).1),
        (.write (inRoot ["a"]) [], ((new.createDir (inRoot [])).1.write (inRoot ["a"]) []).1)] :=
    .cons ⟨rfl, hrelists⟩ (.cons ⟨rfl, trivial⟩ (.nil _))
  cases (staysConsistent_iff hcareful.of_when).mpr hcareful with
  | cons _ hrest =>
    cases hrest with
    | cons hwrite _ => exact hwrite.2.consistent

/-- Making `/a/b` with its parents leaves `/` without a listing of `/a`. -/
theorem not_consistent_createDirAll :
    ¬∀ run, Run Act new run → ∀ x ∈ run, x.2.Consistent := by
  intro h
  have hconsistent : (new.createDirAll (inRoot ["a", "b"])).1.Consistent :=
    h [(.createDirAll (inRoot ["a", "b"]), _)] (.cons rfl (.nil _)) _ List.mem_cons_self
  have hroot : (new.createDirAll (inRoot ["a", "b"])).1.entries.lookup (inRoot []) =
      some (.dir []) := by decide +kernel
  have hlisted := (hconsistent.listed (inRoot []) [] hroot (inRoot ["a"])).mpr
    ⟨by unfold Stored; decide +kernel, by decide +kernel⟩
  exact List.not_mem_nil hlisted

end InMemoryFs

end Roxo
