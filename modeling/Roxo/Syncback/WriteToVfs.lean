import Mathlib.Data.List.Sort
import Mathlib.Data.Set.Function
import Roxo.Library.FileTree
import Roxo.Syncback.IgnoredTrees
import Roxo.Vfs.Disk

/-!
# Writing what syncback has made

`write_to_vfs` creates directories, writes files, removes directories and removes files, each set
in the order of its hashes, and stops at the first failure. Where additions and removals are
possible one by one, all orders have the same outcome, with nothing missing, exactly if the
removals are apart from each other and from the additions (`FsSnapshot.writesWell_iff`).
-/

namespace Roxo

open AssocMap FileTree

/-- Where a path of a snapshot is on the disk, by its names from the root. -/
def onDisk (base path : PathBuf) : List String := (base.join path).components

/-- An order in which the four sets of a snapshot are gone through. -/
structure FsOrder (snapshot : FsSnapshot) where
  addedDirs : List PathBuf
  addedFiles : List (PathBuf × List UInt8)
  removedDirs : List PathBuf
  removedFiles : List PathBuf
  perm_addedDirs : addedDirs.Perm snapshot.addedDirs
  perm_addedFiles : addedFiles.Perm (toList snapshot.addedFiles)
  perm_removedDirs : removedDirs.Perm snapshot.removedDirs
  perm_removedFiles : removedFiles.Perm snapshot.removedFiles

namespace FsOrder

variable {snapshot : FsSnapshot}

/-- The added files by their places. -/
def files (base : PathBuf) (order : FsOrder snapshot) : List (List String × List UInt8) :=
  order.addedFiles.map fun e => (onDisk base e.1, e.2)

/-- The first two loops of `write_to_vfs`. -/
def additions (base : PathBuf) (order : FsOrder snapshot) : List (Action String (List UInt8)) :=
  (order.addedDirs.map (onDisk base)).map .createDirAll ++
    (order.files base).map fun e => .write e.1 e.2

/-- All four loops. -/
def actions (base : PathBuf) (order : FsOrder snapshot) : List (Action String (List UInt8)) :=
  order.additions base ++ (order.removedDirs.map (onDisk base)).map .removeDirAll ++
    (order.removedFiles.map (onDisk base)).map .removeFile

end FsOrder

/-- Writes the snapshot in an order. If it stops early, what was done stays done. -/
def writeToVfs {snapshot : FsSnapshot} (base : PathBuf) (order : FsOrder snapshot)
    (disk : Tree String (List UInt8)) : Tree String (List UInt8) × Option Fault :=
  run (order.actions base) disk

namespace FsSnapshot

/-- The paths that are added. -/
def addedPaths (snapshot : FsSnapshot) : List PathBuf :=
  (toList snapshot.addedFiles).map Prod.fst ++ snapshot.addedDirs

/-- Each addition and each removal is possible on the disk by itself. -/
structure Writable (base : PathBuf) (snapshot : FsSnapshot) (disk : Tree String (List UInt8)) :
    Prop where
  wellFormed : FileTree.WellFormed disk
  nodup : snapshot.addedDirs.Nodup ∧ snapshot.removedDirs.Nodup ∧ snapshot.removedFiles.Nodup
  /-- Different paths are different places. -/
  distinct : Set.InjOn (onDisk base)
    {p | p ∈ snapshot.addedPaths ∨ p ∈ snapshot.removedDirs ∨ p ∈ snapshot.removedFiles}
  dirs : ∀ d ∈ snapshot.addedDirs, Free disk (onDisk base d)
  parents : ∀ e ∈ toList snapshot.addedFiles, disk (onDisk base e.1).dropLast = some none ∨
    ∃ d ∈ snapshot.addedDirs, (onDisk base e.1).dropLast <+: onDisk base d
  files : ∀ e ∈ toList snapshot.addedFiles, disk (onDisk base e.1) ≠ some none ∧
    ∀ d ∈ snapshot.addedDirs, ¬ onDisk base e.1 <+: onDisk base d
  removedDirs : ∀ d ∈ snapshot.removedDirs, disk (onDisk base d) = some none
  removedFiles : ∀ r ∈ snapshot.removedFiles, (disk (onDisk base r)).join.isSome

/-- The path is neither removed nor in a directory that is removed. -/
def Kept (base : PathBuf) (snapshot : FsSnapshot) (path : PathBuf) : Prop :=
  (∀ d ∈ snapshot.removedDirs, ¬ onDisk base d <+: onDisk base path) ∧
    ∀ r ∈ snapshot.removedFiles, onDisk base r ≠ onDisk base path

instance (base : PathBuf) (snapshot : FsSnapshot) (path : PathBuf) :
    Decidable (snapshot.Kept base path) :=
  inferInstanceAs (Decidable (_ ∧ _))

/-- The outcome of writing does not depend on the order. If no addition is in conflict with a
removal it is a success, and nothing that was added is missing. -/
structure WritesWell (base : PathBuf) (snapshot : FsSnapshot) (disk : Tree String (List UInt8)) :
    Prop where
  sameOutcome : ∀ order order' : FsOrder snapshot,
    writeToVfs base order disk = writeToVfs base order' disk
  succeeds : (∀ a ∈ snapshot.addedPaths, snapshot.Kept base a) →
    ∀ order : FsOrder snapshot, (writeToVfs base order disk).2 = none
  keepsAdded : ∀ order : FsOrder snapshot, ∀ a ∈ snapshot.addedPaths,
    (writeToVfs base order disk).1 (onDisk base a) ≠ none

/-- Removals are apart from each other and from the additions. -/
structure Apart (base : PathBuf) (snapshot : FsSnapshot) : Prop where
  dirs : ∀ d ∈ snapshot.removedDirs, ∀ d' ∈ snapshot.removedDirs,
    onDisk base d <+: onDisk base d' → d = d'
  files : ∀ r ∈ snapshot.removedFiles, ∀ d ∈ snapshot.removedDirs,
    ¬ onDisk base d <+: onDisk base r
  added : ∀ a ∈ snapshot.addedPaths, snapshot.Kept base a

end FsSnapshot

namespace FsOrder

variable {base : PathBuf} {snapshot : FsSnapshot} {disk : Tree String (List UInt8)}

/-! ## Additions -/

/-- The disk with all that is added. -/
def afterAdditions (base : PathBuf) (order : FsOrder snapshot) (disk : Tree String (List UInt8)) :
    Tree String (List UInt8) :=
  withFiles (withDirs disk (order.addedDirs.map (onDisk base))) (order.files base)

theorem nodup_files (h : snapshot.Writable base disk) (order : FsOrder snapshot) :
    ((order.files base).map Prod.fst).Nodup := by
  have hkeys : (order.addedFiles.map Prod.fst).Nodup :=
    (order.perm_addedFiles.map Prod.fst).nodup_iff.mpr (nodup_keys_toList _)
  have hnodup : ((order.addedFiles.map Prod.fst).map (onDisk base)).Nodup := by
    refine List.Nodup.map_on (fun p hp q hq heq => h.distinct (.inl ?_) (.inl ?_) heq) hkeys
    · exact List.mem_append_left _ ((order.perm_addedFiles.map Prod.fst).mem_iff.mp hp)
    · exact List.mem_append_left _ ((order.perm_addedFiles.map Prod.fst).mem_iff.mp hq)
  rw [files, List.map_map]
  rwa [List.map_map] at hnodup

theorem mem_files {order : FsOrder snapshot} {e : List String × List UInt8} :
    e ∈ order.files base ↔
      ∃ f ∈ toList snapshot.addedFiles, (onDisk base f.1, f.2) = e := by
  rw [files, List.mem_map]
  exact exists_congr fun f => and_congr_left fun _ => order.perm_addedFiles.mem_iff

theorem mem_addedDirs {order : FsOrder snapshot} {d : List String} :
    d ∈ order.addedDirs.map (onDisk base) ↔ ∃ p ∈ snapshot.addedDirs, onDisk base p = d := by
  rw [List.mem_map]
  exact exists_congr fun p => and_congr_left fun _ => order.perm_addedDirs.mem_iff

/-- The additions are done in any order. -/
theorem run_additions (h : snapshot.Writable base disk) (order : FsOrder snapshot) :
    run (order.additions base) disk = (order.afterAdditions base disk, none) := by
  have hdirs : ∀ d ∈ order.addedDirs.map (onDisk base), Free disk d := by
    intro d hd
    obtain ⟨p, hp, rfl⟩ := mem_addedDirs.mp hd
    exact h.dirs p hp
  rw [additions, run_append (run_createDirs h.wellFormed hdirs)]
  refine run_writes (nodup_files h order) (fun e he => ?_) fun e he => ?_
  · obtain ⟨f, hf, rfl⟩ := mem_files.mp he
    unfold withDirs
    split_ifs with hin
    · rfl
    · refine (h.parents f hf).resolve_right ?_
      rintro ⟨d, hd, hbelow⟩
      exact hin ⟨_, mem_addedDirs.mpr ⟨d, hd, rfl⟩, hbelow⟩
  · obtain ⟨f, hf, rfl⟩ := mem_files.mp he
    unfold withDirs
    rw [if_neg]
    · exact (h.files f hf).1
    · rintro ⟨d, hd, hbelow⟩
      obtain ⟨p, hp, rfl⟩ := mem_addedDirs.mp hd
      exact (h.files f hf).2 p hp hbelow

theorem afterAdditions_eq (h : snapshot.Writable base disk) (order order' : FsOrder snapshot) :
    order.afterAdditions base disk = order'.afterAdditions base disk := by
  have hdirs := order.perm_addedDirs.trans order'.perm_addedDirs.symm
  have hfiles := order.perm_addedFiles.trans order'.perm_addedFiles.symm
  rw [afterAdditions, afterAdditions, withDirs_perm (hdirs.map (onDisk base)),
    withFiles_perm (nodup_files h order) (hfiles.map _)]
  rfl

/-- What is added is there. -/
theorem afterAdditions_added (h : snapshot.Writable base disk) (order : FsOrder snapshot)
    {a : PathBuf} (ha : a ∈ snapshot.addedPaths) :
    order.afterAdditions base disk (onDisk base a) ≠ none := by
  unfold afterAdditions
  by_cases hfile : onDisk base a ∈ (order.files base).map Prod.fst
  · obtain ⟨e, he, heq⟩ := List.mem_map.mp hfile
    rw [← heq, withFiles_of_mem (nodup_files h order) he]
    nofun
  · rw [withFiles_of_not_mem hfile]
    rcases List.mem_append.mp ha with hkey | hdir
    · obtain ⟨e, he, rfl⟩ := List.mem_map.mp hkey
      exact absurd (List.mem_map.mpr ⟨_, mem_files.mpr ⟨e, he, rfl⟩, rfl⟩) hfile
    · unfold withDirs
      rw [if_pos ⟨_, mem_addedDirs.mpr ⟨a, hdir, rfl⟩, List.prefix_rfl⟩]
      nofun

/-- The directories that are to be removed are still there. -/
theorem afterAdditions_removedDir (h : snapshot.Writable base disk) (order : FsOrder snapshot)
    {d : PathBuf} (hd : d ∈ snapshot.removedDirs) :
    order.afterAdditions base disk (onDisk base d) = some none := by
  have hdir := h.removedDirs d hd
  unfold afterAdditions
  rw [withFiles_of_not_mem]
  · unfold withDirs
    split_ifs
    · rfl
    · exact hdir
  · intro hmem
    obtain ⟨e, he, heq⟩ := List.mem_map.mp hmem
    obtain ⟨f, hf, rfl⟩ := mem_files.mp he
    refine (h.files f hf).1 ?_
    rw [show onDisk base f.1 = onDisk base d from heq]
    exact hdir

theorem afterAdditions_removedFile (h : snapshot.Writable base disk) (order : FsOrder snapshot)
    {r : PathBuf} (hr : r ∈ snapshot.removedFiles) :
    (order.afterAdditions base disk (onDisk base r)).join.isSome := by
  have hfile := h.removedFiles r hr
  unfold afterAdditions
  by_cases hadded : onDisk base r ∈ (order.files base).map Prod.fst
  · obtain ⟨e, he, heq⟩ := List.mem_map.mp hadded
    rw [← heq, withFiles_of_mem (nodup_files h order) he]
    rfl
  · rw [withFiles_of_not_mem hadded]
    unfold withDirs
    rw [if_neg]
    · exact hfile
    · rintro ⟨d, hd, hbelow⟩
      obtain ⟨p, hp, rfl⟩ := mem_addedDirs.mp hd
      rw [h.dirs p hp _ hbelow] at hfile
      cases hfile

/-! ## Removals -/

/-- The last two loops. -/
def removals (base : PathBuf) (order : FsOrder snapshot) : List (Action String (List UInt8)) :=
  (order.removedDirs.map (onDisk base)).map .removeDirAll ++
    (order.removedFiles.map (onDisk base)).map .removeFile

theorem writeToVfs_eq (h : snapshot.Writable base disk) (order : FsOrder snapshot) :
    writeToVfs base order disk = run (order.removals base) (order.afterAdditions base disk) := by
  rw [writeToVfs, actions, List.append_assoc, run_append (run_additions h order)]
  rfl

/-- Directories of which none is in one that is removed before it are removed. -/
theorem run_dirs (h : snapshot.Writable base disk) (order : FsOrder snapshot)
    (hapart : order.removedDirs.Pairwise fun d d' => ¬ onDisk base d <+: onDisk base d') :
    run ((order.removedDirs.map (onDisk base)).map .removeDirAll)
        (order.afterAdditions base disk) =
      (withoutDirs (order.afterAdditions base disk) (order.removedDirs.map (onDisk base)),
        none) := by
  refine run_removeDirs (fun d hd => ?_) (List.pairwise_map.mpr hapart)
  obtain ⟨p, hp, rfl⟩ := List.mem_map.mp hd
  exact afterAdditions_removedDir h order (order.perm_removedDirs.mem_iff.mp hp)

/-- A removed file outside of the removed directories is there when it is its turn. -/
theorem withoutDirs_removedFile (h : snapshot.Writable base disk) (order : FsOrder snapshot)
    {r : PathBuf} (hr : r ∈ snapshot.removedFiles)
    (hout : ∀ d ∈ snapshot.removedDirs, ¬ onDisk base d <+: onDisk base r) :
    (withoutDirs (order.afterAdditions base disk) (order.removedDirs.map (onDisk base))
      (onDisk base r)).join.isSome := by
  unfold withoutDirs
  rw [if_neg]
  · exact afterAdditions_removedFile h order hr
  · rintro ⟨d, hd, hbelow⟩
    obtain ⟨p, hp, rfl⟩ := List.mem_map.mp hd
    exact hout p (order.perm_removedDirs.mem_iff.mp hp) hbelow

theorem removes_removals {order : FsOrder snapshot} : ∀ a ∈ order.removals base, a.Removes := by
  intro a ha
  rcases List.mem_append.mp ha with ha | ha
  · obtain ⟨d, -, rfl⟩ := List.mem_map.mp ha
    trivial
  · obtain ⟨r, -, rfl⟩ := List.mem_map.mp ha
    trivial

/-- What is left if the removals are apart. -/
theorem writeToVfs_of_apart (h : snapshot.Writable base disk) (hapart : snapshot.Apart base)
    (order : FsOrder snapshot) : writeToVfs base order disk =
      (withoutFiles
        (withoutDirs (order.afterAdditions base disk) (order.removedDirs.map (onDisk base)))
        (order.removedFiles.map (onDisk base)), none) := by
  have hdirs : order.removedDirs.Pairwise fun d d' => ¬ onDisk base d <+: onDisk base d' := by
    refine (order.perm_removedDirs.nodup_iff.mpr h.nodup.2.1).pairwise_of_forall_ne ?_
    intro d hd d' hd' hne hbelow
    exact hne (hapart.dirs d (order.perm_removedDirs.mem_iff.mp hd) d'
      (order.perm_removedDirs.mem_iff.mp hd') hbelow)
  rw [writeToVfs_eq h, removals, run_append (run_dirs h order hdirs)]
  refine run_removeFiles (fun r hr => ?_) ?_
  · obtain ⟨p, hp, rfl⟩ := List.mem_map.mp hr
    have hp := order.perm_removedFiles.mem_iff.mp hp
    exact withoutDirs_removedFile h order hp (hapart.files p hp)
  · refine List.Nodup.map_on (fun p hp q hq heq => h.distinct (.inr (.inr ?_)) (.inr (.inr ?_)) heq)
      (order.perm_removedFiles.nodup_iff.mpr h.nodup.2.2)
    · exact order.perm_removedFiles.mem_iff.mp hp
    · exact order.perm_removedFiles.mem_iff.mp hq

/-! ## Bad orders -/

/-- The order in which the snapshot lists its sets. -/
def asListed (snapshot : FsSnapshot) : FsOrder snapshot where
  addedDirs := snapshot.addedDirs
  addedFiles := toList snapshot.addedFiles
  removedDirs := snapshot.removedDirs
  removedFiles := snapshot.removedFiles
  perm_addedDirs := .refl _
  perm_addedFiles := .refl _
  perm_removedDirs := .refl _
  perm_removedFiles := .refl _

/-- The removed directories in another order. -/
def withRemovedDirs (order : FsOrder snapshot) (dirs : List PathBuf)
    (h : dirs.Perm snapshot.removedDirs) : FsOrder snapshot :=
  { order with removedDirs := dirs, perm_removedDirs := h }

def withRemovedFiles (order : FsOrder snapshot) (files : List PathBuf)
    (h : files.Perm snapshot.removedFiles) : FsOrder snapshot :=
  { order with removedFiles := files, perm_removedFiles := h }

/-- Something added in a directory that is removed first is missing. -/
theorem exists_missing_in_dir (h : snapshot.Writable base disk) {a d : PathBuf}
    (hd : d ∈ snapshot.removedDirs) (hbelow : onDisk base d <+: onDisk base a) :
    ∃ order : FsOrder snapshot, (writeToVfs base order disk).1 (onDisk base a) = none := by
  refine ⟨(asListed snapshot).withRemovedDirs (d :: snapshot.removedDirs.erase d)
    (List.perm_cons_erase hd).symm, ?_⟩
  generalize horder : (asListed snapshot).withRemovedDirs (d :: snapshot.removedDirs.erase d)
    (List.perm_cons_erase hd).symm = order
  have hlist : order.removedDirs = d :: snapshot.removedDirs.erase d := by rw [← horder]; rfl
  have hremoves := @removes_removals base snapshot order
  rw [writeToVfs_eq h]
  unfold removals at hremoves ⊢
  rw [hlist, List.map_cons, List.map_cons, List.cons_append] at hremoves ⊢
  rw [run_cons_ok (perform_removeDirAll (afterAdditions_removedDir h order hd))]
  exact run_of_removes (fun a ha => hremoves a (List.mem_cons_of_mem _ ha)) (if_pos hbelow)

/-- Of two removed directories, one in the other, the inner one may come too late. -/
theorem exists_fault_of_nested (h : snapshot.Writable base disk) {d d' : PathBuf}
    (hd : d ∈ snapshot.removedDirs) (hd' : d' ∈ snapshot.removedDirs) (hne : d ≠ d')
    (hbelow : onDisk base d <+: onDisk base d') :
    ∃ order : FsOrder snapshot, (writeToVfs base order disk).2 ≠ none := by
  have hmem : d' ∈ snapshot.removedDirs.erase d := (List.mem_erase_of_ne hne.symm).mpr hd'
  have hperm : (d :: d' :: (snapshot.removedDirs.erase d).erase d').Perm snapshot.removedDirs :=
    ((List.perm_cons_erase hmem).symm.cons d).trans (List.perm_cons_erase hd).symm
  refine ⟨(asListed snapshot).withRemovedDirs _ hperm, ?_⟩
  generalize horder : (asListed snapshot).withRemovedDirs _ hperm = order
  have hlist : order.removedDirs = d :: d' :: (snapshot.removedDirs.erase d).erase d' := by
    rw [← horder]
    rfl
  rw [writeToVfs_eq h, removals, hlist, List.map_cons, List.map_cons, List.map_cons, List.map_cons,
    List.cons_append, List.cons_append,
    run_cons_ok (perform_removeDirAll (afterAdditions_removedDir h order hd)),
    run_removeDirAll_none (if_pos hbelow)]
  nofun

/-- A removed file in a removed directory is gone when it is its turn. -/
theorem exists_fault_of_file (h : snapshot.Writable base disk) {r d : PathBuf}
    (hdirs : ∀ d ∈ snapshot.removedDirs, ∀ d' ∈ snapshot.removedDirs,
      onDisk base d <+: onDisk base d' → d = d')
    (hr : r ∈ snapshot.removedFiles) (hd : d ∈ snapshot.removedDirs)
    (hbelow : onDisk base d <+: onDisk base r) :
    ∃ order : FsOrder snapshot, (writeToVfs base order disk).2 ≠ none := by
  refine ⟨(asListed snapshot).withRemovedFiles (r :: snapshot.removedFiles.erase r)
    (List.perm_cons_erase hr).symm, ?_⟩
  generalize horder : (asListed snapshot).withRemovedFiles (r :: snapshot.removedFiles.erase r)
    (List.perm_cons_erase hr).symm = order
  have hlist : order.removedFiles = r :: snapshot.removedFiles.erase r := by rw [← horder]; rfl
  have hpairwise : order.removedDirs.Pairwise fun d d' => ¬ onDisk base d <+: onDisk base d' := by
    refine (order.perm_removedDirs.nodup_iff.mpr h.nodup.2.1).pairwise_of_forall_ne ?_
    intro e he e' he' hne hin
    exact hne (hdirs e (order.perm_removedDirs.mem_iff.mp he) e'
      (order.perm_removedDirs.mem_iff.mp he') hin)
  have hgone : withoutDirs (order.afterAdditions base disk)
      (order.removedDirs.map (onDisk base)) (onDisk base r) = none :=
    if_pos ⟨_, List.mem_map_of_mem (order.perm_removedDirs.mem_iff.mpr hd), hbelow⟩
  rw [writeToVfs_eq h, removals, run_append (run_dirs h order hpairwise), hlist, List.map_cons,
    List.map_cons, run_removeFile_none hgone]
  nofun

/-- A file that is added and removed is missing, in an order that comes to its removal. -/
theorem exists_missing_file (h : snapshot.Writable base disk) {r : PathBuf}
    (hr : r ∈ snapshot.removedFiles)
    (hout : ∀ d ∈ snapshot.removedDirs, ¬ onDisk base d <+: onDisk base r) :
    ∃ order : FsOrder snapshot, (writeToVfs base order disk).1 (onDisk base r) = none := by
  -- directories are removed before those above them
  let deeper : PathBuf → PathBuf → Bool := fun d d' =>
    (onDisk base d').length ≤ (onDisk base d).length
  have hperm : (snapshot.removedDirs.mergeSort deeper).Perm snapshot.removedDirs :=
    List.mergeSort_perm _ _
  refine ⟨((asListed snapshot).withRemovedDirs _ hperm).withRemovedFiles
    (r :: snapshot.removedFiles.erase r) (List.perm_cons_erase hr).symm, ?_⟩
  generalize horder : ((asListed snapshot).withRemovedDirs _ hperm).withRemovedFiles
    (r :: snapshot.removedFiles.erase r) (List.perm_cons_erase hr).symm = order
  have hdirs : order.removedDirs = snapshot.removedDirs.mergeSort deeper := by rw [← horder]; rfl
  have hfiles : order.removedFiles = r :: snapshot.removedFiles.erase r := by rw [← horder]; rfl
  have hsorted : (snapshot.removedDirs.mergeSort deeper).Pairwise fun d d' => deeper d d' = true := by
    refine List.pairwise_mergeSort (fun a b c hab hbc => ?_) (fun a b => ?_) _
    · exact decide_eq_true (le_trans (of_decide_eq_true hbc) (of_decide_eq_true hab))
    · rw [Bool.or_eq_true, decide_eq_true_iff, decide_eq_true_iff]
      exact le_total _ _
  have hpairwise : order.removedDirs.Pairwise fun d d' => ¬ onDisk base d <+: onDisk base d' := by
    rw [hdirs]
    refine (hsorted.and (hperm.nodup_iff.mpr h.nodup.2.1)).imp_of_mem ?_
    intro d d' hd hd' hboth hbelow
    have heq : onDisk base d = onDisk base d' :=
      hbelow.eq_of_length_le (of_decide_eq_true hboth.1)
    exact hboth.2 (h.distinct (.inr (.inl (hperm.mem_iff.mp hd)))
      (.inr (.inl (hperm.mem_iff.mp hd'))) heq)
  obtain ⟨contents, hcontents⟩ :=
    Option.isSome_iff_exists.mp (withoutDirs_removedFile h order hr hout)
  rw [writeToVfs_eq h, removals, run_append (run_dirs h order hpairwise), hfiles, List.map_cons,
    List.map_cons, run_cons_ok (perform_removeFile (Option.join_eq_some_iff.mp hcontents))]
  refine run_of_removes (fun a ha => ?_) (if_pos rfl)
  obtain ⟨p, -, rfl⟩ := List.mem_map.mp ha
  trivial

end FsOrder

/-- **Writing a snapshot whose parts are possible on the disk has one outcome in all orders, does
not stop halfway and loses nothing that it adds, exactly if its removals are apart from each other
and from its additions.** -/
theorem FsSnapshot.writesWell_iff {base : PathBuf} {snapshot : FsSnapshot}
    {disk : Tree String (List UInt8)} (h : snapshot.Writable base disk) :
    snapshot.WritesWell base disk ↔ snapshot.Apart base := by
  constructor
  · intro hwrites
    have hdirsOut : ∀ a ∈ snapshot.addedPaths, ∀ d ∈ snapshot.removedDirs,
        ¬ onDisk base d <+: onDisk base a := by
      intro a ha d hd hbelow
      obtain ⟨order, hmissing⟩ := FsOrder.exists_missing_in_dir h hd hbelow
      exact hwrites.keepsAdded order a ha hmissing
    have hadded : ∀ a ∈ snapshot.addedPaths, snapshot.Kept base a := by
      refine fun a ha => ⟨hdirsOut a ha, fun r hr heq => ?_⟩
      have hout := hdirsOut a ha
      rw [← heq] at hout
      obtain ⟨order, hmissing⟩ := FsOrder.exists_missing_file h hr hout
      rw [heq] at hmissing
      exact hwrites.keepsAdded order a ha hmissing
    have hdirs : ∀ d ∈ snapshot.removedDirs, ∀ d' ∈ snapshot.removedDirs,
        onDisk base d <+: onDisk base d' → d = d' := by
      intro d hd d' hd' hbelow
      by_contra hne
      obtain ⟨order, hfault⟩ := FsOrder.exists_fault_of_nested h hd hd' hne hbelow
      exact hfault (hwrites.succeeds hadded order)
    refine ⟨hdirs, fun r hr d hd hbelow => ?_, hadded⟩
    obtain ⟨order, hfault⟩ := FsOrder.exists_fault_of_file h hdirs hr hd hbelow
    exact hfault (hwrites.succeeds hadded order)
  · intro hapart
    refine ⟨fun order order' => ?_, fun _ order => ?_, fun order a ha => ?_⟩
    · rw [FsOrder.writeToVfs_of_apart h hapart, FsOrder.writeToVfs_of_apart h hapart,
        FsOrder.afterAdditions_eq h order order']
      have hdirs := order.perm_removedDirs.trans order'.perm_removedDirs.symm
      have hfiles := order.perm_removedFiles.trans order'.perm_removedFiles.symm
      rw [withoutDirs_perm (hdirs.map (onDisk base)), withoutFiles_perm (hfiles.map (onDisk base))]
    · rw [FsOrder.writeToVfs_of_apart h hapart]
    · obtain ⟨hdirs, hfiles⟩ := hapart.added a ha
      rw [FsOrder.writeToVfs_of_apart h hapart]
      unfold withoutFiles withoutDirs
      dsimp only
      rw [if_neg, if_neg]
      · exact FsOrder.afterAdditions_added h order ha
      · rintro ⟨d, hd, hbelow⟩
        obtain ⟨p, hp, rfl⟩ := List.mem_map.mp hd
        exact hdirs p (order.perm_removedDirs.mem_iff.mp hp) hbelow
      · intro hmem
        obtain ⟨p, hp, heq⟩ := List.mem_map.mp hmem
        exact hfiles p (order.perm_removedFiles.mem_iff.mp hp) heq

/-! ## A directory and a file in it -/

theorem Disk.wellFormed_find (disk : Disk) (h : ∀ entry ∈ disk.entries, ∀ q ∈ entry.1.inits,
    q ≠ entry.1 → disk.find q = some none) : FileTree.WellFormed disk.find := by
  refine ⟨rfl, fun p hp q hq hne => ?_⟩
  unfold Disk.find at hp
  split_ifs at hp with hnil
  · rw [hnil] at hq hne
    exact absurd (List.prefix_nil.mp hq) hne
  · obtain ⟨entry, hentry⟩ := Option.ne_none_iff_exists'.mp
      (fun hnone => hp (by rw [hnone]; rfl) :
        (disk.entries.find? fun entry => entry.1 = p) ≠ none)
    have heq : entry.1 = p := by simpa using List.find?_some hentry
    subst heq
    exact h entry (List.mem_of_find?_eq_some hentry) q ((List.mem_inits _ _).mpr hq) hne

/-- A module in a directory of its own. -/
def nestedDisk : Disk where
  entries :=
    [(["project"], none), (["project", "src"], none), (["project", "src", "sub"], none),
      (["project", "src", "sub", "foo.lua"], some [])]
  named := by decide

def projectDir : PathBuf := ⟨true, ["project"]⟩

/-- The directory makes way for a file beside it. -/
def replacesSub : FsSnapshot where
  addedFiles := extend ∅ [(⟨true, ["project", "src", "sub.lua"]⟩, [])]
  removedDirs := [⟨true, ["project", "src", "sub"]⟩]

theorem writable_replacesSub : replacesSub.Writable projectDir nestedDisk.find where
  wellFormed := nestedDisk.wellFormed_find (by decide)
  nodup := by decide
  distinct := by
    have hall : ∀ p ∈ replacesSub.addedPaths ++ replacesSub.removedDirs ++ replacesSub.removedFiles,
        ∀ q ∈ replacesSub.addedPaths ++ replacesSub.removedDirs ++ replacesSub.removedFiles,
        onDisk projectDir p = onDisk projectDir q → p = q := by decide
    intro p hp q hq heq
    refine hall p ?_ q ?_ heq
    · rwa [List.mem_append, List.mem_append, or_assoc]
    · rwa [List.mem_append, List.mem_append, or_assoc]
  dirs := nofun
  parents := by decide
  files := by decide
  removedDirs := by decide
  removedFiles := nofun

theorem writesWell_replacesSub : replacesSub.WritesWell projectDir nestedDisk.find :=
  (FsSnapshot.writesWell_iff writable_replacesSub).mpr ⟨by decide, nofun, by decide⟩

/-- A project whose nodes have the directories `src` and `src/sub`, in each of which a child was
lost. -/
def childrenLost : SyncbackSnapshot MapDom :=
  let old := folderOf ["sub", "foo"]
  let sources : List PathBuf := [⟨true, ["project"]⟩, ⟨true, ["project", "src", "sub"]⟩,
    ⟨true, ["project", "src", "sub", "foo.lua"]⟩]
  let metadata := extend ∅ (((WeakDom.rootRef old :: WeakDom.kids old (WeakDom.rootRef old)).zip
    sources).map fun e => (e.1, { instigatingSource := some (.path e.2) }))
  let new := folderOf []
  { data := ⟨⟨old, metadata, MultiMap.new, MultiMap.new⟩, new, none, none⟩
    old := some (WeakDom.rootRef old)
    new := WeakDom.rootRef new
    path := ⟨true, ["project", "default.project.json"]⟩
    middleware := some .project }

/-- Without new children every old one is removed. -/
def removesChildren : LoopContext MapDom where
  rules := none
  oldHashes := extend ∅ ((childrenLost.old.map fun r => (r, [0])).toList)
  newHashes := extend ∅ [(childrenLost.new, [1])]
  isValidPath _ := true
  isDir path := path.components.getLast? = some "sub"
  syncback _ snapshot := do
    let removed ← oldInsts snapshot
    .ok ⟨{}, [], removed⟩

/-- What a pass of the loop leaves: whether it is the last one and adds nothing, and what it
removes. -/
def madeBy (result : Fallible (LoopState MapDom)) : Bool × List PathBuf × List PathBuf :=
  match result with
  | .ok state => (state.snapshots.isEmpty && state.fsSnapshot.addedPaths.isEmpty,
      state.fsSnapshot.removedDirs, state.fsSnapshot.removedFiles)
  | .error _ => (false, [], [])

/-- The directory is removed first and then the file in it is not there. -/
theorem not_writesWell_nested :
    ¬ ∀ (context : LoopContext MapDom) (state : LoopState MapDom) (base : PathBuf)
      (disk : Tree String (List UInt8)),
      Transition.Reachable LoopContext.Starts context.Steps state → state.snapshots = [] →
      state.fsSnapshot.Writable base disk → state.fsSnapshot.WritesWell base disk := by
  intro hall
  have hmade : madeBy (removesChildren.syncbackStep childrenLost ⟨[], {}, []⟩) =
      (true, [⟨true, ["project", "src", "sub"]⟩],
        [⟨true, ["project", "src", "sub", "foo.lua"]⟩]) := by decide +kernel
  cases hstep : removesChildren.syncbackStep childrenLost ⟨[], {}, []⟩ with
  | error e =>
    rw [hstep] at hmade
    cases hmade
  | ok state =>
    rw [hstep] at hmade
    simp only [madeBy, Prod.mk.injEq, Bool.and_eq_true, List.isEmpty_iff] at hmade
    obtain ⟨⟨hstack, hpaths⟩, hremovedDirs, hremovedFiles⟩ := hmade
    obtain ⟨hfiles, hdirs⟩ := List.append_eq_nil_iff.mp hpaths
    rw [List.map_eq_nil_iff] at hfiles
    have hwritable : state.fsSnapshot.Writable projectDir nestedDisk.find := by
      refine ⟨nestedDisk.wellFormed_find (by decide), ?_, ?_, ?_, ?_, ?_, ?_, ?_⟩
      · rw [hdirs, hremovedDirs, hremovedFiles]
        decide
      · rw [hpaths, hremovedDirs, hremovedFiles]
        rintro p (hp | hp | hp) q (hq | hq | hq) heq <;>
          simp only [List.mem_singleton, List.not_mem_nil] at hp hq
        all_goals subst hp hq
        · rfl
        · exact absurd heq (by decide)
        · exact absurd heq (by decide)
        · rfl
      · rw [hdirs]
        nofun
      · rw [hfiles]
        nofun
      · rw [hfiles]
        nofun
      · rw [hremovedDirs]
        decide
      · rw [hremovedFiles]
        decide
    have hwell := hall removesChildren state projectDir nestedDisk.find
      (.step (.init ⟨childrenLost, rfl⟩) ⟨_, [], rfl, hstep⟩) hstack hwritable
    have hnone : ∀ a ∈ state.fsSnapshot.addedPaths, state.fsSnapshot.Kept projectDir a := by
      rw [hpaths]
      nofun
    have hnested : ∀ d ∈ state.fsSnapshot.removedDirs, ∀ d' ∈ state.fsSnapshot.removedDirs,
        onDisk projectDir d <+: onDisk projectDir d' → d = d' := by
      rw [hremovedDirs]
      decide
    obtain ⟨order, hfault⟩ := FsOrder.exists_fault_of_file hwritable hnested
      (r := ⟨true, ["project", "src", "sub", "foo.lua"]⟩) (d := ⟨true, ["project", "src", "sub"]⟩)
      (by rw [hremovedFiles]; exact List.mem_singleton.mpr rfl)
      (by rw [hremovedDirs]; exact List.mem_singleton.mpr rfl) (by decide)
    exact hfault (hwell.succeeds hnone order)

end Roxo
