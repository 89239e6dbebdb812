import Mathlib.Data.List.Infix

/-!
# Trees of files

A tree of files and directories by their names from the root, with the operations of a filesystem
that create, write and remove (`perform`). A batch of them is done one after the other and stops at
the first that fails (`run`).

What a batch of creations, writes or removals leaves is described path by path, where none of them
gets in the way of another: `run_createDirs`, `run_writes`, `run_removeDirs`, `run_removeFiles`.
-/

namespace FileTree

variable {α β : Type} [DecidableEq α]

/-- What is at a path: nothing, a directory, or a file with its contents. -/
abbrev Tree (α β : Type) := List α → Option (Option β)

/-- Whatever is somewhere is in a directory. -/
def WellFormed (t : Tree α β) : Prop :=
  t [] = some none ∧ ∀ p, t p ≠ none → ∀ q, q <+: p → q ≠ p → t q = some none

/-- Why an operation failed. -/
inductive Fault where
  | notFound
  | alreadyExists
  | notDirectory
  | isDirectory
  deriving DecidableEq, Repr

/-- Nothing can be at a path below a file. -/
def missing (t : Tree α β) (p : List α) : Fault :=
  if p.inits.any fun q => (t q).join.isSome then .notDirectory else .notFound

def isDir (t : Tree α β) (p : List α) : Bool :=
  match t p with
  | some none => true
  | _ => false

omit [DecidableEq α] in
theorem isDir_iff {t : Tree α β} {p : List α} : isDir t p = true ↔ t p = some none := by
  unfold isDir
  split <;> simp_all

inductive Action (α β : Type) where
  | createDirAll (p : List α)
  | write (p : List α) (contents : β)
  | removeDirAll (p : List α)
  | removeFile (p : List α)

/-- A directory with all directories above it. -/
def withDir (t : Tree α β) (p : List α) : Tree α β := fun q => if q <+: p then some none else t q

def withFile (t : Tree α β) (p : List α) (contents : β) : Tree α β := fun q =>
  if q = p then some (some contents) else t q

/-- Without a directory and all that is in it. -/
def withoutDir (t : Tree α β) (p : List α) : Tree α β := fun q => if p <+: q then none else t q

def withoutFile (t : Tree α β) (p : List α) : Tree α β := fun q => if q = p then none else t q

/-! Many at once. -/

def withDirs (t : Tree α β) (dirs : List (List α)) : Tree α β := fun q =>
  if ∃ d ∈ dirs, q <+: d then some none else t q

def withFiles (t : Tree α β) (files : List (List α × β)) : Tree α β := fun q =>
  match files.lookup q with
  | some contents => some (some contents)
  | none => t q

def withoutDirs (t : Tree α β) (dirs : List (List α)) : Tree α β := fun q =>
  if ∃ d ∈ dirs, d <+: q then none else t q

def withoutFiles (t : Tree α β) (files : List (List α)) : Tree α β := fun q =>
  if q ∈ files then none else t q

def perform (t : Tree α β) : Action α β → Except Fault (Tree α β)
  | .createDirAll p =>
    match t p with
    | some none => .ok t
    | some (some _) => .error .alreadyExists
    | none =>
      if missing t p = .notDirectory then .error .notDirectory else .ok (withDir t p)
  | .write p contents =>
    match t p with
    | some none => .error .isDirectory
    | _ =>
      if isDir t p.dropLast then .ok (withFile t p contents)
      else .error (missing t p.dropLast)
  | .removeDirAll p =>
    match t p with
    | some none => .ok (withoutDir t p)
    | some (some _) => .error .notDirectory
    | none => .error (missing t p)
  | .removeFile p =>
    match t p with
    | some (some _) => .ok (withoutFile t p)
    | some none => .error .isDirectory
    | none => .error (missing t p)

/-- The faults that an action may have and the batch goes on. -/
def Action.excuses : Action α β → Fault → Bool
  | .createDirAll _, .alreadyExists => true
  | _, _ => false

/-- The actions of a batch one after the other, and the fault that it stopped at. -/
def run : List (Action α β) → Tree α β → Tree α β × Option Fault
  | [], t => (t, none)
  | action :: actions, t =>
    match perform t action with
    | .ok t' => run actions t'
    | .error fault => if action.excuses fault then run actions t else (t, some fault)

variable {t t' : Tree α β} {p q d : List α} {actions actions' : List (Action α β)}
  {action : Action α β}

theorem run_cons_ok (h : perform t action = .ok t') :
    run (action :: actions) t = run actions t' := by
  rw [run, h]

theorem run_append (h : run actions t = (t', none)) :
    run (actions ++ actions') t = run actions' t' := by
  induction actions generalizing t with
  | nil => rw [(Prod.mk.inj h).1]; rfl
  | cons action actions ih =>
    rw [List.cons_append, run]
    rw [run] at h
    split
    · rename_i t₁ hok
      rw [hok] at h
      exact ih h
    · rename_i fault hfault
      rw [hfault] at h
      dsimp only at h
      split_ifs at h ⊢ with hexcused
      · exact ih h
      · cases h

/-! ## Removals -/

def Action.Removes : Action α β → Prop
  | .removeDirAll _ | .removeFile _ => True
  | _ => False

theorem perform_of_removes (h : action.Removes) (hok : perform t action = .ok t') (hq : t q = none) :
    t' q = none := by
  cases action with
  | createDirAll p => cases h
  | write p contents => cases h
  | removeDirAll p =>
    rw [perform] at hok
    rcases hp : t p with _ | _ | contents <;> rw [hp] at hok
    · cases hok
    · rw [← Except.ok.inj hok]
      unfold withoutDir
      split_ifs
      · rfl
      · exact hq
    · cases hok
  | removeFile p =>
    rw [perform] at hok
    rcases hp : t p with _ | _ | contents <;> rw [hp] at hok
    · cases hok
    · cases hok
    · rw [← Except.ok.inj hok]
      unfold withoutFile
      split_ifs
      · rfl
      · exact hq

/-- Removals bring nothing back. -/
theorem run_of_removes (h : ∀ a ∈ actions, a.Removes) (hq : t q = none) :
    (run actions t).1 q = none := by
  induction actions generalizing t with
  | nil => exact hq
  | cons action actions ih =>
    rw [run]
    split
    · rename_i t₁ hok
      exact ih (fun a ha => h a (List.mem_cons_of_mem _ ha))
        (perform_of_removes (h action List.mem_cons_self) hok hq)
    · split_ifs
      · exact ih (fun a ha => h a (List.mem_cons_of_mem _ ha)) hq
      · exact hq

theorem perform_removeDirAll (h : t p = some none) :
    perform t (.removeDirAll p) = .ok (withoutDir t p) := by
  rw [perform, h]

theorem perform_removeFile {contents : β} (h : t p = some (some contents)) :
    perform t (.removeFile p) = .ok (withoutFile t p) := by
  rw [perform, h]

/-- A directory that is not there cannot be removed. -/
theorem run_removeDirAll_none (h : t p = none) :
    (run (.removeDirAll p :: actions) t).2 = some (missing t p) := by
  rw [run, perform, h]
  rfl

theorem run_removeFile_none (h : t p = none) :
    (run (.removeFile p :: actions) t).2 = some (missing t p) := by
  rw [run, perform, h]
  rfl

omit [DecidableEq α] in
theorem exists_cons {P : List α → Prop} {dirs : List (List α)} :
    (∃ d' ∈ d :: dirs, P d') ↔ P d ∨ ∃ d' ∈ dirs, P d' := by
  simp only [List.mem_cons, exists_eq_or_imp]

theorem withoutDirs_nil (t : Tree α β) : withoutDirs t [] = t :=
  funext fun _ => if_neg (by simp)

theorem withoutDirs_cons (t : Tree α β) (d : List α) (dirs : List (List α)) :
    withoutDirs (withoutDir t d) dirs = withoutDirs t (d :: dirs) := by
  funext q
  unfold withoutDirs withoutDir
  by_cases hlater : ∃ d ∈ dirs, d <+: q
  · rw [if_pos hlater, if_pos (exists_cons.mpr (.inr hlater))]
  · rw [if_neg hlater]
    refine if_congr ?_ rfl rfl
    rw [exists_cons, or_iff_left hlater]

/-- Directories of which none is in one that is removed before it. -/
theorem run_removeDirs {dirs : List (List α)} (hdirs : ∀ d ∈ dirs, t d = some none)
    (hapart : dirs.Pairwise fun d d' => ¬ d <+: d') :
    run (dirs.map .removeDirAll) t = (withoutDirs t dirs, none) := by
  induction dirs generalizing t with
  | nil => rw [withoutDirs_nil]; rfl
  | cons d dirs ih =>
    obtain ⟨hd, hapart⟩ := List.pairwise_cons.mp hapart
    have hlater : ∀ d' ∈ dirs, withoutDir t d d' = some none := by
      intro d' hd'
      unfold withoutDir
      rw [if_neg (hd d' hd')]
      exact hdirs d' (List.mem_cons_of_mem _ hd')
    rw [List.map_cons, run_cons_ok (perform_removeDirAll (hdirs d List.mem_cons_self)),
      ih hlater hapart, withoutDirs_cons]

theorem withoutFiles_cons (t : Tree α β) (p : List α) (files : List (List α)) :
    withoutFiles (withoutFile t p) files = withoutFiles t (p :: files) := by
  funext q
  unfold withoutFiles withoutFile
  by_cases hlater : q ∈ files
  · rw [if_pos hlater, if_pos (List.mem_cons_of_mem _ hlater)]
  · rw [if_neg hlater]
    refine if_congr ?_ rfl rfl
    rw [List.mem_cons, or_iff_left hlater]

theorem run_removeFiles {files : List (List α)} (hfiles : ∀ p ∈ files, (t p).join.isSome)
    (hnodup : files.Nodup) : run (files.map .removeFile) t = (withoutFiles t files, none) := by
  induction files generalizing t with
  | nil => exact congrArg (·, none) (funext fun _ => (if_neg List.not_mem_nil).symm)
  | cons p files ih =>
    obtain ⟨hp, hnodup⟩ := List.nodup_cons.mp hnodup
    obtain ⟨contents, hcontents⟩ := Option.isSome_iff_exists.mp (hfiles p List.mem_cons_self)
    have hlater : ∀ p' ∈ files, (withoutFile t p p').join.isSome := by
      intro p' hp'
      unfold withoutFile
      rw [if_neg fun heq : p' = p => hp (heq ▸ hp')]
      exact hfiles p' (List.mem_cons_of_mem _ hp')
    rw [List.map_cons, run_cons_ok (perform_removeFile (Option.join_eq_some_iff.mp hcontents)),
      ih hlater hnodup, withoutFiles_cons]

/-! ## Additions -/

/-- No file is at the path or above it. -/
def Free (t : Tree α β) (p : List α) : Prop := ∀ q, q <+: p → (t q).join = none

omit [DecidableEq α] in
theorem missing_eq_notFound (h : Free t p) : missing t p = .notFound := by
  unfold missing
  rw [if_neg]
  rw [List.any_eq_true]
  rintro ⟨q, hq, hfile⟩
  rw [h q ((List.mem_inits q p).mp hq)] at hfile
  cases hfile

/-- A directory can be created where no file is in the way. -/
theorem perform_createDirAll (ht : WellFormed t) (h : Free t p) :
    perform t (.createDirAll p) = .ok (withDir t p) := by
  rw [perform]
  rcases hp : t p with _ | _ | contents
  · dsimp only
    rw [missing_eq_notFound h, if_neg (by decide)]
  · refine congrArg Except.ok (funext fun q => ?_)
    unfold withDir
    split_ifs with hq
    · by_cases heq : q = p
      · rw [heq, hp]
      · exact ht.2 p (by rw [hp]; nofun) q hq heq
    · rfl
  · have hfree := h p List.prefix_rfl
    rw [hp] at hfree
    cases hfree

theorem WellFormed.withDir (ht : WellFormed t) : WellFormed (withDir t p) := by
  refine ⟨if_pos (List.nil_prefix), fun r hr q hq hne => ?_⟩
  unfold FileTree.withDir at hr ⊢
  split_ifs at hr with hrp
  · rw [if_pos (hq.trans hrp)]
  · split_ifs
    · rfl
    · exact ht.2 r hr q hq hne

theorem Free.withDir (h : Free t p) : Free (withDir t q) p := by
  intro r hr
  unfold FileTree.withDir
  split_ifs
  · rfl
  · exact h r hr

theorem withDirs_cons (t : Tree α β) (d : List α) (dirs : List (List α)) :
    withDirs (withDir t d) dirs = withDirs t (d :: dirs) := by
  funext q
  unfold withDirs withDir
  by_cases hlater : ∃ d ∈ dirs, q <+: d
  · rw [if_pos hlater, if_pos (exists_cons.mpr (.inr hlater))]
  · rw [if_neg hlater]
    refine if_congr ?_ rfl rfl
    rw [exists_cons, or_iff_left hlater]

theorem run_createDirs {dirs : List (List α)} (ht : WellFormed t) (h : ∀ d ∈ dirs, Free t d) :
    run (dirs.map .createDirAll) t = (withDirs t dirs, none) := by
  induction dirs generalizing t with
  | nil => exact congrArg (·, none) (funext fun _ => (if_neg (by simp)).symm)
  | cons d dirs ih =>
    have hd := h d List.mem_cons_self
    rw [List.map_cons, run_cons_ok (perform_createDirAll ht hd), ih ht.withDir
      fun d' hd' => (h d' (List.mem_cons_of_mem _ hd')).withDir, withDirs_cons]

theorem perform_write {contents : β} (hparent : t p.dropLast = some none) (h : t p ≠ some none) :
    perform t (.write p contents) = .ok (withFile t p contents) := by
  rw [perform, isDir_iff.mpr hparent]
  rcases hp : t p with _ | _ | contents
  · rfl
  · exact absurd hp h
  · rfl

theorem withFiles_cons (t : Tree α β) (e : List α × β) {files : List (List α × β)}
    (h : e.1 ∉ files.map Prod.fst) :
    withFiles (withFile t e.1 e.2) files = withFiles t (e :: files) := by
  funext q
  unfold withFiles withFile
  rw [List.lookup_cons]
  by_cases hq : q = e.1
  · have hnone : files.lookup q = none := by
      rw [List.lookup_eq_none_iff]
      intro f hf
      rw [hq]
      refine bne_iff_ne.mpr fun heq => h ?_
      rw [heq]
      exact List.mem_map_of_mem hf
    rw [hnone, hq]
    simp
  · rw [beq_eq_false_iff_ne.mpr hq]
    simp only [if_neg hq]

/-- Files in directories that are there, at paths that are not directories. -/
theorem run_writes {files : List (List α × β)} (hnodup : (files.map Prod.fst).Nodup)
    (hparent : ∀ e ∈ files, t e.1.dropLast = some none) (h : ∀ e ∈ files, t e.1 ≠ some none) :
    run (files.map fun e => .write e.1 e.2) t = (withFiles t files, none) := by
  induction files generalizing t with
  | nil => rfl
  | cons e files ih =>
    obtain ⟨he, hnodup⟩ := List.nodup_cons.mp hnodup
    have hself := h e List.mem_cons_self
    have hlater : ∀ e' ∈ files, withFile t e.1 e.2 e'.1.dropLast = some none := by
      intro e' he'
      have hdir := hparent e' (List.mem_cons_of_mem _ he')
      unfold withFile
      rw [if_neg fun heq : e'.1.dropLast = e.1 => hself (heq ▸ hdir)]
      exact hdir
    have hfree : ∀ e' ∈ files, withFile t e.1 e.2 e'.1 ≠ some none := by
      intro e' he'
      unfold withFile
      split_ifs
      · nofun
      · exact h e' (List.mem_cons_of_mem _ he')
    rw [List.map_cons, run_cons_ok (perform_write (hparent e List.mem_cons_self) hself),
      ih hnodup hlater hfree, withFiles_cons t e he]

/-! ## Path by path -/

theorem withFiles_of_not_mem {files : List (List α × β)} (h : q ∉ files.map Prod.fst) :
    withFiles t files q = t q := by
  have hnone : files.lookup q = none := by
    rw [List.lookup_eq_none_iff]
    intro e he
    refine bne_iff_ne.mpr fun heq => h ?_
    rw [heq]
    exact List.mem_map_of_mem he
  rw [withFiles, hnone]

theorem withFiles_of_mem {files : List (List α × β)} {e : List α × β}
    (hnodup : (files.map Prod.fst).Nodup) (he : e ∈ files) :
    withFiles t files e.1 = some (some e.2) := by
  induction files with
  | nil => cases he
  | cons f files ih =>
    obtain ⟨hf, hnodup⟩ := List.nodup_cons.mp hnodup
    rw [withFiles, List.lookup_cons]
    rcases List.mem_cons.mp he with rfl | he
    · rw [beq_self_eq_true]
    · have hne : e.1 ≠ f.1 := fun heq => hf (heq ▸ List.mem_map_of_mem he)
      rw [beq_eq_false_iff_ne.mpr hne]
      exact ih hnodup he

theorem withFiles_perm {files files' : List (List α × β)} (hnodup : (files.map Prod.fst).Nodup)
    (h : files.Perm files') : withFiles t files = withFiles t files' := by
  funext q
  by_cases hq : q ∈ files.map Prod.fst
  · obtain ⟨e, he, rfl⟩ := List.mem_map.mp hq
    rw [withFiles_of_mem hnodup he,
      withFiles_of_mem ((h.map Prod.fst).nodup_iff.mp hnodup) (h.mem_iff.mp he)]
  · rw [withFiles_of_not_mem hq, withFiles_of_not_mem ((h.map Prod.fst).mem_iff.not.mp hq)]

theorem withDirs_perm {dirs dirs' : List (List α)} (h : dirs.Perm dirs') :
    withDirs t dirs = withDirs t dirs' :=
  funext fun _ => if_congr (exists_congr fun _ => and_congr_left fun _ => h.mem_iff) rfl rfl

theorem withoutDirs_perm {dirs dirs' : List (List α)} (h : dirs.Perm dirs') :
    withoutDirs t dirs = withoutDirs t dirs' :=
  funext fun _ => if_congr (exists_congr fun _ => and_congr_left fun _ => h.mem_iff) rfl rfl

theorem withoutFiles_perm {files files' : List (List α)} (h : files.Perm files') :
    withoutFiles t files = withoutFiles t files' :=
  funext fun _ => if_congr h.mem_iff rfl rfl

end FileTree
