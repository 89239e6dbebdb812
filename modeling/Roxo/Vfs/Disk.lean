import Roxo.Vfs.Vfs

/-!
# A filesystem without links

The files and directories of a disk by their names from the root. `..` leads to the directory
above. What such a disk answers obeys the laws of canonical paths (`Disk.lawful`).
-/

namespace Roxo

/-- Files with their contents, and directories. No name is `.` or `..`. -/
structure Disk where
  entries : List (List String × Option (List UInt8))
  named : ∀ entry ∈ entries, "." ∉ entry.1 ∧ ".." ∉ entry.1

namespace Disk

/-- What is at a path from the root: a file with contents or a directory. -/
def find (disk : Disk) (names : List String) : Option (Option (List UInt8)) :=
  if names = [] then some none
  else (disk.entries.find? fun entry => entry.1 = names).map Prod.snd

def notFound (names : List String) : IoError :=
  ⟨.notFound, s!"path {(PathBuf.mk true names).display} not found"⟩

def notDirectory (names : List String) : IoError :=
  ⟨.other, s!"path {(PathBuf.mk true names).display} was a file, but must be a directory"⟩

/-- Follows names from a directory. -/
def resolve (disk : Disk) : List String → List String → Except IoError (List String)
  | above, [] => .ok above
  | above, name :: rest =>
    if name = ".." then resolve disk above.dropLast rest
    else
      match disk.find (above ++ [name]) with
      | some none => resolve disk (above ++ [name]) rest
      | some (some _) =>
        if rest = [] then .ok (above ++ [name]) else .error (notDirectory (above ++ [name]))
      | none => .error (notFound (above ++ [name]))

/-- The names of the entries of a directory. -/
def namesIn (disk : Disk) (dir : List String) : List String :=
  disk.entries.filterMap fun entry =>
    match entry.1.getLast? with
    | some name => if entry.1.dropLast = dir then some name else none
    | none => none

/-- What the disk answers. A relative path is one from the root. -/
def vfs (disk : Disk) : Vfs where
  metadata path := do
    let names ← disk.resolve [] path.components
    match disk.find names with
    | some content => .ok ⟨content.isSome⟩
    | none => .error (notFound names)
  read path := do
    let names ← disk.resolve [] path.components
    match disk.find names with
    | some (some contents) => .ok contents
    | some none => .error ⟨.other, s!"path {path.display} was a directory, but must be a file"⟩
    | none => .error (notFound names)
  readDir path := do
    let names ← disk.resolve [] path.components
    match disk.find names with
    | some none => .ok ((disk.namesIn names).map fun name => .ok (path.joinStr name))
    | some (some _) => .error (notDirectory names)
    | none => .error (notFound names)
  canonicalize path := do
    let names ← disk.resolve [] path.components
    .ok ⟨true, names⟩

variable {disk : Disk} {names above : List String} {name : String}

theorem names_of_find {content : Option (List UInt8)} (h : disk.find names = some content) :
    "." ∉ names ∧ ".." ∉ names := by
  unfold find at h
  split_ifs at h with hnil
  · rw [hnil]
    exact ⟨List.not_mem_nil, List.not_mem_nil⟩
  · obtain ⟨entry, hentry, -⟩ := Option.map_eq_some_iff.mp h
    have hname : entry.1 = names := by simpa using List.find?_some hentry
    rw [← hname]
    exact disk.named entry (List.mem_of_find?_eq_some hentry)

/-- Every path above and at `names` is a directory. -/
def IsDirectory (disk : Disk) (names : List String) : Prop :=
  ∀ p, p <+: names → disk.find p = some none

/-- The names lead to something without `.` and `..`. -/
def Exists (disk : Disk) (names : List String) : Prop :=
  ∃ content, disk.find names = some content ∧ ∀ p, p <+: names → p ≠ names → disk.find p = some none

theorem IsDirectory.exists (h : disk.IsDirectory names) : disk.Exists names :=
  ⟨none, h names List.prefix_rfl, fun p hp _ => h p hp⟩

theorem isDirectory_nil : disk.IsDirectory [] := by
  intro p hp
  rw [List.prefix_nil.mp hp]
  rfl

theorem IsDirectory.dropLast (h : disk.IsDirectory names) : disk.IsDirectory names.dropLast :=
  fun p hp => h p (hp.trans (List.dropLast_prefix names))

theorem prefix_concat_cases {p : List String} (h : p <+: above ++ [name]) :
    p = above ++ [name] ∨ p <+: above := List.prefix_concat_iff.mp h

theorem IsDirectory.concat (h : disk.IsDirectory above)
    (hname : disk.find (above ++ [name]) = some none) : disk.IsDirectory (above ++ [name]) := by
  intro p hp
  rcases prefix_concat_cases hp with rfl | hp
  · exact hname
  · exact h p hp

/-- What is resolved exists. -/
theorem exists_of_resolve {rest : List String} (h : disk.IsDirectory above)
    (heq : disk.resolve above rest = .ok names) : disk.Exists names := by
  induction rest generalizing above with
  | nil =>
    cases heq
    exact h.exists
  | cons name rest ih =>
    rw [resolve] at heq
    by_cases hup : name = ".."
    · rw [if_pos hup] at heq
      exact ih h.dropLast heq
    · rw [if_neg hup] at heq
      cases hfind : disk.find (above ++ [name]) with
      | none =>
        rw [hfind] at heq
        cases heq
      | some content =>
        rw [hfind] at heq
        cases content with
        | none => exact ih (h.concat hfind) heq
        | some contents =>
          dsimp only at heq
          by_cases hrest : rest = []
          · rw [if_pos hrest] at heq
            cases heq
            refine ⟨some contents, hfind, fun p hp hne => ?_⟩
            exact h p ((prefix_concat_cases hp).resolve_left hne)
          · rw [if_neg hrest] at heq
            cases heq

/-- What exists is resolved to itself. -/
theorem Exists.resolve {rest : List String} (h : disk.Exists (above ++ rest)) :
    disk.resolve above rest = .ok (above ++ rest) := by
  induction rest generalizing above with
  | nil => rw [Disk.resolve, List.append_nil]
  | cons name rest ih =>
    have happend : above ++ name :: rest = (above ++ [name]) ++ rest := by simp
    obtain ⟨content, hcontent, habove⟩ := h
    have hname : name ≠ ".." := by
      rintro rfl
      exact (names_of_find hcontent).2 (by simp)
    rw [Disk.resolve, if_neg hname]
    cases rest with
    | nil =>
      rw [hcontent]
      cases content <;> rfl
    | cons next rest =>
      have hdir : disk.find (above ++ [name]) = some none := by
        refine habove _ ⟨next :: rest, by simp⟩ fun heq => ?_
        have := congrArg List.length heq
        simp at this
      rw [hdir]
      dsimp only
      have hrest : disk.Exists ((above ++ [name]) ++ next :: rest) :=
        ⟨content, happend ▸ hcontent, happend ▸ habove⟩
      rw [ih hrest, happend]

theorem canonicalize_eq_ok {path path' : PathBuf} : disk.vfs.canonicalize path = .ok path' ↔
    ∃ names, disk.resolve [] path.components = .ok names ∧ path' = ⟨true, names⟩ := by
  unfold vfs
  dsimp only
  cases disk.resolve [] path.components with
  | error e => exact ⟨nofun, fun ⟨_, h, _⟩ => nomatch h⟩
  | ok names =>
    simp only [Except.ok.injEq, exists_eq_left']
    exact ⟨fun h => by cases h; rfl, fun h => by rw [h]; rfl⟩

theorem canonicalize_of_exists (h : disk.Exists names) {absolute : Bool} :
    disk.vfs.canonicalize ⟨absolute, names⟩ = .ok ⟨true, names⟩ := by
  have hroot : disk.Exists ([] ++ names) := h
  exact canonicalize_eq_ok.mpr ⟨names, hroot.resolve, rfl⟩

/-- **A disk obeys the laws of canonical paths.** -/
theorem lawful (disk : Disk) : disk.vfs.Lawful where
  canonical {path path'} heq := by
    obtain ⟨names, hnames, rfl⟩ := canonicalize_eq_ok.mp heq
    exact canonicalize_of_exists (exists_of_resolve isDirectory_nil hnames)
  normal {path path'} heq := by
    obtain ⟨names, hnames, rfl⟩ := canonicalize_eq_ok.mp heq
    obtain ⟨content, hcontent, -⟩ := exists_of_resolve isDirectory_nil hnames
    exact ⟨rfl, (names_of_find hcontent).2, (names_of_find hcontent).1⟩
  parent {path above} heq hparent := by
    obtain ⟨names, hnames, rfl⟩ := canonicalize_eq_ok.mp heq
    obtain ⟨content, hcontent, habove⟩ := exists_of_resolve isDirectory_nil hnames
    unfold PathBuf.parent at hparent
    dsimp only at hparent
    split_ifs at hparent with hnil
    obtain rfl := Option.some.inj hparent
    refine canonicalize_of_exists ?_
    have hne : ∀ p, p <+: names.dropLast → p ≠ names := by
      rintro p hp rfl
      have hlength := hp.length_le
      rw [List.length_dropLast] at hlength
      have := List.length_pos_iff.mpr hnil
      omega
    exact ⟨none, habove _ (List.dropLast_prefix names) (hne _ List.prefix_rfl),
      fun p hp _ => habove p (hp.trans (List.dropLast_prefix names)) (hne p hp)⟩

/-- What leads on to something leads to a directory. -/
theorem resolve_concat {rest : List String} (h : disk.IsDirectory above)
    (heq : disk.resolve above (rest ++ [name]) = .ok names) :
    ∃ dir, disk.resolve above rest = .ok dir ∧ disk.IsDirectory dir := by
  induction rest generalizing above with
  | nil => exact ⟨above, rfl, h⟩
  | cons first rest ih =>
    rw [List.cons_append, resolve] at heq
    rw [resolve]
    by_cases hup : first = ".."
    · rw [if_pos hup] at heq ⊢
      exact ih h.dropLast heq
    · rw [if_neg hup] at heq ⊢
      cases hfind : disk.find (above ++ [first]) with
      | none =>
        rw [hfind] at heq
        cases heq
      | some content =>
        rw [hfind] at heq
        cases content with
        | none => exact ih (h.concat hfind) heq
        | some contents =>
          dsimp only at heq
          rw [if_neg (List.append_ne_nil_of_right_ne_nil rest (List.cons_ne_nil name []))] at heq
          cases heq

theorem metadata_eq_ok {path : PathBuf} {metadata : Metadata} :
    disk.vfs.metadata path = .ok metadata ↔ ∃ dir content,
      disk.resolve [] path.components = .ok dir ∧ disk.find dir = some content ∧
        metadata = ⟨content.isSome⟩ := by
  cases hdir : disk.resolve [] path.components with
  | error e => simp [vfs, hdir, bind, Except.bind]
  | ok dir =>
    cases hcontent : disk.find dir with
    | none => simp [vfs, hdir, hcontent, bind, Except.bind]
    | some content => simp [vfs, hdir, hcontent, bind, Except.bind, eq_comm]

theorem read_eq_ok {path : PathBuf} {contents : List UInt8} :
    disk.vfs.read path = .ok contents ↔
      ∃ dir, disk.resolve [] path.components = .ok dir ∧ disk.find dir = some (some contents) := by
  cases hdir : disk.resolve [] path.components with
  | error e => simp [vfs, hdir, bind, Except.bind]
  | ok dir =>
    cases hcontent : disk.find dir with
    | none => simp [vfs, hdir, hcontent, bind, Except.bind]
    | some content => cases content <;> simp [vfs, hdir, hcontent, bind, Except.bind]

/-- **What is on a disk lies in a directory.** -/
theorem nested (disk : Disk) : disk.vfs.Nested where
  parent {path above metadata} heq hparent := by
    obtain ⟨dir, content, hdir, -, -⟩ := metadata_eq_ok.mp heq
    unfold PathBuf.parent at hparent
    split_ifs at hparent with hnil
    obtain rfl := Option.some.inj hparent
    rw [← List.dropLast_concat_getLast hnil] at hdir
    obtain ⟨folder, hfolder, hdirectory⟩ := resolve_concat isDirectory_nil hdir
    exact metadata_eq_ok.mpr ⟨folder, none, hfolder, hdirectory folder List.prefix_rfl, rfl⟩
  top {path metadata} heq hparent := by
    obtain ⟨dir, content, hdir, hcontent, rfl⟩ := metadata_eq_ok.mp heq
    unfold PathBuf.parent at hparent
    split_ifs at hparent with hnil
    rw [hnil] at hdir
    cases hdir
    cases hcontent
    rfl
  file {path contents} heq := by
    obtain ⟨dir, hdir, hcontent⟩ := read_eq_ok.mp heq
    exact metadata_eq_ok.mpr ⟨dir, some contents, hdir, hcontent, rfl⟩

end Disk

end Roxo
