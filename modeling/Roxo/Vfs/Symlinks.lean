import Roxo.Vfs.Disk
import Roxo.Vfs.EventPath

/-!
# Events in a filesystem with symbolic links

The tree is keyed by canonical paths. By the time an event is handled, its path and more may be
removed, and `canonicalize_event_path` finds the key that the path had exactly if every symbolic
link on the path still leads somewhere (`LinkedDisk.keepsKey_iff`).
-/

namespace Roxo

/-- An entry of a directory. -/
inductive DirEntry where
  | file (contents : List UInt8)
  | dir
  | link (target : PathBuf)
  deriving DecidableEq, Repr

/-- Entries by their names from the root, and what a process needs to follow its paths. -/
structure LinkedDisk where
  entries : List (List String × DirEntry)
  workingDir : List String
  /-- A path with more links than that is taken for a loop. -/
  maxLinks : ℕ

namespace LinkedDisk

open Disk (notFound notDirectory)

def find (disk : LinkedDisk) (names : List String) : Option DirEntry :=
  if names = [] then some .dir
  else (disk.entries.find? fun entry => entry.1 = names).map Prod.snd

def tooManyLinks (names : List String) : IoError :=
  ⟨.other, s!"too many levels of symbolic links at {(PathBuf.mk true names).display}"⟩

/-- Follows names from a directory, and returns the names from the root of what is there and how
many more links may be followed. -/
def follow (disk : LinkedDisk) (links : ℕ) (above : List String) :
    List String → Except IoError (List String × ℕ)
  | [] => .ok (above, links)
  | name :: rest =>
    match disk.find above with
    | none => .error (notFound above)
    | some .dir =>
      if name = "." then disk.follow links above rest
      else if name = ".." then disk.follow links above.dropLast rest
      else
        match disk.find (above ++ [name]) with
        | none => .error (notFound (above ++ [name]))
        | some (.link target) =>
          match links with
          | 0 => .error (tooManyLinks (above ++ [name]))
          | left + 1 =>
            disk.follow left (if target.absolute then [] else above) (target.components ++ rest)
        | some _ => disk.follow links (above ++ [name]) rest
    | some _ => .error (notDirectory above)
termination_by todo => (links, todo.length)

def fromRoot (disk : LinkedDisk) (path : PathBuf) : List String :=
  if path.absolute then path.components else disk.workingDir ++ path.components

def resolve (disk : LinkedDisk) (path : PathBuf) : Except IoError (List String × ℕ) :=
  disk.follow disk.maxLinks [] (disk.fromRoot path)

/-- `realpath`: nothing is at the empty path. -/
def realpath (disk : LinkedDisk) (path : PathBuf) : Except IoError (List String) :=
  if path.absolute = false ∧ path.components = [] then .error (notFound [])
  else (disk.resolve path).map Prod.fst

/-- What is at a path, which is a link even if it leads nowhere. -/
def lstat (disk : LinkedDisk) (path : PathBuf) : Option DirEntry :=
  match path.components.getLast? with
  | none => some .dir
  | some name =>
    match disk.resolve { path with components := path.components.dropLast } with
    | .ok (dir, _) => disk.find (dir ++ [name])
    | .error _ => none

/-- The names of the entries of a directory. -/
def namesIn (disk : LinkedDisk) (dir : List String) : List String :=
  disk.entries.filterMap fun entry =>
    match entry.1.getLast? with
    | some name => if entry.1.dropLast = dir then some name else none
    | none => none

/-- What the disk answers. -/
def vfs (disk : LinkedDisk) : Vfs where
  metadata path := do
    let names ← disk.realpath path
    match disk.find names with
    | some entry => .ok ⟨entry ≠ .dir⟩
    | none => .error (notFound names)
  read path := do
    let names ← disk.realpath path
    match disk.find names with
    | some (.file contents) => .ok contents
    | some _ => .error ⟨.other, s!"path {path.display} was a directory, but must be a file"⟩
    | none => .error (notFound names)
  readDir path := do
    let names ← disk.realpath path
    match disk.find names with
    | some .dir => .ok ((disk.namesIn names).map fun name => .ok (path.joinStr name))
    | some _ => .error (notDirectory names)
    | none => .error (notFound names)
  canonicalize path := (disk.realpath path).map fun names => ⟨true, names⟩

/-- The path itself names a symbolic link. -/
def IsLink (disk : LinkedDisk) (path : PathBuf) : Prop :=
  ∃ target, disk.lstat path = some (.link target)

/-- Entries were removed, and nothing else was changed. -/
structure Shrinks (disk later : LinkedDisk) : Prop where
  workingDir : later.workingDir = disk.workingDir
  maxLinks : later.maxLinks = disk.maxLinks
  find : ∀ names entry, later.find names = some entry → disk.find names = some entry

/-- Nothing on the way to the names is a link. -/
def Real (disk : LinkedDisk) (names : List String) : Prop :=
  ∀ q, q <+: names → ∀ target, disk.find q ≠ some (.link target)

variable {disk later : LinkedDisk} {links left : ℕ} {above names dir : List String} {name : String}
  {found : List String × ℕ} {path : PathBuf}

theorem Shrinks.eq_or_none (h : disk.Shrinks later) (names : List String) :
    later.find names = disk.find names ∨ later.find names = none := by
  cases hfind : later.find names with
  | none => exact .inr rfl
  | some entry => exact .inl (h.find names entry hfind).symm

/-! ## Following names -/

section Step

variable {rest : List String} (hdir : disk.find above = some .dir)

include hdir

theorem follow_dot : disk.follow links above ("." :: rest) = disk.follow links above rest := by
  rw [follow, hdir]
  rfl

theorem follow_parent :
    disk.follow links above (".." :: rest) = disk.follow links above.dropLast rest := by
  rw [follow, hdir]
  rfl

variable (hname : name ≠ "." ∧ name ≠ "..")

include hname

theorem follow_none (h : disk.find (above ++ [name]) = none) :
    disk.follow links above (name :: rest) = .error (notFound (above ++ [name])) := by
  rw [follow, hdir]
  dsimp only
  rw [if_neg hname.1, if_neg hname.2, h]

theorem follow_link {target : PathBuf} (h : disk.find (above ++ [name]) = some (.link target)) :
    disk.follow (left + 1) above (name :: rest) =
      disk.follow left (if target.absolute then [] else above) (target.components ++ rest) := by
  rw [follow, hdir]
  dsimp only
  rw [if_neg hname.1, if_neg hname.2, h]

theorem follow_link_zero {target : PathBuf}
    (h : disk.find (above ++ [name]) = some (.link target)) :
    disk.follow 0 above (name :: rest) = .error (tooManyLinks (above ++ [name])) := by
  rw [follow, hdir]
  dsimp only
  rw [if_neg hname.1, if_neg hname.2, h]

theorem follow_entry {entry : DirEntry} (h : disk.find (above ++ [name]) = some entry)
    (hentry : ∀ target, entry ≠ .link target) :
    disk.follow links above (name :: rest) = disk.follow links (above ++ [name]) rest := by
  rw [follow, hdir]
  dsimp only
  rw [if_neg hname.1, if_neg hname.2, h]
  cases entry with
  | file contents => rfl
  | dir => rfl
  | link target => exact absurd rfl (hentry target)

end Step

theorem follow_missing {rest : List String} (h : disk.find above = none) :
    disk.follow links above (name :: rest) = .error (notFound above) := by
  rw [follow, h]

theorem follow_notDirectory {rest : List String} {entry : DirEntry} (hentry : entry ≠ .dir)
    (h : disk.find above = some entry) :
    disk.follow links above (name :: rest) = .error (notDirectory above) := by
  rw [follow, h]
  cases entry with
  | file contents => rfl
  | dir => exact absurd rfl hentry
  | link target => rfl

/-- Names are followed only from a directory. -/
theorem dir_of_follow {rest : List String}
    (h : disk.follow links above (name :: rest) = .ok found) : disk.find above = some .dir := by
  cases hfind : disk.find above with
  | none =>
    rw [follow_missing hfind] at h
    cases h
  | some entry =>
    by_contra hentry
    rw [follow_notDirectory (fun heq => hentry (by rw [heq])) hfind] at h
    cases h

theorem follow_append (xs ys : List String) :
    disk.follow links above (xs ++ ys) =
      (disk.follow links above xs).bind fun found => disk.follow found.2 found.1 ys := by
  induction links, above, xs using follow.induct disk with
  | case1 links above =>
    rw [List.nil_append, follow]
    rfl
  | case2 links above name rest hmissing =>
    rw [List.cons_append, follow_missing hmissing, follow_missing hmissing]
    rfl
  | case3 links above rest hdir ih => rw [List.cons_append, follow_dot hdir, follow_dot hdir, ih]
  | case4 links above rest hdir _ ih =>
    rw [List.cons_append, follow_parent hdir, follow_parent hdir, ih]
  | case5 links above name rest hdir hdot hparent hnone =>
    rw [List.cons_append, follow_none hdir ⟨hdot, hparent⟩ hnone,
      follow_none hdir ⟨hdot, hparent⟩ hnone]
    rfl
  | case6 above name rest hdir hdot hparent target hlink =>
    rw [List.cons_append, follow_link_zero hdir ⟨hdot, hparent⟩ hlink,
      follow_link_zero hdir ⟨hdot, hparent⟩ hlink]
    rfl
  | case7 above name rest hdir hdot hparent target hlink left ih =>
    rw [List.cons_append, follow_link hdir ⟨hdot, hparent⟩ hlink,
      follow_link hdir ⟨hdot, hparent⟩ hlink, ← List.append_assoc]
    exact ih
  | case8 links above name rest hdir hdot hparent entry hentry hfind ih =>
    rw [List.cons_append, follow_entry hdir ⟨hdot, hparent⟩ hfind fun t ht => hentry t ht,
      follow_entry hdir ⟨hdot, hparent⟩ hfind fun t ht => hentry t ht, ih]
  | case9 links above name rest entry hentry hfind =>
    rw [List.cons_append, follow_notDirectory (fun heq => hentry heq) hfind,
      follow_notDirectory (fun heq => hentry heq) hfind]
    rfl

theorem Real.take {q : List String} (h : disk.Real names) (hq : q <+: names) : disk.Real q :=
  fun _ hr => h _ (hr.trans hq)

theorem real_nil : disk.Real [] := by
  intro q hq target
  rw [List.prefix_nil.mp hq, find, if_pos rfl]
  nofun

theorem Real.concat (h : disk.Real above)
    (hname : ∀ target, disk.find (above ++ [name]) ≠ some (.link target)) :
    disk.Real (above ++ [name]) := by
  intro q hq
  rcases List.prefix_concat_iff.mp hq with rfl | hq
  · exact hname
  · exact h q hq

/-- What is found is never a link. -/
theorem follow_real {todo : List String} (habove : disk.Real above)
    (h : disk.follow links above todo = .ok found) : disk.Real found.1 := by
  induction links, above, todo using follow.induct disk with
  | case1 links above =>
    rw [follow] at h
    cases h
    exact habove
  | case2 links above name rest hmissing =>
    rw [follow_missing hmissing] at h
    cases h
  | case3 links above rest hdir ih =>
    rw [follow_dot hdir] at h
    exact ih habove h
  | case4 links above rest hdir _ ih =>
    rw [follow_parent hdir] at h
    exact ih (habove.take (List.dropLast_prefix above)) h
  | case5 links above name rest hdir hdot hparent hnone =>
    rw [follow_none hdir ⟨hdot, hparent⟩ hnone] at h
    cases h
  | case6 above name rest hdir hdot hparent target hlink =>
    rw [follow_link_zero hdir ⟨hdot, hparent⟩ hlink] at h
    cases h
  | case7 above name rest hdir hdot hparent target hlink left ih =>
    rw [follow_link hdir ⟨hdot, hparent⟩ hlink] at h
    refine ih ?_ h
    split_ifs
    · exact real_nil
    · exact habove
  | case8 links above name rest hdir hdot hparent entry hentry hfind ih =>
    rw [follow_entry hdir ⟨hdot, hparent⟩ hfind fun t ht => hentry t ht] at h
    refine ih (habove.concat fun target => ?_) h
    rw [hfind]
    exact fun heq => hentry target (Option.some.inj heq)
  | case9 links above name rest entry hentry hfind =>
    rw [follow_notDirectory (fun heq => hentry heq) hfind] at h
    cases h

/-- After a removal a path leads to what it led to before, or to nothing. -/
theorem follow_shrinks {todo : List String} (hshrinks : disk.Shrinks later)
    (h : disk.follow links above todo = .ok found) :
    later.follow links above todo = .ok found ∨
      ∃ err, later.follow links above todo = .error err ∧ err.kind = .notFound := by
  induction links, above, todo using follow.induct disk with
  | case1 links above =>
    rw [follow] at h
    cases h
    left
    rw [follow]
  | case2 links above name rest hmissing =>
    rw [follow_missing hmissing] at h
    cases h
  | case9 links above name rest entry hentry hfind =>
    rw [follow_notDirectory (fun heq => hentry heq) hfind] at h
    cases h
  | case5 links above name rest hdir hdot hparent hnone =>
    rw [follow_none hdir ⟨hdot, hparent⟩ hnone] at h
    cases h
  | case6 above name rest hdir hdot hparent target hlink =>
    rw [follow_link_zero hdir ⟨hdot, hparent⟩ hlink] at h
    cases h
  | case3 links above rest hdir ih =>
    rw [follow_dot hdir] at h
    rcases hshrinks.eq_or_none above with hlater | hlater
    · rw [follow_dot (hlater.trans hdir)]
      exact ih h
    · exact .inr ⟨_, follow_missing hlater, rfl⟩
  | case4 links above rest hdir _ ih =>
    rw [follow_parent hdir] at h
    rcases hshrinks.eq_or_none above with hlater | hlater
    · rw [follow_parent (hlater.trans hdir)]
      exact ih h
    · exact .inr ⟨_, follow_missing hlater, rfl⟩
  | case7 above name rest hdir hdot hparent target hlink left ih =>
    rw [follow_link hdir ⟨hdot, hparent⟩ hlink] at h
    rcases hshrinks.eq_or_none above with hlater | hlater
    · rcases hshrinks.eq_or_none (above ++ [name]) with hthere | hthere
      · rw [follow_link (hlater.trans hdir) ⟨hdot, hparent⟩ (hthere.trans hlink)]
        exact ih h
      · exact .inr ⟨_, follow_none (hlater.trans hdir) ⟨hdot, hparent⟩ hthere, rfl⟩
    · exact .inr ⟨_, follow_missing hlater, rfl⟩
  | case8 links above name rest hdir hdot hparent entry hentry hfind ih =>
    rw [follow_entry hdir ⟨hdot, hparent⟩ hfind fun t ht => hentry t ht] at h
    rcases hshrinks.eq_or_none above with hlater | hlater
    · rcases hshrinks.eq_or_none (above ++ [name]) with hthere | hthere
      · rw [follow_entry (hlater.trans hdir) ⟨hdot, hparent⟩ (hthere.trans hfind)
          fun t ht => hentry t ht]
        exact ih h
      · exact .inr ⟨_, follow_none (hlater.trans hdir) ⟨hdot, hparent⟩ hthere, rfl⟩
    · exact .inr ⟨_, follow_missing hlater, rfl⟩

/-! ## Paths -/

theorem resolve_append (absolute : Bool) (pre suffix : List String) :
    disk.resolve ⟨absolute, pre ++ suffix⟩ =
      (disk.resolve ⟨absolute, pre⟩).bind fun found => disk.follow found.2 found.1 suffix := by
  unfold resolve fromRoot
  dsimp only
  cases absolute with
  | true =>
    rw [if_pos rfl, if_pos rfl]
    exact follow_append pre suffix
  | false =>
    rw [if_neg Bool.false_ne_true, if_neg Bool.false_ne_true, ← List.append_assoc]
    exact follow_append _ suffix

/-- The part of a path before a suffix leads somewhere if the path does. -/
theorem resolve_prefix {absolute : Bool} {pre suffix : List String}
    (h : disk.resolve ⟨absolute, pre ++ suffix⟩ = .ok found) :
    ∃ above, disk.resolve ⟨absolute, pre⟩ = .ok above ∧
      disk.follow above.2 above.1 suffix = .ok found := by
  rw [resolve_append] at h
  cases hpre : disk.resolve ⟨absolute, pre⟩ with
  | error err =>
    rw [hpre] at h
    cases h
  | ok above =>
    rw [hpre] at h
    exact ⟨above, rfl, h⟩

theorem lstat_concat {absolute : Bool} {pre : List String}
    (h : disk.resolve ⟨absolute, pre⟩ = .ok (above, links)) :
    disk.lstat ⟨absolute, pre ++ [name]⟩ = disk.find (above ++ [name]) := by
  unfold lstat
  simp only [List.getLast?_concat, List.dropLast_concat, h]

/-- Names are appended one by one exactly if none of them is a link. -/
theorem follow_eq_append_iff {absolute : Bool} {pre suffix : List String}
    (hnames : ∀ name ∈ suffix, name ≠ "." ∧ name ≠ "..")
    (hpre : disk.resolve ⟨absolute, pre⟩ = .ok (above, links))
    (h : disk.follow links above suffix = .ok found) :
    found.1 = above ++ suffix ↔
      ∀ q, q ≠ [] → q <+: suffix → ¬ disk.IsLink ⟨absolute, pre ++ q⟩ := by
  have habove : disk.Real above := follow_real real_nil hpre
  have hfound : disk.Real found.1 := follow_real habove h
  induction suffix generalizing above pre with
  | nil =>
    rw [follow] at h
    cases h
    exact iff_of_true (List.append_nil _).symm fun q hne hq => absurd (List.prefix_nil.mp hq) hne
  | cons name rest ih =>
    have hdir := dir_of_follow h
    have hname := hnames name List.mem_cons_self
    have hlstat : disk.lstat ⟨absolute, pre ++ [name]⟩ = disk.find (above ++ [name]) :=
      lstat_concat hpre
    have hsplit : ∀ q, above ++ name :: q = (above ++ [name]) ++ q := fun q => by simp
    cases hfind : disk.find (above ++ [name]) with
    | none =>
      rw [follow_none hdir hname hfind] at h
      cases h
    | some entry =>
      by_cases hlink : ∃ target, entry = .link target
      · obtain ⟨target, rfl⟩ := hlink
        refine iff_of_false (fun heq => ?_) fun hno => ?_
        · refine hfound (above ++ [name]) ?_ target hfind
          rw [heq, hsplit rest]
          exact List.prefix_append _ _
        · exact hno [name] (List.cons_ne_nil _ _) (List.prefix_append [name] rest)
            ⟨target, hlstat.trans hfind⟩
      · have hentry : ∀ target, entry ≠ .link target := fun target heq => hlink ⟨target, heq⟩
        have hnot : ¬ disk.IsLink ⟨absolute, pre ++ [name]⟩ := by
          rintro ⟨target, htarget⟩
          exact hentry target (Option.some.inj (hfind.symm.trans (hlstat.symm.trans htarget)))
        have hstep : disk.resolve ⟨absolute, pre ++ [name]⟩ = .ok (above ++ [name], links) := by
          rw [resolve_append, hpre]
          refine (follow_entry hdir hname hfind hentry).trans ?_
          rw [follow]
        rw [follow_entry hdir hname hfind hentry] at h
        rw [hsplit rest]
        refine (ih (fun n hn => hnames n (List.mem_cons_of_mem _ hn)) hstep h
          (follow_real real_nil hstep)).trans ?_
        constructor
        · intro hno q hne hq
          cases q with
          | nil => exact absurd rfl hne
          | cons x q =>
            obtain ⟨rfl, hrest⟩ := List.cons_prefix_cons.mp hq
            by_cases hq' : q = []
            · rw [hq']
              exact hnot
            · have hdeep := hno q hq' hrest
              rwa [List.append_assoc] at hdeep
        · intro hno q _ hq
          rw [List.append_assoc]
          exact hno (name :: q) (List.cons_ne_nil _ _) (List.cons_prefix_cons.mpr ⟨rfl, hq⟩)

theorem canonicalize_eq_ok {c : PathBuf} : disk.vfs.canonicalize path = .ok c ↔
    (path.absolute = false → path.components ≠ []) ∧
      ∃ found, disk.resolve path = .ok found ∧ c = ⟨true, found.1⟩ := by
  unfold vfs realpath
  dsimp only
  split_ifs with hempty
  · refine iff_of_false nofun fun h => h.1 hempty.1 hempty.2
  · rw [and_iff_right fun habs hnil => hempty ⟨habs, hnil⟩]
    cases disk.resolve path with
    | error err => exact iff_of_false nofun fun ⟨_, h, _⟩ => nomatch h
    | ok found =>
      constructor
      · intro h
        cases h
        exact ⟨found, rfl, rfl⟩
      · rintro ⟨found', h, rfl⟩
        cases h
        rfl

/-- Whatever an ancestor of an existing path led to, it still leads to it or to nothing. -/
theorem canonicalize_ancestor (hshrinks : disk.Shrinks later) {c a : PathBuf}
    (hpath : disk.vfs.canonicalize path = .ok c) (ha : a ∈ path.ancestors) :
    (∃ found, disk.resolve a = .ok found ∧ later.resolve a = .ok found ∧
      later.vfs.canonicalize a = .ok ⟨true, found.1⟩) ∨
    ∃ err, later.vfs.canonicalize a = .error err ∧ err.kind = .notFound := by
  obtain ⟨absolute, components⟩ := a
  obtain ⟨habs, suffix, hsuffix⟩ := PathBuf.mem_ancestors.mp ha
  dsimp only at habs hsuffix
  obtain ⟨hnonempty, found, hfound, -⟩ := canonicalize_eq_ok.mp hpath
  by_cases hempty : absolute = false ∧ components = []
  · refine .inr ⟨notFound [], ?_, rfl⟩
    unfold vfs realpath
    dsimp only
    rw [if_pos hempty]
    rfl
  · have hresolve : disk.resolve ⟨absolute, components ++ suffix⟩ = .ok found := by
      rw [hsuffix, habs]
      exact hfound
    obtain ⟨above, habove, -⟩ := resolve_prefix hresolve
    have hcases : later.resolve ⟨absolute, components⟩ = .ok above ∨
        ∃ err, later.resolve ⟨absolute, components⟩ = .error err ∧ err.kind = .notFound := by
      unfold resolve fromRoot at habove ⊢
      rw [hshrinks.workingDir, hshrinks.maxLinks]
      exact follow_shrinks hshrinks habove
    rcases hcases with hlater | ⟨err, hlater, hkind⟩
    · exact .inl ⟨above, habove, hlater,
        canonicalize_eq_ok.mpr ⟨fun h hnil => hempty ⟨h, hnil⟩, above, hlater, rfl⟩⟩
    · refine .inr ⟨err, ?_, hkind⟩
      unfold vfs realpath
      dsimp only
      rw [if_neg hempty, hlater]
      rfl

/-! ## The key of an event -/

/-- An event gets the key its path had. It is not found only if no ancestor of it exists, and each
ancestor the loop visits is a prefix of the path. -/
structure KeepsKey (disk later : LinkedDisk) (path : PathBuf) : Prop where
  same : canonicalizeEventPath later.vfs path = disk.vfs.canonicalize path
  notFound : ∀ event err, canonicalizeEventPath later.vfs event = .error err →
    err.kind = .notFound → ∀ a ∈ event.ancestors, ∀ c, later.vfs.canonicalize a ≠ .ok c
  strips : ∀ event : PathBuf, ∀ a ∈ event.ancestors, event.stripPrefix a ≠ none

/-- Some ancestor of the path is left, and each ancestor that was a link leads somewhere. -/
structure LeadsOn (disk later : LinkedDisk) (path : PathBuf) : Prop where
  rooted : ∃ a ∈ path.ancestors, ∃ c, later.vfs.canonicalize a = .ok c
  links : ∀ a ∈ path.ancestors, disk.IsLink a → ∃ c, later.vfs.canonicalize a = .ok c

theorem IsLink.components_ne_nil (h : disk.IsLink path) : path.components ≠ [] := by
  obtain ⟨target, htarget⟩ := h
  intro hnil
  unfold lstat at htarget
  rw [hnil] at htarget
  cases htarget

/-- What an ancestor leads to, joined with the rest of the path, is the key that the path had
exactly if no deeper ancestor was a link. -/
theorem join_eq_key_iff {c a canonical missing : PathBuf} (hshrinks : disk.Shrinks later)
    (hnames : "." ∉ path.components ∧ ".." ∉ path.components)
    (hpath : disk.vfs.canonicalize path = .ok c) (ha : a ∈ path.ancestors)
    (hcanonical : later.vfs.canonicalize a = .ok canonical)
    (hstrip : path.stripPrefix a = some missing) :
    canonical.join missing = c ↔
      ∀ b ∈ path.ancestors, a.components.length < b.components.length → ¬ disk.IsLink b := by
  obtain ⟨found, hdisk, hcanonical'⟩ : ∃ found, disk.resolve a = .ok found ∧
      canonical = ⟨true, found.1⟩ := by
    rcases canonicalize_ancestor hshrinks hpath ha with ⟨found, hdisk, -, hlater⟩ | ⟨err, hlater, -⟩
    · exact ⟨found, hdisk, Except.ok.inj (hcanonical.symm.trans hlater)⟩
    · cases hcanonical.symm.trans hlater
  obtain ⟨suffix, hsuffix, hstrip'⟩ := PathBuf.stripPrefix_of_mem_ancestors ha
  cases hstrip.symm.trans hstrip'
  obtain ⟨habs, -⟩ := PathBuf.mem_ancestors.mp ha
  obtain ⟨absolute, pre⟩ := a
  obtain ⟨-, key, hkey, rfl⟩ := canonicalize_eq_ok.mp hpath
  obtain ⟨pathAbsolute, components⟩ := path
  dsimp only at habs hsuffix hnames
  subst habs hsuffix hcanonical'
  have hfollow : disk.follow found.2 found.1 suffix = .ok key := by
    rw [resolve_append, hdisk] at hkey
    exact hkey
  have hdots : ∀ name ∈ suffix, name ≠ "." ∧ name ≠ ".." := fun name hname =>
    ⟨fun heq => hnames.1 (heq ▸ List.mem_append_right _ hname),
      fun heq => hnames.2 (heq ▸ List.mem_append_right _ hname)⟩
  have hkeep : suffix.filter (· ≠ ".") = suffix :=
    List.filter_eq_self.mpr fun x hx => decide_eq_true (hdots x hx).1
  have hjoin : (⟨true, found.1⟩ : PathBuf).join ⟨false, suffix⟩ = ⟨true, found.1 ++ suffix⟩ := by
    unfold PathBuf.join
    simp only [Bool.false_eq_true, if_false, Bool.true_eq_false, and_false, hkeep]
  rw [hjoin, PathBuf.mk.injEq, and_iff_right rfl, eq_comm]
  refine (follow_eq_append_iff hdots hdisk hfollow).trans ⟨fun hno b hb hlonger => ?_,
    fun hno q hne hq => ?_⟩
  · obtain ⟨babs, bcomponents⟩ := b
    obtain ⟨rfl, hbelow⟩ := PathBuf.mem_ancestors.mp hb
    obtain ⟨q, rfl⟩ : pre <+: bcomponents :=
      List.prefix_of_prefix_length_le (List.prefix_append _ _) hbelow hlonger.le
    refine hno q (fun hnil => ?_) ((List.prefix_append_right_inj _).mp hbelow)
    rw [hnil, List.append_nil] at hlonger
    exact lt_irrefl _ hlonger
  · refine hno ⟨absolute, pre ++ q⟩ (PathBuf.mem_ancestors.mpr ⟨rfl, ?_⟩) ?_
    · exact (List.prefix_append_right_inj _).mpr hq
    · rw [List.length_append]
      exact Nat.lt_add_of_pos_right (List.length_pos_iff.mpr hne)

/-- Above an ancestor that exists all exist. -/
theorem canonicalize_above {a b c : PathBuf} (ha : a ∈ path.ancestors) (hb : b ∈ path.ancestors)
    (hne : b.components ≠ []) (hle : b.components.length ≤ a.components.length)
    (h : later.vfs.canonicalize a = .ok c) : ∃ c', later.vfs.canonicalize b = .ok c' := by
  obtain ⟨habs, haprefix⟩ := PathBuf.mem_ancestors.mp ha
  obtain ⟨hbabs, hbprefix⟩ := PathBuf.mem_ancestors.mp hb
  obtain ⟨-, found, hfound, -⟩ := canonicalize_eq_ok.mp h
  obtain ⟨absolute, components⟩ := a
  obtain ⟨suffix, rfl⟩ : b.components <+: components :=
    List.prefix_of_prefix_length_le hbprefix haprefix hle
  obtain ⟨above, habove, -⟩ := resolve_prefix hfound
  refine ⟨_, canonicalize_eq_ok.mpr ⟨fun _ => hne, above, ?_, rfl⟩⟩
  obtain ⟨babsolute, bcomponents⟩ := b
  cases hbabs.trans habs.symm
  exact habove

/-- The first ancestor that exists. -/
theorem exists_nearest {a c : PathBuf} (ha : a ∈ path.ancestors)
    (h : later.vfs.canonicalize a = .ok c) :
    ∃ nearer above farther canonical, path.ancestors = nearer ++ above :: farther ∧
      (∀ p ∈ nearer, ∀ c', later.vfs.canonicalize p ≠ .ok c') ∧
      later.vfs.canonicalize above = .ok canonical := by
  have hfind : (path.ancestors.find? fun p => (later.vfs.canonicalize p).isOk).isSome := by
    refine List.find?_isSome.mpr ⟨a, ha, ?_⟩
    rw [h]
    rfl
  obtain ⟨above, habove⟩ := Option.isSome_iff_exists.mp hfind
  obtain ⟨hok, nearer, farther, hsplit, hnearer⟩ := List.find?_eq_some_iff_append.mp habove
  cases hcanonical : later.vfs.canonicalize above with
  | error err =>
    rw [hcanonical] at hok
    cases hok
  | ok canonical =>
    refine ⟨nearer, above, farther, canonical, hsplit, fun p hp c' hc' => ?_, hcanonical⟩
    have hnot := hnearer p hp
    rw [hc'] at hnot
    cases hnot

/-- **The event of a path gets the key that the path had exactly if something above the path is
left and no symbolic link on the path leads nowhere.** -/
theorem keepsKey_iff {c : PathBuf} (hshrinks : disk.Shrinks later)
    (hnames : "." ∉ path.components ∧ ".." ∉ path.components)
    (hpath : disk.vfs.canonicalize path = .ok c) :
    KeepsKey disk later path ↔ LeadsOn disk later path := by
  constructor
  · intro hkeeps
    obtain ⟨nearer, a, farther, hancestors, -, canonical, missing, hcanonical, hstrip, hjoin⟩ :=
      canonicalizeFrom_eq_ok.mp (hkeeps.same.trans hpath)
    have ha : a ∈ path.ancestors := by
      rw [hancestors]
      exact List.mem_append_right _ List.mem_cons_self
    refine ⟨⟨a, ha, _, hcanonical⟩, fun b hb hlink => ?_⟩
    rcases lt_or_ge a.components.length b.components.length with hdeeper | hle
    · exact absurd hlink
        ((join_eq_key_iff hshrinks hnames hpath ha hcanonical hstrip).mp hjoin b hb hdeeper)
    · exact canonicalize_above ha hb hlink.components_ne_nil hle hcanonical
  · intro hleads
    refine ⟨?_, fun event err herr hkind => canonicalizeFrom_notFound herr hkind,
      fun event a ha => ?_⟩
    · obtain ⟨a', ha', c', hc'⟩ := hleads.rooted
      obtain ⟨nearer, a, farther, canonical, hancestors, hnearer, hcanonical⟩ :=
        exists_nearest ha' hc'
      have hmem : ∀ b, b ∈ path.ancestors ↔ b ∈ nearer ∨ b = a ∨ b ∈ farther := by
        intro b
        rw [hancestors, List.mem_append, List.mem_cons]
      have ha := (hmem a).mpr (.inr (.inl rfl))
      obtain ⟨suffix, -, hstrip⟩ := PathBuf.stripPrefix_of_mem_ancestors ha
      have hpairwise := PathBuf.pairwise_ancestors path
      rw [hancestors, List.pairwise_append, List.pairwise_cons] at hpairwise
      rw [hpath]
      refine canonicalizeFrom_eq_ok.mpr ⟨nearer, a, farther, hancestors, fun p hp => ?_, canonical,
        _, hcanonical, hstrip, ?_⟩
      · rcases canonicalize_ancestor hshrinks hpath ((hmem p).mpr (.inl hp)) with
          ⟨found, -, -, hok⟩ | hmissing
        · exact absurd hok (hnearer p hp _)
        · exact hmissing
      · refine (join_eq_key_iff hshrinks hnames hpath ha hcanonical hstrip).mpr
          fun b hb hdeeper hlink => ?_
        obtain ⟨c', hok⟩ := hleads.links b hb hlink
        rcases (hmem b).mp hb with hnear | rfl | hfar
        · exact hnearer b hnear c' hok
        · exact lt_irrefl _ hdeeper
        · exact lt_asymm hdeeper (hpairwise.2.1.1 b hfar)
    · obtain ⟨suffix, -, hstrip⟩ := PathBuf.stripPrefix_of_mem_ancestors ha
      rw [hstrip]
      nofun

/-! ## A link that is left behind -/

/-- A link in one directory to another one. -/
def linked : LinkedDisk where
  entries := [(["a"], .dir), (["a", "l"], .link ⟨true, ["b"]⟩), (["b"], .dir), (["b", "x"], .file [])]
  workingDir := []
  maxLinks := 40

/-- The file that the link led to is removed. -/
def withoutFile : LinkedDisk :=
  { linked with entries := [(["a"], .dir), (["a", "l"], .link ⟨true, ["b"]⟩), (["b"], .dir)] }

/-- The directory that the link led to is removed with it. -/
def withoutDir : LinkedDisk :=
  { linked with entries := [(["a"], .dir), (["a", "l"], .link ⟨true, ["b"]⟩)] }

def linkedFile : PathBuf := ⟨true, ["a", "l", "x"]⟩

/-- Only entries that were there are left. -/
theorem Shrinks.of_entries (hworking : later.workingDir = disk.workingDir)
    (hlinks : later.maxLinks = disk.maxLinks)
    (hentries : ∀ entry ∈ later.entries, disk.find entry.1 = some entry.2) :
    disk.Shrinks later := by
  refine ⟨hworking, hlinks, fun names entry h => ?_⟩
  unfold LinkedDisk.find at h
  split_ifs at h with hnil
  · rw [hnil, LinkedDisk.find, if_pos rfl]
    exact h
  · obtain ⟨e, he, rfl⟩ := Option.map_eq_some_iff.mp h
    have hname : e.1 = names := by simpa using List.find?_some he
    rw [← hname]
    exact hentries e (List.mem_of_find?_eq_some he)

theorem canonicalize_linkedFile :
    linked.vfs.canonicalize linkedFile = .ok ⟨true, ["b", "x"]⟩ := by
  refine canonicalize_eq_ok.mpr ⟨nofun, (["b", "x"], 39), ?_, rfl⟩
  simp [resolve, fromRoot, linkedFile, linked, follow, find]

theorem ancestors_linkedFile : linkedFile.ancestors =
    [linkedFile, ⟨true, ["a", "l"]⟩, ⟨true, ["a"]⟩, ⟨true, []⟩] := by decide

/-- Of the ancestors only one is a link. -/
theorem eq_of_isLink {a : PathBuf} (ha : a ∈ linkedFile.ancestors) (h : linked.IsLink a) :
    a = ⟨true, ["a", "l"]⟩ := by
  obtain ⟨target, htarget⟩ := h
  rw [ancestors_linkedFile] at ha
  simp only [List.mem_cons, List.not_mem_nil, or_false] at ha
  rcases ha with rfl | rfl | rfl | rfl
  · simp [lstat, linkedFile, resolve, fromRoot, linked, follow, find] at htarget
  · rfl
  · simp [lstat, resolve, fromRoot, linked, follow, find] at htarget
  · simp [lstat] at htarget

theorem keepsKey_withoutFile : KeepsKey linked withoutFile linkedFile := by
  have hshrinks : linked.Shrinks withoutFile := .of_entries rfl rfl (by decide)
  refine (keepsKey_iff hshrinks (by decide) canonicalize_linkedFile).mpr
    ⟨⟨⟨true, []⟩, by decide, ⟨true, []⟩, ?_⟩, fun a ha hlink => ?_⟩
  · refine canonicalize_eq_ok.mpr ⟨nofun, ([], 40), ?_, rfl⟩
    simp [resolve, fromRoot, withoutFile, linked, follow]
  · rw [eq_of_isLink ha hlink]
    refine ⟨_, canonicalize_eq_ok.mpr ⟨nofun, (["b"], 39), ?_, rfl⟩⟩
    simp [resolve, fromRoot, withoutFile, linked, follow, find]

/-- The link is still there, but the key is that of a path below it. -/
theorem not_keepsKey_withoutDir :
    ¬ ∀ (disk later : LinkedDisk) (path c : PathBuf), disk.Shrinks later →
      "." ∉ path.components ∧ ".." ∉ path.components → disk.vfs.canonicalize path = .ok c →
      later.lstat path = none → (∀ a ∈ path.ancestors, disk.IsLink a → later.IsLink a) →
      KeepsKey disk later path := by
  intro hall
  have hkeeps := hall linked withoutDir linkedFile _ (.of_entries rfl rfl (by decide)) (by decide)
    canonicalize_linkedFile
    (by simp [lstat, linkedFile, resolve, fromRoot, withoutDir, linked, follow, find])
    (fun a ha hlink => by
      rw [eq_of_isLink ha hlink]
      exact ⟨⟨true, ["b"]⟩, by simp [lstat, resolve, fromRoot, withoutDir, linked, follow, find]⟩)
  have hdangling : ∀ p ∈ [linkedFile, ⟨true, ["a", "l"]⟩], ∃ err,
      withoutDir.vfs.canonicalize p = .error err ∧ err.kind = .notFound := by
    intro p hp
    refine ⟨notFound ["b"], ?_, rfl⟩
    simp only [List.mem_cons, List.not_mem_nil, or_false] at hp
    rcases hp with rfl | rfl <;>
      simp [vfs, realpath, linkedFile, resolve, fromRoot, withoutDir, linked, follow, find,
        Except.map]
  have habove : withoutDir.vfs.canonicalize ⟨true, ["a"]⟩ = .ok ⟨true, ["a"]⟩ :=
    canonicalize_eq_ok.mpr ⟨nofun, (["a"], 40),
      by simp [resolve, fromRoot, withoutDir, linked, follow, find], rfl⟩
  have hevent : canonicalizeEventPath withoutDir.vfs linkedFile = .ok linkedFile :=
    canonicalizeFrom_eq_ok.mpr ⟨_, ⟨true, ["a"]⟩, [⟨true, []⟩], ancestors_linkedFile, hdangling,
      _, ⟨false, ["l", "x"]⟩, habove, by decide, by decide⟩
  have hsame := hevent.symm.trans (hkeeps.same.trans canonicalize_linkedFile)
  exact absurd (Except.ok.inj hsame) (by decide)

end LinkedDisk

end Roxo
