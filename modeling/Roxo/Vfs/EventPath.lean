import Mathlib.Data.List.Infix
import Roxo.Vfs.Vfs

/-!
# The paths of events

An event names a path that may be gone by the time it is handled. What is canonicalized is the
nearest ancestor that still exists; the missing suffix is joined to its canonical path. A path is
its own canonical form exactly if the nearest ancestor that exists is its own canonical path
(`canonicalizeEventPath_eq_self_iff`).
-/

namespace Roxo

/-- The loop over the ancestors of the path. -/
def canonicalizeFrom (vfs : Vfs) (path : PathBuf) : List PathBuf → Except IoError PathBuf
  | [] => .error ⟨.other, "prefix not found"⟩
  | ancestor :: rest =>
    match vfs.canonicalize ancestor with
    | .ok canonicalAncestor =>
      match path.stripPrefix ancestor with
      | some missingSuffix => .ok (canonicalAncestor.join missingSuffix)
      | none => .error ⟨.other, "prefix not found"⟩
    | .error err =>
      if err.kind = .notFound ∧ rest ≠ [] then canonicalizeFrom vfs path rest else .error err

/-- Canonicalizes as much of an event path as still exists. -/
def canonicalizeEventPath (vfs : Vfs) (path : PathBuf) : Except IoError PathBuf :=
  canonicalizeFrom vfs path path.ancestors

/-- The first of some paths that exists is its own canonical path. -/
def FirstIsCanonical (vfs : Vfs) (paths : List PathBuf) : Prop :=
  ∃ nearer above farther, paths = nearer ++ above :: farther ∧
    (∀ p ∈ nearer, ∃ err, vfs.canonicalize p = .error err ∧ err.kind = .notFound) ∧
    vfs.canonicalize above = .ok above

/-- The nearest ancestor of the path that exists is its own canonical path: the path leads through
no symbolic link and no `..`. -/
def Direct (vfs : Vfs) (path : PathBuf) : Prop :=
  FirstIsCanonical vfs path.ancestors ∧ "." ∉ path.components

variable {vfs : Vfs} {path p c : PathBuf} {paths : List PathBuf}

/-- What the loop returns is found at the first of the paths that exists. -/
theorem canonicalizeFrom_eq_ok : canonicalizeFrom vfs path paths = .ok c ↔
    ∃ nearer above farther, paths = nearer ++ above :: farther ∧
      (∀ p ∈ nearer, ∃ err, vfs.canonicalize p = .error err ∧ err.kind = .notFound) ∧
      ∃ canonicalAncestor missingSuffix, vfs.canonicalize above = .ok canonicalAncestor ∧
        path.stripPrefix above = some missingSuffix ∧ canonicalAncestor.join missingSuffix = c := by
  induction paths with
  | nil =>
    refine iff_of_false nofun fun ⟨nearer, above, farther, heq, _⟩ => ?_
    cases nearer <;> cases heq
  | cons p paths ih =>
    rw [canonicalizeFrom]
    cases hp : vfs.canonicalize p with
    | ok canonicalAncestor =>
      dsimp only
      constructor
      · intro h
        cases hstrip : path.stripPrefix p with
        | none =>
          rw [hstrip] at h
          cases h
        | some missingSuffix =>
          rw [hstrip] at h
          exact ⟨[], p, paths, rfl, nofun, _, missingSuffix, hp, hstrip, Except.ok.inj h⟩
      · rintro ⟨nearer, above, farther, heq, hnearer, canonical, suffix, habove, hstrip, rfl⟩
        cases nearer with
        | nil =>
          obtain ⟨rfl, -⟩ := List.cons.inj heq
          cases hp.symm.trans habove
          rw [hstrip]
        | cons q nearer =>
          obtain ⟨rfl, -⟩ := List.cons.inj heq
          obtain ⟨err, herr, -⟩ := hnearer p List.mem_cons_self
          cases hp.symm.trans herr
    | error err =>
      dsimp only
      constructor
      · intro h
        split_ifs at h with hnext
        obtain ⟨nearer, above, farther, rfl, hnearer, hfound⟩ := ih.mp h
        refine ⟨p :: nearer, above, farther, rfl, fun q hq => ?_, hfound⟩
        rcases List.mem_cons.mp hq with rfl | hq
        · exact ⟨err, hp, hnext.1⟩
        · exact hnearer q hq
      · rintro ⟨nearer, above, farther, heq, hnearer, hfound⟩
        cases nearer with
        | nil =>
          obtain ⟨rfl, -⟩ := List.cons.inj heq
          obtain ⟨canonical, -, habove, -⟩ := hfound
          cases hp.symm.trans habove
        | cons q nearer =>
          obtain ⟨rfl, rfl⟩ := List.cons.inj heq
          obtain ⟨err', herr, hkind⟩ := hnearer p List.mem_cons_self
          cases hp.symm.trans herr
          rw [if_pos ⟨hkind, by simp⟩]
          exact ih.mpr ⟨nearer, above, farther, rfl,
            fun q hq => hnearer q (List.mem_cons_of_mem _ hq), hfound⟩

/-- The loop ends with `notFound` only if none of the paths exists. -/
theorem canonicalizeFrom_notFound {err : IoError} (h : canonicalizeFrom vfs path paths = .error err)
    (hkind : err.kind = .notFound) : ∀ p ∈ paths, ∀ c, vfs.canonicalize p ≠ .ok c := by
  induction paths with
  | nil => nofun
  | cons p paths ih =>
    rw [canonicalizeFrom] at h
    cases hp : vfs.canonicalize p with
    | ok canonicalAncestor =>
      rw [hp] at h
      dsimp only at h
      cases hstrip : path.stripPrefix p with
      | none =>
        rw [hstrip] at h
        cases h
        cases hkind
      | some missingSuffix =>
        rw [hstrip] at h
        cases h
    | error err' =>
      rw [hp] at h
      dsimp only at h
      intro q hq c hc
      rcases List.mem_cons.mp hq with rfl | hq
      · cases hp.symm.trans hc
      · split_ifs at h with hnext
        · exact ih h q hq c hc
        · cases h
          exact hnext ⟨hkind, List.ne_nil_of_mem hq⟩

namespace PathBuf

theorem mem_ancestors {a : PathBuf} :
    a ∈ path.ancestors ↔ a.absolute = path.absolute ∧ a.components <+: path.components := by
  unfold ancestors
  simp only [List.mem_map, List.mem_reverse, List.mem_inits]
  constructor
  · rintro ⟨components, hpre, rfl⟩
    exact ⟨rfl, hpre⟩
  · rintro ⟨habs, hpre⟩
    refine ⟨a.components, hpre, ?_⟩
    cases a
    cases habs
    rfl

/-- A path is the nearest of its ancestors. -/
theorem ancestors_cons (path : PathBuf) : ∃ above, path.ancestors = path :: above := by
  have hinits : path.components.inits.reverse =
      (path.components.reverse.tails).map List.reverse := by
    rw [List.inits_eq_tails, List.reverse_reverse]
  have htails : ∀ l : List String, ∃ rest, l.tails = l :: rest := by
    intro l
    cases l with
    | nil => exact ⟨[], rfl⟩
    | cons x xs => exact ⟨xs.tails, rfl⟩
  obtain ⟨rest, hrest⟩ := htails path.components.reverse
  unfold ancestors
  rw [hinits, hrest, List.map_cons, List.map_cons, List.reverse_reverse]
  exact ⟨_, rfl⟩

/-- The ancestors come from the deepest one up. -/
theorem pairwise_ancestors (path : PathBuf) :
    path.ancestors.Pairwise fun a b => b.components.length < a.components.length := by
  have hinits : ∀ l : List String, l.inits.Pairwise fun p q => p.length < q.length := by
    intro l
    induction l with
    | nil => exact List.pairwise_singleton _ _
    | cons x xs ih =>
      rw [List.inits_cons, List.pairwise_cons, List.pairwise_map]
      refine ⟨fun q hq => ?_, ih.imp Nat.succ_lt_succ⟩
      obtain ⟨q, -, rfl⟩ := List.mem_map.mp hq
      exact Nat.succ_pos _
  unfold ancestors
  rw [List.pairwise_map, List.pairwise_reverse]
  exact hinits path.components

theorem stripPrefix_of_mem_ancestors (h : p ∈ path.ancestors) :
    ∃ suffix, path.components = p.components ++ suffix ∧
      path.stripPrefix p = some ⟨false, suffix⟩ := by
  obtain ⟨habs, suffix, hsuffix⟩ := mem_ancestors.mp h
  refine ⟨suffix, hsuffix.symm, ?_⟩
  unfold stripPrefix
  split_ifs with hempty
  · rw [hempty.2, List.nil_append] at hsuffix
    rw [hsuffix, ← hempty.1, habs]
  · rw [List.isPrefixOf?_eq_some_iff_append_eq.mpr hsuffix]
    rfl
  · exact absurd habs.symm ‹_›

/-- Joining what is below `p` to the canonical path of `p` gives the path back if `p` is its own
canonical path. -/
theorem join_suffix_eq_iff {suffix : List String} (hsuffix : path.components = p.components ++ suffix)
    (habs : p.absolute = path.absolute) (hc : c.absolute = true) (hdot : "." ∉ c.components) :
    c.join ⟨false, suffix⟩ = path ↔ c = p ∧ "." ∉ path.components := by
  have hjoin : c.join ⟨false, suffix⟩ = ⟨true, c.components ++ suffix.filter (· ≠ ".")⟩ := by
    unfold join
    simp [hc]
  have hno : "." ∉ c.components ++ suffix.filter (· ≠ ".") := by
    rw [List.mem_append, not_or]
    exact ⟨hdot, fun hmem => by simpa using (List.mem_filter.mp hmem).2⟩
  rw [hjoin]
  constructor
  · rintro rfl
    dsimp only at hsuffix habs
    have hkeep : suffix.filter (· ≠ ".") = suffix := by
      refine List.filter_eq_self.mpr fun x hx => ?_
      rw [hsuffix] at hno
      simpa using fun (h : x = ".") => hno (h ▸ List.mem_append_right _ hx)
    rw [hkeep] at hsuffix
    have hcomponents : c.components = p.components := List.append_cancel_right hsuffix
    refine ⟨?_, hno⟩
    cases c
    cases p
    cases hc
    cases habs
    cases hcomponents
    rfl
  · rintro ⟨rfl, hpath⟩
    have hkeep : suffix.filter (· ≠ ".") = suffix := by
      refine List.filter_eq_self.mpr fun x hx => ?_
      rw [hsuffix] at hpath
      simpa using fun (h : x = ".") => hpath (h ▸ List.mem_append_right _ hx)
    rw [hkeep, ← hsuffix, ← hc, habs]

end PathBuf

theorem canonicalizeFrom_eq_iff (h : vfs.Lawful) (hpaths : ∀ p ∈ paths, p ∈ path.ancestors) :
    canonicalizeFrom vfs path paths = .ok path ↔
      FirstIsCanonical vfs paths ∧ "." ∉ path.components := by
  rw [canonicalizeFrom_eq_ok]
  constructor
  · rintro ⟨nearer, above, farther, rfl, hnearer, canonical, missing, hcanonical, hstrip, hjoin⟩
    have hmem := hpaths above (List.mem_append_right _ List.mem_cons_self)
    obtain ⟨suffix, hsuffix, hstrip'⟩ := PathBuf.stripPrefix_of_mem_ancestors hmem
    cases hstrip.symm.trans hstrip'
    obtain ⟨hc, -, hdot⟩ := h.normal hcanonical
    obtain ⟨rfl, hpath⟩ := (PathBuf.join_suffix_eq_iff hsuffix
      (PathBuf.mem_ancestors.mp hmem).1 hc hdot).mp hjoin
    exact ⟨⟨nearer, canonical, farther, rfl, hnearer, hcanonical⟩, hpath⟩
  · rintro ⟨⟨nearer, above, farther, rfl, hnearer, habove⟩, hpath⟩
    have hmem := hpaths above (List.mem_append_right _ List.mem_cons_self)
    obtain ⟨suffix, hsuffix, hstrip⟩ := PathBuf.stripPrefix_of_mem_ancestors hmem
    obtain ⟨hc, -, hdot⟩ := h.normal habove
    exact ⟨nearer, above, farther, rfl, hnearer, above, _, habove, hstrip,
      (PathBuf.join_suffix_eq_iff hsuffix (PathBuf.mem_ancestors.mp hmem).1 hc hdot).mpr
        ⟨rfl, hpath⟩⟩

/-- **A path is the form in which events name it exactly if it is direct.** -/
theorem canonicalizeEventPath_eq_self_iff (h : vfs.Lawful) :
    canonicalizeEventPath vfs path = .ok path ↔ Direct vfs path :=
  canonicalizeFrom_eq_iff h fun _ hp => hp

/-- A path without missing parts in canonical form is direct. -/
theorem direct_of_canonical (h : vfs.Lawful) (hpath : vfs.canonicalize path = .ok path) :
    Direct vfs path := by
  obtain ⟨above, hancestors⟩ := PathBuf.ancestors_cons path
  refine ⟨?_, (h.normal hpath).2.2⟩
  exact ⟨[], path, above, hancestors, nofun, hpath⟩

end Roxo
