import Roxo.Syncback.Loop
import Roxo.Syncback.OldChildren

/-!
# Ignored trees

An entry of `ignoreTrees` stands for the tree under the instance with these names, but the loop of
syncback compares it as a text with the path of an instance. A path that begins with an entry is
that of an instance in its tree only if the entry ends where a name does
(`LoopContext.ignored_iff_listed_iff`).
-/

namespace Roxo

open AssocMap Transition WeakDom

/-! ## Texts and names -/

/-- The names that an entry is made of. -/
def entryNames (entry : String) : List String := (entry.toList.splitOn '/').map String.ofList

/-- The instance with the names is in the tree of an entry. -/
def Listed (entries names : List String) : Prop := ∃ e ∈ entries, entryNames e <+: names

/-- The entry is the text of the first names, one or more, and none of them has a separator in
it. -/
def EndsAtName (entry : String) (names : List String) : Prop :=
  ∃ k, 0 < k ∧ k ≤ names.length ∧ entry = "/".intercalate (names.take k) ∧
    ∀ name ∈ names.take k, '/' ∉ name.toList

/-- If the text of the path begins with any entry, an entry ends at a name of it. -/
def EntriesEndAtNames (entries names : List String) : Prop :=
  (∃ e ∈ entries, e.toList <+: ("/".intercalate names).toList) → ∃ e ∈ entries, EndsAtName e names

/-- The trees that the rules ignore. -/
def ignoreTreesOf (rules : Option SyncbackRules) : List String :=
  match rules with
  | some rules => rules.ignoreTrees
  | none => []

variable {entry : String} {entries names : List String}

theorem not_mem_of_mem_splitOn {c : Char} {chars piece : List Char}
    (h : piece ∈ chars.splitOn c) : c ∉ piece := by
  induction chars generalizing piece with
  | nil =>
    rw [List.splitOn_nil, List.mem_singleton] at h
    rw [h]
    exact List.not_mem_nil
  | cons d chars ih =>
    rw [List.splitOn_cons_eq_if_modifyHead] at h
    split_ifs at h with heq
    · rcases List.mem_cons.mp h with rfl | h
      · exact List.not_mem_nil
      · exact ih h
    · cases hpieces : chars.splitOn c with
      | nil => exact absurd hpieces (List.splitOn_ne_nil c chars)
      | cons first rest =>
        rw [hpieces] at h ih
        rcases List.mem_cons.mp h with rfl | h
        · intro hmem
          rcases List.mem_cons.mp hmem with rfl | hmem
          · exact heq (beq_self_eq_true _)
          · exact ih List.mem_cons_self hmem
        · exact ih (List.mem_cons_of_mem _ h)

theorem intercalate_entryNames (entry : String) : "/".intercalate (entryNames entry) = entry := by
  refine String.toList_injective ?_
  rw [String.toList_intercalate, entryNames, List.map_map]
  have hid : String.toList ∘ String.ofList = id := funext fun l => String.toList_ofList
  rw [hid, List.map_id]
  exact List.intercalate_splitOn '/'

theorem entryNames_intercalate (hne : names ≠ []) (h : ∀ name ∈ names, '/' ∉ name.toList) :
    entryNames ("/".intercalate names) = names := by
  have hslash : "/".toList = ['/'] := rfl
  rw [entryNames, String.toList_intercalate, hslash, List.splitOn_intercalate, List.map_map]
  · have hid : String.ofList ∘ String.toList = id := funext fun s => String.ofList_toList
    rw [hid, List.map_id]
  · intro l hl
    obtain ⟨name, hname, rfl⟩ := List.mem_map.mp hl
    exact h name hname
  · exact fun hnil => hne (List.map_eq_nil_iff.mp hnil)

/-- An instance is in the tree of an entry exactly if the entry ends at one of its names. -/
theorem entryNames_prefix_iff : entryNames entry <+: names ↔ EndsAtName entry names := by
  constructor
  · rintro ⟨rest, rfl⟩
    have htake : (entryNames entry ++ rest).take (entryNames entry).length = entryNames entry :=
      List.take_left
    refine ⟨(entryNames entry).length, ?_, ?_, ?_, ?_⟩
    · rw [entryNames, List.length_map]
      exact List.length_pos_iff.mpr (List.splitOn_ne_nil _ _)
    · rw [List.length_append]
      exact Nat.le_add_right _ _
    · rw [htake, intercalate_entryNames]
    · rw [htake]
      intro name hname
      obtain ⟨piece, hpiece, rfl⟩ := List.mem_map.mp hname
      rw [String.toList_ofList]
      exact not_mem_of_mem_splitOn hpiece
  · rintro ⟨k, hpos, hle, rfl, hslash⟩
    rw [entryNames_intercalate _ hslash]
    · exact List.take_prefix k names
    · intro hnil
      have := congrArg List.length hnil
      rw [List.length_take, List.length_nil] at this
      omega

/-- A path of an instance in the tree of an entry begins with the entry. -/
theorem EndsAtName.isBelow (h : EndsAtName entry names) :
    entry.toList <+: ("/".intercalate names).toList := by
  obtain ⟨k, hpos, hle, rfl, -⟩ := h
  by_cases hrest : names.drop k = []
  · have hall := List.take_of_length_le (List.drop_eq_nil_iff.mp hrest)
    exact (congrArg (fun l => ("/".intercalate l).toList) hall) ▸ List.prefix_rfl
  · have htake : names.take k ≠ [] := by
      intro hnil
      have := congrArg List.length hnil
      rw [List.length_take, List.length_nil] at this
      omega
    conv_rhs => rw [← List.take_append_drop k names,
      String.intercalate_append_of_ne_nil htake hrest]
    rw [String.toList_append, String.toList_append, List.append_assoc]
    exact List.prefix_append _ _

theorem ignoresTree_iff {rules : Option SyncbackRules} {path : String} :
    ignoresTree rules path = true ↔ ∃ e ∈ ignoreTreesOf rules, e.toList <+: path.toList := by
  cases rules with
  | none => exact ⟨nofun, nofun⟩
  | some rules =>
    rw [ignoresTree, ignoreTreesOf, List.any_eq_true]
    simp only [List.isPrefixOf_iff_prefix]

/-- The comparison of the loop agrees with the names exactly if the entries end at names. -/
theorem ignoresTree_iff_listed_iff {rules : Option SyncbackRules} :
    (ignoresTree rules ("/".intercalate names) = true ↔ Listed (ignoreTreesOf rules) names) ↔
      EntriesEndAtNames (ignoreTreesOf rules) names := by
  have hlisted : Listed (ignoreTreesOf rules) names ↔
      ∃ e ∈ ignoreTreesOf rules, EndsAtName e names :=
    exists_congr fun e => and_congr_right fun _ => entryNames_prefix_iff
  rw [ignoresTree_iff, hlisted]
  refine ⟨fun h => h.mp, fun h => ⟨h, ?_⟩⟩
  rintro ⟨e, he, hends⟩
  exact ⟨e, he, hends.isBelow⟩

/-! ## Runs of the loop -/

namespace LoopContext

variable {D : Type} [WeakDom D] [FiniteWeakDom D] {context : LoopContext D}
  {state state' : LoopState D}

/-- A comparison that the loop made is one of the path of the instance with the rules. -/
def Compared (context : LoopContext D) (visit : Visit D) : Prop :=
  visit.ignored = ignoresTree context.rules (instPath visit.tree visit.referent)

theorem compared_append {visits : List (Visit D)} (h : ∀ v ∈ visits, context.Compared v)
    (removed : Bool) (tree : D) (referent : Ref) :
    ∀ v ∈ visits ++ [⟨removed, tree, referent,
      ignoresTree context.rules (instPath tree referent)⟩], context.Compared v := by
  intro v hv
  rcases List.mem_append.mp hv with hv | hv
  · exact h v hv
  · rw [List.mem_singleton.mp hv]
    rfl

theorem removeChild_compared {snapshot : SyncbackSnapshot D} {inst : InstanceWithMeta}
    (h : ∀ v ∈ state.visits, context.Compared v)
    (hstep : context.removeChild snapshot state inst = .ok state') :
    ∀ v ∈ state'.visits, context.Compared v := by
  obtain ⟨source, -, hstep⟩ := Except.bind_eq_ok.mp hstep
  have happended := compared_append h true snapshot.data.oldTree.inner inst.inst.referent
  dsimp only at hstep
  split_ifs at hstep
  · rw [← Except.ok.inj hstep]
    exact h
  all_goals
    rw [← Except.ok.inj hstep]
    exact happended

theorem foldlM_removeChild_compared {snapshot : SyncbackSnapshot D}
    (insts : List InstanceWithMeta) (h : ∀ v ∈ state.visits, context.Compared v)
    (hstep : insts.foldlM (context.removeChild snapshot) state = .ok state') :
    ∀ v ∈ state'.visits, context.Compared v := by
  induction insts generalizing state with
  | nil =>
    rw [← Except.ok.inj hstep]
    exact h
  | cons inst insts ih =>
    rw [List.foldlM_cons] at hstep
    obtain ⟨between, hbetween, hstep⟩ := Except.bind_eq_ok.mp hstep
    exact ih (removeChild_compared h hbetween) hstep

theorem syncbackStep_compared {snapshot : SyncbackSnapshot D}
    (h : ∀ v ∈ state.visits, context.Compared v)
    (hstep : context.syncbackStep snapshot state = .ok state') :
    ∀ v ∈ state'.visits, context.Compared v := by
  obtain ⟨unchanged, -, hstep⟩ := Except.bind_eq_ok.mp hstep
  have happended := compared_append h false snapshot.data.newTree snapshot.new
  dsimp only at hstep
  split_ifs at hstep
  · rw [← Except.ok.inj hstep]
    exact h
  · rw [← Except.ok.inj hstep]
    exact h
  · rw [← Except.ok.inj hstep]
    exact happended
  · obtain ⟨middleware, -, hstep⟩ := Except.bind_eq_ok.mp hstep
    split_ifs at hstep
    · rw [← Except.ok.inj hstep]
      exact happended
    · obtain ⟨⟨syncback, fsSnapshot⟩, -, hstep⟩ := Except.bind_eq_ok.mp hstep
      obtain ⟨after, hafter, hstep⟩ := Except.bind_eq_ok.mp hstep
      rw [← Except.ok.inj hstep]
      have hcompared := foldlM_removeChild_compared _ happended hafter
      exact hcompared

theorem compared_of_reachable (h : Reachable Starts context.Steps state) :
    ∀ v ∈ state.visits, context.Compared v := by
  have hinit : ∀ s : LoopState D, Starts s → ∀ v ∈ s.visits, context.Compared v := by
    rintro s ⟨project, rfl⟩
    exact nofun
  refine h.invariant hinit ?_
  rintro s t - hs ⟨snapshot, rest, -, hstep⟩
  have hpopped : ∀ v ∈ ({ s with snapshots := rest } : LoopState D).visits, context.Compared v := hs
  exact syncbackStep_compared hpopped hstep

/-- **The loop skips the instances of the ignored trees, and no others, exactly if for each
instance that it comes to an entry ends at a name of its path or the path begins with none.** -/
theorem ignored_iff_listed_iff (h : Reachable Starts context.Steps state) :
    (∀ v ∈ state.visits, (v.ignored = true ↔
      Listed (ignoreTreesOf context.rules) (namesBelowRoot v.tree v.referent))) ↔
    ∀ v ∈ state.visits,
      EntriesEndAtNames (ignoreTreesOf context.rules) (namesBelowRoot v.tree v.referent) := by
  refine forall₂_congr fun v hv => ?_
  rw [compared_of_reachable h v hv]
  exact ignoresTree_iff_listed_iff

end LoopContext

/-! ## A child that is to be removed -/

/-- A folder that is synced back over one with a child on the disk, and has none itself. -/
def childLost (childName : String) : SyncbackSnapshot MapDom :=
  let old := folderOf [childName]
  let onDisk : InstanceMetadata :=
    { instigatingSource := some (.path ⟨true, ["project", "src", childName]⟩)
      relevantPaths := [⟨true, ["project", "src", childName]⟩] }
  let metadata := extend ∅ ((rootRef old :: kids old (rootRef old)).map fun r => (r, onDisk))
  let new := folderOf []
  { data := ⟨⟨old, metadata, MultiMap.new, MultiMap.new⟩, new, none, none⟩
    old := some (rootRef old)
    new := rootRef new
    path := ⟨true, ["project", "src"]⟩
    middleware := none }

/-- The tree `Foo` is ignored. Without new children every old one is removed. -/
def ignoresFoo (snapshot : SyncbackSnapshot MapDom) : LoopContext MapDom where
  rules := some { ignoreTrees := ["Foo"] }
  oldHashes := extend ∅ ((snapshot.old.map fun r => (r, [0])).toList)
  newHashes := extend ∅ [(snapshot.new, [1])]
  isValidPath _ := true
  isDir _ := true
  syncback _ snapshot := do
    let removed ← oldInsts snapshot
    .ok ⟨{}, [], removed⟩

/-- The names of the instances that a pass of the loop has come to, and whether it has skipped
them. -/
def skipped (result : Fallible (LoopState MapDom)) : Option (List (List String × Bool)) :=
  match result with
  | .ok state => some (state.visits.map fun v => (namesBelowRoot v.tree v.referent, v.ignored))
  | .error _ => none

theorem exists_state_of_skipped {childName : String} {visits : List (List String × Bool)}
    (h : skipped ((ignoresFoo (childLost childName)).syncbackStep (childLost childName)
      ⟨[], {}, []⟩) = some visits) :
    ∃ state, Reachable LoopContext.Starts (ignoresFoo (childLost childName)).Steps state ∧
      state.visits.map (fun v => (namesBelowRoot v.tree v.referent, v.ignored)) = visits := by
  cases hstep : (ignoresFoo (childLost childName)).syncbackStep (childLost childName)
      ⟨[], {}, []⟩ with
  | error e =>
    rw [hstep] at h
    cases h
  | ok state =>
    rw [hstep] at h
    exact ⟨state, .step (.init ⟨childLost childName, rfl⟩) ⟨_, [], rfl, hstep⟩, Option.some.inj h⟩

theorem ignored_iff_listed_foo :
    ∃ state, Reachable LoopContext.Starts (ignoresFoo (childLost "Foo")).Steps state ∧
      state.visits.length = 2 ∧ ∀ v ∈ state.visits, (v.ignored = true ↔
        Listed (ignoreTreesOf (ignoresFoo (childLost "Foo")).rules)
          (namesBelowRoot v.tree v.referent)) := by
  have hskipped : skipped ((ignoresFoo (childLost "Foo")).syncbackStep (childLost "Foo")
      ⟨[], {}, []⟩) = some [([], false), (["Foo"], true)] := by decide +kernel
  obtain ⟨state, hreach, hvisits⟩ := exists_state_of_skipped hskipped
  refine ⟨state, hreach, ?_, (LoopContext.ignored_iff_listed_iff hreach).mpr fun v hv => ?_⟩
  · rw [← List.length_map (fun v : Visit MapDom => (namesBelowRoot v.tree v.referent, v.ignored)),
      hvisits]
    rfl
  · have hmem := List.mem_map_of_mem
      (f := fun v : Visit MapDom => (namesBelowRoot v.tree v.referent, v.ignored)) hv
    rw [hvisits] at hmem
    rcases List.mem_pair.mp hmem with heq | heq
    · rw [(Prod.mk.inj heq).1]
      rintro ⟨e, he, hprefix⟩
      rw [List.mem_singleton.mp he] at hprefix
      exact absurd hprefix (by decide)
    · rw [(Prod.mk.inj heq).1]
      exact fun _ => ⟨"Foo", List.mem_singleton.mpr rfl, 1, by decide, by decide, rfl, by decide⟩

/-- `Foobar` is kept although only `Foo` is ignored. -/
theorem not_ignored_iff_listed_foobar :
    ¬ ∀ (context : LoopContext MapDom) (state : LoopState MapDom),
      Reachable LoopContext.Starts context.Steps state → ∀ v ∈ state.visits,
        (v.ignored = true ↔
          Listed (ignoreTreesOf context.rules) (namesBelowRoot v.tree v.referent)) := by
  intro hall
  have hskipped : skipped ((ignoresFoo (childLost "Foobar")).syncbackStep (childLost "Foobar")
      ⟨[], {}, []⟩) = some [([], false), (["Foobar"], true)] := by decide +kernel
  obtain ⟨state, hreach, hvisits⟩ := exists_state_of_skipped hskipped
  have hmem : (["Foobar"], true) ∈
      state.visits.map fun v => (namesBelowRoot v.tree v.referent, v.ignored) := by
    rw [hvisits]
    exact List.mem_pair.mpr (.inr rfl)
  obtain ⟨v, hv, heq⟩ := List.mem_map.mp hmem
  obtain ⟨e, he, hprefix⟩ := (hall _ state hreach v hv).mp (Prod.mk.inj heq).2
  rw [List.mem_singleton.mp he, (Prod.mk.inj heq).1] at hprefix
  exact absurd hprefix (by decide)

end Roxo
