import Roxo.Syncback.Dir

/-!
# The old children of a directory

Syncback of a directory puts the old children in a map by their names, lets every new child take
the one with its name out of it, and removes those that are left. Of several old children with one
name only the last is in the map.
-/

namespace Roxo

open AssocMap Forest Lowercase WeakDom

/-- The old child is passed over where a new child has its name: it doesn't exist on the disk, or
originates in a project file. -/
def InstanceWithMeta.skipped (old : InstanceWithMeta) : Bool :=
  old.metadata.relevantPaths = [] || old.metadata.fromProjectNode

variable {D : Type} [WeakDom D]

/-- The instances of some children in the old tree. -/
def childInsts (tree : RojoTree D) : List Ref → Fallible (List InstanceWithMeta)
  | [] => .ok []
  | child :: children => do
    let inst ← (Fallible.unwrap (tree.getInstance child)) >>= Fallible.unwrap
    let insts ← childInsts tree children
    .ok (inst :: insts)

/-- The children of the old instance, all of them. -/
def oldInsts (snapshot : SyncbackSnapshot D) : Fallible (List InstanceWithMeta) := do
  match ← snapshot.oldInst with
  | some oldInst => childInsts snapshot.data.oldTree oldInst.inst.children
  | none => .ok []

/-- A new child takes an old one out of the map, and is passed on with it or skipped for it. -/
structure Takes (snapshot : SyncbackSnapshot D) (ret : SyncbackReturn D)
    (map : Map String InstanceWithMeta) (old : InstanceWithMeta) (newRef : Ref) : Prop where
  named : ∃ inst, getByRef snapshot.data.newTree newRef = some inst ∧ inst.name = old.inst.name
  entry : map.lookup old.inst.name = some old
  outcome : if old.skipped then newRef ∉ ret.children.map (·.new)
    else ∃ child ∈ ret.children, child.new = newRef ∧ child.old = some old.inst.referent

/-- Every old child is taken by one new child or removed, and every new child is passed on once
unless it is skipped for the old child that it takes. -/
structure LosesNone (snapshot : SyncbackSnapshot D) (ret : SyncbackReturn D)
    (map : Map String InstanceWithMeta) (olds : List InstanceWithMeta) (news : List Ref) :
    Prop where
  old : ∀ o ∈ olds,
    ((∃! n, n ∈ news ∧ Takes snapshot ret map o n) ∧ o ∉ ret.removedChildren) ∨
      ((∀ n ∈ news, ¬ Takes snapshot ret map o n) ∧ o ∈ ret.removedChildren)
  new : ∀ n ∈ news, (ret.children.map (·.new)).count n = 1 ∨
    (n ∉ ret.children.map (·.new) ∧ ∃ o ∈ olds, o.skipped = true ∧ Takes snapshot ret map o n)

/-! ## The old children by their names -/

theorem oldChildMap_eq {tree : RojoTree D} {children : List Ref}
    {map : Map String InstanceWithMeta} : oldChildMap tree children map =
      (childInsts tree children).map fun olds => extend map (olds.map fun o => (o.inst.name, o)) := by
  induction children generalizing map with
  | nil => rfl
  | cons child children ih =>
    unfold oldChildMap childInsts
    cases (Fallible.unwrap (tree.getInstance child)) >>= Fallible.unwrap with
    | error e => rfl
    | ok inst =>
      dsimp only [bind, Except.bind]
      rw [ih]
      cases childInsts tree children with
      | error e => rfl
      | ok insts => rfl

theorem oldChildren_eq (snapshot : SyncbackSnapshot D) : oldChildren snapshot =
    (oldInsts snapshot).map fun olds => extend ∅ (olds.map fun o => (o.inst.name, o)) := by
  unfold oldChildren oldInsts
  cases snapshot.oldInst with
  | error e => rfl
  | ok oldInst =>
    cases oldInst with
    | none => rfl
    | some oldInst => exact oldChildMap_eq

theorem getByRef_of_getInstance {tree : RojoTree D} {id : Ref} {inst : InstanceWithMeta}
    (h : (Fallible.unwrap (tree.getInstance id)) >>= Fallible.unwrap = .ok inst) :
    getByRef tree.inner id = some inst.inst := by
  obtain ⟨found, hfound, h⟩ := Except.bind_eq_ok.mp h
  rw [Fallible.unwrap_eq_ok.mp h, Fallible.unwrap_eq_ok] at hfound
  unfold RojoTree.getInstance at hfound
  cases hget : getByRef tree.inner id with
  | none =>
    rw [hget] at hfound
    cases hfound
  | some i =>
    rw [hget] at hfound
    obtain ⟨metadata, -, heq⟩ := Option.bind_eq_some_iff.mp hfound
    cases heq
    rfl

theorem map_referent_childInsts [LawfulWeakDom D] {tree : RojoTree D} {children : List Ref}
    {olds : List InstanceWithMeta} (h : childInsts tree children = .ok olds) :
    olds.map (·.inst.referent) = children := by
  induction children generalizing olds with
  | nil =>
    cases h
    rfl
  | cons child children ih =>
    obtain ⟨inst, hinst, h⟩ := Except.bind_eq_ok.mp h
    obtain ⟨insts, hinsts, h⟩ := Except.bind_eq_ok.mp h
    obtain rfl := Except.ok.inj h
    rw [List.map_cons, ih hinsts,
      LawfulWeakDom.referent_eq tree.inner (getByRef_of_getInstance hinst)]

/-- No instance is an old child twice. -/
theorem nodup_oldInsts [LawfulWeakDom D] {snapshot : SyncbackSnapshot D}
    {olds : List InstanceWithMeta} (h : oldInsts snapshot = .ok olds) : olds.Nodup := by
  obtain ⟨oldInst, hold, h⟩ := Except.bind_eq_ok.mp h
  cases oldInst with
  | none =>
    obtain rfl := Except.ok.inj h
    exact List.nodup_nil
  | some oldInst =>
    unfold SyncbackSnapshot.oldInst at hold
    cases hsnapshot : snapshot.old with
    | none =>
      rw [hsnapshot] at hold
      cases hold
    | some oldRef =>
      rw [hsnapshot] at hold
      have hget := getByRef_of_getInstance
        (Except.bind_eq_ok.mpr ⟨_, hold, Fallible.unwrap_eq_ok.mpr rfl⟩)
      have hnodup := (LawfulWeakDom.forest snapshot.data.oldTree.inner).nodup oldRef
      rw [kids_eq hget, ← map_referent_childInsts h] at hnodup
      exact hnodup.of_map

/-! ## The names of the new children -/

section Names

variable [CaseTables]

/-- Where no name occurs twice up to case, no name occurs twice. -/
theorem nodup_of_duplicateNames {dom : D} {children : List Ref} {seen : List String}
    (h : duplicateNames dom children seen = .ok []) : ∃ insts : List Instance,
      insts.map (fun i => some i) = children.map (getByRef dom) ∧
      (insts.map fun i => lowercase i.name).Nodup ∧ ∀ i ∈ insts, lowercase i.name ∉ seen := by
  induction children generalizing seen with
  | nil => exact ⟨[], rfl, List.nodup_nil, nofun⟩
  | cons child children ih =>
    obtain ⟨inst, hinst, h⟩ := Except.bind_eq_ok.mp h
    dsimp only at h
    split_ifs at h with hseen
    · obtain ⟨duplicates, -, h⟩ := Except.bind_eq_ok.mp h
      cases h
    · obtain ⟨insts, heq, hnodup, hnot⟩ := ih h
      refine ⟨inst :: insts, ?_, ?_, ?_⟩
      · rw [List.map_cons, List.map_cons, heq, Fallible.unwrap_eq_ok.mp hinst]
      · rw [List.map_cons, List.nodup_cons]
        refine ⟨fun hmem => ?_, hnodup⟩
        obtain ⟨i, hi, hname⟩ := List.mem_map.mp hmem
        exact hnot i hi (hname ▸ List.mem_cons_self)
      · intro i hi
        rcases List.mem_cons.mp hi with rfl | hi
        · exact hseen
        · exact fun hmem => hnot i hi (List.mem_cons_of_mem _ hmem)

end Names

/-! ## The loop over the new children -/

/-- The old child that a new one takes. -/
def takenOld (snapshot : SyncbackSnapshot D) (map : Map String InstanceWithMeta) (newRef : Ref) :
    Option InstanceWithMeta :=
  (getByRef snapshot.data.newTree newRef).bind fun inst => map.lookup inst.name

/-- What the loop makes of new children with distinct names. -/
structure Assigned (snapshot : SyncbackSnapshot D) (news : List Ref) (insts : List Instance)
    (map : Map String InstanceWithMeta) (children : List (SyncbackSnapshot D))
    (removed : Map String InstanceWithMeta) : Prop where
  news : children.map (·.new) = news.filter fun n => !(takenOld snapshot map n).any (·.skipped)
  olds : ∀ child ∈ children,
    child.old = (takenOld snapshot map child.new).map (·.inst.referent)
  removed : ∀ name, removed.lookup name =
    if name ∈ insts.map (·.name) then none else map.lookup name

variable {snapshot : SyncbackSnapshot D} {ret : SyncbackReturn D} {news : List Ref}
  {insts : List Instance} {olds : List InstanceWithMeta} {map removed : Map String InstanceWithMeta}
  {children : List (SyncbackSnapshot D)}

theorem new_withJoinedPath {child : SyncbackSnapshot D} {newRef : Ref} {oldRef : Option Ref}
    (h : snapshot.withJoinedPath newRef oldRef = .ok child) :
    child.new = newRef ∧ child.old = oldRef := by
  obtain ⟨_, _, _, _, rfl, -⟩ := SyncbackSnapshot.withJoinedPath_eq_ok h
  exact ⟨rfl, rfl⟩

/-- A new child with another name takes the same old child when one is gone. -/
theorem takenOld_erased {rest : Map String InstanceWithMeta} {newRef : Ref} {name : String}
    (hrest : ∀ k, rest.lookup k = if k = name then none else map.lookup k)
    (h : ∀ inst, getByRef snapshot.data.newTree newRef = some inst → inst.name ≠ name) :
    takenOld snapshot rest newRef = takenOld snapshot map newRef := by
  unfold takenOld
  cases hget : getByRef snapshot.data.newTree newRef with
  | none => rfl
  | some inst => rw [Option.bind_some, Option.bind_some, hrest, if_neg (h inst hget)]

/-- The step of the loop: the first new child, and what the loop makes of the others. -/
theorem Assigned.cons {newRef : Ref} {inst : Instance} (first : Option (SyncbackSnapshot D))
    {rest : Map String InstanceWithMeta} (h : Assigned snapshot news insts rest children removed)
    (hrest : ∀ k, rest.lookup k = if k = inst.name then none else map.lookup k)
    (hget : getByRef snapshot.data.newTree newRef = some inst)
    (hinsts : insts.map some = news.map (getByRef snapshot.data.newTree))
    (hname : inst.name ∉ insts.map (·.name))
    (hnone : first = none ↔ (map.lookup inst.name).any (·.skipped) = true)
    (hfirst : ∀ child, first = some child →
      child.new = newRef ∧ child.old = (map.lookup inst.name).map (·.inst.referent)) :
    Assigned snapshot (newRef :: news) (inst :: insts) map (first.toList ++ children) removed := by
  have htaken : takenOld snapshot map newRef = map.lookup inst.name := by
    unfold takenOld
    rw [hget, Option.bind_some]
  have hother : ∀ n ∈ news, takenOld snapshot rest n = takenOld snapshot map n := by
    intro n hn
    refine takenOld_erased hrest fun other hother hsame => hname ?_
    have hmem : some other ∈ insts.map some := hinsts ▸ List.mem_map.mpr ⟨n, hn, hother⟩
    obtain ⟨i, hi, heq⟩ := List.mem_map.mp hmem
    exact List.mem_map.mpr ⟨i, hi, (congrArg Instance.name (Option.some.inj heq)).trans hsame⟩
  have hfilter : (news.filter fun n => !(takenOld snapshot rest n).any (·.skipped)) =
      news.filter fun n => !(takenOld snapshot map n).any (·.skipped) :=
    List.filter_congr fun n hn => by rw [hother n hn]
  refine ⟨?_, ?_, ?_⟩
  · rw [List.map_append, h.news, hfilter, List.filter_cons, htaken]
    cases first with
    | none =>
      rw [hnone.mp rfl]
      rfl
    | some child =>
      have hkeep : (map.lookup inst.name).any (·.skipped) = false := by
        rw [← Bool.not_eq_true, ← hnone]
        nofun
      rw [hkeep]
      simp [(hfirst child rfl).1]
  · intro child hc
    rcases List.mem_append.mp hc with hc | hc
    · obtain ⟨hnew, hold⟩ := hfirst child (Option.mem_toList.mp hc)
      rw [hnew, htaken, hold]
    · have hmem : child.new ∈ news :=
        List.mem_of_mem_filter (h.news ▸ List.mem_map_of_mem hc)
      rw [h.olds child hc, hother _ hmem]
  · intro name
    rw [h.removed, hrest, List.map_cons]
    by_cases hsame : name = inst.name
    · rw [if_pos hsame, ite_self, if_pos (hsame ▸ List.mem_cons_self)]
    · simp only [hsame, if_false, List.mem_cons, false_or]

theorem assigned_of_assignChildren
    (hinsts : insts.map some = news.map (getByRef snapshot.data.newTree))
    (hnames : (insts.map (·.name)).Nodup)
    (h : assignChildren snapshot news map = .ok (children, removed)) :
    Assigned snapshot news insts map children removed := by
  induction news generalizing insts map children removed with
  | nil =>
    obtain rfl := List.map_eq_nil_iff.mp hinsts
    obtain ⟨rfl, rfl⟩ := Prod.mk.inj (Except.ok.inj h)
    refine ⟨rfl, fun _ hc => absurd hc List.not_mem_nil, fun name => ?_⟩
    rw [List.map_nil, if_neg List.not_mem_nil]
  | cons newRef news ih =>
    obtain ⟨inst, insts', rfl, hget, hinsts'⟩ := List.map_eq_cons_iff.mp hinsts
    obtain ⟨hname, hnames⟩ := List.nodup_cons.mp hnames
    unfold assignChildren at h
    obtain ⟨newChild, hchild, h⟩ := Except.bind_eq_ok.mp h
    rw [Fallible.unwrap_eq_ok, ← hget] at hchild
    obtain rfl := Option.some.inj hchild
    have hpass : ∀ {oldRef rest}, (do
        let child ← snapshot.withJoinedPath newRef oldRef
        let later ← assignChildren snapshot news rest
        .ok (child :: later.1, later.2)) = .ok (children, removed) →
        (∀ k, rest.lookup k = if k = inst.name then none else map.lookup k) →
        (map.lookup inst.name).any (·.skipped) = false →
        oldRef = (map.lookup inst.name).map (·.inst.referent) →
        Assigned snapshot (newRef :: news) (inst :: insts') map children removed := by
      intro oldRef rest h hrest hskip holdRef
      obtain ⟨child, hjoined, h⟩ := Except.bind_eq_ok.mp h
      obtain ⟨⟨later, map'⟩, hlater, h⟩ := Except.bind_eq_ok.mp h
      obtain ⟨rfl, rfl⟩ := Prod.mk.inj (Except.ok.inj h)
      refine Assigned.cons (some child) (ih hinsts' hnames hlater) hrest hget.symm
        hinsts' hname ⟨fun hnone => absurd hnone (Option.some_ne_none _), fun hany => ?_⟩
        fun c hc => ?_
      · rw [hskip] at hany
        cases hany
      · obtain rfl := Option.some.inj hc
        rw [← holdRef]
        exact new_withJoinedPath hjoined
    have hskip : ∀ {old}, map.lookup inst.name = some old → old.skipped = true →
        assignChildren snapshot news (map.erase inst.name) = .ok (children, removed) →
        Assigned snapshot (newRef :: news) (inst :: insts') map children removed := by
      intro old hold hskipped h
      refine Assigned.cons none (ih hinsts' hnames h) (lookup_erase_eq map _) hget.symm
        hinsts' hname ?_ fun _ hc => absurd hc.symm (Option.some_ne_none _)
      rw [hold]
      exact iff_of_true rfl hskipped
    cases hold : map.lookup inst.name with
    | none =>
      rw [hold] at h
      refine hpass h (fun k => ?_) (by rw [hold]; rfl) (by rw [hold]; rfl)
      split_ifs with hk
      · rw [hk, hold]
      · rfl
    | some old =>
      rw [hold] at h
      dsimp only at h
      split_ifs at h with hpaths hproject
      · exact hskip hold (by simp [InstanceWithMeta.skipped, hpaths]) h
      · exact hskip hold (by simp [InstanceWithMeta.skipped, hproject]) h
      · refine hpass h (lookup_erase_eq map _) ?_ (by rw [hold]; rfl)
        rw [hold]
        simp [InstanceWithMeta.skipped, hpaths, hproject]

/-! ## The groups of the old children -/

/-- What is known of the children of a directory that is synced back. -/
structure Drained (snapshot : SyncbackSnapshot D) (ret : SyncbackReturn D)
    (map : Map String InstanceWithMeta) (olds : List InstanceWithMeta) (news : List Ref)
    (insts : List Instance) : Prop where
  oldMap : map = extend ∅ (olds.map fun o => (o.inst.name, o))
  nodupOlds : olds.Nodup
  found : insts.map some = news.map (getByRef snapshot.data.newTree)
  names : (insts.map (·.name)).Nodup
  nodupNews : news.Nodup
  kept : ret.children.map (·.new) =
    news.filter fun n => !(takenOld snapshot map n).any (·.skipped)
  passed : ∀ child ∈ ret.children,
    child.old = (takenOld snapshot map child.new).map (·.inst.referent)
  removed : ∀ o, o ∈ ret.removedChildren ↔
    ∃ name, name ∉ insts.map (·.name) ∧ map.lookup name = some o

section Drain

variable (hd : Drained snapshot ret map olds news insts)
include hd

theorem Drained.mem_of_lookup {name : String} {o : InstanceWithMeta}
    (h : map.lookup name = some o) : o ∈ olds ∧ o.inst.name = name := by
  rw [hd.oldMap] at h
  rcases mem_of_lookup_extend h with h | h
  · obtain ⟨o', ho', heq⟩ := List.mem_map.mp h
    obtain ⟨rfl, rfl⟩ := Prod.mk.inj heq
    exact ⟨ho', rfl⟩
  · rw [AList.lookup_empty] at h
    cases h

theorem Drained.getByRef_mem {n : Ref} (hn : n ∈ news) :
    ∃ inst ∈ insts, getByRef snapshot.data.newTree n = some inst := by
  have hmem : getByRef snapshot.data.newTree n ∈ insts.map some :=
    hd.found ▸ List.mem_map_of_mem hn
  obtain ⟨inst, hinst, heq⟩ := List.mem_map.mp hmem
  exact ⟨inst, hinst, heq.symm⟩

/-- New children with one name are one. -/
theorem Drained.eq_of_name {n n' : Ref} {inst inst' : Instance} (hn : n ∈ news) (hn' : n' ∈ news)
    (hget : getByRef snapshot.data.newTree n = some inst)
    (hget' : getByRef snapshot.data.newTree n' = some inst') (heq : inst.name = inst'.name) :
    n = n' := by
  have hnames : (news.map fun n => (getByRef snapshot.data.newTree n).map (·.name)).Nodup := by
    have hmap : (news.map fun n => (getByRef snapshot.data.newTree n).map (·.name)) =
        (insts.map (·.name)).map some := by
      have hcomp : (news.map fun n => (getByRef snapshot.data.newTree n).map (·.name)) =
          (news.map (getByRef snapshot.data.newTree)).map (Option.map (·.name)) := by
        rw [List.map_map]
        rfl
      rw [hcomp, ← hd.found, List.map_map, List.map_map]
      rfl
    rw [hmap]
    exact hd.names.map (Option.some_injective _)
  refine List.inj_on_of_nodup_map hnames hn hn' ?_
  rw [hget, hget', Option.map_some, Option.map_some, heq]

omit hd in
theorem takenOld_eq {n : Ref} {inst : Instance}
    (hget : getByRef snapshot.data.newTree n = some inst) :
    takenOld snapshot map n = map.lookup inst.name := by
  unfold takenOld
  rw [hget, Option.bind_some]

/-- A new child with the name of an old one that is in the map takes it. -/
theorem Drained.takes {o : InstanceWithMeta} {n : Ref} {inst : Instance} (hn : n ∈ news)
    (hget : getByRef snapshot.data.newTree n = some inst)
    (ho : map.lookup inst.name = some o) : Takes snapshot ret map o n := by
  obtain ⟨-, hname⟩ := hd.mem_of_lookup ho
  refine ⟨⟨inst, hget, hname.symm⟩, hname ▸ ho, ?_⟩
  have htaken := (takenOld_eq hget).trans ho
  have hmem : n ∈ ret.children.map (·.new) ↔ o.skipped = false := by
    rw [hd.kept, List.mem_filter, htaken]
    simp [hn]
  split_ifs with hskipped
  · rw [hmem, hskipped]
    exact Bool.noConfusion
  · obtain ⟨child, hc, hnew⟩ := List.mem_map.mp (hmem.mpr (Bool.not_eq_true _ ▸ hskipped))
    refine ⟨child, hc, hnew, ?_⟩
    rw [hd.passed child hc, hnew, htaken]
    rfl

theorem Drained.takes_iff {o : InstanceWithMeta} {n : Ref} (hn : n ∈ news) :
    Takes snapshot ret map o n ↔ takenOld snapshot map n = some o := by
  obtain ⟨inst, -, hget⟩ := hd.getByRef_mem hn
  constructor
  · rintro ⟨⟨inst', hget', hname⟩, hentry, -⟩
    rw [takenOld_eq hget', hname, hentry]
  · intro h
    exact hd.takes hn hget ((takenOld_eq hget).symm.trans h)

theorem Drained.mem_removed_iff {o : InstanceWithMeta} : o ∈ ret.removedChildren ↔
    map.lookup o.inst.name = some o ∧ ∀ n ∈ news, takenOld snapshot map n ≠ some o := by
  rw [hd.removed]
  constructor
  · rintro ⟨name, hname, hlookup⟩
    obtain ⟨-, rfl⟩ := hd.mem_of_lookup hlookup
    refine ⟨hlookup, fun n hn htaken => hname ?_⟩
    obtain ⟨inst, hinst, hget⟩ := hd.getByRef_mem hn
    rw [takenOld_eq hget] at htaken
    rw [(hd.mem_of_lookup htaken).2]
    exact List.mem_map_of_mem hinst
  · rintro ⟨hlookup, hnone⟩
    refine ⟨o.inst.name, fun hmem => ?_, hlookup⟩
    obtain ⟨inst, hinst, hname⟩ := List.mem_map.mp hmem
    have hsome : some inst ∈ news.map (getByRef snapshot.data.newTree) :=
      hd.found ▸ List.mem_map_of_mem hinst
    obtain ⟨n, hn, hget⟩ := List.mem_map.mp hsome
    exact hnone n hn ((takenOld_eq hget).trans (hname ▸ hlookup))

/-- **No old child is lost exactly if the old children have distinct names.** -/
theorem Drained.losesNone_iff :
    LosesNone snapshot ret map olds news ↔ (olds.map (·.inst.name)).Nodup := by
  constructor
  · intro h
    refine hd.nodupOlds.map_on fun o ho o' ho' hname => ?_
    have hentry : ∀ o ∈ olds, map.lookup o.inst.name = some o := by
      intro o ho
      rcases h.old o ho with ⟨⟨n, hn, -⟩, -⟩ | ⟨-, hremoved⟩
      · exact hn.2.entry
      · exact (hd.mem_removed_iff.mp hremoved).1
    exact Option.some.inj ((hentry o ho).symm.trans (hname ▸ hentry o' ho'))
  · intro hnodup
    have hkeys : ((olds.map fun o => (o.inst.name, o)).map Prod.fst).Nodup := by
      rw [List.map_map]
      exact hnodup
    have hentry : ∀ o ∈ olds, map.lookup o.inst.name = some o := fun o ho =>
      hd.oldMap ▸ lookup_extend_of_mem hkeys (List.mem_map.mpr ⟨o, ho, rfl⟩)
    refine ⟨fun o ho => ?_, fun n hn => ?_⟩
    · by_cases hex : ∃ n ∈ news, takenOld snapshot map n = some o
      · obtain ⟨n, hn, htaken⟩ := hex
        have htakes := (hd.takes_iff hn).mpr htaken
        refine .inl ⟨⟨n, ⟨hn, htakes⟩, fun n' hn' => ?_⟩, fun hremoved => ?_⟩
        · obtain ⟨⟨inst, hget, hname⟩, -, -⟩ := htakes
          obtain ⟨⟨inst', hget', hname'⟩, -, -⟩ := hn'.2
          exact hd.eq_of_name hn'.1 hn hget' hget (hname'.trans hname.symm)
        · exact (hd.mem_removed_iff.mp hremoved).2 n hn htaken
      · refine .inr ⟨fun n hn htakes => hex ⟨n, hn, (hd.takes_iff hn).mp htakes⟩, ?_⟩
        exact hd.mem_removed_iff.mpr ⟨hentry o ho, fun n hn htaken => hex ⟨n, hn, htaken⟩⟩
    · cases hskip : (takenOld snapshot map n).any (·.skipped) with
      | false =>
        have hmem : n ∈ ret.children.map (·.new) := by
          rw [hd.kept, List.mem_filter, hskip]
          exact ⟨hn, rfl⟩
        refine .inl (List.count_eq_one_of_mem ?_ hmem)
        rw [hd.kept]
        exact hd.nodupNews.filter _
      | true =>
        cases htaken : takenOld snapshot map n with
        | none =>
          rw [htaken] at hskip
          cases hskip
        | some o =>
          have hskipped : o.skipped = true := by
            rw [htaken] at hskip
            exact hskip
          obtain ⟨inst, -, hget⟩ := hd.getByRef_mem hn
          have ho := (hd.mem_of_lookup ((takenOld_eq hget).symm.trans htaken)).1
          have htakes := (hd.takes_iff hn).mpr htaken
          have hout := htakes.outcome
          rw [if_pos hskipped] at hout
          exact .inr ⟨hout, o, ho, hskipped, htakes⟩

end Drain

section Hashed

variable [LawfulWeakDom D] [ReflectionDatabase] [FloatCmp] [Hashing] [CaseTables]

theorem drained_of_ok {inst : Instance} (hret : syncbackDirNoMeta snapshot = .ok ret)
    (hinst : snapshot.newInst = .ok inst) (holds : oldInsts snapshot = .ok olds)
    (hmap : oldChildren snapshot = .ok map) :
    ∃ insts, Drained snapshot ret map olds inst.children insts := by
  unfold syncbackDirNoMeta at hret
  obtain ⟨inst', hinst', hret⟩ := Except.bind_eq_ok.mp hret
  obtain rfl := Except.ok.inj (hinst.symm.trans hinst')
  obtain ⟨_, hnames, hret⟩ := Except.bind_eq_ok.mp hret
  obtain ⟨map', hmap', hret⟩ := Except.bind_eq_ok.mp hret
  obtain rfl := Except.ok.inj (hmap.symm.trans hmap')
  obtain ⟨⟨children, removed⟩, hassign, hret⟩ := Except.bind_eq_ok.mp hret
  obtain ⟨added, -, hret⟩ := Except.bind_eq_ok.mp hret
  obtain rfl := Except.ok.inj hret
  have hduplicates : duplicateNames snapshot.data.newTree inst.children [] = .ok [] := by
    obtain ⟨duplicates, hduplicates, hnone⟩ := Except.bind_eq_ok.mp hnames
    split_ifs at hnone with hempty
    · rw [hduplicates, hempty]
    · cases hnone
    · cases hnone
  obtain ⟨insts, hinsts, hlower, -⟩ := nodup_of_duplicateNames hduplicates
  have hdistinct : (insts.map (·.name)).Nodup := by
    refine List.Nodup.of_map lowercase ?_
    rw [List.map_map]
    exact hlower
  have hassigned := assigned_of_assignChildren hinsts hdistinct hassign
  have hget : getByRef snapshot.data.newTree snapshot.new = some inst :=
    Fallible.unwrap_eq_ok.mp hinst
  refine ⟨insts, ?_, nodup_oldInsts holds, hinsts, hdistinct, ?_, hassigned.news, hassigned.olds,
    fun o => ?_⟩
  · rw [oldChildren_eq, holds] at hmap
    exact (Except.ok.inj hmap).symm
  · rw [← kids_eq hget]
    exact (LawfulWeakDom.forest snapshot.data.newTree).nodup _
  · rw [List.mem_map]
    constructor
    · rintro ⟨⟨name, o'⟩, hmem, rfl⟩
      rw [mem_toList, hassigned.removed] at hmem
      split_ifs at hmem with hname
      exact ⟨name, hname, hmem⟩
    · rintro ⟨name, hname, hlookup⟩
      refine ⟨(name, o), ?_, rfl⟩
      rw [mem_toList, hassigned.removed, if_neg hname]
      exact hlookup

/-- **Syncback of a directory loses no old child exactly if the old children have distinct
names.** -/
theorem syncbackDirNoMeta_losesNone_iff {inst : Instance}
    (hret : syncbackDirNoMeta snapshot = .ok ret) (hinst : snapshot.newInst = .ok inst)
    (holds : oldInsts snapshot = .ok olds) (hmap : oldChildren snapshot = .ok map) :
    LosesNone snapshot ret map olds inst.children ↔ (olds.map (·.inst.name)).Nodup := by
  obtain ⟨insts, hd⟩ := drained_of_ok hret hinst holds hmap
  exact hd.losesNone_iff

end Hashed

/-! ## A folder with old children -/

/-- A folder with children of the given names. -/
def folderOf (childNames : List String) : MapDom :=
  childNames.foldl (fun dom name =>
    let child := (InstanceBuilder.new "Folder").withName name
    ((WeakDom.insert dom (rootRef dom) child).map Prod.snd).getD dom)
    (WeakDom.new (InstanceBuilder.new "Folder"))

/-- Syncback of the folder over the one that was read from the disk. -/
def folderOver (oldNames newNames : List String) : SyncbackSnapshot MapDom :=
  let old := folderOf oldNames
  let onDisk : InstanceMetadata := { relevantPaths := [⟨true, ["project", "src"]⟩] }
  let metadata := extend ∅ ((rootRef old :: kids old (rootRef old)).map fun r => (r, onDisk))
  let new := folderOf newNames
  { data := ⟨⟨old, metadata, MultiMap.new, MultiMap.new⟩, new, none, none⟩
    old := some (rootRef old)
    new := rootRef new
    path := ⟨true, ["project", "src"]⟩
    middleware := none }

/-- What is asked of a directory that is synced back. -/
theorem exists_drain [ReflectionDatabase] [FloatCmp] [Hashing] [CaseTables]
    {snapshot : SyncbackSnapshot MapDom} {names : List String}
    (hret : (syncbackDirNoMeta snapshot).toOption.isSome = true)
    (holds : (oldInsts snapshot).toOption.map (·.map (·.inst.name)) = some names) :
    ∃ ret inst olds map, syncbackDirNoMeta snapshot = .ok ret ∧ snapshot.newInst = .ok inst ∧
      oldInsts snapshot = .ok olds ∧ oldChildren snapshot = .ok map ∧
      olds.map (·.inst.name) = names := by
  cases hok : syncbackDirNoMeta snapshot with
  | error e =>
    rw [hok] at hret
    cases hret
  | ok ret =>
    obtain ⟨inst, map, -, hinst, -, hmap, -⟩ := syncbackDirNoMeta_eq_ok hok
    cases hlist : oldInsts snapshot with
    | error e =>
      rw [hlist] at holds
      cases holds
    | ok olds =>
      rw [hlist] at holds
      exact ⟨ret, inst, olds, map, rfl, hinst, rfl, hmap, Option.some.inj holds⟩

/-- Of the old children A and B one is removed, and the other goes with the new child B. -/
theorem losesNone_distinct : letI := ReflectionDatabase.empty; letI := FloatCmp.exact
    letI := Hashing.truncated; letI := CaseTables.ascii
    ∃ (ret : SyncbackReturn MapDom) (inst : Instance) (olds : List InstanceWithMeta)
      (map : Map String InstanceWithMeta),
      syncbackDirNoMeta (folderOver ["A", "B"] ["B", "C"]) = .ok ret ∧
      (folderOver ["A", "B"] ["B", "C"]).newInst = .ok inst ∧
      oldInsts (folderOver ["A", "B"] ["B", "C"]) = .ok olds ∧
      oldChildren (folderOver ["A", "B"] ["B", "C"]) = .ok map ∧
      olds.map (·.inst.name) = ["A", "B"] ∧
      LosesNone (folderOver ["A", "B"] ["B", "C"]) ret map olds inst.children := by
  let _ := ReflectionDatabase.empty
  let _ := FloatCmp.exact
  let _ := Hashing.truncated
  let _ := CaseTables.ascii
  have hret : (syncbackDirNoMeta (folderOver ["A", "B"] ["B", "C"])).toOption.isSome = true := by
    decide +kernel
  have hnames : (oldInsts (folderOver ["A", "B"] ["B", "C"])).toOption.map
      (·.map (·.inst.name)) = some ["A", "B"] := by decide +kernel
  obtain ⟨ret, inst, olds, map, hret, hinst, holds, hmap, hnames⟩ := exists_drain hret hnames
  refine ⟨ret, inst, olds, map, hret, hinst, holds, hmap, hnames, ?_⟩
  refine (syncbackDirNoMeta_losesNone_iff hret hinst holds hmap).mpr ?_
  rw [hnames]
  decide

/-- Of two old children with one name the first is neither passed on nor removed. -/
theorem not_losesNone_duplicate : letI := ReflectionDatabase.empty; letI := FloatCmp.exact
    letI := Hashing.truncated; letI := CaseTables.ascii
    ¬ ∀ (snapshot : SyncbackSnapshot MapDom) (ret : SyncbackReturn MapDom) (inst : Instance)
      (olds : List InstanceWithMeta) (map : Map String InstanceWithMeta),
      syncbackDirNoMeta snapshot = .ok ret → snapshot.newInst = .ok inst →
      oldInsts snapshot = .ok olds → oldChildren snapshot = .ok map →
      LosesNone snapshot ret map olds inst.children := by
  let _ := ReflectionDatabase.empty
  let _ := FloatCmp.exact
  let _ := Hashing.truncated
  let _ := CaseTables.ascii
  intro hall
  have hret : (syncbackDirNoMeta (folderOver ["A", "A"] ["A"])).toOption.isSome = true := by
    decide +kernel
  have hnames : (oldInsts (folderOver ["A", "A"] ["A"])).toOption.map
      (·.map (·.inst.name)) = some ["A", "A"] := by decide +kernel
  obtain ⟨ret, inst, olds, map, hret, hinst, holds, hmap, hnames⟩ := exists_drain hret hnames
  obtain ⟨insts, hd⟩ := drained_of_ok hret hinst holds hmap
  have hnodup := hd.losesNone_iff.mp (hall _ ret inst olds map hret hinst holds hmap)
  rw [hnames] at hnodup
  exact absurd hnodup (by decide)

end Roxo
