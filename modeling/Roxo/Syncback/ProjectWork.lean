import Roxo.Snapshot.MapDom
import Roxo.SnapshotMiddleware.DirectPaths
import Roxo.Syncback.Project

/-!
# What a project schedules

`syncback_project` takes the children of an instance that no node stands for as children on the
file system. That is right where the node's path is a directory. Where it is a single file the new
children get paths below the file, and the instances inside a model file, which have no source of
their own, are handed over for removal. `syncbackProject_iff` says exactly when neither happens.
-/

namespace Roxo

open AssocMap Forest WeakDom PathBuf

/-- The path is one in a directory. -/
def InDirectory (vfs : Vfs) (path : PathBuf) : Prop :=
  ∃ above, path.parent = some above ∧ vfs.metadata above = .ok ⟨false⟩

/-- The path is one in a directory that exists or is added. -/
def InDirectoryAfter (vfs : Vfs) (fsSnapshot : FsSnapshot) (path : PathBuf) : Prop :=
  InDirectory vfs path ∨ ∃ above ∈ fsSnapshot.addedDirs, path.parent = some above

variable {D : Type} [WeakDom D]

/-- Everything that is to be removed has a source, and everything that is to be written has a
directory to be written to. -/
structure PossibleWork (vfs : Vfs) (ret : SyncbackReturn D) : Prop where
  removed : ∀ inst ∈ ret.removedChildren, inst.metadata.instigatingSource ≠ none
  children : ∀ child ∈ ret.children, InDirectoryAfter vfs ret.fsSnapshot child.path
  files : ∀ path ∈ ret.fsSnapshot.addedFiles, InDirectoryAfter vfs ret.fsSnapshot path

/-! ## The condition -/

/-- The instance is a child of this name in the new DOM. -/
def HasNewChild (data : SyncbackData D) (parent : Instance) (name : String) (child : Instance) :
    Prop :=
  ∃ childRef ∈ parent.children, getByRef data.newTree childRef = some child ∧ child.name = name

/-- The instance is a child of this name in the old tree. -/
def HasOldChild (data : SyncbackData D) (parent : Instance) (name : String)
    (child : InstanceWithMeta) : Prop :=
  ∃ childRef ∈ parent.children, data.oldTree.getInstance childRef = some (some child) ∧
    child.inst.name = name

/-- One of the nodes, which is not skipped, stands for the child of this name. -/
def HasNode (vfs : Vfs) (basePath : PathBuf) (nodes : List (String × ProjectNode)) (name : String) :
    Prop := ∃ child, (name, child) ∈ nodes ∧ isSkipped vfs basePath child = false

/-- The second entry is one of a child node of the first. -/
def ChildEntry (vfs : Vfs) (data : SyncbackData D) (basePath : PathBuf)
    (parent child : NodeEntry) : Prop :=
  ∃ name, (name, child.node) ∈ parent.node.children ∧ child.names = parent.names ++ [name] ∧
    isSkipped vfs basePath child.node = false ∧
    HasNewChild data parent.newInst name child.newInst ∧
    HasOldChild data parent.oldInst.inst name child.oldInst

/-- The nodes below a node that have instances. -/
abbrev Visits (vfs : Vfs) (data : SyncbackData D) (basePath : PathBuf) :
    NodeEntry → NodeEntry → Prop :=
  Relation.ReflTransGen (ChildEntry vfs data basePath)

/-- A new instance can be written beside the path: a file if the path is a directory, a directory
under its bare name, whatever that spells. -/
def PlacedIn (vfs : Vfs) (debugModelFormat : Option String) (dir : PathBuf) (inst : Instance) :
    Prop :=
  if (newMiddleware debugModelFormat inst).isDir then InDirectory vfs (dir.joinStr inst.name)
  else vfs.metadata dir = .ok ⟨false⟩

/-- What is left of the children of a node can be removed and added: no instance that has no
source of its own, such as one from inside a model file, is gone, and the path of the node has
room for those that are new. -/
structure NodeFits [Environment] (vfs : Vfs) (data : SyncbackData D) (syncRules : List SyncRule)
    (basePath : PathBuf) (entry : NodeEntry) : Prop where
  removed : ∀ name old, HasOldChild data entry.oldInst.inst name old →
    ¬ HasNode vfs basePath entry.node.children name →
    (entry.node.path.isSome → ∀ new, ¬ HasNewChild data entry.newInst name new) →
    old.metadata.instigatingSource ≠ none
  added : ∀ pathNode name new, entry.node.path = some pathNode →
    HasNewChild data entry.newInst name new → ¬ HasNode vfs basePath entry.node.children name →
    (∀ old, ¬ HasOldChild data entry.oldInst.inst name old) →
    middlewareForPath vfs syncRules (basePath.join pathNode.path) ≠ .ok (some .project) →
    PlacedIn vfs data.debugModelFormat (basePath.join pathNode.path) new

/-- Every node of the project that is walked fits. -/
def EveryNodeFits [Environment] (vfs : Vfs) (snapshot : SyncbackSnapshot D) : Prop :=
  ∀ oldInst newInst projectPath project basePath, snapshot.oldInst = .ok (some oldInst) →
    snapshot.newInst = .ok newInst → oldInst.metadata.relevantPaths.getLast? = some projectPath →
    Project.loadExact vfs projectPath none = .ok project → project.folderLocation = .ok basePath →
    ∀ entry, Visits vfs snapshot.data basePath ⟨[], project.tree, oldInst, newInst⟩ entry →
      NodeFits vfs snapshot.data
        (project.syncRules.map fun rule => { rule with basePath := basePath }) basePath entry

/-! ## The maps of the children -/

section Maps

variable {α : Type} {get : Ref → Fallible α} {nameOf : α → String} {duplicated : String → String}
  {children : List Ref} {map map' : Map String α}

theorem childMap_lookup (h : childMap get nameOf duplicated children map = .ok map')
    {name : String} {a : α} : map'.lookup name = some a ↔
      map.lookup name = some a ∨ ∃ childRef ∈ children, get childRef = .ok a ∧ nameOf a = name := by
  induction children generalizing map with
  | nil =>
    cases h
    simp
  | cons childRef children ih =>
    unfold childMap at h
    obtain ⟨child, hchild, h⟩ := Except.bind_eq_ok.mp h
    split_ifs at h with hmem
    · cases h
    · have hnone : map.lookup (nameOf child) = none := AList.lookup_eq_none.mpr hmem
      rw [ih h, lookup_insert_eq]
      simp only [List.mem_cons, exists_eq_or_imp, hchild, Except.ok.injEq]
      by_cases hname : name = nameOf child
      · rw [if_pos hname, hname, hnone]
        simp only [Option.some.injEq, reduceCtorEq, false_or]
        constructor
        · rintro (rfl | h)
          · exact .inl ⟨rfl, rfl⟩
          · exact .inr h
        · rintro (⟨rfl, -⟩ | h)
          · exact .inl rfl
          · exact .inr h
      · rw [if_neg hname]
        have hne : ¬ (child = a ∧ nameOf a = name) := by
          rintro ⟨rfl, heq⟩
          exact hname heq.symm
        simp only [hne, false_or]

end Maps

section Nodes

variable {vfs : Vfs} {projectPath basePath : PathBuf} {parent : NodeEntry}
  {nodes : List (String × ProjectNode)} {entries : List NodeEntry}
  {newMap newMap' : Map String Instance} {oldMap oldMap' : Map String InstanceWithMeta}

/-- The children that a node stands for leave both maps, and each has an entry. -/
structure Matched (vfs : Vfs) (basePath : PathBuf) (parent : NodeEntry)
    (nodes : List (String × ProjectNode)) (newMap : Map String Instance)
    (oldMap : Map String InstanceWithMeta) (entries : List NodeEntry)
    (newMap' : Map String Instance) (oldMap' : Map String InstanceWithMeta) : Prop where
  present : ∀ name, HasNode vfs basePath nodes name → name ∈ newMap
  apart : entries.Pairwise fun a b => a.names ≠ b.names
  entries : ∀ e, e ∈ entries ↔ ∃ name, (name, e.node) ∈ nodes ∧ e.names = parent.names ++ [name] ∧
    isSkipped vfs basePath e.node = false ∧ newMap.lookup name = some e.newInst ∧
      oldMap.lookup name = some e.oldInst
  newLeft : ∀ name new, newMap'.lookup name = some new ↔
    ¬ HasNode vfs basePath nodes name ∧ newMap.lookup name = some new
  oldLeft : ∀ name old, oldMap'.lookup name = some old ↔
    ¬ HasNode vfs basePath nodes name ∧ oldMap.lookup name = some old

theorem matchNodes_eq_ok
    (h : matchNodes vfs projectPath basePath parent nodes newMap oldMap =
      .ok (entries, newMap', oldMap')) :
    Matched vfs basePath parent nodes newMap oldMap entries newMap' oldMap' := by
  induction nodes generalizing newMap oldMap entries with
  | nil =>
    cases h
    exact
      { present := fun name ⟨_, hc, _⟩ => absurd hc List.not_mem_nil
        apart := List.Pairwise.nil
        entries := by simp
        newLeft := by simp [HasNode]
        oldLeft := by simp [HasNode] }
  | cons node nodes ih =>
    obtain ⟨childName, child⟩ := node
    unfold matchNodes at h
    split_ifs at h with hskip
    · have hm := ih h
      have hnode (name : String) :
          HasNode vfs basePath ((childName, child) :: nodes) name ↔ HasNode vfs basePath nodes name := by
        constructor
        · rintro ⟨c, hc, hs⟩
          rcases List.mem_cons.mp hc with heq | hc
          · obtain ⟨rfl, rfl⟩ := Prod.mk.inj heq
            rw [hskip] at hs
            cases hs
          · exact ⟨c, hc, hs⟩
        · exact fun ⟨c, hc, hs⟩ => ⟨c, List.mem_cons_of_mem _ hc, hs⟩
      refine ⟨fun name hn => hm.present name ((hnode name).mp hn), hm.apart, fun e => ?_, ?_, ?_⟩
      · rw [hm.entries]
        constructor
        · rintro ⟨name, hmem, hrest⟩
          exact ⟨name, List.mem_cons_of_mem _ hmem, hrest⟩
        · rintro ⟨name, hmem, hnames, hs, hrest⟩
          rcases List.mem_cons.mp hmem with heq | hmem
          · rw [(Prod.mk.inj heq).2, hskip] at hs
            cases hs
          · exact ⟨name, hmem, hnames, hs, hrest⟩
      · intro name new
        rw [hm.newLeft, hnode]
      · intro name old
        rw [hm.oldLeft, hnode]
    · dsimp only at h
      rw [Bool.not_eq_true] at hskip
      cases hnew : newMap.lookup childName with
      | none =>
        rw [hnew] at h
        cases hold : oldMap.lookup childName <;> rw [hold] at h <;> cases h
      | some new =>
        cases hold : oldMap.lookup childName with
        | none =>
          rw [hnew, hold] at h
          cases h
        | some old =>
          rw [hnew, hold] at h
          obtain ⟨⟨rest, newMap'', oldMap''⟩, hrest, h⟩ := Except.bind_eq_ok.mp h
          cases h
          have hm := ih hrest
          have hnode (name : String) : HasNode vfs basePath ((childName, child) :: nodes) name ↔
              name = childName ∨ HasNode vfs basePath nodes name := by
            constructor
            · rintro ⟨c, hc, hs⟩
              rcases List.mem_cons.mp hc with heq | hc
              · exact .inl (Prod.mk.inj heq).1
              · exact .inr ⟨c, hc, hs⟩
            · rintro (rfl | ⟨c, hc, hs⟩)
              · exact ⟨child, List.mem_cons_self, hskip⟩
              · exact ⟨c, List.mem_cons_of_mem _ hc, hs⟩
          have hself : ¬ HasNode vfs basePath nodes childName := fun hn =>
            (AList.mem_erase.mp (hm.present childName hn)).1 rfl
          have hleft {β : Type} (map : Map String β) (name : String) (b : β) :
              (¬ HasNode vfs basePath nodes name ∧ (map.erase childName).lookup name = some b) ↔
                ¬ HasNode vfs basePath ((childName, child) :: nodes) name ∧
                  map.lookup name = some b := by
            rw [hnode, lookup_erase_eq]
            by_cases hname : name = childName
            · simp [hname]
            · simp [hname]
          refine ⟨fun name hn => ?_, ?_, fun e => ?_, fun name new => ?_, fun name old => ?_⟩
          · rcases (hnode name).mp hn with rfl | hn
            · exact AList.lookup_isSome.mp (hnew ▸ rfl)
            · exact (AList.mem_erase.mp (hm.present name hn)).2
          · refine List.pairwise_cons.mpr ⟨fun e he heq => ?_, hm.apart⟩
            obtain ⟨name, hmem, hnames, hs, -⟩ := (hm.entries e).mp he
            have hname : childName = name := by
              have hlast := heq.trans hnames
              simpa using hlast
            exact hself ⟨_, hname ▸ hmem, hs⟩
          · rw [List.mem_cons, hm.entries]
            constructor
            · rintro (rfl | ⟨name, hmem, hnames, hs, hn, ho⟩)
              · exact ⟨childName, List.mem_cons_self, rfl, hskip, hnew, hold⟩
              · rw [lookup_erase_eq] at hn ho
                split_ifs at hn ho
                exact ⟨name, List.mem_cons_of_mem _ hmem, hnames, hs, hn, ho⟩
            · rintro ⟨name, hmem, hnames, hs, hn, ho⟩
              rcases List.mem_cons.mp hmem with heq | hlater
              · obtain ⟨rfl, hchild⟩ := Prod.mk.inj heq
                left
                rw [hnew, Option.some.injEq] at hn
                rw [hold, Option.some.injEq] at ho
                obtain ⟨eNames, eNode, eOld, eNew⟩ := e
                dsimp only at hnames hchild hn ho
                rw [hnames, hchild, hn, ho]
              · have hne : name ≠ childName := by
                  rintro rfl
                  exact hself ⟨_, hlater, hs⟩
                refine .inr ⟨name, hlater, hnames, hs, ?_, ?_⟩ <;>
                  rwa [lookup_erase_eq, if_neg hne]
          · rw [hm.newLeft, hleft]
          · rw [hm.oldLeft, hleft]

end Nodes

section Added

variable [Environment] {vfs : Vfs} {syncRules : List SyncRule} {snapshot : SyncbackSnapshot D}
  {refToPathMap : Map Ref PathBuf} {newChildren : List (String × Instance)}
  {oldMap oldMap' : Map String InstanceWithMeta} {added : List (SyncbackSnapshot D)}
  {parentPath : PathBuf}

/-- Without a path nothing is added, and the old children stay in the map. -/
theorem addChildren_of_none
    (hparent : ∀ c ∈ newChildren, refToPathMap.lookup c.2.parent = none)
    (h : addChildren vfs syncRules snapshot refToPathMap newChildren oldMap =
      .ok (added, oldMap')) : added = [] ∧ oldMap' = oldMap := by
  induction newChildren with
  | nil =>
    cases h
    exact ⟨rfl, rfl⟩
  | cons c newChildren ih =>
    obtain ⟨name, newChild⟩ := c
    unfold addChildren at h
    rw [hparent _ List.mem_cons_self] at h
    exact ih (fun c hc => hparent c (List.mem_cons_of_mem _ hc)) h

/-- A new child that is not in the old tree is written beside the path, if the path is not that of
a project. -/
def IsWritten (vfs : Vfs) (syncRules : List SyncRule) (parentPath : PathBuf)
    (oldMap : Map String InstanceWithMeta) (c : String × Instance) : Prop :=
  c.1 ∉ oldMap ∧ middlewareForPath vfs syncRules parentPath ≠ .ok (some .project)

theorem addChildren_of_some
    (hparent : ∀ c ∈ newChildren, refToPathMap.lookup c.2.parent = some parentPath)
    (hnodup : (newChildren.map Prod.fst).Nodup)
    (h : addChildren vfs syncRules snapshot refToPathMap newChildren oldMap =
      .ok (added, oldMap')) :
    (∀ name old, oldMap'.lookup name = some old ↔
      name ∉ newChildren.map Prod.fst ∧ oldMap.lookup name = some old) ∧
    (∀ child ∈ added, ∃ c ∈ newChildren, IsWritten vfs syncRules parentPath oldMap c ∧
      snapshot.withBasePath parentPath c.2.referent none = .ok child) ∧
    ∀ c ∈ newChildren, IsWritten vfs syncRules parentPath oldMap c →
      ∃ child ∈ added, snapshot.withBasePath parentPath c.2.referent none = .ok child := by
  induction newChildren generalizing oldMap added with
  | nil =>
    cases h
    exact ⟨by simp, fun _ hc => absurd hc List.not_mem_nil, fun _ hc => absurd hc List.not_mem_nil⟩
  | cons c newChildren ih =>
    obtain ⟨name, newChild⟩ := c
    rw [List.map_cons, List.nodup_cons] at hnodup
    obtain ⟨hname, hnodup⟩ := hnodup
    have hparent' : ∀ c ∈ newChildren, refToPathMap.lookup c.2.parent = some parentPath :=
      fun c hc => hparent c (List.mem_cons_of_mem _ hc)
    have hold (name' : String) (old : InstanceWithMeta) (hgone : oldMap.lookup name = none) :
        (name' ∉ newChildren.map Prod.fst ∧ oldMap.lookup name' = some old) ↔
          name' ∉ ((name, newChild) :: newChildren).map Prod.fst ∧
            oldMap.lookup name' = some old := by
      rw [List.map_cons, List.mem_cons, not_or]
      constructor
      · rintro ⟨hmem, hl⟩
        refine ⟨⟨?_, hmem⟩, hl⟩
        rintro rfl
        rw [hgone] at hl
        cases hl
      · exact fun ⟨⟨_, hmem⟩, hl⟩ => ⟨hmem, hl⟩
    unfold addChildren at h
    rw [hparent _ List.mem_cons_self] at h
    dsimp only at h
    split_ifs at h with hmem
    · -- the child is in the old tree
      obtain ⟨hleft, hadded, hall⟩ := ih hparent' hnodup h
      have hwritten (c : String × Instance) (hc : c ∈ newChildren) :
          IsWritten vfs syncRules parentPath (oldMap.erase name) c ↔
            IsWritten vfs syncRules parentPath oldMap c := by
        have hne : c.1 ≠ name := fun heq => hname (List.mem_map.mpr ⟨c, hc, heq⟩)
        unfold IsWritten
        rw [AList.mem_erase]
        simp [hne]
      refine ⟨fun name' old => ?_, fun child hchild => ?_, fun c hc hw => ?_⟩
      · rw [hleft, lookup_erase_eq, List.map_cons, List.mem_cons]
        split_ifs with heq
        · simp [heq]
        · simp [heq]
      · obtain ⟨c, hc, hw, hpath⟩ := hadded child hchild
        exact ⟨c, List.mem_cons_of_mem _ hc, (hwritten c hc).mp hw, hpath⟩
      · rcases List.mem_cons.mp hc with rfl | hc
        · exact absurd hmem hw.1
        · exact hall c hc ((hwritten c hc).mpr hw)
    · have hgone : oldMap.lookup name = none := AList.lookup_eq_none.mpr hmem
      obtain ⟨middleware, hmiddleware, h⟩ := Except.bind_eq_ok.mp h
      obtain ⟨found, hfound, hsome⟩ := Except.bind_eq_ok.mp hmiddleware
      obtain rfl := Fallible.unwrap_eq_ok.mp hsome
      split_ifs at h with hproject
      · -- the path is that of a project
        subst hproject
        obtain ⟨hleft, hadded, hall⟩ := ih hparent' hnodup h
        refine ⟨fun name' old => (hleft name' old).trans (hold name' old hgone), ?_,
          fun c hc hw => absurd hfound hw.2⟩
        intro child hchild
        obtain ⟨c, hc, hw, hpath⟩ := hadded child hchild
        exact absurd hfound hw.2
      · obtain ⟨child, hchild, h⟩ := Except.bind_eq_ok.mp h
        obtain ⟨⟨rest, oldMap''⟩, hrest, h⟩ := Except.bind_eq_ok.mp h
        cases h
        obtain ⟨hleft, hadded, hall⟩ := ih hparent' hnodup hrest
        refine ⟨fun name' old => (hleft name' old).trans (hold name' old hgone), ?_, ?_⟩
        · intro child' hmem'
          rcases List.mem_cons.mp hmem' with rfl | hmem'
          · refine ⟨_, List.mem_cons_self, ⟨hmem, ?_⟩, hchild⟩
            rw [hfound]
            simpa using hproject
          · obtain ⟨c, hc, hw, hpath⟩ := hadded child' hmem'
            exact ⟨c, List.mem_cons_of_mem _ hc, hw, hpath⟩
        · intro c hc hw
          rcases List.mem_cons.mp hc with rfl | hc
          · exact ⟨child, List.mem_cons_self, hchild⟩
          · obtain ⟨child', hmem', hpath⟩ := hall c hc hw
            exact ⟨child', List.mem_cons_of_mem _ hmem', hpath⟩

end Added

/-! ## Where new children are written -/

/-- A path ends in the name that was joined to it. -/
theorem PathBuf.parent_joinStr_of_name (dir : PathBuf) {name : String} (h : IsName name) :
    (dir.joinStr name).parent = some dir := by
  have hkeep : [name].filter (fun component => component ≠ ".") = [name] := by
    rw [List.filter_singleton, decide_eq_true h.ne_dot]
    rfl
  unfold joinStr join
  rw [ofString_of_name h, if_neg Bool.false_ne_true]
  split_ifs with hempty
  · obtain ⟨absolute, components⟩ := dir
    obtain ⟨rfl, rfl⟩ : components = [] ∧ absolute = false := hempty
    rfl
  · unfold parent
    dsimp only
    rw [hkeep, if_neg (by simp), List.dropLast_concat]

section Placed

variable {vfs : Vfs} {snapshot child : SyncbackSnapshot D} {dir : PathBuf}
  {newRef : Ref} {inst : Instance}

theorem inDirectory_withBasePath (hinst : getByRef snapshot.data.newTree newRef = some inst)
    (h : snapshot.withBasePath dir newRef none = .ok child) :
    InDirectory vfs child.path ↔ PlacedIn vfs snapshot.data.debugModelFormat dir inst := by
  obtain ⟨middleware, inst', oldInst, name, rfl, hmiddleware, hinst', hold, hname⟩ :=
    SyncbackSnapshot.withJoinedPath_eq_ok h
  obtain rfl : inst = inst' := by
    unfold SyncbackSnapshot.newInst at hinst'
    exact Option.some.inj (hinst.symm.trans (Fallible.unwrap_eq_ok.mp hinst'))
  obtain rfl : none = oldInst := Except.ok.inj hold
  have hbest := SyncbackSnapshot.getBestMiddleware_new rfl hinst' hold hmiddleware
  dsimp only at hbest ⊢
  unfold PlacedIn
  rcases nameForInst_eq_ok hname with ⟨old, source, hnone, -⟩ | ⟨-, hdir, rfl⟩ |
    ⟨-, hfile, extension, hext, hvalid, rfl⟩
  · cases hnone
  · rw [← hbest, hdir, if_pos rfl]
  · rw [← hbest, hfile, if_neg Bool.false_ne_true]
    unfold InDirectory
    rw [parent_joinStr_of_name dir (isName_of_extension hext hvalid)]
    simp only [Option.some.injEq, exists_eq_left']

end Placed

/-! ## One node -/

section Node

variable [Environment] {vfs : Vfs} {snapshot : SyncbackSnapshot D} {syncRules : List SyncRule}
  {projectPath basePath path : PathBuf} {entry : NodeEntry} {entries : List NodeEntry}
  {node : ProjectNode} {state state' : ProjectState D}

/-- What has a middleware lies in a directory. -/
theorem inDirectory_of_middleware (hv : vfs.Nested) {middleware : Middleware}
    (h : middlewareForPath vfs syncRules path = .ok (some middleware)) : InDirectory vfs path := by
  unfold middlewareForPath at h
  obtain ⟨found, hfound, h⟩ := Except.bind_eq_ok.mp h
  cases found with
  | none => cases h
  | some metadata =>
    have hmetadata := withNotFound_eq_some.mp (Fallible.ofIo_eq_ok.mp hfound)
    cases hparent : path.parent with
    | some above => exact ⟨above, hparent, hv.parent hmetadata hparent⟩
    | none =>
      -- a directory without a name is refused
      have hname : path.fileName = none := by
        unfold parent at hparent
        split_ifs at hparent with hnil
        unfold fileName
        rw [hnil]
        rfl
      obtain rfl := hv.top hmetadata hparent
      obtain ⟨⟨_, _, _⟩, hdirs, -⟩ := Except.bind_eq_ok.mp h
      unfold getDirMiddleware at hdirs
      obtain ⟨dirName, hdirName, -⟩ := Except.bind_eq_ok.mp hdirs
      rw [hname] at hdirName
      cases hdirName

/-- What has been scheduled so far can be done. -/
structure WorkOk (vfs : Vfs) (state : ProjectState D) : Prop where
  removed : ∀ inst ∈ state.removedDescendants, inst.metadata.instigatingSource ≠ none
  children : ∀ child ∈ state.descendantSnapshots, InDirectory vfs child.path

variable [FloatCmp] [ReflectionDatabase] [ProjectWriter]

/-- What the loop does for the node itself. -/
structure NodeDone (vfs : Vfs) (basePath : PathBuf) (entry : NodeEntry) (node : ProjectNode)
    (state state' : ProjectState D) : Prop where
  nodes : node.children = entry.node.children
  workOk : WorkOk vfs state' ↔ WorkOk vfs state
  removed : state'.removedDescendants = state.removedDescendants
  paths : ∀ r, state'.refToPathMap.lookup r =
    if r = entry.newInst.referent ∧ entry.node.path.isSome then
      entry.node.path.map fun pathNode => basePath.join pathNode.path
    else state.refToPathMap.lookup r

theorem syncbackNode_eq_ok (hv : vfs.Nested)
    (h : syncbackNode vfs snapshot syncRules basePath entry state = .ok (node, state')) :
    NodeDone vfs basePath entry node state state' := by
  unfold syncbackNode at h
  cases hpath : entry.node.path with
  | none =>
    rw [hpath] at h
    obtain ⟨filtered, -, h⟩ := Except.bind_eq_ok.mp h
    cases h
    exact ⟨rfl, ⟨fun ⟨hr, hc⟩ => ⟨hr, hc⟩, fun ⟨hr, hc⟩ => ⟨hr, hc⟩⟩, rfl, by simp [hpath]⟩
  | some pathNode =>
    rw [hpath] at h
    obtain ⟨found, hfound, h⟩ := Except.bind_eq_ok.mp h
    cases found with
    | none => cases h
    | some middleware =>
      have hin := inDirectory_of_middleware hv hfound
      have hadded (tree : ProjectNode) (removedStale : Bool) (child : SyncbackSnapshot D)
          (hchild : child.path = basePath.join pathNode.path) :
          NodeDone vfs basePath entry entry.node state { state with
            tree := tree
            removedStaleProperties := removedStale
            descendantSnapshots := state.descendantSnapshots ++ [child]
            refToPathMap := state.refToPathMap.insert entry.newInst.referent
              (basePath.join pathNode.path) } := by
        refine ⟨rfl, ⟨fun ⟨hr, hc⟩ => ⟨hr, fun c hmem => hc c (List.mem_append_left _ hmem)⟩,
          fun ⟨hr, hc⟩ => ⟨hr, fun c hmem => ?_⟩⟩, rfl, fun r => ?_⟩
        · rcases List.mem_append.mp hmem with hmem | hmem
          · exact hc c hmem
          · rw [List.mem_singleton.mp hmem, hchild]
            exact hin
        · rw [lookup_insert_eq, hpath]
          simp
      dsimp only at h
      split_ifs at h
      · cases h
        exact hadded _ _ _ rfl
      · obtain ⟨filtered, -, h⟩ := Except.bind_eq_ok.mp h
        cases h
        exact ⟨rfl, (hadded _ _ _ rfl).workOk, rfl, (hadded _ _ _ rfl).paths⟩

/-- What one round of the loop does. -/
structure NodeRound (vfs : Vfs) (data : SyncbackData D) (syncRules : List SyncRule)
    (basePath : PathBuf) (entry : NodeEntry) (entries : List NodeEntry)
    (state state' : ProjectState D) : Prop where
  apart : entries.Pairwise fun a b => a.names ≠ b.names
  entries : ∀ e, e ∈ entries ↔ ChildEntry vfs data basePath entry e
  workOk : WorkOk vfs state' ↔ WorkOk vfs state ∧ NodeFits vfs data syncRules basePath entry
  paths : ∀ r, state'.refToPathMap.lookup r ≠ none →
    r = entry.newInst.referent ∨ state.refToPathMap.lookup r ≠ none

theorem processNode_eq_ok [LawfulWeakDom D] (hv : vfs.Nested)
    (hinst : getByRef snapshot.data.newTree entry.newInst.referent = some entry.newInst)
    (hpath : entry.node.path = none → state.refToPathMap.lookup entry.newInst.referent = none)
    (h : processNode vfs snapshot syncRules projectPath basePath entry state =
      .ok (entries, state')) :
    NodeRound vfs snapshot.data syncRules basePath entry entries state state' := by
  unfold processNode at h
  dsimp only at h
  split_ifs at h with hclass
  · cases h
  · obtain ⟨⟨node, s₁⟩, hnode, h⟩ := Except.bind_eq_ok.mp h
    obtain ⟨newMap, hnew, h⟩ := Except.bind_eq_ok.mp h
    obtain ⟨oldMap, hold, h⟩ := Except.bind_eq_ok.mp h
    obtain ⟨⟨matched, newMap', oldMap'⟩, hmatch, h⟩ := Except.bind_eq_ok.mp h
    obtain ⟨⟨added, oldMap''⟩, hadd, h⟩ := Except.bind_eq_ok.mp h
    cases h
    have hd := syncbackNode_eq_ok hv hnode
    have hm := matchNodes_eq_ok hmatch
    rw [hd.nodes] at hm
    have hnewChild (name : String) (new : Instance) : newMap.lookup name = some new ↔
        HasNewChild snapshot.data entry.newInst name new := by
      rw [childMap_lookup hnew, AList.lookup_empty]
      simp [HasNewChild, Fallible.unwrap_eq_ok]
    have holdChild (name : String) (old : InstanceWithMeta) : oldMap.lookup name = some old ↔
        HasOldChild snapshot.data entry.oldInst.inst name old := by
      rw [childMap_lookup hold, AList.lookup_empty]
      simp [HasOldChild, Except.bind_eq_ok, Fallible.unwrap_eq_ok]
    have hlaw (c : String × Instance) (hc : c ∈ toList newMap') :
        c.2.parent = entry.newInst.referent ∧
          getByRef snapshot.data.newTree c.2.referent = some c.2 := by
      obtain ⟨-, hl⟩ := (hm.newLeft c.1 c.2).mp (mem_toList.mp hc)
      obtain ⟨childRef, hmem, hget, -⟩ := (hnewChild c.1 c.2).mp hl
      have hkid : childRef ∈ kids snapshot.data.newTree entry.newInst.referent := by
        rw [kids_eq hinst]
        exact hmem
      obtain ⟨i, hi, hparent⟩ := LawfulWeakDom.child_present snapshot.data.newTree hkid
      obtain rfl := Option.some.inj (hget.symm.trans hi)
      rw [LawfulWeakDom.referent_eq snapshot.data.newTree hi]
      exact ⟨hparent, hi⟩
    have hentries (e : NodeEntry) : e ∈ matched ↔ ChildEntry vfs snapshot.data basePath entry e := by
      rw [hm.entries]
      simp only [hnewChild, holdChild]
      rfl
    have hpaths (r : Ref) (hr : s₁.refToPathMap.lookup r ≠ none) :
        r = entry.newInst.referent ∨ state.refToPathMap.lookup r ≠ none := by
      rw [hd.paths] at hr
      split_ifs at hr with hself
      · exact .inl hself.1
      · exact .inr hr
    refine ⟨hm.apart, hentries, ?_, hpaths⟩
    have hsplit : WorkOk vfs { s₁ with
          descendantSnapshots := s₁.descendantSnapshots ++ added
          removedDescendants := s₁.removedDescendants ++ (toList oldMap'').map Prod.snd
          nodeChangedMap := s₁.nodeChangedMap ++ [(node, entry.oldInst)] } ↔
        WorkOk vfs s₁ ∧
          (∀ name old, oldMap''.lookup name = some old → old.metadata.instigatingSource ≠ none) ∧
          ∀ child ∈ added, InDirectory vfs child.path := by
      constructor
      · rintro ⟨hr, hc⟩
        refine ⟨⟨fun i hi => hr i (List.mem_append_left _ hi),
          fun c hmem => hc c (List.mem_append_left _ hmem)⟩, fun name old hl => ?_,
          fun c hmem => hc c (List.mem_append_right _ hmem)⟩
        exact hr old (List.mem_append_right _
          (List.mem_map.mpr ⟨(name, old), mem_toList.mpr hl, rfl⟩))
      · rintro ⟨⟨hr, hc⟩, hleft, hadded⟩
        refine ⟨fun i hi => ?_, fun c hmem => ?_⟩
        · rcases List.mem_append.mp hi with hi | hi
          · exact hr i hi
          · obtain ⟨⟨name, old⟩, hl, rfl⟩ := List.mem_map.mp hi
            exact hleft name old (mem_toList.mp hl)
        · exact (List.mem_append.mp hmem).elim (hc c) (hadded c)
    rw [hsplit, hd.workOk, and_congr_right_iff]
    intro _
    cases hnodePath : entry.node.path with
    | none =>
      have hnone : ∀ c ∈ toList newMap', s₁.refToPathMap.lookup c.2.parent = none := by
        intro c hc
        rw [(hlaw c hc).1, hd.paths, hnodePath, if_neg (fun h => nomatch h.2)]
        exact hpath hnodePath
      obtain ⟨rfl, rfl⟩ := addChildren_of_none hnone hadd
      constructor
      · rintro ⟨hleft, -⟩
        refine ⟨fun name old ho hn _ => hleft name old ?_, fun pathNode name new hp => ?_⟩
        · exact (hm.oldLeft name old).mpr ⟨hn, (holdChild name old).mpr ho⟩
        · rw [hnodePath] at hp
          cases hp
      · intro hfits
        refine ⟨fun name old hl => ?_, fun _ hc => absurd hc List.not_mem_nil⟩
        obtain ⟨hn, ho⟩ := (hm.oldLeft name old).mp hl
        refine hfits.removed name old ((holdChild name old).mp ho) hn fun hsome => ?_
        rw [hnodePath] at hsome
        cases hsome
    | some pathNode =>
      have hsome : ∀ c ∈ toList newMap',
          s₁.refToPathMap.lookup c.2.parent = some (basePath.join pathNode.path) := by
        intro c hc
        rw [(hlaw c hc).1, hd.paths, hnodePath, if_pos ⟨rfl, rfl⟩]
        rfl
      obtain ⟨hleft, hadded, hall⟩ :=
        addChildren_of_some hsome (nodup_keys_toList newMap') hadd
      have hgone (name : String) : name ∈ (toList newMap').map Prod.fst ↔
          ¬ HasNode vfs basePath entry.node.children name ∧
            ∃ new, HasNewChild snapshot.data entry.newInst name new := by
        simp only [List.mem_map, Prod.exists, exists_and_right, exists_eq_right, mem_toList,
          hm.newLeft, hnewChild, exists_and_left]
      have hnotOld (name : String) (hn : ¬ HasNode vfs basePath entry.node.children name) :
          name ∉ oldMap' ↔ ∀ old, ¬ HasOldChild snapshot.data entry.oldInst.inst name old := by
        rw [← AList.lookup_eq_none, Option.eq_none_iff_forall_ne_some]
        simp only [ne_eq, hm.oldLeft, holdChild, hn, not_false_eq_true, true_and]
      constructor
      · rintro ⟨hsourced, hplaced⟩
        refine ⟨fun name old ho hn hnew => hsourced name old ?_,
          fun pathNode' name new hp hc hn ho hproject => ?_⟩
        · rw [hleft, hgone, hm.oldLeft, holdChild]
          refine ⟨?_, hn, ho⟩
          rintro ⟨-, new, hc⟩
          exact hnew (by rw [hnodePath]; rfl) new hc
        · obtain rfl := Option.some.inj (hnodePath.symm.trans hp)
          have hmem : (name, new) ∈ toList newMap' :=
            mem_toList.mpr ((hm.newLeft name new).mpr ⟨hn, (hnewChild name new).mpr hc⟩)
          obtain ⟨child, hchild, hpath⟩ := hall _ hmem ⟨(hnotOld name hn).mpr ho, hproject⟩
          exact (inDirectory_withBasePath (hlaw _ hmem).2 hpath).mp (hplaced child hchild)
      · intro hfits
        refine ⟨fun name old hl => ?_, fun child hchild => ?_⟩
        · rw [hleft, hgone, hm.oldLeft, holdChild] at hl
          obtain ⟨hnew, hn, ho⟩ := hl
          exact hfits.removed name old ho hn fun _ new hc => hnew ⟨hn, new, hc⟩
        · obtain ⟨⟨name, new⟩, hmem, ⟨hold', hproject⟩, hpath⟩ := hadded child hchild
          obtain ⟨hn, hc⟩ := (hm.newLeft name new).mp (mem_toList.mp hmem)
          refine (inDirectory_withBasePath (hlaw _ hmem).2 hpath).mpr ?_
          exact hfits.added pathNode name new hnodePath ((hnewChild name new).mp hc) hn
            ((hnotOld name hn).mp hold') hproject

omit [FloatCmp] [ReflectionDatabase] [ProjectWriter] in
theorem inDirectory_of_project (hv : vfs.Nested) {project : Project}
    (h : Project.loadExact vfs path none = .ok project)
    (hbase : project.folderLocation = .ok basePath) : InDirectory vfs path := by
  unfold Project.loadExact at h
  obtain ⟨contents, hread, h⟩ := Except.bind_eq_ok.mp h
  obtain ⟨parsed, -, h⟩ := Except.bind_eq_ok.mp h
  have hlocation : project.fileLocation = path := by
    dsimp only at h
    split at h
    · cases h
      rfl
    · obtain ⟨name, -, h⟩ := Except.bind_eq_ok.mp h
      cases h
      rfl
  unfold Project.folderLocation at hbase
  rw [hlocation] at hbase
  have hfile : vfs.read path = .ok contents := by
    unfold Project.readFile at hread
    split at hread
    · cases hread
      assumption
    · split_ifs at hread
      · cases hread
      · cases hread
  exact ⟨basePath, Fallible.unwrap_eq_ok.mp hbase,
    hv.parent (hv.file hfile) (Fallible.unwrap_eq_ok.mp hbase)⟩

/-! ## The loop -/

theorem nodeLoop_workOk [LawfulWeakDom D] (hv : vfs.Nested) {n : ℕ} {queue : List NodeEntry}
    {final : ProjectState D}
    (hinst : ∀ e ∈ queue,
      getByRef snapshot.data.newTree e.newInst.referent = some e.newInst)
    (hapart : queue.Pairwise fun a b => ∀ x,
      Desc (kids snapshot.data.newTree) a.newInst.referent x →
        ¬ Desc (kids snapshot.data.newTree) b.newInst.referent x)
    (hpaths : ∀ e ∈ queue, ∀ r, state.refToPathMap.lookup r ≠ none →
      ¬ Desc (kids snapshot.data.newTree) e.newInst.referent r)
    (h : nodeLoop vfs snapshot syncRules projectPath basePath n queue state = .ok final) :
    WorkOk vfs final ↔ WorkOk vfs state ∧ ∀ e ∈ queue, ∀ e',
      Visits vfs snapshot.data basePath e e' →
        NodeFits vfs snapshot.data syncRules basePath e' := by
  induction n generalizing queue state with
  | zero =>
    cases queue with
    | nil =>
      cases h
      simp
    | cons entry queue => cases h
  | succ n ih =>
    cases queue with
    | nil =>
      cases h
      simp
    | cons entry queue =>
      unfold nodeLoop at h
      obtain ⟨⟨entries, state'⟩, hround, h⟩ := Except.bind_eq_ok.mp h
      obtain ⟨hqueueApart, hqueue⟩ := List.pairwise_cons.mp hapart
      have hentry := hinst entry List.mem_cons_self
      have hr := processNode_eq_ok hv hentry (fun _ => by
        by_contra hne
        exact hpaths entry List.mem_cons_self _ hne .refl) hround
      have hforest := LawfulWeakDom.forest snapshot.data.newTree
      -- the entries of the child nodes are about children of the instance
      have hchild (e : NodeEntry) (he : e ∈ entries) :
          getByRef snapshot.data.newTree e.newInst.referent = some e.newInst ∧
            e.newInst.referent ∈ kids snapshot.data.newTree entry.newInst.referent := by
        obtain ⟨name, -, -, -, ⟨childRef, hmem, hget, -⟩, -⟩ := (hr.entries e).mp he
        rw [LawfulWeakDom.referent_eq snapshot.data.newTree hget, kids_eq hentry]
        exact ⟨hget, hmem⟩
      have hbelow (e : NodeEntry) (he : e ∈ entries) {x : Ref}
          (hd : Desc (kids snapshot.data.newTree) e.newInst.referent x) :
          Desc (kids snapshot.data.newTree) entry.newInst.referent x :=
        (Desc.of_mem (hchild e he).2).trans hd
      have hsiblings : entries.Pairwise fun a b => ∀ x,
          Desc (kids snapshot.data.newTree) a.newInst.referent x →
            ¬ Desc (kids snapshot.data.newTree) b.newInst.referent x := by
        refine List.Pairwise.imp_of_mem ?_ hr.apart
        intro a b ha hb hne x hax hbx
        have hsame := hforest.eq_of_common_desc (hchild a ha).2 (hchild b hb).2 hax hbx
        have hnewInst : a.newInst = b.newInst := by
          have hget := (hchild a ha).1
          rw [hsame, (hchild b hb).1] at hget
          exact (Option.some.inj hget).symm
        obtain ⟨name, -, hnames, -, ⟨_, -, -, hname⟩, -⟩ := (hr.entries a).mp ha
        obtain ⟨name', -, hnames', -, ⟨_, -, -, hname'⟩, -⟩ := (hr.entries b).mp hb
        refine hne ?_
        rw [hnames, hnames', ← hname, ← hname', hnewInst]
      have hinst' : ∀ e ∈ queue ++ entries,
          getByRef snapshot.data.newTree e.newInst.referent = some e.newInst := by
        intro e he
        rcases List.mem_append.mp he with he | he
        · exact hinst e (List.mem_cons_of_mem _ he)
        · exact (hchild e he).1
      have hapart' : (queue ++ entries).Pairwise fun a b => ∀ x,
          Desc (kids snapshot.data.newTree) a.newInst.referent x →
            ¬ Desc (kids snapshot.data.newTree) b.newInst.referent x := by
        refine List.pairwise_append.mpr ⟨hqueue, hsiblings, fun a ha b hb x hax hbx => ?_⟩
        exact hqueueApart a ha x (hbelow b hb hbx) hax
      have hpaths' : ∀ e ∈ queue ++ entries, ∀ r, state'.refToPathMap.lookup r ≠ none →
          ¬ Desc (kids snapshot.data.newTree) e.newInst.referent r := by
        intro e he r hr' hd
        rcases List.mem_append.mp he with he | he
        · rcases hr.paths r hr' with rfl | hold
          · exact hqueueApart e he _ .refl hd
          · exact hpaths e (List.mem_cons_of_mem _ he) r hold hd
        · rcases hr.paths r hr' with rfl | hold
          · exact hforest.not_desc_of_mem (hchild e he).2 hd
          · exact hpaths entry List.mem_cons_self r hold (hbelow e he hd)
      rw [ih hinst' hapart' hpaths' h, hr.workOk, and_assoc, and_congr_right_iff]
      intro _
      constructor
      · rintro ⟨hself, hall⟩ e he e' hvisit
        rcases List.mem_cons.mp he with rfl | he
        · rcases Relation.ReflTransGen.cases_head hvisit with rfl | ⟨c, hc, hvisit⟩
          · exact hself
          · exact hall c (List.mem_append_right _ ((hr.entries c).mpr hc)) e' hvisit
        · exact hall e (List.mem_append_left _ he) e' hvisit
      · intro hall
        refine ⟨hall entry List.mem_cons_self entry .refl, fun e he e' hvisit => ?_⟩
        rcases List.mem_append.mp he with he | he
        · exact hall e (List.mem_cons_of_mem _ he) e' hvisit
        · exact hall entry List.mem_cons_self e' (.head ((hr.entries e).mp he) hvisit)

/-- **Everything that a project schedules can be done exactly if every node that is walked fits.** -/
theorem possibleWork_iff [LawfulWeakDom D] (hv : vfs.Nested) {ret : SyncbackReturn D}
    (h : syncbackProject vfs snapshot = .ok ret) :
    PossibleWork vfs ret ↔ EveryNodeFits vfs snapshot := by
  unfold syncbackProject at h
  obtain ⟨oldInst, hold, h⟩ := Except.bind_eq_ok.mp h
  obtain ⟨found, hfound, hsome⟩ := Except.bind_eq_ok.mp hold
  obtain rfl := Fallible.unwrap_eq_ok.mp hsome
  obtain ⟨projectPath, hpath, h⟩ := Except.bind_eq_ok.mp h
  obtain ⟨project, hproject, h⟩ := Except.bind_eq_ok.mp h
  obtain ⟨basePath, hbase, h⟩ := Except.bind_eq_ok.mp h
  obtain ⟨newInst, hnew, h⟩ := Except.bind_eq_ok.mp h
  obtain ⟨state, hloop, h⟩ := Except.bind_eq_ok.mp h
  obtain ⟨reserialize, -, h⟩ := Except.bind_eq_ok.mp h
  obtain ⟨addedFiles, hfiles, h⟩ := Except.bind_eq_ok.mp h
  cases h
  have hget := Fallible.unwrap_eq_ok.mp hnew
  have hreferent := LawfulWeakDom.referent_eq snapshot.data.newTree hget
  have hwork := nodeLoop_workOk hv (fun e he => by
    rw [List.mem_singleton.mp he]
    dsimp only
    rw [hreferent]
    exact hget) (List.pairwise_singleton _ _)
    (fun _ _ r hr => absurd (AList.lookup_empty r) hr) hloop
  have hin : ∀ path ∈ addedFiles, InDirectory vfs path := by
    intro path hmem
    unfold projectFiles at hfiles
    split_ifs at hfiles
    · obtain ⟨contents, -, hfiles⟩ := Except.bind_eq_ok.mp hfiles
      cases hfiles
      rcases (AList.mem_insert _).mp hmem with rfl | hempty
      · exact inDirectory_of_project hv hproject hbase
      · exact absurd hempty (AList.notMem_empty path)
    · cases hfiles
      exact absurd hmem (AList.notMem_empty path)
  have hiff : PossibleWork vfs ⟨{ addedFiles := addedFiles }, state.descendantSnapshots,
      state.removedDescendants⟩ ↔ WorkOk vfs state := by
    have hafter (path : PathBuf) :
        InDirectoryAfter vfs { addedFiles := addedFiles } path ↔ InDirectory vfs path := by
      unfold InDirectoryAfter
      simp
    constructor
    · rintro ⟨hr, hc, -⟩
      exact ⟨hr, fun child hchild => (hafter _).mp (hc child hchild)⟩
    · rintro ⟨hr, hc⟩
      exact ⟨hr, fun child hchild => (hafter _).mpr (hc child hchild),
        fun path hmem => (hafter _).mpr (hin path hmem)⟩
  rw [hiff, hwork]
  constructor
  · rintro ⟨-, hall⟩ oldInst' newInst' projectPath' project' basePath' hold' hnew' hpath' hproject'
      hbase' entry hvisit
    obtain rfl := Option.some.inj (Except.ok.inj (hfound.symm.trans hold'))
    obtain rfl := Except.ok.inj (hnew.symm.trans hnew')
    obtain rfl := Option.some.inj ((Fallible.unwrap_eq_ok.mp hpath).symm.trans hpath')
    obtain rfl := Except.ok.inj (hproject.symm.trans hproject')
    obtain rfl := Except.ok.inj (hbase.symm.trans hbase')
    exact hall _ List.mem_cons_self entry hvisit
  · intro hall
    refine ⟨⟨fun _ hi => absurd hi List.not_mem_nil, fun _ hc => absurd hc List.not_mem_nil⟩,
      fun e he entry hvisit => ?_⟩
    rw [List.mem_singleton.mp he] at hvisit
    exact hall oldInst newInst projectPath project basePath hfound hnew
      (Fallible.unwrap_eq_ok.mp hpath) hproject hbase entry hvisit

end Node

/-! ## A project for a model file and one for a directory -/

/-- Values are written as they are. -/
@[reducible] def ProjectWriter.verbatim : ProjectWriter where
  fromVariant value _ _ := .fullyQualified value
  fromVariantUnambiguous := .fullyQualified
  toVecPretty _ := .error "not serializable"

def modelText : String := "\x7b\"tree\":\x7b\"$path\":\"model.rbxm\"\x7d\x7d"

def srcText : String := "\x7b\"tree\":\x7b\"$path\":\"src\"\x7d\x7d"

/-- Every model file has a folder with a part. -/
@[reducible] def Environment.ofModel : Environment :=
  { Environment.ofProjects
      [(modelText, .ofTree (pathNode (.required ⟨false, ["model.rbxm"]⟩))),
        (srcText, .ofTree (pathNode (.required ⟨false, ["src"]⟩)))] with
    rbxm := fun _ => .ok
      [⟨Ref.none, "model", "Folder", ∅, [⟨Ref.none, "Part", "Part", ∅, []⟩]⟩] }

def modelDisk : Disk where
  entries :=
    [(["proj"], none), (["proj", "default.project.json"], some modelText.toUTF8.data.toList),
      (["proj", "model.rbxm"], some [])]
  named := by decide

def srcDisk : Disk where
  entries :=
    [(["proj"], none), (["proj", "default.project.json"], some srcText.toUTF8.data.toList),
      (["proj", "src"], none), (["proj", "src", "gone"], none)]
  named := by decide

/-- A place with a folder that has the given folders as children. -/
def placeWith (names : List String) : MapDom :=
  let dom : MapDom := WeakDom.new ((InstanceBuilder.new "Folder").withName "proj")
  names.foldl (fun dom name =>
    ((WeakDom.insert dom (rootRef dom) ((InstanceBuilder.new "Folder").withName name)).map
      Prod.snd).getD dom) dom

/-- Syncback of a place to the project on a disk, from the tree that is built of the disk. -/
def projectSnapshot [Environment] (disk : Disk) (place : MapDom) :
    Option (SyncbackSnapshot MapDom) := do
  let S ← (snapshotFromVfs disk.vfs 4 {} ⟨true, ["proj"]⟩).toOption.join
  let tree : RojoTree MapDom ← RojoTree.new S
  some
    { data := ⟨tree, place, none, none⟩
      old := some tree.getRootId
      new := rootRef place
      path := ⟨true, ["proj", "default.project.json"]⟩
      middleware := some .project }

/-- What is scheduled: the paths of the children, whether what is removed has a source, and the
files. -/
def scheduled [Environment] [FloatCmp] [ReflectionDatabase] [ProjectWriter] (disk : Disk)
    (place : MapDom) : Option (List PathBuf × List Bool × List PathBuf) := do
  let snapshot ← projectSnapshot disk place
  let ret ← (syncbackProject disk.vfs snapshot).toOption
  some (ret.children.map fun child => child.path,
    ret.removedChildren.map fun inst => inst.metadata.instigatingSource.isSome,
    ret.fsSnapshot.addedFiles.keys)

theorem scheduled_eq_some [Environment] [FloatCmp] [ReflectionDatabase] [ProjectWriter]
    {disk : Disk} {place : MapDom} {paths files : List PathBuf} {sourced : List Bool}
    (h : scheduled disk place = some (paths, sourced, files)) :
    ∃ snapshot ret, projectSnapshot disk place = some snapshot ∧
      syncbackProject disk.vfs snapshot = .ok ret ∧
      (∀ child ∈ ret.children, child.path ∈ paths) ∧
      ret.removedChildren.map (fun inst => inst.metadata.instigatingSource.isSome) = sourced ∧
      ret.fsSnapshot.addedFiles.keys = files := by
  unfold scheduled at h
  obtain ⟨snapshot, hsnapshot, h⟩ := Option.bind_eq_some_iff.mp h
  obtain ⟨ret, hret, h⟩ := Option.bind_eq_some_iff.mp h
  simp only [Option.some.injEq, Prod.mk.injEq] at h
  obtain ⟨rfl, hsourced, hfiles⟩ := h
  refine ⟨snapshot, ret, hsnapshot, ?_, fun child hc => List.mem_map_of_mem hc, hsourced, hfiles⟩
  cases hok : syncbackProject disk.vfs snapshot with
  | error e =>
    rw [hok] at hret
    cases hret
  | ok r =>
    rw [hok] at hret
    rw [Option.some.inj hret]

/-- One folder of a source directory is gone and another one is new. -/
theorem possibleWork_src : letI := Environment.ofModel; letI := FloatCmp.exact
    letI := ReflectionDatabase.empty; letI := ProjectWriter.verbatim
    ∃ snapshot ret, projectSnapshot srcDisk (placeWith ["lib"]) = some snapshot ∧
      syncbackProject srcDisk.vfs snapshot = .ok ret ∧ PossibleWork srcDisk.vfs ret ∧
      EveryNodeFits srcDisk.vfs snapshot := by
  let _ := Environment.ofModel
  let _ := FloatCmp.exact
  let _ := ReflectionDatabase.empty
  let _ := ProjectWriter.verbatim
  have hscheduled : scheduled srcDisk (placeWith ["lib"]) =
      some ([⟨true, ["proj", "src"]⟩, ⟨true, ["proj", "src", "lib"]⟩], [true], []) := by
    decide +kernel
  obtain ⟨snapshot, ret, hsnapshot, hret, hpaths, hsourced, hfiles⟩ :=
    scheduled_eq_some hscheduled
  have hwork : PossibleWork srcDisk.vfs ret := by
    refine ⟨fun inst hi hnone => ?_, fun child hc => .inl ?_, fun path hmem => ?_⟩
    · have hmem := List.mem_map_of_mem (f := fun inst : InstanceWithMeta =>
        inst.metadata.instigatingSource.isSome) hi
      rw [hsourced, hnone] at hmem
      exact absurd hmem (by decide)
    · rcases List.mem_cons.mp (hpaths child hc) with hpath | hpath
      · rw [hpath]
        exact ⟨⟨true, ["proj"]⟩, rfl, by decide +kernel⟩
      · rw [List.mem_singleton.mp hpath]
        exact ⟨⟨true, ["proj", "src"]⟩, rfl, by decide +kernel⟩
    · have hkeys : path ∈ ret.fsSnapshot.addedFiles.keys := hmem
      rw [hfiles] at hkeys
      cases hkeys
  exact ⟨snapshot, ret, hsnapshot, hret, hwork, (possibleWork_iff srcDisk.nested hret).mp hwork⟩

/-- The part of a model file is gone: it is to be removed, and has no source. -/
theorem not_possibleWork_model : letI := Environment.ofModel; letI := FloatCmp.exact
    letI := ReflectionDatabase.empty; letI := ProjectWriter.verbatim
    ¬ ∀ (disk : Disk) (place : MapDom) (snapshot : SyncbackSnapshot MapDom)
      (ret : SyncbackReturn MapDom), projectSnapshot disk place = some snapshot →
        syncbackProject disk.vfs snapshot = .ok ret → PossibleWork disk.vfs ret := by
  let _ := Environment.ofModel
  let _ := FloatCmp.exact
  let _ := ReflectionDatabase.empty
  let _ := ProjectWriter.verbatim
  intro hall
  have hscheduled : scheduled modelDisk (placeWith []) =
      some ([⟨true, ["proj", "model.rbxm"]⟩], [false], []) := by decide +kernel
  obtain ⟨snapshot, ret, hsnapshot, hret, -, hsourced, -⟩ := scheduled_eq_some hscheduled
  obtain ⟨inst, hinst, hnone⟩ := List.map_eq_singleton_iff.mp hsourced
  have hwork := hall modelDisk (placeWith []) snapshot ret hsnapshot hret
  refine hwork.removed inst (hinst ▸ List.mem_singleton_self inst) ?_
  rwa [← Option.not_isSome_iff_eq_none, Bool.not_eq_true]

end Roxo
