import Roxo.Library.Transition
import Roxo.Syncback.Descendants
import Roxo.Syncback.Dir

/-!
# The loop of syncback

`syncback_loop` takes snapshots from a stack. One whose instance is in an ignored tree is skipped,
and what the middleware of the others gives is merged; removed children are skipped likewise. What
the middleware does, the hashes, the ignored paths and the kinds of the paths on the disk are
parameters here.
-/

namespace Roxo

open AssocMap Forest WeakDom

/-! ## Instance paths -/

section InstPath

variable {D : Type} [WeakDom D]

/-- An instance, its parent, the parent of that and so on, with the fuel of the loop. -/
def instancesUp (dom : D) : ℕ → Ref → List Instance
  | 0, _ => []
  | n + 1, referent =>
    match getByRef dom referent with
    | some inst => inst :: instancesUp dom n inst.parent
    | none => []

/-- The names from below the root down to an instance. -/
def namesBelowRoot [FiniteWeakDom D] (dom : D) (referent : Ref) : List String :=
  ((instancesUp dom (domFuel dom) referent).map (·.name)).dropLast.reverse

/-- A path to an instance, where it is in Roblox Studio. The name of the root is left out. -/
def instPath [FiniteWeakDom D] (dom : D) (referent : Ref) : String :=
  "/".intercalate (namesBelowRoot dom referent)

variable {dom : D} {referent : Ref} {inst : Instance} {n : ℕ}

theorem instancesUp_some (h : getByRef dom referent = some inst) :
    instancesUp dom (n + 1) referent = inst :: instancesUp dom n inst.parent := by
  rw [instancesUp, h]

theorem instancesUp_none (h : getByRef dom referent = none) : instancesUp dom n referent = [] := by
  cases n with
  | zero => rfl
  | succ n => rw [instancesUp, h]

/-- A walk that ends before its fuel does is the same with more of it. -/
theorem instancesUp_succ (h : (instancesUp dom n referent).length < n) :
    instancesUp dom (n + 1) referent = instancesUp dom n referent := by
  induction n generalizing referent with
  | zero => cases h
  | succ n ih =>
    cases hget : getByRef dom referent with
    | none => rw [instancesUp_none hget, instancesUp_none hget]
    | some inst =>
      rw [instancesUp_some hget] at h ⊢
      rw [instancesUp_some hget, ih (Nat.lt_of_succ_lt_succ h)]

variable [LawfulWeakDom D]

/-- Every instance of the walk is in the DOM, and it is above all before it. -/
theorem instancesUp_above {depth : Ref → ℕ}
    (hdepth : ∀ a b, b ∈ kids dom a → depth a < depth b) (n : ℕ) (referent : Ref) :
    (∀ i ∈ instancesUp dom n referent, getByRef dom i.referent = some i ∧
        depth i.referent ≤ depth referent) ∧
      (instancesUp dom n referent).Pairwise fun i j => depth j.referent < depth i.referent := by
  induction n generalizing referent with
  | zero => exact ⟨nofun, .nil⟩
  | succ n ih =>
    cases hget : getByRef dom referent with
    | none =>
      rw [instancesUp_none hget]
      exact ⟨nofun, .nil⟩
    | some inst =>
      obtain ⟨hmem, hpairwise⟩ := @ih inst.parent
      have href : inst.referent = referent := LawfulWeakDom.referent_eq dom hget
      have hbelow : ∀ i ∈ instancesUp dom n inst.parent, depth i.referent < depth referent := by
        intro i hi
        have hparent : inst.parent ≠ Ref.none := by
          intro hnone
          have hnil : instancesUp dom n inst.parent = [] :=
            instancesUp_none (by rw [hnone]; exact LawfulWeakDom.getByRef_null dom)
          rw [hnil] at hi
          cases hi
        have := hdepth _ _ (LawfulWeakDom.mem_kids_of_parent dom hget hparent)
        have := (hmem i hi).2
        omega
      rw [instancesUp_some hget]
      refine ⟨fun i hi => ?_, List.pairwise_cons.mpr ⟨fun i hi => ?_, hpairwise⟩⟩
      · rcases List.mem_cons.mp hi with rfl | hi
        · rw [href]
          exact ⟨hget, Nat.le_refl _⟩
        · exact ⟨(hmem i hi).1, Nat.le_of_lt (hbelow i hi)⟩
      · rw [href]
        exact hbelow i hi

variable [FiniteWeakDom D]

theorem length_instancesUp :
    (instancesUp dom n referent).length < domFuel dom := by
  obtain ⟨depth, hdepth⟩ := (LawfulWeakDom.forest dom).acyclic
  obtain ⟨hmem, hpairwise⟩ := instancesUp_above hdepth n referent
  have hnodup : ((instancesUp dom n referent).map (·.referent)).Nodup := by
    refine List.pairwise_map.mpr (hpairwise.imp fun {i j} hlt heq => ?_)
    rw [heq] at hlt
    exact absurd hlt (Nat.lt_irrefl _)
  have hsub : (instancesUp dom n referent).map (·.referent) ⊆ FiniteWeakDom.refs dom := by
    intro r hr
    obtain ⟨i, hi, rfl⟩ := List.mem_map.mp hr
    exact FiniteWeakDom.mem_refs dom (hmem i hi).1
  have hlength := (List.subperm_of_subset hnodup hsub).length_le
  rw [List.length_map] at hlength
  exact Nat.lt_succ_of_le hlength

/-- The fuel is enough to get above an instance from its parent. -/
theorem instancesUp_domFuel (h : getByRef dom referent = some inst) :
    instancesUp dom (domFuel dom) referent =
      inst :: instancesUp dom (domFuel dom) inst.parent := by
  have hlength := @length_instancesUp _ _ dom referent (domFuel dom) _ _
  unfold domFuel at hlength ⊢
  rw [instancesUp_some h, List.length_cons] at hlength
  rw [instancesUp_some h, instancesUp_succ (Nat.lt_of_succ_lt_succ hlength)]

theorem namesBelowRoot_top (h : getByRef dom referent = some inst)
    (hp : getByRef dom inst.parent = none) : namesBelowRoot dom referent = [] := by
  rw [namesBelowRoot, instancesUp_domFuel h, instancesUp_none hp]
  rfl

/-- An instance comes after the instances above it. -/
theorem namesBelowRoot_below {parent : Instance} (h : getByRef dom referent = some inst)
    (hp : getByRef dom inst.parent = some parent) :
    namesBelowRoot dom referent = namesBelowRoot dom inst.parent ++ [inst.name] := by
  have hne : instancesUp dom (domFuel dom) inst.parent ≠ [] := by
    rw [instancesUp_domFuel hp]
    nofun
  rw [namesBelowRoot, namesBelowRoot, instancesUp_domFuel h, List.map_cons,
    List.dropLast_cons_of_ne_nil (fun hnil => hne (List.map_eq_nil_iff.mp hnil)),
    List.reverse_cons]

end InstPath

/-! ## The loop -/

/-- The path begins with an entry of `ignoreTrees`. -/
def ignoresTree (rules : Option SyncbackRules) (instPath : String) : Bool :=
  match rules with
  | some rules => rules.ignoreTrees.any fun ignored => ignored.toList.isPrefixOf instPath.toList
  | none => false

def InstigatingSource.toPath : InstigatingSource → PathBuf
  | .path p => p
  | .projectNode p _ _ _ => p

namespace FsSnapshot

def removeFile (fsSnapshot : FsSnapshot) (path : PathBuf) : FsSnapshot :=
  { fsSnapshot with removedFiles := fsSnapshot.removedFiles.insert path }

def removeDir (fsSnapshot : FsSnapshot) (path : PathBuf) : FsSnapshot :=
  { fsSnapshot with removedDirs := fsSnapshot.removedDirs.insert path }

/-- Merges two snapshots, with a filter applied to the paths. -/
def mergeWithFilter (fsSnapshot other : FsSnapshot) (predicate : PathBuf → Bool) : FsSnapshot where
  addedFiles := extend fsSnapshot.addedFiles ((toList other.addedFiles).filter (predicate ·.1))
  addedDirs := fsSnapshot.addedDirs ∪ other.addedDirs.filter predicate
  removedFiles := fsSnapshot.removedFiles ∪ other.removedFiles.filter predicate
  removedDirs := fsSnapshot.removedDirs ∪ other.removedDirs.filter predicate

end FsSnapshot

/-- What the loop is given: the rules of the project, the hashes of the two DOMs, and what it uses
of other code. -/
structure LoopContext (D : Type) where
  rules : Option SyncbackRules
  oldHashes : Map Ref (List UInt8)
  newHashes : Map Ref (List UInt8)
  isValidPath : PathBuf → Bool
  isDir : PathBuf → Bool
  /-- `Middleware::syncback`. -/
  syncback : Middleware → SyncbackSnapshot D → Fallible (SyncbackReturn D)

/-- An instance of a DOM whose path was compared with the ignored trees: one that would be written,
or one that would be removed. -/
structure Visit (D : Type) where
  removed : Bool
  tree : D
  referent : Ref
  ignored : Bool

/-- The stack with its top first, what is to be written, and the comparisons that were made. -/
structure LoopState (D : Type) where
  snapshots : List (SyncbackSnapshot D)
  fsSnapshot : FsSnapshot
  visits : List (Visit D)

namespace LoopContext

variable {D : Type} [WeakDom D] [FiniteWeakDom D] (context : LoopContext D)

/-- Both instances have the same hash. -/
def unchanged (snapshot : SyncbackSnapshot D) : Fallible Bool :=
  match snapshot.old with
  | some oldRef =>
    match context.oldHashes.lookup oldRef, context.newHashes.lookup snapshot.new with
    | some old, some new => .ok (old = new)
    -- all instances in both DOMs should have hashes
    | _, _ => .error .panic
  | none => .ok false

/-- The middleware of a snapshot is run. A directory that cannot be written becomes a model. -/
def syncbackOrModel (snapshot : SyncbackSnapshot D) (middleware : Middleware)
    (fsSnapshot : FsSnapshot) : Fallible (SyncbackReturn D × FsSnapshot) :=
  let instPath := instPath snapshot.data.newTree snapshot.new
  match context.syncback middleware snapshot with
  | .ok syncback => .ok (syncback, fsSnapshot)
  | .error (.error messages) =>
    if middleware = .dir then do
      let newMiddleware := modelMiddleware snapshot.data.debugModelFormat
      let fileName ← Fallible.context "Directory middleware should have a name in its path"
        snapshot.path.fileName
      let extension ← extensionForMiddleware newMiddleware
      let path := snapshot.path.withFileName s!"{fileName}.{extension}"
      let syncback ← Fallible.withContext s!"Failed to syncback {instPath}"
        (context.syncback newMiddleware (snapshot.withNewPath path snapshot.new snapshot.old))
      let oldInst ← snapshot.oldInst
      .ok (syncback, if oldInst.isSome then fsSnapshot.removeDir snapshot.path else fsSnapshot)
    else
      let err := messages.headD ""
      Fallible.bail s!"Failed to syncback {instPath} because {err}"
  | .error e => .error e

/-- One pass of the loop over the removed children. -/
def removeChild (snapshot : SyncbackSnapshot D) (state : LoopState D) (inst : InstanceWithMeta) :
    Fallible (LoopState D) := do
  let source ← Fallible.unwrap inst.metadata.instigatingSource
  let tree := snapshot.data.oldTree.inner
  if context.isValidPath source.toPath = false then .ok state
  else
    let ignored := ignoresTree context.rules (instPath tree inst.inst.referent)
    let visits := state.visits ++ [⟨true, tree, inst.inst.referent, ignored⟩]
    if ignored then .ok { state with visits := visits }
    else if context.isDir source.toPath then
      .ok { state with visits := visits, fsSnapshot := state.fsSnapshot.removeDir source.toPath }
    else .ok { state with visits := visits, fsSnapshot := state.fsSnapshot.removeFile source.toPath }

/-- One pass of the loop, for the snapshot that was on top of the stack. -/
def syncbackStep (snapshot : SyncbackSnapshot D) (state : LoopState D) :
    Fallible (LoopState D) := do
  let unchanged ← context.unchanged snapshot
  if unchanged then .ok state
  else if context.isValidPath snapshot.path = false then .ok state
  else
    let tree := snapshot.data.newTree
    let ignored := ignoresTree context.rules (instPath tree snapshot.new)
    let state := { state with
      visits := state.visits ++ [⟨false, tree, snapshot.new, ignored⟩] }
    if ignored then .ok state
    else do
      let middleware ← snapshot.getBestMiddleware
      if middleware = .json ∨ middleware = .toml then .ok state
      else do
        let (syncback, fsSnapshot) ←
          context.syncbackOrModel snapshot middleware state.fsSnapshot
        let state ← syncback.removedChildren.foldlM (context.removeChild snapshot)
          { state with fsSnapshot := fsSnapshot }
        .ok { state with
          fsSnapshot := state.fsSnapshot.mergeWithFilter syncback.fsSnapshot context.isValidPath
          snapshots := syncback.children.reverse ++ state.snapshots }

/-- The loop starts with the snapshot of the project. -/
def Starts (state : LoopState D) : Prop :=
  ∃ project, state = ⟨[project], {}, []⟩

/-- A snapshot is popped and dealt with. -/
def Steps (state state' : LoopState D) : Prop :=
  ∃ snapshot rest, state.snapshots = snapshot :: rest ∧
    context.syncbackStep snapshot { state with snapshots := rest } = .ok state'

end LoopContext

end Roxo
