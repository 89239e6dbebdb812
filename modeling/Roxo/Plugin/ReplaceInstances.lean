import Roxo.Plugin.ApplyPatch

/-!
# Swapping instances out

Instances that a patch could not bring up to date are replaced by fresh ones from the server. A swap
maps the id to the replacement, moves the children over and exchanges the two; which of the steps
that set a parent go through is up to the engine.
-/

namespace Roxo.Plugin

open AssocMap

variable {V : Type}

structure Swap where
  id : String
  replacement : Handle
  oldInstance : Handle
  deriving DecidableEq, Repr

/-! ## The order of the swaps -/

/-- How many ancestors there are from an instance on, the instance included. -/
def Dom.ancestors (dom : Dom V) : ℕ → Option Handle → ℕ
  | 0, _ => 0
  | _, none => 0
  | levels + 1, some inst => dom.ancestors levels (dom.parent inst) + 1

def Swap.depth (dom : Dom V) (swap : Swap) : ℕ :=
  dom.ancestors dom.next (dom.parent swap.oldInstance)

/-- The place of the instance among its siblings, from one. -/
def Swap.siblingIndex (dom : Dom V) (swap : Swap) : ℕ :=
  match dom.parent swap.oldInstance with
  | some parent =>
    if swap.oldInstance ∈ dom.getChildren parent then
      (dom.getChildren parent).idxOf swap.oldInstance + 1
    else 0
  | none => 0

/-- The comparison of `orderSwaps`. -/
def Swap.before (dom : Dom V) (a b : Swap) : Bool :=
  if a.depth dom ≠ b.depth dom then a.depth dom < b.depth dom
  else a.siblingIndex dom < b.siblingIndex dom

/-- Determines the order in which instances are swapped. -/
def orderSwaps (dom : Dom V) (swaps : List Swap) : List Swap :=
  swaps.mergeSort fun a b => !b.before dom a

/-- Any order that sorting may leave: it says nothing about swaps that compare as equal. -/
structure IsOrderSwaps (dom : Dom V) (swaps ordered : List Swap) : Prop where
  perm : ordered.Perm swaps
  sorted : ordered.Pairwise fun a b => b.before dom a = false

theorem isOrderSwaps_orderSwaps (dom : Dom V) (swaps : List Swap) :
    IsOrderSwaps dom swaps (orderSwaps dom swaps) where
  perm := List.mergeSort_perm _ _
  sorted := by
    have h : (swaps.mergeSort fun a b => !b.before dom a).Pairwise
        fun a b => (!b.before dom a) = true :=
      List.pairwise_mergeSort (fun a b c hab hbc => ?_) (fun a b => ?_) swaps
    · exact h.imp fun hab => by simpa using hab
    · unfold Swap.before at *
      grind
    · unfold Swap.before
      grind

/-! ## One swap -/

/-- Which of the steps of a swap that set a parent go through. -/
structure SwapOutcome where
  /-- A child of the old instance can be moved to the replacement. -/
  moves : Handle → Bool
  /-- The old instance can be taken out. -/
  deletes : Bool
  /-- The replacement can be put in its place. -/
  replaces : Bool
  /-- A child of the replacement can be moved back. -/
  movesBack : Handle → Bool
  /-- The old instance can be put back. -/
  restores : Bool

/-- The step that deletes or the step that replaces fails. -/
def SwapOutcome.fails (outcome : SwapOutcome) : Bool := !(outcome.deletes && outcome.replaces)

structure SwapState (V : Type) where
  dom : Dom V
  map : InstanceMap
  selection : List Handle
  /-- The instances that have been destroyed. -/
  destroyed : List Handle

def SwapState.start (dom : Dom V) (map : InstanceMap) (selection : List Handle) : SwapState V where
  dom := dom
  map := map
  selection := selection
  destroyed := []

/-- Attempt to set the parent of instances one after the other. -/
def Dom.moveAll (dom : Dom V) (moves : Handle → Bool) (children : List Handle) (target : Handle) :
    Dom V :=
  children.foldl (fun dom child => if moves child then dom.setParent child (some target) else dom) dom

/-- `Destroy`: the subtree is taken apart, and no parent can be set any more. -/
def Dom.destroy (dom : Dom V) (inst : Handle) : Dom V :=
  (inst :: dom.getDescendants inst).foldl
    (fun dom h => (dom.setParent h none).modify h fun i => { i with locked := true }) dom

/-- The DOM once the two instances have been exchanged, as far as that goes through. -/
def Dom.exchange (dom : Dom V) (outcome : SwapOutcome) (swap : Swap) : Dom V :=
  let oldParent := dom.parent swap.oldInstance
  let dom := dom.moveAll outcome.moves (dom.getChildren swap.oldInstance) swap.replacement
  let dom := if outcome.deletes then dom.setParent swap.oldInstance none else dom
  if outcome.replaces then dom.setParent swap.replacement oldParent else dom

/-- One round of the loop of `__replaceInstances`. -/
def swapInstance [Engine V] (outcome : SwapOutcome) (s : SwapState V) (swap : Swap) : SwapState V :=
  let oldParent := s.dom.parent swap.oldInstance
  let map := s.map.insert s.dom swap.id swap.replacement
  let dom := s.dom.exchange outcome swap
  if outcome.fails then
    -- revert the swap to avoid losing the old instance and its children
    let dom := dom.moveAll outcome.movesBack (dom.getChildren swap.replacement) swap.oldInstance
    let dom := if outcome.restores then dom.setParent swap.oldInstance oldParent else dom
    { s with
      dom := dom.destroy swap.replacement
      map
      destroyed := swap.replacement :: dom.getDescendants swap.replacement ++ s.destroyed }
  else
    { s with
      dom
      map
      selection := s.selection.map fun h => if h = swap.oldInstance then swap.replacement else h }

/-- The loop over the swaps. -/
def swapInstances [Engine V] (outcomes : Swap → SwapOutcome) (s : SwapState V)
    (swaps : List Swap) : SwapState V :=
  swaps.foldl (fun s swap => swapInstance (outcomes swap) s swap) s

/-! ## Failed swaps -/

/-- The swaps are of mapped instances, and each has a replacement of its own that is not mapped. -/
structure FreshSwaps (map : InstanceMap) (swaps : List Swap) : Prop where
  ids : (swaps.map Swap.id).Nodup
  replacements : (swaps.map Swap.replacement).Nodup
  mapped : ∀ swap ∈ swaps, map.fromIds.lookup swap.id = some swap.oldInstance
  unmapped : ∀ swap ∈ swaps, map.fromInstances.lookup swap.replacement = none

/-- A swap has left the entry of its id, the parent of the old instance and the parents of its
children as they were. -/
structure LeftAlone (s s' : SwapState V) (swap : Swap) : Prop where
  entry : s'.map.fromIds.lookup swap.id = s.map.fromIds.lookup swap.id
  parent : s'.dom.parent swap.oldInstance = s.dom.parent swap.oldInstance
  children : ∀ child ∈ s.dom.getChildren swap.oldInstance,
    s'.dom.parent child = s.dom.parent child

/-- No id is mapped to an instance that has been destroyed. -/
def SwapState.NoneDestroyed (s : SwapState V) : Prop :=
  ∀ id inst, s.map.fromIds.lookup id = some inst → inst ∉ s.destroyed

variable [Engine V]

/-- Every failed swap of the loop leaves things alone, and no id comes to be mapped to a destroyed
instance. -/
def FailuresUndone (outcomes : Swap → SwapOutcome) : SwapState V → List Swap → Prop
  | s, [] => s.NoneDestroyed
  | s, swap :: swaps =>
    s.NoneDestroyed ∧
      ((outcomes swap).fails = true → LeftAlone s (swapInstance (outcomes swap) s swap) swap) ∧
      FailuresUndone outcomes (swapInstance (outcomes swap) s swap) swaps

variable {outcome : SwapOutcome} {s : SwapState V} {swap : Swap} {swaps : List Swap}

theorem swapInstance_map (outcome : SwapOutcome) (s : SwapState V) (swap : Swap) :
    (swapInstance outcome s swap).map = s.map.insert s.dom swap.id swap.replacement := by
  unfold swapInstance
  dsimp only
  split_ifs <;> rfl

theorem swapInstance_destroyed (h : outcome.fails = false) :
    (swapInstance outcome s swap).destroyed = s.destroyed := by
  unfold swapInstance
  dsimp only
  rw [h]
  rfl

/-- A swap changes no entry but its own. -/
theorem swapInstance_fromIds (hi : s.map.Inverse)
    (hfresh : s.map.fromInstances.lookup swap.replacement = none) (id : String) :
    (swapInstance outcome s swap).map.fromIds.lookup id =
      if id = swap.id then some swap.replacement else s.map.fromIds.lookup id := by
  rw [swapInstance_map, InstanceMap.insert_fromIds hi]
  split_ifs with hid hother
  · rfl
  · rw [hi, hfresh] at hother
    cases hother
  · rfl

theorem FreshSwaps.step (hi : s.map.Inverse) (hf : FreshSwaps s.map (swap :: swaps)) :
    FreshSwaps (swapInstance outcome s swap).map swaps := by
  have hids := List.nodup_cons.mp hf.ids
  have hreplacements := List.nodup_cons.mp hf.replacements
  refine ⟨hids.2, hreplacements.2, fun x hx => ?_, fun x hx => ?_⟩
  · rw [swapInstance_fromIds hi (hf.unmapped swap List.mem_cons_self), if_neg]
    · exact hf.mapped x (List.mem_cons_of_mem _ hx)
    · rintro heq
      exact hids.1 (heq ▸ List.mem_map_of_mem hx)
  · have hnot := hf.unmapped x (List.mem_cons_of_mem _ hx)
    rw [swapInstance_map, InstanceMap.insert_fromInstances, if_neg, hnot]
    · exact ite_self none
    · rintro heq
      exact hreplacements.1 (heq ▸ List.mem_map_of_mem hx)

/-- A failed swap never leaves the entry of its id as it was: the id is mapped to the replacement,
which is destroyed. -/
theorem mapped_destroyed_of_fails (hi : s.map.Inverse)
    (hf : FreshSwaps s.map (swap :: swaps)) (hfails : outcome.fails = true) :
    (swapInstance outcome s swap).map.fromIds.lookup swap.id = some swap.replacement ∧
      swap.replacement ∈ (swapInstance outcome s swap).destroyed ∧
      s.map.fromIds.lookup swap.id ≠ some swap.replacement := by
  have hfresh := hf.unmapped swap List.mem_cons_self
  refine ⟨?_, ?_, fun heq => ?_⟩
  · rw [swapInstance_fromIds hi hfresh, if_pos rfl]
  · unfold swapInstance
    dsimp only
    rw [hfails]
    exact List.mem_cons_self
  · rw [hi, hfresh] at heq
    cases heq

/-- The loop undoes its failures exactly if no swap fails: the id of a failed swap stays mapped to the
destroyed replacement. -/
theorem failuresUndone_iff {dom : Dom V} {map : InstanceMap} (selection : List Handle)
    (outcomes : Swap → SwapOutcome) (hi : map.Inverse) (hf : FreshSwaps map swaps) :
    FailuresUndone outcomes (.start dom map selection) swaps ↔
      ∀ swap ∈ swaps, (outcomes swap).deletes = true ∧ (outcomes swap).replaces = true := by
  suffices h : ∀ s : SwapState V, s.map.Inverse → FreshSwaps s.map swaps → s.destroyed = [] →
      (FailuresUndone outcomes s swaps ↔ ∀ swap ∈ swaps, (outcomes swap).fails = false) by
    rw [h _ hi hf rfl]
    unfold SwapOutcome.fails
    simp only [Bool.not_eq_false', Bool.and_eq_true]
  clear hf hi
  induction swaps with
  | nil =>
    intro s _ _ hd
    simp [FailuresUndone, SwapState.NoneDestroyed, hd]
  | cons swap swaps ih =>
    intro s hi hf hd
    unfold FailuresUndone
    rw [List.forall_mem_cons]
    have hi' : (swapInstance (outcomes swap) s swap).map.Inverse := by
      rw [swapInstance_map]
      exact hi.insert _ _ _
    cases hfails : (outcomes swap).fails with
    | true =>
      obtain ⟨hentry, -, hne⟩ := mapped_destroyed_of_fails hi hf hfails
      refine iff_of_false (fun h => hne ?_) (by simp)
      rw [← (h.2.1 rfl).entry]
      exact hentry
    | false =>
      have hrest := ih _ hi' (hf.step hi)
        ((swapInstance_destroyed hfails).trans hd)
      rw [hrest]
      simp [SwapState.NoneDestroyed, hd]

theorem not_failuresUndone (hi : s.map.Inverse) (hf : FreshSwaps s.map (swap :: swaps))
    {outcomes : Swap → SwapOutcome} (hfails : (outcomes swap).fails = true) :
    ¬FailuresUndone outcomes s (swap :: swaps) := by
  intro h
  obtain ⟨hentry, -, hne⟩ := mapped_destroyed_of_fails hi hf hfails
  unfold FailuresUndone at h
  exact hne ((h.2.1 hfails).entry ▸ hentry)

/-! ### A swap that cannot be made -/

section Siblings

/-- An engine that creates and writes nothing, to evaluate the model with. -/
@[reducible] def inertEngine : Engine Unit where
  creatable _ := false
  isValueBase _ := false
  findCanonicalPropertyDescriptor _ _ := none
  write _ _ _ := none
  writesInstance _ _ := false
  read _ _ _ := none
  nil := ()
  isNil _ := true
  trueEquals _ _ := true

/-- An instance with two children, and a replacement that is not part of its tree. -/
def siblingDom : Dom Unit where
  next := 4
  instances h :=
    if h = 0 then { Instance.new Unit "Folder" with children := [1, 2] }
    else if h = 1 ∨ h = 2 then { Instance.new Unit "Part" with parent := some 0 }
    else Instance.new Unit "Part"

def siblingMap : InstanceMap :=
  letI := inertEngine
  InstanceMap.new.insert siblingDom "first" 1

def siblingSwap : Swap := ⟨"first", 3, 1⟩

/-- The step that deletes goes through, or it does not. -/
def siblingOutcome (deletes : Bool) : SwapOutcome :=
  ⟨fun _ => true, deletes, true, fun _ => true, true⟩

theorem siblingMap_inverse : siblingMap.Inverse :=
  letI := inertEngine
  InstanceMap.new_inverse.insert _ _ _

theorem siblingSwap_fresh : FreshSwaps siblingMap [siblingSwap] where
  ids := List.nodup_singleton _
  replacements := List.nodup_singleton _
  mapped swap hswap := by
    rw [List.mem_singleton.mp hswap]
    decide
  unmapped swap hswap := by
    rw [List.mem_singleton.mp hswap]
    decide

/-- The old instance cannot be taken out. -/
theorem not_failuresUndone_sibling :
    letI := inertEngine
    ¬FailuresUndone (fun _ => siblingOutcome false) (.start siblingDom siblingMap [])
      [siblingSwap] := by
  let _ := inertEngine
  exact not_failuresUndone (s := .start siblingDom siblingMap []) siblingMap_inverse
    siblingSwap_fresh rfl

/-- An instance with a child, and two replacements. -/
def nestedDom : Dom Unit where
  next := 5
  instances h :=
    if h = 0 then { Instance.new Unit "Folder" with children := [1] }
    else if h = 1 then { Instance.new Unit "Part" with parent := some 0, children := [2] }
    else if h = 2 then { Instance.new Unit "Part" with parent := some 1 }
    else Instance.new Unit "Part"

def nestedMap : InstanceMap :=
  letI := inertEngine
  (InstanceMap.new.insert nestedDom "outer" 1).insert nestedDom "inner" 2

/-- The instance and its child are both swapped. -/
def nestedSwaps : List Swap := [⟨"outer", 3, 1⟩, ⟨"inner", 4, 2⟩]

/-- The child cannot be moved to the first replacement. The second replacement can be put in its
place, or it cannot. -/
def nestedOutcomes (replaces : Bool) (swap : Swap) : SwapOutcome :=
  if swap.id = "outer" then ⟨fun _ => false, true, true, fun _ => true, true⟩
  else ⟨fun _ => true, true, replaces, fun _ => true, true⟩

theorem nestedMap_inverse : nestedMap.Inverse :=
  letI := inertEngine
  (InstanceMap.new_inverse.insert _ _ _).insert _ _ _

theorem nestedSwaps_fresh : FreshSwaps nestedMap nestedSwaps where
  ids := by decide
  replacements := by decide
  mapped := by decide
  unmapped := by decide

theorem failuresUndone_nested :
    letI := inertEngine
    FailuresUndone (nestedOutcomes true) (.start nestedDom nestedMap []) nestedSwaps ∧
      ¬FailuresUndone (nestedOutcomes false) (.start nestedDom nestedMap []) nestedSwaps := by
  let _ := inertEngine
  have hiff : ∀ replaces,
      FailuresUndone (nestedOutcomes replaces) (.start nestedDom nestedMap []) nestedSwaps ↔ _ :=
    fun replaces => failuresUndone_iff [] _ nestedMap_inverse nestedSwaps_fresh
  refine ⟨(hiff true).mpr (by decide), fun h => ?_⟩
  have hall := (hiff false).mp h
  revert hall
  decide

end Siblings

end Roxo.Plugin
