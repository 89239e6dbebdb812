import Roxo.Library.GreedyMatch
import Roxo.Snapshot.PatchCompute
import Roxo.Snapshot.TreeInvariant

/-!
# What a computed patch consists of

`plan` says which snapshots are paired with which instances, what is added and what is removed.
It has no accumulators and no flags, and `computePatchSet` is the plan with an update for each
pair (`computePatchSet_eq`).
-/

namespace Roxo

open AssocMap WeakDom RojoTree GreedyMatch Forest

/-- A snapshot wants an instance with its name and its class. -/
def want (s : InstanceSnapshot) : Option (String × String) := some (s.name, s.className)

/-- The pairs, additions and removals below a pair. -/
structure Plan where
  pairs : List (InstanceSnapshot × Ref)
  additions : List PatchAdd
  removals : List Ref

instance : Append Plan where
  append a b := ⟨a.pairs ++ b.pairs, a.additions ++ b.additions, a.removals ++ b.removals⟩

@[simp] theorem Plan.pairs_append (a b : Plan) : (a ++ b).pairs = a.pairs ++ b.pairs := rfl

@[simp] theorem Plan.additions_append (a b : Plan) :
    (a ++ b).additions = a.additions ++ b.additions := rfl

@[simp] theorem Plan.removals_append (a b : Plan) :
    (a ++ b).removals = a.removals ++ b.removals := rfl

section Defs

variable {D : Type} [WeakDom D]

def keyOf (tree : RojoTree D) (id : Ref) : Option (String × String) :=
  (getByRef tree.inner id).map fun i => (i.name, i.className)

/-- What each child of the snapshot is paired with. -/
def partners (tree : RojoTree D) (children : List InstanceSnapshot) (id : Ref) :
    List (Option Ref) :=
  (greedy want (keyOf tree) children (kids tree.inner id)).1

/-- The children of the instance that are not paired. -/
def unpaired (tree : RojoTree D) (children : List InstanceSnapshot) (id : Ref) : List Ref :=
  (greedy want (keyOf tree) children (kids tree.inner id)).2

mutual

def plan (tree : RojoTree D) : InstanceSnapshot → Ref → Plan
  | ⟨snapshotId, metadata, name, className, properties, children⟩, id =>
    ⟨[(⟨snapshotId, metadata, name, className, properties, children⟩, id)], [], []⟩ ++
      planChildren tree children (partners tree children id) id ++
        ⟨[], [], unpaired tree children id⟩

def planChildren (tree : RojoTree D) : List InstanceSnapshot → List (Option Ref) → Ref → Plan
  | child :: children, some childId :: partners, id =>
    plan tree child childId ++ planChildren tree children partners id
  | child :: children, none :: partners, id =>
    ⟨[], [⟨id, child⟩], []⟩ ++ planChildren tree children partners id
  | _, _, _ => ⟨[], [], []⟩

end

variable [FloatCmp]

/-- The update of a pair. -/
def pairUpdate (tree : RojoTree D) (pair : InstanceSnapshot × Ref) :
    MayPanic (Option PatchUpdate) := do
  let inst ← expectInstance tree pair.2
  computeUpdate pair.1 inst tree

end Defs

section Compute

variable {D : Type} [WeakDom D] {tree : RojoTree D} {c : InstanceSnapshot} {id : Ref}

/-- The children that are not paired yet. -/
def free (paired : List (Ref × Bool)) : List Ref :=
  (paired.filter fun child => !child.2).map Prod.fst

theorem expectInstance_eq (h : Inv tree) {i : Instance} (hi : getByRef tree.inner id = some i) :
    ∃ m, expectInstance tree id = some ⟨i, m⟩ ∧ tree.metadataMap.lookup id = some m := by
  obtain ⟨m, hm⟩ := h.metadata_of_present hi
  refine ⟨m, ?_, hm⟩
  unfold expectInstance
  rw [getInstance_eq hi hm]
  rfl

/-- The search finds the first free child with the right key and takes it out of the free ones. -/
theorem findMatching_eq (h : Inv tree) {paired : List (Ref × Bool)}
    (hp : ∀ child ∈ paired, (getByRef tree.inner child.1).isSome) :
    ∃ paired', findMatching tree c paired =
        some ((free paired).find? (fun i => keyOf tree i = want c), paired') ∧
      paired'.map Prod.fst = paired.map Prod.fst ∧
      free paired' =
        match (free paired).find? (fun i => keyOf tree i = want c) with
        | some i => (free paired).erase i
        | none => free paired := by
  induction paired with
  | nil => exact ⟨[], rfl, rfl, rfl⟩
  | cons child rest ih =>
    obtain ⟨childId, flag⟩ := child
    obtain ⟨rest', hrest, hmap, hfree⟩ := ih fun x hx => hp x (List.mem_cons_of_mem _ hx)
    rw [findMatching]
    cases flag with
    | true =>
      have hcons : free ((childId, true) :: rest) = free rest := rfl
      refine ⟨(childId, true) :: rest', ?_, ?_, ?_⟩
      · rw [if_pos rfl, hrest, hcons]
        rfl
      · rw [List.map_cons, List.map_cons, hmap]
      · rw [hcons]
        exact hfree
    | false =>
      have hcons : ∀ l, free ((childId, false) :: l) = childId :: free l := fun _ => rfl
      obtain ⟨i, hi⟩ := Option.isSome_iff_exists.mp (hp _ List.mem_cons_self)
      obtain ⟨m, hexp, -⟩ := expectInstance_eq h hi
      have hkey : keyOf tree childId = want c ↔ c.name = i.name ∧ c.className = i.className := by
        unfold keyOf want
        rw [hi, Option.map_some, Option.some.injEq, Prod.mk.injEq, eq_comm, @eq_comm _ i.className]
      rw [if_neg Bool.false_ne_true, hexp, hcons]
      simp only [Option.bind_eq_bind, Option.bind_some]
      by_cases hk : keyOf tree childId = want c
      · rw [if_pos (hkey.mp hk), List.find?_cons_of_pos (by simpa using hk)]
        exact ⟨_, rfl, rfl, (List.erase_cons_head _ _).symm⟩
      · rw [if_neg (mt hkey.mpr hk), List.find?_cons_of_neg (by simpa using hk), hrest]
        refine ⟨_, rfl, ?_, ?_⟩
        · rw [List.map_cons, List.map_cons, hmap]
        · rw [hcons, hfree]
          cases hf : (free rest).find? (fun i => keyOf tree i = want c) with
          | none => rfl
          | some j =>
            have hj : keyOf tree j = want c := by simpa using List.find?_some hf
            have hne : childId ≠ j := fun he => hk (he ▸ hj)
            exact (List.erase_cons_tail (by simpa using hne)).symm

theorem children_present {i : Instance} (hi : getByRef tree.inner id = some i)
    [LawfulWeakDom D] : ∀ child ∈ i.children, (getByRef tree.inner child).isSome := by
  intro child hc
  rw [← kids_eq hi] at hc
  obtain ⟨j, hj, -⟩ := LawfulWeakDom.child_present _ hc
  exact Option.isSome_of_eq_some hj

variable [FloatCmp]

/-- The state of the computation after the part of the plan that is `p`, if no update panics. -/
def afterPlan (tree : RojoTree D) (context : Map Ref Ref) (patchSet : PatchSet) (p : Plan) :
    MayPanic (Map Ref Ref × PatchSet) := do
  let updates ← p.pairs.mapM (pairUpdate tree)
  some (extend context (pairIds p.pairs),
    { removedInstances := patchSet.removedInstances ++ p.removals
      addedInstances := patchSet.addedInstances ++ p.additions
      updatedInstances := patchSet.updatedInstances ++ updates.reduceOption })

theorem afterPlan_append {context : Map Ref Ref} {patchSet : PatchSet} (a b : Plan) :
    afterPlan tree context patchSet (a ++ b) =
      (afterPlan tree context patchSet a).bind fun (context, patchSet) =>
        afterPlan tree context patchSet b := by
  unfold afterPlan
  rw [Plan.pairs_append, List.mapM_append]
  cases ha : a.pairs.mapM (pairUpdate tree) with
  | none => rfl
  | some us =>
    cases hb : b.pairs.mapM (pairUpdate tree) with
    | none => simp only [Option.bind_eq_bind, Option.bind_some, Option.bind_none]
    | some vs =>
      simp only [Option.bind_eq_bind, Option.bind_some, Option.pure_def, pairIds_append,
        extend_append, List.reduceOption_append, Plan.additions_append, Plan.removals_append,
        List.append_assoc]

theorem afterPlan_nil {context : Map Ref Ref} {patchSet : PatchSet} :
    afterPlan tree context patchSet ⟨[], [], []⟩ = some (context, patchSet) := by
  unfold afterPlan
  simp only [List.mapM_nil, Option.pure_def, Option.bind_eq_bind, Option.bind_some,
    List.append_nil, List.reduceOption_nil]
  rfl

theorem afterPlan_addition {context : Map Ref Ref} {patchSet : PatchSet} (a : PatchAdd) :
    afterPlan tree context patchSet ⟨[], [a], []⟩ = some (context,
      { patchSet with addedInstances := patchSet.addedInstances ++ [a] }) := by
  unfold afterPlan
  simp only [List.mapM_nil, Option.pure_def, Option.bind_eq_bind, Option.bind_some,
    List.append_nil, List.reduceOption_nil]
  rfl

theorem afterPlan_removals {context : Map Ref Ref} {patchSet : PatchSet} (l : List Ref) :
    afterPlan tree context patchSet ⟨[], [], l⟩ = some (context,
      { patchSet with removedInstances := patchSet.removedInstances ++ l }) := by
  unfold afterPlan
  simp only [List.mapM_nil, Option.pure_def, Option.bind_eq_bind, Option.bind_some,
    List.append_nil, List.reduceOption_nil]
  rfl

theorem afterPlan_pair {context : Map Ref Ref} {patchSet : PatchSet} {inst : InstanceWithMeta}
    (hinst : expectInstance tree id = some inst) :
    afterPlan tree context patchSet ⟨[(c, id)], [], []⟩ =
      (computePropertyPatches c inst patchSet tree).map fun patchSet =>
        (if c.snapshotId.isSome then context.insert c.snapshotId id else context, patchSet) := by
  unfold afterPlan computePropertyPatches
  simp only [List.mapM_cons, List.mapM_nil, Option.pure_def, Option.bind_eq_bind, Option.bind_some,
    List.append_nil]
  unfold pairUpdate
  rw [hinst]
  simp only [Option.bind_eq_bind, Option.bind_some]
  cases computeUpdate c inst tree with
  | none => rfl
  | some update =>
    have hids : extend context (pairIds [(c, id)]) =
        if c.snapshotId.isSome then context.insert c.snapshotId id else context := by
      unfold pairIds
      rw [List.filter_singleton]
      cases c.snapshotId.isSome <;> rfl
    rw [← hids]
    cases update <;> rfl

variable [LawfulWeakDom D]

/-- The two loops compute the plan. -/
theorem computePatchSetInternal_eq (h : Inv tree) {s : InstanceSnapshot} {i : Instance}
    (hi : getByRef tree.inner id = some i) (context : Map Ref Ref) (patchSet : PatchSet) :
    computePatchSetInternal tree context s id patchSet =
      afterPlan tree context patchSet (plan tree s id) := by
  induction s using InstanceSnapshot.induct generalizing id i context patchSet with
  | snapshot s ih =>
    have hchildren : ∀ l, (∀ c ∈ l, c ∈ s.children) → ∀ context patchSet paired,
        (∀ child ∈ paired, (getByRef tree.inner child.1).isSome) →
        ∃ paired', free paired' = (greedy want (keyOf tree) l (free paired)).2 ∧
          computeChildrenPatches tree context l id paired patchSet =
            (afterPlan tree context patchSet
              (planChildren tree l (greedy want (keyOf tree) l (free paired)).1 id)).map
              fun (context, patchSet) => (context, paired', patchSet) := by
      intro l
      induction l with
      | nil =>
        intro _ context patchSet paired _
        refine ⟨paired, rfl, ?_⟩
        rw [computeChildrenPatches, planChildren, afterPlan_nil]
        · rfl
        · rintro _ _ _ _ ⟨⟩
        · rintro _ _ _ ⟨⟩
      | cons c l ihl =>
        intro hl context patchSet paired hp
        have hl' := fun c hc => hl c (List.mem_cons_of_mem _ hc)
        obtain ⟨paired₁, hfind, hmap, hfree⟩ := findMatching_eq (c := c) h hp
        have hp₁ : ∀ child ∈ paired₁, (getByRef tree.inner child.1).isSome := by
          intro child hc
          have hc' : child.1 ∈ paired.map Prod.fst := hmap ▸ List.mem_map_of_mem hc
          obtain ⟨child', hmem, heq⟩ := List.mem_map.mp hc'
          exact heq ▸ hp child' hmem
        rw [computeChildrenPatches, hfind]
        simp only [Option.bind_eq_bind, Option.bind_some]
        cases hf : (free paired).find? (fun i => keyOf tree i = want c) with
        | some r =>
          rw [hf] at hfree
          have hr : (getByRef tree.inner r).isSome := by
            obtain ⟨child, hc, rfl⟩ := List.mem_map.mp (List.mem_of_find?_eq_some hf)
            exact hp child (List.mem_of_mem_filter hc)
          obtain ⟨j, hj⟩ := Option.isSome_iff_exists.mp hr
          rw [greedy_cons_some hf, planChildren, afterPlan_append]
          dsimp only at hfree ⊢
          rw [← hfree, ih c (hl c List.mem_cons_self) hj]
          cases hc : afterPlan tree context patchSet (plan tree c r) with
          | none =>
            obtain ⟨paired', hfree', -⟩ := ihl hl' context patchSet paired₁ hp₁
            exact ⟨paired', hfree', rfl⟩
          | some next =>
            obtain ⟨paired', hfree', heq⟩ := ihl hl' next.1 next.2 paired₁ hp₁
            refine ⟨paired', hfree', ?_⟩
            simp only [Option.bind_some]
            rw [heq]
        | none =>
          rw [hf] at hfree
          rw [greedy_cons_none hf, planChildren, afterPlan_append, afterPlan_addition]
          dsimp only at hfree ⊢
          rw [← hfree]
          exact ihl hl' _ _ paired₁ hp₁
    obtain ⟨m, hexp, -⟩ := expectInstance_eq h hi
    have hfree : free (i.children.map fun childId => (childId, false)) = i.children := by
      unfold free
      rw [List.filter_map, List.map_map]
      exact (congrArg _ (List.filter_eq_self.mpr fun _ _ => rfl)).trans (List.map_id _)
    cases s with
    | mk snapshotId metadata name className properties children =>
      rw [computePatchSetInternal, plan, afterPlan_append, afterPlan_append, hexp,
        afterPlan_pair hexp]
      simp only [Option.bind_eq_bind, Option.bind_some]
      cases hprop : computePropertyPatches
          ⟨snapshotId, metadata, name, className, properties, children⟩ ⟨i, m⟩ patchSet tree with
      | none => rfl
      | some patchSet₁ =>
        simp only [Option.bind_some, Option.map_some]
        obtain ⟨paired', hfree', heq⟩ := hchildren children (fun _ hc => hc)
          (if snapshotId.isSome then context.insert snapshotId id else context) patchSet₁
          (i.children.map fun childId => (childId, false)) (by
            intro child hc
            obtain ⟨childId, hmem, rfl⟩ := List.mem_map.mp hc
            exact children_present hi childId hmem)
        rw [hfree, ← kids_eq hi] at hfree' heq
        rw [← kids_eq hi, heq]
        unfold partners unpaired
        cases hplan : afterPlan tree
            (if snapshotId.isSome then context.insert snapshotId id else context) patchSet₁
            (planChildren tree children
              (greedy want (keyOf tree) children (kids tree.inner id)).1 id) with
        | none => rfl
        | some next =>
          simp only [Option.map_some, Option.bind_some, afterPlan_removals]
          rw [← hfree']
          rfl

end Compute

end Roxo
