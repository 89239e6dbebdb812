import Roxo.Library.Serving
import Roxo.Snapshot.Computed
import Roxo.Snapshot.References
import Roxo.Snapshot.WellFormedPatch

/-!
# Pairing

Which instances a computed patch keeps. Under every paired instance the children of the snapshot
are served in order, each with the first free child of its name and class, so that as many are
paired as possible. What has no partner is added, and every child left over is removed.
-/

namespace Roxo

open AssocMap WeakDom RojoTree GreedyMatch Forest

variable {D : Type} [WeakDom D]

/-- The children of a snapshot and of the instance that it is paired with. `partners` says what each
child of the snapshot is paired with. -/
structure ChildrenPaired (tree : RojoTree D) (ids : Map Ref Ref) (patch : PatchSet)
    (s : InstanceSnapshot) (id : Ref) (partners : List (Option Ref)) : Prop where
  length : partners.length = s.children.length
  /-- Partners have the same name and class. -/
  fits : ∀ c x, (c, some x) ∈ s.children.zip partners →
    x ∈ kids tree.inner id ∧ keyOf tree x = some (c.name, c.className)
  injective : partners.Pairwise fun m m' => ∀ x, m = some x → m' ≠ some x
  /-- As many are paired as there are on both sides. -/
  maximum : ∀ name className,
    (s.children.zip partners).countP
        (fun slot => want slot.1 = some (name, className) ∧ slot.2.isSome) =
      min (s.children.countP fun c => want c = some (name, className))
        ((kids tree.inner id).countP fun x => keyOf tree x = some (name, className))
  /-- An earlier child takes the first one that is free. -/
  earliest : ∀ before c after, s.children = before ++ c :: after → ∃ taken later,
    partners = taken ++ ((kids tree.inner id).filter (some · ∉ taken)).find?
        (fun x => keyOf tree x = some (c.name, c.className)) :: later ∧
      taken.length = before.length
  added : patch.addedInstances.filter (fun a => a.parentId = id) =
    (unserved s.children partners).map fun c => rewriteRefsInAddition ids ⟨id, c⟩
  removed : ∀ x ∈ kids tree.inner id, x ∈ patch.removedInstances ↔ some x ∉ partners

/-- The pairs of a computed patch. -/
structure Pairing [FloatCmp] (tree : RojoTree D) (S : InstanceSnapshot) (I : Ref)
    (patch : PatchSet) (pairs : List (InstanceSnapshot × Ref)) : Prop where
  root : (S, I) ∈ pairs
  /-- The ids of paired snapshots are noted for their partners. -/
  noted : (computePatchSetInternal tree ∅ S I PatchSet.new).map Prod.fst =
    some (extend ∅ (pairIds pairs))
  updated : patch.updatedInstances = (pairs.filterMap fun pair => (pairUpdate tree pair).join).map
    (rewriteRefsInUpdate (extend ∅ (pairIds pairs)))
  /-- No instance is paired twice. -/
  injective : (pairs.map Prod.snd).Nodup
  children : ∀ s r, (s, r) ∈ pairs → ∃ partners,
    ChildrenPaired tree (extend ∅ (pairIds pairs)) patch s r partners ∧
      ∀ c x, (c, some x) ∈ s.children.zip partners → (c, x) ∈ pairs
  addedBelow : ∀ a ∈ patch.addedInstances, ∃ s, (s, a.parentId) ∈ pairs
  removedBelow : ∀ x ∈ patch.removedInstances, ∃ s r, (s, r) ∈ pairs ∧ x ∈ kids tree.inner r
  removedOnce : patch.removedInstances.Nodup
  /-- Nothing is created beside a removed instance of its name and class. -/
  kept : ∀ a ∈ patch.addedInstances, ∀ x ∈ patch.removedInstances, x ∈ kids tree.inner a.parentId →
    keyOf tree x ≠ some (a.inst.name, a.inst.className)

variable [LawfulWeakDom D] {tree : RojoTree D} {S s : InstanceSnapshot} {patch : PatchSet}
  {I r : Ref} {i : Instance}

theorem childrenPaired [FloatCmp] (hc : Computed tree S I patch)
    (hs : (s, r) ∈ (plan tree S I).pairs) :
    ChildrenPaired tree (pairMap tree S I) patch s r (partners tree s.children r) := by
  have hnodup : (kids tree.inner r).Nodup := (LawfulWeakDom.forest tree.inner).nodup r
  have hserves : Serves want (keyOf tree) s.children (partners tree s.children r)
      (kids tree.inner r) := serves_greedy _ _
  refine
    { length := hserves.length
      fits := fun c x hslot => (List.forall₂_iff_zip.mp hserves.forall₂).2 hslot x rfl
      injective := hserves.pairwise hnodup
      maximum := fun name className => hserves.countP _
      earliest := fun before c after hsplit => ?_, added := ?_, removed := fun x hx => ?_ }
  · obtain ⟨taken, later, heq, hlength⟩ :=
      greedy_split want (keyOf tree) hnodup before c after
    refine ⟨taken, later, ?_, hlength⟩
    rw [← hsplit] at heq
    exact heq
  · rw [hc.added, List.filter_map]
    have hparent : ((fun a : PatchAdd => decide (a.parentId = r)) ∘
        rewriteRefsInAddition (pairMap tree S I)) = fun a => decide (a.parentId = r) := rfl
    rw [hparent, additions_below hs, List.map_map]
    rfl
  · rw [hc.removed, mem_removals_iff]
    constructor
    · rintro ⟨s', r', hs', hun⟩ hpartner
      obtain ⟨c, hslot⟩ := exists_slot hpartner
      obtain rfl := (LawfulWeakDom.forest tree.inner).unique (mem_kids_of_unpaired hun) hx
      rw [eq_of_mem_pairs hs' hs] at hun
      exact not_unpaired_of_slot hslot hun
    · intro hnot
      refine ⟨s, r, hs, (slot_or_unpaired hx).resolve_left ?_⟩
      rintro ⟨c, hslot⟩
      exact hnot (List.of_mem_zip hslot).2

/-- **Identity is kept whenever possible.** -/
theorem pairing_computePatchSet [FloatCmp] (h : Inv tree) (hi : getByRef tree.inner I = some i)
    (hp : computePatchSet (some S) tree I = some patch) :
    ∃ pairs, Pairing tree S I patch pairs := by
  have hc := computePatchSet_computed h hi hp
  refine ⟨(plan tree S I).pairs, ?_⟩
  have hadded : ∀ a ∈ patch.addedInstances, ∃ s, (s, a.parentId) ∈ (plan tree S I).pairs ∧
      ∃ c ∈ unserved s.children (partners tree s.children a.parentId),
        a.inst.name = c.name ∧ a.inst.className = c.className := by
    intro a ha
    obtain ⟨a₀, ha₀, rfl⟩ := List.mem_map.mp (hc.added ▸ ha)
    obtain ⟨s, hs, -⟩ := parent_of_addition a₀ ha₀
    refine ⟨s, hs, a₀.inst, ?_, name_rewrite, className_rewrite⟩
    have hmem : a₀ ∈ (plan tree S I).additions.filter (fun a => a.parentId = a₀.parentId) :=
      List.mem_filter.mpr ⟨ha₀, decide_eq_true rfl⟩
    rw [additions_below hs] at hmem
    obtain ⟨c, hc, heq⟩ := List.mem_map.mp hmem
    exact heq ▸ hc
  refine
    { root := root_mem_pairs, noted := ?_, updated := hc.updated, injective := nodup_pairs
      children := fun s r hs =>
        ⟨_, childrenPaired hc hs, fun c x hslot => mem_pairs_of_slot hs hslot⟩
      addedBelow := fun a ha => (hadded a ha).imp fun s hs => hs.1
      removedBelow := fun x hx => ?_
      removedOnce := hc.removed ▸ nodup_removals
      kept := fun a ha x hx hkid => ?_ }
  · unfold computePatchSet at hp
    obtain ⟨⟨context, patchSet⟩, hint, -⟩ := Option.bind_eq_some_iff.mp hp
    rw [hint]
    rw [computePatchSetInternal_eq h hi] at hint
    obtain ⟨updates, -, hint⟩ := Option.bind_eq_some_iff.mp hint
    obtain ⟨rfl, -⟩ := Prod.mk.inj (Option.some.inj hint)
    rfl
  · obtain ⟨s, r, hs, hun⟩ := mem_removals_iff.mp (hc.removed ▸ hx)
    exact ⟨s, r, hs, mem_kids_of_unpaired hun⟩
  · obtain ⟨s, hs, c, hc', hname, hclass⟩ := hadded a ha
    rw [hname, hclass]
    obtain ⟨s', r', hs', hun⟩ := mem_removals_iff.mp (hc.removed ▸ hx)
    obtain rfl := (LawfulWeakDom.forest tree.inner).unique (mem_kids_of_unpaired hun) hkid
    rw [eq_of_mem_pairs hs' hs] at hun
    exact not_mem_rest_of_unserved s.children (kids tree.inner a.parentId) c hc' x hun

/-- Three children of one name and class meet two instances: those keep their ids. -/
theorem pairing_siblings : letI : FloatCmp := FloatCmp.exact
    ∃ patch pairs, computePatchSet (some regrouped) siblingsTree rootId = some patch ∧
      patch.removedInstances = [Ref.some 101] ∧ patch.addedInstances.length = 1 ∧
      Pairing siblingsTree regrouped rootId patch pairs := by
  let _ : FloatCmp := FloatCmp.exact
  have hcompute : (computePatchSet (some regrouped) siblingsTree rootId).isSome := by rfl
  have hpresent : (getByRef siblingsTree.inner rootId).isSome := by rfl
  obtain ⟨pairs, hpairs⟩ := pairing_computePatchSet inv_siblingsTree
    (Option.some_get hpresent).symm (Option.some_get hcompute).symm
  exact ⟨_, pairs, (Option.some_get hcompute).symm, by rfl, by rfl, hpairs⟩

end Roxo
