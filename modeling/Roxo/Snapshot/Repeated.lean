import Mathlib.Data.List.Perm.Subperm
import Roxo.Library.Transition
import Roxo.Snapshot.Outcome
import Roxo.Snapshot.WellFormedPatch

/-!
# Patching again with one snapshot

A file event makes a snapshot of a subtree even if nothing in it has changed. Properties may be
written again by a second patch, but the structure has settled after the first: from then on every
node of the snapshot has its instance, and nothing is added or removed (`settled_of_run`).
-/

namespace Roxo

open AssocMap WeakDom RojoTree GreedyMatch Forest Transition

variable {D : Type} [WeakDom D]

/-- The snapshot is compared with the subtree at an instance, and the patch is applied. -/
def Repatch [FloatCmp] (S : InstanceSnapshot) (I : Ref) (tree : RojoTree D) (patch : PatchSet)
    (tree' : RojoTree D) : Prop :=
  computePatchSet (some S) tree I = some patch ∧
    ∃ applied, applyPatchSet tree patch = some (tree', applied)

/-- The nodes of the snapshot have the instances of `pairs`, and nothing is left over. -/
structure Settled (S : InstanceSnapshot) (I : Ref) (pairs : List (InstanceSnapshot × Ref))
    (tree : RojoTree D) : Prop where
  inv : Inv tree
  root : (getByRef tree.inner I).isSome
  planned : (plan tree S I).pairs.Perm pairs
  additions : (plan tree S I).additions = []
  removals : (plan tree S I).removals = []
  nodes : pairs.map Prod.fst = S.nodes
  keys : ∀ s r, (s, r) ∈ pairs → keyOf tree r = want s

section Repatch

variable [LawfulWeakDom D] [FloatCmp] {tree tree' : RojoTree D} {S : InstanceSnapshot} {I : Ref}
  {patch : PatchSet} {pairs : List (InstanceSnapshot × Ref)}

/-- A step, with what is known of the patch and of its application. -/
theorem Repatch.exists_applied (h : Inv tree) (hroot : (getByRef tree.inner I).isSome)
    (hstep : Repatch S I tree patch tree') : ∃ i tops created applied,
      getByRef tree.inner I = some i ∧ Computed tree S I patch ∧
        Applied tree patch tops created tree' applied := by
  obtain ⟨i, hi⟩ := Option.isSome_iff_exists.mp hroot
  obtain ⟨hp, applied, happly⟩ := hstep
  obtain ⟨tops, created, tree'', applied', heq, ha⟩ :=
    applyPatchSet_applied h (h.patchOk_of_present hi hp)
  obtain ⟨rfl, rfl⟩ := Prod.mk.inj (Option.some.inj (happly.symm.trans heq))
  exact ⟨i, tops, created, applied, hi, computePatchSet_computed h hi hp, ha⟩

/-- The first patch settles the structure. -/
theorem Repatch.settled (h : Inv tree) (hroot : (getByRef tree.inner I).isSome)
    (hstep : Repatch S I tree patch tree') : Settled S I (plan tree' S I).pairs tree' := by
  obtain ⟨i, tops, created, applied, hi, hc, ha⟩ := hstep.exists_applied h hroot
  obtain ⟨-, i', -, hi', -⟩ := paired_after h hc ha hi root_mem_pairs
  obtain ⟨hadditions, hremovals⟩ := plan_after h hc ha hi
  exact
    { inv := ha.inv
      root := Option.isSome_of_eq_some hi'
      planned := List.Perm.refl _
      additions := hadditions
      removals := hremovals
      nodes := nodes_after h hc ha hi S I root_stands
      keys := fun s r hs => (stands_of_mem_pairs h hc ha hi s r hs).key h hc ha hi }

/-- What has settled is not changed by another patch. -/
theorem Settled.step (hs : Settled S I pairs tree) (hstep : Repatch S I tree patch tree') :
    patch.addedInstances = [] ∧ patch.removedInstances = [] ∧ Settled S I pairs tree' := by
  obtain ⟨i, tops, created, applied, hi, hc, ha⟩ := hstep.exists_applied hs.inv hs.root
  have hadded : patch.addedInstances = [] := by
    rw [hc.added, hs.additions]
    rfl
  have hcreated : created = [] := by
    have hcreates := ha.creates
    rw [hadded] at hcreates
    cases hcreates
    rfl
  subst hcreated
  have hsettled := hstep.settled hs.inv hs.root
  have hpair : ∀ s r, StandsFor tree S I [] s r → (s, r) ∈ (plan tree S I).pairs := by
    rintro s r (hmem | ⟨c, hc, -⟩)
    · exact hmem
    · cases hc
  have hsubset : (plan tree' S I).pairs ⊆ (plan tree S I).pairs := fun pair hmem =>
    hpair _ _ (stands_of_mem_pairs hs.inv hc ha hi pair.1 pair.2 hmem)
  have hlength : (plan tree S I).pairs.length ≤ (plan tree' S I).pairs.length := by
    have hnodes := congrArg List.length (hs.nodes.trans hsettled.nodes.symm)
    rw [List.length_map, List.length_map] at hnodes
    exact (hs.planned.length_eq.trans hnodes).le
  have hperm : (plan tree' S I).pairs.Perm (plan tree S I).pairs :=
    (List.subperm_of_subset (List.Nodup.of_map _ nodup_pairs) hsubset).perm_of_length_le hlength
  refine ⟨hadded, hc.removed.trans hs.removals, ?_⟩
  exact
    { inv := ha.inv
      root := hsettled.root
      planned := hperm.trans hs.planned
      additions := hsettled.additions
      removals := hsettled.removals
      nodes := hs.nodes
      keys := fun s r hmem => hsettled.keys s r ((hperm.trans hs.planned).mem_iff.mpr hmem) }

theorem Settled.run (hs : Settled S I pairs tree) {run : List (PatchSet × RojoTree D)}
    (hrun : Run (Repatch S I) tree run) :
    (∀ x ∈ run, x.1.addedInstances = [] ∧ x.1.removedInstances = []) ∧
      ∀ x ∈ run, Settled S I pairs x.2 := by
  induction hrun with
  | nil => exact ⟨List.forall_mem_nil _, List.forall_mem_nil _⟩
  | cons hstep hrun ih =>
    obtain ⟨hadded, hremoved, ht⟩ := hs.step hstep
    obtain ⟨hpatches, hstates⟩ := ih ht
    exact ⟨List.forall_mem_cons.mpr ⟨⟨hadded, hremoved⟩, hpatches⟩,
      List.forall_mem_cons.mpr ⟨ht, hstates⟩⟩

/-- **The structure settles.** However often a snapshot is patched into the subtree at an instance,
only the first patch adds or removes instances, and after each of them the same instances stand for
the nodes of the snapshot, with their names and classes. -/
theorem settled_of_run (h : Inv tree) (hroot : (getByRef tree.inner I).isSome)
    {run : List (PatchSet × RojoTree D)} (hrun : Run (Repatch S I) tree run) :
    (∀ x ∈ run.tail, x.1.addedInstances = [] ∧ x.1.removedInstances = []) ∧
      ∃ pairs : List (InstanceSnapshot × Ref), (pairs.map Prod.snd).Nodup ∧
        (run ≠ [] → pairs.map Prod.fst = S.nodes) ∧
        ∀ x ∈ run, ∀ s r, (s, r) ∈ pairs → ∃ i, getByRef x.2.inner r = some i ∧
          i.name = s.name ∧ i.className = s.className := by
  cases hrun with
  | nil =>
    exact ⟨List.forall_mem_nil _, [], List.nodup_nil, fun hne => absurd rfl hne,
      List.forall_mem_nil _⟩
  | @cons _ tree₁ patch rest hstep hrest =>
    have hsettled := hstep.settled h hroot
    obtain ⟨hpatches, hstates⟩ := hsettled.run hrest
    refine ⟨hpatches, _, nodup_pairs, fun _ => hsettled.nodes, fun x hx s r hmem => ?_⟩
    have hkey : keyOf x.2 r = want s := by
      rcases List.mem_cons.mp hx with rfl | hx
      · exact hsettled.keys s r hmem
      · exact (hstates x hx).keys s r hmem
    obtain ⟨i, hi, heq⟩ := Option.map_eq_some_iff.mp hkey
    exact ⟨i, hi, Prod.mk.inj heq⟩

end Repatch

theorem isSome_regroupedPatch : letI : FloatCmp := FloatCmp.exact
    (computePatchSet (some regrouped) siblingsTree (Ref.some 0)).isSome := by rfl

def regroupedPatch : PatchSet := Option.get _ isSome_regroupedPatch

theorem isSome_regroupedTree : letI : FloatCmp := FloatCmp.exact
    (applyPatchSet siblingsTree regroupedPatch).isSome := by rfl

def regroupedTree : RojoTree MapDom := (Option.get _ isSome_regroupedTree).1

/-- The first patch adds a child and removes one, the second does neither. -/
theorem settled_siblings : letI : FloatCmp := FloatCmp.exact
    ∃ second tree', regroupedPatch.addedInstances.length = 1 ∧
      regroupedPatch.removedInstances = [Ref.some 101] ∧
      Run (Repatch regrouped (Ref.some 0)) siblingsTree
        [(regroupedPatch, regroupedTree), (second, tree')] ∧
      second.addedInstances = [] ∧ second.removedInstances = [] := by
  let _ : FloatCmp := FloatCmp.exact
  have hstep : ((computePatchSet (some regrouped) regroupedTree (Ref.some 0)).bind
      (applyPatchSet regroupedTree)).isSome := by decide +kernel
  obtain ⟨⟨tree', applied⟩, hstep⟩ := Option.isSome_iff_exists.mp hstep
  obtain ⟨second, hsecond, happly⟩ := Option.bind_eq_some_iff.mp hstep
  have hrun : Run (Repatch regrouped (Ref.some 0)) siblingsTree
      [(regroupedPatch, regroupedTree), (second, tree')] :=
    .cons ⟨(Option.some_get _).symm, _, (Option.some_get isSome_regroupedTree).symm⟩
      (.cons ⟨hsecond, applied, happly⟩ (.nil _))
  have hsettled := (settled_of_run inv_siblingsTree rfl hrun).1 _ (List.mem_singleton_self _)
  exact ⟨second, tree', by rfl, by rfl, hrun, hsettled⟩

end Roxo
