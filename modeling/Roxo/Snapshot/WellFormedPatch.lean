import Roxo.Snapshot.TreeRuns

/-!
# Computed patches are well formed

Removals come before additions and updates, and each of them panics where an instance is missing.
A computed patch keeps the removed, the paired and the added parts of the tree apart
(`computePatchSet_wellFormed`), so applying it never panics and misses no update.
-/

namespace Roxo

open AssocMap Forest WeakDom RojoTree

variable {D : Type} [WeakDom D]

/-- The removed subtrees are apart, and nothing is added to them or updated in them. -/
structure WellFormed (tree : RojoTree D) (patch : PatchSet) : Prop where
  nodup : patch.removedInstances.Nodup
  apart : ∀ x ∈ patch.removedInstances, ∀ y ∈ patch.removedInstances, x ≠ y →
    ¬ Desc (kids tree.inner) x y ∧ ¬ Desc (kids tree.inner) y x
  parents : ∀ a ∈ patch.addedInstances, ∀ x ∈ patch.removedInstances,
    ¬ Desc (kids tree.inner) x a.parentId
  updates : ∀ u ∈ patch.updatedInstances, ∀ x ∈ patch.removedInstances,
    ¬ Desc (kids tree.inner) x u.id

theorem PatchOk.wellFormed [LawfulWeakDom D] {tree : RojoTree D} {patch : PatchSet}
    (h : PatchOk tree patch) : WellFormed tree patch where
  nodup := h.removable.nodup
  apart x hx y hy hne :=
    ⟨fun hd => hne (h.removable.incomparable x hx y hy hd),
      fun hd => hne (h.removable.incomparable y hy x hx hd).symm⟩
  parents a ha x hx hd := (h.parents a ha).2 ⟨x, hx, hd⟩
  updates u hu x hx hd := (h.updated u hu).2 ⟨x, hx, hd⟩

/-- **A computed patch is well formed**, and applying it records every removal and every update: no
branch of it is one that should not be reached. -/
theorem computePatchSet_wellFormed [LawfulWeakDom D] [FloatCmp] {tree : RojoTree D} {id : Ref}
    {i : Instance} {snapshot : Option InstanceSnapshot} {patch : PatchSet} (h : Inv tree)
    (hi : getByRef tree.inner id = some i) (hp : computePatchSet snapshot tree id = some patch) :
    WellFormed tree patch ∧
      ∃ tree' applied, applyPatchSet tree patch = some (tree', applied) ∧
        applied.removed = patch.removedInstances ∧
        applied.updated = patch.updatedInstances.map recordUpdate := by
  have hok : PatchOk tree patch := h.patchOk_of_present hi hp
  obtain ⟨tops, created, tree', applied, heq, ha⟩ := applyPatchSet_applied h hok
  refine ⟨hok.wellFormed, tree', applied, heq, ?_, ?_⟩
  · rw [ha.recorded]
  · rw [ha.recorded]

/-- A child without children of its own. -/
def plainChild (name className : String) : InstanceSnapshot :=
  { InstanceSnapshot.new with name, className }

/-- A root with two children of one name and class, and a third one. -/
def siblings : InstanceSnapshot :=
  { InstanceSnapshot.new with
    name := "Root"
    className := "Folder"
    children := [plainChild "A" "Folder", plainChild "B" "Part", plainChild "A" "Folder"] }

def siblingsTree : RojoTree MapDom := (RojoTree.new siblings).get rfl

theorem inv_siblingsTree : Inv siblingsTree := Inv.new (Option.some_get _).symm

/-- A third child of that name and class in place of the other one; the first has a path now. -/
def regrouped : InstanceSnapshot :=
  { siblings with
    children := [
      { plainChild "A" "Folder" with metadata := { relevantPaths := [⟨true, ["a"]⟩] } },
      plainChild "A" "Folder",
      plainChild "A" "Folder"] }

/-- Two children are paired, one is removed and one is added. -/
theorem computePatchSet_wellFormed_siblings : letI : FloatCmp := FloatCmp.exact
    ∃ patch, computePatchSet (some regrouped) siblingsTree (Ref.some 0) = some patch ∧
      patch.removedInstances = [Ref.some 101] ∧ patch.addedInstances.length = 1 ∧
      patch.updatedInstances.map PatchUpdate.id = [Ref.some 100] ∧
      WellFormed siblingsTree patch ∧
      ∃ tree' applied, applyPatchSet siblingsTree patch = some (tree', applied) ∧
        applied.removed = patch.removedInstances ∧
        applied.updated = patch.updatedInstances.map recordUpdate := by
  let _ : FloatCmp := FloatCmp.exact
  have hcompute : (computePatchSet (some regrouped) siblingsTree (Ref.some 0)).isSome := by rfl
  have hpatch := (Option.some_get hcompute).symm
  exact ⟨_, hpatch, by rfl, by rfl, by rfl, computePatchSet_wellFormed inv_siblingsTree
    (i := (getByRef siblingsTree.inner (Ref.some 0)).get rfl) (Option.some_get _).symm hpatch⟩

end Roxo
