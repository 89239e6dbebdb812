import Roxo.Snapshot.PatchApply
import Roxo.Snapshot.TreeInvariant

/-!
# The removals of a patch

What the first phase of `applyPatchSet` does to a tree when none of the removed instances is
below another.
-/

namespace Roxo

open AssocMap WeakDom RojoTree Forest

variable {D : Type} [WeakDom D] [LawfulWeakDom D] {tree tree' : RojoTree D} {x y z : Ref}

omit [LawfulWeakDom D] in
/-- After a removal the child lists are the pruned ones. -/
theorem kids_removed (h : Removed tree x tree') : kids tree'.inner = prune (kids tree.inner) x := by
  funext a
  unfold prune
  split_ifs with ha
  · unfold kids
    rw [h.gone a ha]
  · unfold kids
    rw [h.kept a ha]
    cases getByRef tree.inner a with
    | none => rfl
    | some i => rfl

/-- The subtrees that are not touched by a removal. -/
theorem desc_removed (h : Removed tree x tree') (hxy : ¬ Desc (kids tree.inner) x y)
    (hyx : ¬ Desc (kids tree.inner) y x) :
    Desc (kids tree'.inner) y z ↔ Desc (kids tree.inner) y z := by
  have hf := LawfulWeakDom.forest tree.inner
  rw [kids_removed h]
  refine ⟨Desc.of_prune, fun hyz => (desc_prune fun hxz => ?_).mpr hyz⟩
  exact (hf.desc_or_desc hxz hyz).elim hxy hyx

/-- `y` is one of the removed instances or below one. -/
def Below (tree : RojoTree D) (removed : List Ref) (y : Ref) : Prop :=
  ∃ x ∈ removed, Desc (kids tree.inner) x y

/-- The removed instances are there, without the root, each once and none below another. -/
structure Removable (tree : RojoTree D) (removed : List Ref) : Prop where
  present : ∀ x ∈ removed, (getByRef tree.inner x).isSome
  not_root : ∀ x ∈ removed, x ≠ tree.getRootId
  nodup : removed.Nodup
  incomparable : ∀ x ∈ removed, ∀ y ∈ removed, Desc (kids tree.inner) x y → x = y

/-- `tree'` is `tree` without the removed instances and everything below them. -/
structure RemovedAll (tree : RojoTree D) (removed : List Ref) (tree' : RojoTree D) : Prop where
  inv : Inv tree'
  root : tree'.getRootId = tree.getRootId
  issued : ∀ y, Issued tree.inner y → Issued tree'.inner y
  gone : ∀ y, Below tree removed y → getByRef tree'.inner y = none
  kept : ∀ y, ¬ Below tree removed y → getByRef tree'.inner y =
    (getByRef tree.inner y).map fun i => { i with children := i.children.filter (· ∉ removed) }
  metadata : ∀ y, ¬ Below tree removed y →
    tree'.metadataMap.lookup y = tree.metadataMap.lookup y

theorem applyRemovals (h : Inv tree) {removed : List Ref} (hr : Removable tree removed)
    (context : PatchApplyContext) :
    ∃ tree', removed.foldlM
        (fun state removedId => applyRemoveInstance state.1 state.2 removedId) (context, tree) =
      some (removed.foldl PatchApplyContext.recordRemoved context, tree') ∧
      RemovedAll tree removed tree' := by
  induction removed generalizing tree context with
  | nil =>
    refine ⟨tree, rfl, h, rfl, fun _ => id, fun y ⟨_, hx, _⟩ => absurd hx List.not_mem_nil,
      fun y _ => ?_, fun _ _ => rfl⟩
    · cases getByRef tree.inner y with
      | none => rfl
      | some i =>
        have hfilter : i.children.filter (· ∉ ([] : List Ref)) = i.children :=
          List.filter_eq_self.mpr fun _ _ => decide_eq_true List.not_mem_nil
        rw [Option.map_some, hfilter]
  | cons x removed ih =>
    obtain ⟨hx, hnodup⟩ := List.nodup_cons.mp hr.nodup
    obtain ⟨i, hi⟩ := Option.isSome_iff_exists.mp (hr.present x List.mem_cons_self)
    obtain ⟨tree₁, h₁, hrem⟩ := h.remove hi (hr.not_root x List.mem_cons_self)
    -- the other removed instances are not touched by the first removal
    have hxy : ∀ y ∈ removed, ¬ Desc (kids tree.inner) x y := fun y hy hd =>
      hx (hr.incomparable x List.mem_cons_self y (List.mem_cons_of_mem _ hy) hd ▸ hy)
    have hyx : ∀ y ∈ removed, ¬ Desc (kids tree.inner) y x := fun y hy hd =>
      hx (hr.incomparable y (List.mem_cons_of_mem _ hy) x List.mem_cons_self hd ▸ hy)
    have hdesc : ∀ y ∈ removed, ∀ z, Desc (kids tree₁.inner) y z ↔ Desc (kids tree.inner) y z :=
      fun y hy z => desc_removed hrem (hxy y hy) (hyx y hy)
    have hr₁ : Removable tree₁ removed := by
      refine ⟨fun y hy => ?_, fun y hy => ?_, hnodup, fun y hy z hz hd => ?_⟩
      · rw [hrem.kept y (hxy y hy), Option.isSome_map]
        exact hr.present y (List.mem_cons_of_mem _ hy)
      · rw [hrem.root]
        exact hr.not_root y (List.mem_cons_of_mem _ hy)
      · exact hr.incomparable y (List.mem_cons_of_mem _ hy) z (List.mem_cons_of_mem _ hz)
          ((hdesc y hy z).mp hd)
    have hbelow : ∀ y, Below tree (x :: removed) y ↔
        Desc (kids tree.inner) x y ∨ Below tree₁ removed y := by
      intro y
      unfold Below
      simp only [List.mem_cons, exists_eq_or_imp]
      refine or_congr Iff.rfl (exists_congr fun z => and_congr_right fun hz => ?_)
      exact (hdesc z hz y).symm
    obtain ⟨tree', h', hall⟩ := ih hrem.inv hr₁ (context.recordRemoved x)
    refine ⟨tree', ?_, hall.inv, hall.root.trans hrem.root, fun y hy => hall.issued y
      (hrem.issued y hy), fun y hy => ?_, fun y hy => ?_, fun y hy => ?_⟩
    · have hstep : applyRemoveInstance context tree x = some (context.recordRemoved x, tree₁) := by
        unfold applyRemoveInstance
        rw [h₁]
        rfl
      rw [List.foldlM_cons, hstep]
      exact h'
    · by_cases hb : Below tree₁ removed y
      · exact hall.gone y hb
      · rw [hall.kept y hb, hrem.gone y (((hbelow y).mp hy).resolve_right hb)]
        rfl
    · rw [hbelow, not_or] at hy
      rw [hall.kept y hy.2, hrem.kept y hy.1, Option.map_map]
      refine congrArg (Option.map · _) (funext fun i => ?_)
      dsimp only [Function.comp]
      have hfilter : (i.children.filter (· ≠ x)).filter (· ∉ removed) =
          i.children.filter (· ∉ x :: removed) := by
        rw [List.filter_filter]
        refine List.filter_congr fun z _ => ?_
        rw [Bool.eq_iff_iff]
        simp only [Bool.and_eq_true, decide_eq_true_eq, List.mem_cons, not_or, ne_eq, and_comm]
      rw [hfilter]
    · rw [hbelow, not_or] at hy
      rw [hall.metadata y hy.2, hrem.metadata y hy.1]

end Roxo
