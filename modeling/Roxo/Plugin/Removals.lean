import Roxo.Plugin.ApplyPatch

/-!
# Removing unknown instances

Removing instances that are not mapped, with nothing mapped below them, takes them out of the child
lists and leaves the map as it is.
-/

namespace Roxo.Plugin

open AssocMap Forest

variable {V E : Type}

/-- The DOM without the instances in `removed`: they have no parent and are no children. -/
structure Pruned (removed : List Handle) (dom dom' : Dom V) : Prop where
  next : dom'.next = dom.next
  instances : ∀ h, dom'.instances h =
    { dom.instances h with
      parent := if h ∈ removed then none else dom.parent h
      children := (dom.getChildren h).filter (· ∉ removed) }

namespace Pruned

variable {removed : List Handle} {dom dom' : Dom V} (hp : Pruned removed dom dom')

theorem refl (dom : Dom V) : Pruned [] dom dom where
  next := rfl
  instances h := by simp [Dom.parent, Dom.getChildren]

include hp

theorem parent (h : Handle) : dom'.parent h = if h ∈ removed then none else dom.parent h := by
  unfold Dom.parent
  rw [hp.instances]
  rfl

theorem getChildren (h : Handle) :
    dom'.getChildren h = (dom.getChildren h).filter (· ∉ removed) := by
  unfold Dom.getChildren
  rw [hp.instances]
  rfl

theorem mem_getChildren {a b : Handle} :
    b ∈ dom'.getChildren a ↔ b ∈ dom.getChildren a ∧ b ∉ removed := by
  rw [hp.getChildren, List.mem_filter, decide_eq_true_eq]

theorem desc_of_desc {a b : Handle} (h : Desc dom'.getChildren a b) :
    Desc dom.getChildren a b :=
  Relation.ReflTransGen.mono (fun _ _ hc => (hp.mem_getChildren.mp hc).1) _ _ h

theorem wellFormed (hwf : dom.WellFormed) : dom'.WellFormed where
  forest :=
    { nodup := fun a => by
        rw [hp.getChildren]
        exact (hwf.forest.nodup a).filter _
      unique := fun h h' =>
        hwf.forest.unique (hp.mem_getChildren.mp h).1 (hp.mem_getChildren.mp h').1
      acyclic := by
        obtain ⟨depth, hdepth⟩ := hwf.forest.acyclic
        exact ⟨depth, fun a b h => hdepth a b (hp.mem_getChildren.mp h).1⟩ }
  parent_iff := by
    intro a b
    rw [hp.mem_getChildren, hp.parent, hwf.parent_iff]
    split_ifs with h
    · simp [h]
    · simp [h]
  below := by
    intro a b h
    rw [hp.parent] at h
    split_ifs at h
    rw [hp.next]
    exact hwf.below h
  held := by
    intro a name target ha hx
    rw [hp.instances] at hx
    rw [hp.next] at ha ⊢
    exact hwf.held ha hx

end Pruned

/-- Setting the parent to `nil`. -/
theorem setParent_none {dom : Dom V} (hwf : dom.WellFormed) (inst h : Handle) :
    (dom.setParent inst none).instances h =
      { dom.instances h with
        parent := if h = inst then none else dom.parent h
        children := (dom.getChildren h).filter (· ≠ inst) } := by
  have hfilter : ∀ a, inst ∉ dom.getChildren a →
      (dom.getChildren a).filter (· ≠ inst) = dom.getChildren a := by
    intro a ha
    refine List.filter_eq_self.mpr fun c hc => decide_eq_true ?_
    rintro rfl
    exact ha hc
  have herase : ∀ a, (dom.getChildren a).erase inst = (dom.getChildren a).filter (· ≠ inst) := by
    intro a
    rw [(hwf.forest.nodup a).erase_eq_filter]
    refine List.filter_congr fun c _ => ?_
    by_cases hc : c = inst <;> simp [hc]
  unfold Dom.setParent
  cases hparent : dom.parent inst with
  | none =>
    rw [if_pos rfl, hfilter]
    · split_ifs with hh
      · subst hh
        rw [← hparent]
        rfl
      · rfl
    · intro hmem
      rw [hwf.parent_iff, hparent] at hmem
      cases hmem
  | some old =>
    have hne : inst ≠ old := hwf.forest.ne_of_mem (hwf.parent_iff.mpr hparent)
    have hself : inst ∉ dom.getChildren inst := fun h => hwf.forest.ne_of_mem h rfl
    rw [if_neg (Option.some_ne_none old)]
    simp only [Dom.detach, hparent, Dom.attach]
    by_cases hh : h = inst
    · subst hh
      rw [Dom.modify_self, Dom.modify_of_ne _ _ hne, if_pos rfl, hfilter _ hself]
      rfl
    · rw [Dom.modify_of_ne _ _ hh, if_neg hh]
      by_cases ho : h = old
      · subst ho
        rw [Dom.modify_self, ← herase]
        rfl
      · have hnot : inst ∉ dom.getChildren h := by
          intro hmem
          rw [hwf.parent_iff, hparent, Option.some.injEq] at hmem
          exact ho hmem.symm
        rw [Dom.modify_of_ne _ _ ho, hfilter _ hnot]
        rfl

theorem Pruned.remove {removed : List Handle} {dom dom' : Dom V} (hwf : dom.WellFormed)
    (hp : Pruned removed dom dom') (inst : Handle) :
    Pruned (removed ++ [inst]) dom (dom'.setParent inst none) where
  next := (Dom.setParent_next _ _ _).trans hp.next
  instances h := by
    rw [setParent_none (hp.wellFormed hwf), hp.parent, hp.getChildren, hp.instances,
      List.filter_filter]
    have hchildren : (dom.getChildren h).filter (fun c => decide (c ≠ inst) && decide (c ∉ removed)) =
        (dom.getChildren h).filter (· ∉ removed ++ [inst]) := by
      refine List.filter_congr fun c _ => ?_
      by_cases h₁ : c = inst <;> by_cases h₂ : c ∈ removed <;> simp [h₁, h₂]
    rw [hchildren]
    by_cases h₁ : h = inst <;> by_cases h₂ : h ∈ removed <;> simp [h₁, h₂]

/-- Taking instances out of the map that are not in it. -/
theorem foldl_removeInstance {map : InstanceMap} (hi : map.Inverse) {l : List Handle}
    (hl : ∀ inst ∈ l, map.fromInstances.lookup inst = none) :
    (l.foldl InstanceMap.removeInstance map).Inverse ∧
      ∀ i, (l.foldl InstanceMap.removeInstance map).fromIds.lookup i = map.fromIds.lookup i := by
  induction l generalizing map with
  | nil => exact ⟨hi, fun _ => rfl⟩
  | cons inst l ih =>
    have hnone : ∀ i, map.fromIds.lookup i ≠ some inst := by
      intro i h
      rw [hi, hl inst List.mem_cons_self] at h
      cases h
    obtain ⟨hinv, hsame⟩ := ih (hi.removeInstance inst) fun x hx => by
      rw [InstanceMap.removeInstance_fromInstances, hl x (List.mem_cons_of_mem _ hx)]
      exact ite_self none
    refine ⟨hinv, fun i => (hsame i).trans ?_⟩
    rw [InstanceMap.removeInstance_fromIds hi, if_neg (hnone i)]

theorem desc_of_mem_getDescendants {dom : Dom V} {inst x : Handle}
    (h : x ∈ dom.getDescendants inst) : Desc dom.getChildren inst x := by
  unfold Dom.getDescendants at h
  obtain ⟨c, hc, hd⟩ := desc_of_mem_bfs h
  exact (Desc.of_mem hc).trans hd

/-- Destroying an instance with nothing mapped in its subtree. -/
theorem destroyInstance_eq {dom : Dom V} {map : InstanceMap} (hi : map.Inverse) {inst : Handle}
    (hlocked : (dom.instances inst).locked = false)
    (hun : ∀ x, Desc dom.getChildren inst x → map.fromInstances.lookup x = none) :
    ∃ map', map.destroyInstance dom inst = .ok (dom.setParent inst none, map') ∧
      map'.Inverse ∧ ∀ i, map'.fromIds.lookup i = map.fromIds.lookup i := by
  obtain ⟨hinv, hsame⟩ := foldl_removeInstance hi fun x hx => hun x (desc_of_mem_getDescendants hx)
  refine ⟨_, ?_, hinv, hsame⟩
  unfold InstanceMap.destroyInstance
  rw [hun inst .refl, hlocked]
  rfl

/-- Removing unknown instances from the start. -/
theorem foldl_applyRemoved {dom : Dom V} {map : InstanceMap} (hwf : dom.WellFormed)
    (hi : map.Inverse) {removed : List Handle}
    (hlocked : ∀ inst ∈ removed, (dom.instances inst).locked = false)
    (hun : ∀ inst ∈ removed, ∀ x, Desc dom.getChildren inst x →
      map.fromInstances.lookup x = none) :
    ∃ dom' map', (removed.map Removed.inst).foldl applyRemoved (.start dom map : Work V E) =
        .start dom' map' ∧ Pruned removed dom dom' ∧ map'.Inverse ∧
      ∀ i, map'.fromIds.lookup i = map.fromIds.lookup i := by
  induction removed using List.reverseRecOn with
  | nil => exact ⟨dom, map, rfl, .refl dom, hi, fun _ => rfl⟩
  | append_singleton removed inst ih =>
    obtain ⟨dom₁, map₁, hrun, hp, hinv, hsame⟩ := ih
      (fun x hx => hlocked x (List.mem_append_left _ hx))
      (fun x hx => hun x (List.mem_append_left _ hx))
    have hmem : inst ∈ removed ++ [inst] := List.mem_append_right _ (List.mem_singleton_self _)
    have hnone : ∀ x, Desc dom₁.getChildren inst x → map₁.fromInstances.lookup x = none := by
      intro x hx
      have hx' := hun inst hmem x (hp.desc_of_desc hx)
      cases hl : map₁.fromInstances.lookup x with
      | none => rfl
      | some i =>
        rw [← hinv, hsame, hi, hx'] at hl
        cases hl
    have hfree : (dom₁.instances inst).locked = false := by
      rw [hp.instances]
      exact hlocked inst hmem
    obtain ⟨map₂, hdestroy, hinv₂, hsame₂⟩ := destroyInstance_eq hinv hfree hnone
    refine ⟨_, map₂, ?_, hp.remove hwf inst, hinv₂, fun i => (hsame₂ i).trans (hsame i)⟩
    rw [List.map_append, List.foldl_append, hrun]
    change applyRemoved (.start dom₁ map₁) (.inst inst) = _
    unfold applyRemoved
    simp only [Work.start, hdestroy]

end Roxo.Plugin
