import Roxo.Plugin.Removals
import Roxo.Plugin.SiblingOrder

/-!
# Moving instances

Setting the parent of an instance changes parents and children only, and keeps the DOM well formed
unless the new parent is below the instance.
-/

namespace Roxo.Plugin

open Forest

variable {V : Type}

namespace Dom

/-- The two DOMs differ in parents and children at most. -/
structure SameInstances (dom dom' : Dom V) : Prop where
  next : dom'.next = dom.next
  instances : ∀ h, dom'.instances h =
    { dom.instances h with parent := dom'.parent h, children := dom'.getChildren h }

namespace SameInstances

variable {dom dom' dom'' : Dom V}

theorem refl (dom : Dom V) : SameInstances dom dom := ⟨rfl, fun _ => rfl⟩

theorem trans (h : SameInstances dom dom') (h' : SameInstances dom' dom'') :
    SameInstances dom dom'' where
  next := h'.next.trans h.next
  instances x := by rw [h'.instances, h.instances]

/-- Writing to the parent and the children of an instance. -/
theorem modify (dom : Dom V) (inst : Handle) (f : Instance V → Instance V)
    (hf : ∀ i, f i = { i with parent := (f i).parent, children := (f i).children }) :
    SameInstances dom (dom.modify inst f) where
  next := rfl
  instances h := by
    unfold Dom.parent getChildren
    by_cases hh : h = inst
    · rw [hh, modify_self]
      exact hf _
    · rw [modify_of_ne _ _ hh]

theorem detach (dom : Dom V) (inst : Handle) : SameInstances dom (dom.detach inst) := by
  unfold Dom.detach
  cases dom.parent inst with
  | none => exact .refl dom
  | some old => exact .modify dom old (fun i => { i with children := i.children.erase inst }) fun _ => rfl

theorem attach (dom : Dom V) (inst : Handle) (parent : Option Handle) :
    SameInstances dom (dom.attach inst parent) := by
  cases parent with
  | none => exact .refl dom
  | some new => exact .modify dom new (fun i => { i with children := i.children ++ [inst] }) fun _ => rfl

theorem setParent (dom : Dom V) (inst : Handle) (parent : Option Handle) :
    SameInstances dom (dom.setParent inst parent) := by
  unfold Dom.setParent
  split_ifs
  · exact .refl dom
  · exact ((detach dom inst).trans (attach _ inst parent)).trans
      (.modify _ inst (fun i => { i with parent }) fun _ => rfl)

theorem moveAll (dom : Dom V) (children : List Handle) (new : Handle) :
    SameInstances dom (dom.moveAll (fun _ => true) children new) := by
  induction children generalizing dom with
  | nil => exact .refl dom
  | cons c children ih => exact (setParent dom c (some new)).trans (ih _)

end SameInstances

/-- A move to an instance that is not below the moved one. -/
theorem WellFormed.setParent {dom : Dom V} (hwf : dom.WellFormed) {a p : Handle}
    (ha : a < dom.next) (hp : p < dom.next) (hnot : ¬ Desc dom.getChildren a p) :
    (dom.setParent a (some p)).WellFormed := by
  have hsame := SameInstances.setParent dom a (some p)
  have hne : p ≠ a := fun h => hnot (h ▸ .refl)
  have hmem : ∀ {x y}, y ∈ (dom.setParent a (some p)).getChildren x ↔
      if y = a then x = p else y ∈ dom.getChildren x := by
    intro x y
    rw [setParent_getChildren]
    have hiff := hwf.parent_iff (a := x) (b := y)
    have hnd := hwf.forest.nodup x
    by_cases hold : dom.parent a = some p
    · rw [if_pos hold]
      split_ifs with hy
      · rw [hiff, hy, hold, Option.some.injEq, eq_comm]
      · rfl
    · rw [if_neg hold, List.mem_append]
      by_cases hx : dom.parent a = some x
      · have hxp : p ≠ x := fun h => hold (h ▸ hx)
        rw [if_pos hx, if_neg fun h => hxp (Option.some.inj h), hnd.mem_erase_iff]
        by_cases hy : y = a <;> simp [hy, hxp.symm]
      · rw [if_neg hx]
        by_cases hy : y = a
        · rw [hy] at hiff ⊢
          by_cases hxp : p = x <;> simp [hxp, hiff, hx]
          · exact fun h => hxp h.symm
        · by_cases hxp : p = x <;> simp [hxp, hy]
  refine { forest := { nodup := fun x => ?_, unique := ?_, acyclic := ?_ }
           parent_iff := ?_, below := ?_, held := ?_ }
  · rw [setParent_getChildren]
    have hnd := hwf.forest.nodup x
    split_ifs with hold hx hpx hpx
    · exact hnd
    · exact absurd (hx.trans hpx.symm) hold
    · simpa using hnd.erase a
    · refine List.nodup_append.mpr ⟨hnd, List.nodup_singleton a, ?_⟩
      rintro y hy _ hya rfl
      rw [List.mem_singleton.mp hya] at hy
      exact hx (hwf.parent_iff.mp hy)
    · simpa using hnd
  · intro x x' y hx hx'
    rw [hmem] at hx hx'
    split_ifs at hx hx' with hy
    · rw [hx, hx']
    · exact hwf.forest.unique hx hx'
  · obtain ⟨depth, hdepth⟩ := hwf.forest.acyclic
    classical
    refine ⟨fun h => if Desc dom.getChildren a h then depth p + 1 + depth h else depth h,
      fun x y hxy => ?_⟩
    dsimp only
    rw [hmem] at hxy
    split_ifs at hxy with hy
    · subst hy hxy
      rw [if_neg hnot, if_pos .refl]
      omega
    · have hlt := hdepth x y hxy
      by_cases hax : Desc dom.getChildren a x
      · rw [if_pos hax, if_pos (hax.tail hxy)]
        omega
      · rw [if_neg hax, if_neg fun hay => hax (hwf.forest.desc_parent hay (Ne.symm hy) hxy)]
        exact hlt
  · intro x y
    rw [hmem, setParent_parent]
    split_ifs
    · rw [Option.some.injEq, eq_comm]
    · exact hwf.parent_iff
  · intro x y hxy
    rw [setParent_parent] at hxy
    rw [setParent_next]
    split_ifs at hxy with hy
    · rw [hy, ← Option.some.inj hxy]
      exact ⟨hp, ha⟩
    · exact hwf.below hxy
  · intro x name target hx hheld
    rw [setParent_next] at hx ⊢
    rw [hsame.instances] at hheld
    exact hwf.held hx hheld

/-- Moving the children of an instance to a sibling that is not among them. -/
theorem WellFormed.moveAll {dom : Dom V} (hwf : dom.WellFormed) {old new : Handle}
    {children : List Handle} (hnew : new < dom.next) (hne : old ≠ new)
    (hsibling : dom.parent new = dom.parent old) (hchildren : ∀ c ∈ children, dom.parent c = some old)
    (hnd : children.Nodup) : (dom.moveAll (fun _ => true) children new).WellFormed := by
  induction children generalizing dom with
  | nil => exact hwf
  | cons c children ih =>
    have hc := hchildren c List.mem_cons_self
    have hcnew : c ≠ new := by
      rintro rfl
      rw [hc] at hsibling
      exact hwf.forest.ne_of_mem (hwf.parent_iff.mpr hsibling.symm) rfl
    have hcold : c ≠ old := hwf.forest.ne_of_mem (hwf.parent_iff.mpr hc)
    have hnot : ¬ Desc dom.getChildren c new := by
      intro hd
      rcases Relation.ReflTransGen.cases_tail hd with heq | ⟨p, hcp, hp⟩
      · exact hcnew heq.symm
      · have hpold : old ∈ dom.getChildren p := by
          rw [hwf.parent_iff, ← hsibling]
          exact hwf.parent_iff.mp hp
        exact hwf.forest.not_desc_of_mem (hwf.parent_iff.mpr hc) (hcp.tail hpold)
    obtain ⟨hnotmem, hnd⟩ := List.nodup_cons.mp hnd
    refine ih (hwf.setParent (hwf.below hc).2 hnew hnot) ((setParent_next _ _ _).symm ▸ hnew) ?_ ?_ hnd
    · show (dom.setParent c (some new)).parent new = (dom.setParent c (some new)).parent old
      rw [setParent_parent, setParent_parent, if_neg hcnew.symm, if_neg hcold.symm]
      exact hsibling
    · intro x hx
      show (dom.setParent c (some new)).parent x = some old
      rw [setParent_parent, if_neg (ne_of_mem_of_not_mem hx hnotmem)]
      exact hchildren x (List.mem_cons_of_mem _ hx)

/-- Taking an instance out of the DOM. -/
theorem WellFormed.setParent_none {dom : Dom V} (hwf : dom.WellFormed) (inst : Handle) :
    (dom.setParent inst none).WellFormed :=
  ((Pruned.refl dom).remove hwf inst).wellFormed hwf

end Dom

end Roxo.Plugin
