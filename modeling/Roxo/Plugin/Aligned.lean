import Roxo.Plugin.Diff
import Roxo.Plugin.Hydrated

/-!
# Maps that follow both trees

`Aligned` says that the instance of an id is a child of the instance of its virtual parent. What
`diff` finds is described for such a map: the unknown children to remove, the updates of mapped
instances and the ids without an instance.
-/

namespace Roxo.Plugin

open AssocMap Forest

variable {V E : Type}

/-- Mapped instances hang below each other as their virtual instances do. -/
structure Aligned (virtualInstances : Map String (VirtualInstance E)) (rootId : String)
    (root : Handle) (dom : Dom V) (map : InstanceMap) : Prop where
  inverse : map.Inverse
  self : map.fromIds.lookup rootId = some root
  present : ∀ {i h}, map.fromIds.lookup i = some h → i ∈ virtualInstances
  parents : ∀ {i h}, map.fromIds.lookup i = some h → i ≠ rootId →
    ∃ p hp, i ∈ kids virtualInstances p ∧ map.fromIds.lookup p = some hp ∧ dom.parent h = some hp

namespace Aligned

variable {virtualInstances : Map String (VirtualInstance E)} {rootId : String} {root : Handle}
  {dom : Dom V} {map : InstanceMap} (ha : Aligned virtualInstances rootId root dom map)
  (hn : Nested virtualInstances) (hwf : dom.WellFormed)

include ha hn

/-- A mapped id and its instance are below the roots of both trees. -/
theorem desc_root (hwf : dom.WellFormed) {i : String} {h : Handle}
    (hi : map.fromIds.lookup i = some h) :
    Desc (kids virtualInstances) rootId i ∧ Desc dom.getChildren root h := by
  obtain ⟨depth, hdepth⟩ := hn.forest.acyclic
  induction hd : depth i using Nat.strong_induction_on generalizing i h with
  | _ d ih =>
    by_cases hroot : i = rootId
    · subst hroot
      rw [ha.self, Option.some.injEq] at hi
      exact ⟨.refl, hi ▸ .refl⟩
    · obtain ⟨p, hp, hkid, hmap, hparent⟩ := ha.parents hi hroot
      obtain ⟨h₁, h₂⟩ := ih _ (hd ▸ hdepth p i hkid) hmap rfl
      exact ⟨h₁.tail hkid, h₂.tail (hwf.parent_iff.mpr hparent)⟩

/-- What is above a mapped id is mapped. -/
theorem mapped_of_desc {a i : String} {h : Handle} (hd : Desc (kids virtualInstances) a i)
    (hroot : Desc (kids virtualInstances) rootId a) (hi : map.fromIds.lookup i = some h) :
    ∃ h', map.fromIds.lookup a = some h' := by
  induction hd generalizing h with
  | refl => exact ⟨h, hi⟩
  | @tail p i hap hpi ih =>
    have hne : i ≠ rootId := by
      rintro rfl
      exact hn.forest.not_desc_of_mem hpi (hroot.trans hap)
    obtain ⟨p', hp', hkid, hmap, -⟩ := ha.parents hi hne
    rw [hn.forest.unique hkid hpi] at hmap
    exact ih hmap

include hwf

/-- The id of a mapped child of a mapped instance is a child of its id. -/
theorem kid_of_child {i c : String} {h hc : Handle} (hi : map.fromIds.lookup i = some h)
    (hcmap : map.fromIds.lookup c = some hc) (hchild : hc ∈ dom.getChildren h) :
    c ∈ kids virtualInstances i := by
  have hne : c ≠ rootId := by
    rintro rfl
    rw [ha.self, Option.some.injEq] at hcmap
    subst hcmap
    exact hwf.forest.not_desc_of_mem hchild (ha.desc_root hn hwf hi).2
  obtain ⟨p, hp, hkid, hmap, hparent⟩ := ha.parents hcmap hne
  rw [hwf.parent_iff.mp hchild, Option.some.injEq] at hparent
  subst hparent
  rwa [ha.inverse.eq_of_fromIds hi hmap]

/-- The instance of a mapped virtual child is a child of the instance. -/
theorem child_of_kid {i c : String} {h hc : Handle} (hi : map.fromIds.lookup i = some h)
    (hcmap : map.fromIds.lookup c = some hc) (hkid : c ∈ kids virtualInstances i) :
    hc ∈ dom.getChildren h := by
  have hne : c ≠ rootId := by
    rintro rfl
    exact hn.forest.not_desc_of_mem hkid (ha.desc_root hn hwf hi).1
  obtain ⟨p, hp, hkid', hmap, hparent⟩ := ha.parents hcmap hne
  rw [hn.forest.unique hkid' hkid, hi, Option.some.injEq] at hmap
  subst hmap
  exact hwf.parent_iff.mpr hparent

/-- What is below an instance that is not mapped, but a child of a mapped one, is not mapped. -/
theorem unmapped_below {c x : Handle} {i : String} {h : Handle}
    (hi : map.fromIds.lookup i = some h) (hchild : c ∈ dom.getChildren h)
    (hc : map.fromInstances.lookup c = none) (hd : Desc dom.getChildren c x) :
    map.fromInstances.lookup x = none := by
  induction hd with
  | refl => exact hc
  | @tail p x hcp hpx ih =>
    cases hx : map.fromInstances.lookup x with
    | none => rfl
    | some j =>
      have hjx := (ha.inverse j x).mpr hx
      have hne : j ≠ rootId := by
        rintro rfl
        rw [ha.self, Option.some.injEq] at hjx
        subst hjx
        have hroot := (ha.desc_root hn hwf hi).2
        exact hwf.forest.not_desc_of_mem hpx ((hroot.tail hchild).trans hcp)
      obtain ⟨q, hq, -, hmap, hparent⟩ := ha.parents hjx hne
      rw [hwf.parent_iff.mp hpx, Option.some.injEq] at hparent
      subst hparent
      rw [(ha.inverse q p).mp hmap] at ih
      cases ih

/-- The mapped instances exist. -/
theorem mapped_lt (hroot : root < dom.next) {i : String} {h : Handle}
    (hi : map.fromIds.lookup i = some h) : h < dom.next := by
  rcases Relation.ReflTransGen.cases_tail (ha.desc_root hn hwf hi).2 with rfl | ⟨p, -, hp⟩
  · exact hroot
  · exact (hwf.below (hwf.parent_iff.mp hp)).2

end Aligned

/-- Hydration from an empty map aligns it. -/
theorem HydrateRun.aligned {virtualInstances : Map String (VirtualInstance E)} {rootId : String}
    {root : Handle} {dom : Dom V} {map : InstanceMap} (hwf : dom.WellFormed)
    (hid : rootId ∈ virtualInstances)
    (hr : HydrateRun virtualInstances dom rootId root .new map) :
    Aligned virtualInstances rootId root dom map where
  inverse := hr.inverse
  self := hr.self
  present := by
    intro i h hi
    rcases hr.new i h hi with hold | ⟨-, -, rfl | ⟨p, hp, v, -, -, -, hv, -⟩⟩
    · simp [InstanceMap.new] at hold
    · exact hid
    · exact AList.lookup_isSome.mp (by rw [hv]; rfl)
  parents := by
    intro i h hi hne
    rcases hr.new i h hi with hold | ⟨-, -, heq | ⟨p, hp, v, hkid, hmap, hchild, -, -⟩⟩
    · simp [InstanceMap.new] at hold
    · exact absurd heq hne
    · exact ⟨p, hp, hkid, hmap, hwf.parent_iff.mp hchild⟩

end Roxo.Plugin
