import Mathlib.Data.List.Nodup
import Roxo.Plugin.Properties

/-!
# Trees of virtual instances

The virtual instances of a patch form a forest. `grown` lists the ids of a tree for which `reify`
creates an instance, each after the one above it: an id is left out with everything below it when
its class cannot be created.
-/

namespace Roxo.Plugin

open AssocMap Forest

variable {V E : Type} {added : Map String (VirtualInstance E)} {id i : String} {n : ℕ}

/-- The children of a virtual instance. -/
def kids (added : Map String (VirtualInstance E)) (id : String) : List String :=
  match added.lookup id with
  | some virtualInstance => virtualInstance.children
  | none => []

theorem kids_of_lookup {v : VirtualInstance E} (hv : added.lookup id = some v) :
    kids added id = v.children := by
  unfold kids
  rw [hv]

/-- The children form a forest and are present themselves. -/
structure Nested (added : Map String (VirtualInstance E)) : Prop where
  forest : IsForest (kids added)
  present : ∀ {id c}, c ∈ kids added id → c ∈ added

theorem Nested.present_of_desc (hn : Nested added) (h : Desc (kids added) id i) (hid : id ∈ added) :
    i ∈ added := by
  rcases Relation.ReflTransGen.cases_tail h with rfl | ⟨p, -, hp⟩
  · exact hid
  · exact hn.present hp

theorem exists_lookup (h : id ∈ added) : ∃ v, added.lookup id = some v :=
  Option.isSome_iff_exists.mp (AList.lookup_isSome.mpr h)

/-! ## Weights -/

open scoped Classical in
/-- How many virtual instances a subtree has. -/
noncomputable def weight (added : Map String (VirtualInstance E)) (id : String) : ℕ :=
  (added.keys.filter (Desc (kids added) id ·)).length

theorem weight_le (added : Map String (VirtualInstance E)) (id : String) :
    weight added id ≤ added.keys.length :=
  List.length_filter_le _ _

theorem weight_pos (hid : id ∈ added) : 0 < weight added id := by
  classical
  unfold weight
  refine List.length_pos_of_mem (a := id) ?_
  exact List.mem_filter.mpr ⟨AList.mem_keys.mpr hid, decide_eq_true .refl⟩

theorem weight_lt (hn : Nested added) (hid : id ∈ added) {c : String} (hc : c ∈ kids added id) :
    weight added c < weight added id := by
  classical
  unfold weight
  have hsub : (added.keys.filter (Desc (kids added) c ·)).Sublist
      (added.keys.filter (Desc (kids added) id ·)) := by
    refine List.monotone_filter_right _ fun x hx => ?_
    simp only [decide_eq_true_eq] at hx ⊢
    exact (Desc.of_mem hc).trans hx
  refine lt_of_le_of_ne hsub.length_le fun heq => ?_
  have hsame := hsub.eq_of_length heq
  have hmem : id ∈ added.keys.filter (Desc (kids added) id ·) :=
    List.mem_filter.mpr ⟨AList.mem_keys.mpr hid, decide_eq_true .refl⟩
  rw [← hsame] at hmem
  exact hn.forest.not_desc_of_mem hc (of_decide_eq_true (List.mem_filter.mp hmem).2)

/-! ## What is created and what is not -/

/-- The ids of a subtree. -/
def subtree (added : Map String (VirtualInstance E)) : ℕ → String → List String
  | 0, _ => []
  | levels + 1, id => id :: (kids added id).flatMap (subtree added levels)

variable (V) in
/-- The class of a virtual instance can be created. -/
def Creatable [Engine V] (added : Map String (VirtualInstance E)) (id : String) : Prop :=
  ∃ v, added.lookup id = some v ∧ Engine.creatable V v.className = true

variable [Engine V]

instance : Decidable (Creatable V added id) :=
  match h : added.lookup id with
  | some v => decidable_of_iff (Engine.creatable V v.className = true) (by simp [Creatable, h])
  | none => isFalse (by simp [Creatable, h])

variable (V) in
/-- The ids of a subtree for which an instance is created. -/
def grown (added : Map String (VirtualInstance E)) : ℕ → String → List String
  | 0, _ => []
  | levels + 1, id =>
    if Creatable V added id then id :: (kids added id).flatMap (grown added levels) else []

variable (V) in
/-- The ids of a subtree that come back as not added. -/
def failed (added : Map String (VirtualInstance E)) : ℕ → String → List String
  | 0, _ => []
  | levels + 1, id =>
    if Creatable V added id then (kids added id).flatMap (failed added levels)
    else subtree added (levels + 1) id

variable (V) in
/-- The id and everything between it and the one above can be created. -/
def Grows (added : Map String (VirtualInstance E)) (top i : String) : Prop :=
  Desc (kids added) top i ∧
    ∀ x, Desc (kids added) top x → Desc (kids added) x i → Creatable V added x

theorem mem_subtree (hn : Nested added) (hid : id ∈ added) (hw : weight added id ≤ n) :
    i ∈ subtree added n id ↔ Desc (kids added) id i := by
  induction n generalizing id with
  | zero =>
    have := weight_pos hid
    omega
  | succ n ih =>
    have hchild : ∀ c ∈ kids added id, (i ∈ subtree added n c ↔ Desc (kids added) c i) := by
      intro c hc
      refine ih (hn.present hc) ?_
      have := weight_lt hn hid hc
      omega
    unfold subtree
    rw [List.mem_cons, List.mem_flatMap]
    constructor
    · rintro (rfl | ⟨c, hc, hi⟩)
      · exact .refl
      · exact (Desc.of_mem hc).trans ((hchild c hc).mp hi)
    · intro hd
      rcases Relation.ReflTransGen.cases_head hd with rfl | ⟨c, hc, hci⟩
      · exact .inl rfl
      · exact .inr ⟨c, hc, (hchild c hc).mpr hci⟩

/-- A node below a child grows from the top when the top can be created and the node grows from
the child. -/
theorem grows_iff_of_mem (hn : Nested added) {c : String} (hc : c ∈ kids added id)
    (hci : Desc (kids added) c i) :
    Grows V added id i ↔ Creatable V added id ∧ Grows V added c i := by
  constructor
  · rintro ⟨hd, hall⟩
    exact ⟨hall id .refl hd, hci, fun x hcx hxi => hall x ((Desc.of_mem hc).trans hcx) hxi⟩
  · rintro ⟨hid, -, hall⟩
    refine ⟨(Desc.of_mem hc).trans hci, fun x hx hxi => ?_⟩
    rcases hn.forest.desc_or_desc hxi hci with hxc | hcx
    · by_cases hxc' : x = c
      · exact hall x (hxc' ▸ .refl) hxi
      · have hxid := hn.forest.desc_parent hxc hxc' hc
        rw [hn.forest.desc_antisymm hxid hx]
        exact hid
    · exact hall x hcx hxi

theorem mem_grown (hn : Nested added) (hid : id ∈ added) (hw : weight added id ≤ n) :
    i ∈ grown V added n id ↔ Grows V added id i := by
  induction n generalizing id with
  | zero =>
    have := weight_pos hid
    omega
  | succ n ih =>
    have hchild : ∀ c ∈ kids added id, (i ∈ grown V added n c ↔ Grows V added c i) := by
      intro c hc
      refine ih (hn.present hc) ?_
      have := weight_lt hn hid hc
      omega
    unfold grown
    split_ifs with hcr
    · rw [List.mem_cons, List.mem_flatMap]
      constructor
      · rintro (rfl | ⟨c, hc, hi⟩)
        · refine ⟨.refl, fun x hx hxi => ?_⟩
          rw [hn.forest.desc_antisymm hxi hx]
          exact hcr
        · have hg := (hchild c hc).mp hi
          exact (grows_iff_of_mem hn hc hg.1).mpr ⟨hcr, hg⟩
      · intro hg
        rcases Relation.ReflTransGen.cases_head hg.1 with rfl | ⟨c, hc, hci⟩
        · exact .inl rfl
        · exact .inr ⟨c, hc, (hchild c hc).mpr ((grows_iff_of_mem hn hc hci).mp hg).2⟩
    · simp only [List.not_mem_nil, false_iff]
      exact fun hg => hcr (hg.2 id .refl hg.1)

theorem mem_failed (hn : Nested added) (hid : id ∈ added) (hw : weight added id ≤ n) :
    i ∈ failed V added n id ↔ Desc (kids added) id i ∧ ¬ Grows V added id i := by
  induction n generalizing id with
  | zero =>
    have := weight_pos hid
    omega
  | succ n ih =>
    have hchild : ∀ c ∈ kids added id,
        (i ∈ failed V added n c ↔ Desc (kids added) c i ∧ ¬ Grows V added c i) := by
      intro c hc
      refine ih (hn.present hc) ?_
      have := weight_lt hn hid hc
      omega
    unfold failed
    split_ifs with hcr
    · rw [List.mem_flatMap]
      constructor
      · rintro ⟨c, hc, hi⟩
        obtain ⟨hci, hnot⟩ := (hchild c hc).mp hi
        refine ⟨(Desc.of_mem hc).trans hci, fun hg => hnot ?_⟩
        exact ((grows_iff_of_mem hn hc hci).mp hg).2
      · rintro ⟨hd, hnot⟩
        rcases Relation.ReflTransGen.cases_head hd with rfl | ⟨c, hc, hci⟩
        · refine absurd ⟨.refl, fun x hx hxi => ?_⟩ hnot
          rw [hn.forest.desc_antisymm hxi hx]
          exact hcr
        · refine ⟨c, hc, (hchild c hc).mpr ⟨hci, fun hg => hnot ?_⟩⟩
          exact (grows_iff_of_mem hn hc hci).mpr ⟨hcr, hg⟩
    · rw [mem_subtree hn hid hw]
      exact ⟨fun hd => ⟨hd, fun hg => hcr (hg.2 id .refl hg.1)⟩, And.left⟩

/-- The subtrees of different children have no id in common. -/
theorem nodup_flatMap_of_below {ids : List String} (hids : ids.Nodup)
    (hsep : ∀ a ∈ ids, ∀ b ∈ ids, ∀ x, Desc (kids added) a x → Desc (kids added) b x → a = b)
    {f : String → List String} (hf : ∀ a ∈ ids, (f a).Nodup)
    (hbelow : ∀ a ∈ ids, ∀ x ∈ f a, Desc (kids added) a x) : (ids.flatMap f).Nodup := by
  refine List.nodup_flatMap.mpr ⟨hf, ?_⟩
  refine hids.pairwise_of_forall_ne fun a ha b hb hne => ?_
  refine List.disjoint_left.mpr ?_
  exact fun x hxa hxb => hne (hsep a ha b hb x (hbelow a ha x hxa) (hbelow b hb x hxb))

theorem nodup_grown (hn : Nested added) (hid : id ∈ added) (hw : weight added id ≤ n) :
    (grown V added n id).Nodup := by
  induction n generalizing id with
  | zero => exact List.nodup_nil
  | succ n ih =>
    have hle : ∀ c ∈ kids added id, weight added c ≤ n := by
      intro c hc
      have := weight_lt hn hid hc
      omega
    have hbelow : ∀ c ∈ kids added id, ∀ x ∈ grown V added n c, Desc (kids added) c x :=
      fun c hc x hx => ((mem_grown hn (hn.present hc) (hle c hc)).mp hx).1
    unfold grown
    split_ifs
    · refine List.nodup_cons.mpr ⟨fun hmem => ?_, ?_⟩
      · obtain ⟨c, hc, hx⟩ := List.mem_flatMap.mp hmem
        exact hn.forest.not_desc_of_mem hc (hbelow c hc id hx)
      · exact nodup_flatMap_of_below (hn.forest.nodup id)
          (fun a ha b hb x hax hbx => hn.forest.eq_of_common_desc ha hb hax hbx)
          (fun c hc => ih (hn.present hc) (hle c hc)) hbelow
    · exact List.nodup_nil

end Roxo.Plugin
