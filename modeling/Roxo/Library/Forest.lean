import Mathlib.Data.List.Nodup
import Mathlib.Data.List.Perm.Subperm
import Mathlib.Logic.Relation
import Mathlib.Order.Basic

/-!
# Forests given by child lists

A forest is a function `kids` from nodes to child lists in which every node has at most one
parent and no node is below itself. `Desc kids a b` says that `b` is `a` or below it.

`bfs` is the queue loop that walks a subtree level by level; when it ends with fuel to spare it
has listed the descendants of the queue (`mem_bfs_iff`), each once (`nodup_bfs`), and it does so
when it is given one unit more than there are nodes (`bfs_length_lt`).
-/

namespace Forest

variable {α : Type*}

/-- `b` is one of the children of `a`. -/
def Child (kids : α → List α) (a b : α) : Prop := b ∈ kids a

/-- `b` is `a` or below it. -/
abbrev Desc (kids : α → List α) : α → α → Prop := Relation.ReflTransGen (Child kids)

/-- Child lists without duplicates, at most one parent, no cycles. -/
structure IsForest (kids : α → List α) : Prop where
  nodup : ∀ a, (kids a).Nodup
  unique : ∀ {a a' b}, b ∈ kids a → b ∈ kids a' → a = a'
  acyclic : ∃ depth : α → ℕ, ∀ a b, b ∈ kids a → depth a < depth b

variable {kids : α → List α} {a b c p x y : α}

theorem Desc.of_mem (h : b ∈ kids a) : Desc kids a b := Relation.ReflTransGen.single h

namespace IsForest

variable (hf : IsForest kids)

include hf

/-- A proper descendant is below its ancestor's path to the parent. -/
theorem desc_parent (h : Desc kids a b) (hne : a ≠ b) (hp : b ∈ kids p) : Desc kids a p := by
  rcases Relation.ReflTransGen.cases_tail h with rfl | ⟨c, hc, hb⟩
  · exact absurd rfl hne
  · rwa [hf.unique hp hb]

omit hf in
theorem depth_le {depth : α → ℕ} (hd : ∀ a b, b ∈ kids a → depth a < depth b)
    (h : Desc kids a b) : depth a ≤ depth b := by
  induction h with
  | refl => exact Nat.le_refl _
  | tail _ hc ih => exact Nat.le_trans ih (Nat.le_of_lt (hd _ _ hc))

theorem not_desc_of_mem (h : b ∈ kids a) : ¬ Desc kids b a := by
  obtain ⟨depth, hd⟩ := hf.acyclic
  intro hba
  have := depth_le hd hba
  have := hd _ _ h
  omega

theorem ne_of_mem (h : b ∈ kids a) : b ≠ a := by
  rintro rfl
  exact hf.not_desc_of_mem h .refl

theorem desc_antisymm (hab : Desc kids a b) (hba : Desc kids b a) : a = b := by
  rcases Relation.ReflTransGen.cases_tail hab with rfl | ⟨c, hc, hb⟩
  · rfl
  · exact absurd (hba.trans hc) (hf.not_desc_of_mem hb)

/-- Two ancestors of one node are comparable. -/
theorem desc_or_desc (hac : Desc kids a c) (hbc : Desc kids b c) :
    Desc kids a b ∨ Desc kids b a := by
  induction hac with
  | refl => exact Or.inr hbc
  | @tail d e had hde ih =>
    by_cases hbe : b = e
    · subst hbe
      exact Or.inl (had.tail hde)
    · exact ih (hf.desc_parent hbc hbe hde)

/-- Different children of one node are incomparable. -/
theorem eq_of_siblings (ha : a ∈ kids p) (hb : b ∈ kids p) (h : Desc kids a b) : a = b := by
  by_contra hne
  exact hf.not_desc_of_mem ha (hf.desc_parent h hne hb)

/-- The subtrees of two different children of one node are disjoint. -/
theorem eq_of_common_desc (ha : a ∈ kids p) (hb : b ∈ kids p) (hac : Desc kids a c)
    (hbc : Desc kids b c) : a = b := by
  rcases hf.desc_or_desc hac hbc with h | h
  · exact hf.eq_of_siblings ha hb h
  · exact (hf.eq_of_siblings hb ha h).symm

end IsForest

/-! ## Pruning -/

section Prune

variable [DecidableEq α]

open scoped Classical in
/-- The child lists after the subtree of `x` is cut off. -/
noncomputable def prune (kids : α → List α) (x : α) (a : α) : List α :=
  if Desc kids x a then [] else (kids a).filter (· ≠ x)

theorem prune_subset (a : α) : ∀ b ∈ prune kids x a, b ∈ kids a := by
  intro b hb
  unfold prune at hb
  split_ifs at hb
  · cases hb
  · exact List.mem_of_mem_filter hb

theorem Desc.of_prune (h : Desc (prune kids x) a b) : Desc kids a b :=
  Relation.ReflTransGen.mono (fun _ _ hc => prune_subset _ _ hc) _ _ h

/-- Outside the subtree of `x` the pruned forest has the old descendants. -/
theorem desc_prune (hb : ¬ Desc kids x b) : Desc (prune kids x) a b ↔ Desc kids a b := by
  refine ⟨Desc.of_prune, fun h => ?_⟩
  induction h with
  | refl => exact .refl
  | @tail c d hac hcd ih =>
    have hc : ¬ Desc kids x c := fun h => hb (h.tail hcd)
    refine (ih hc).tail ?_
    unfold Child prune
    rw [if_neg hc, List.mem_filter]
    refine ⟨hcd, ?_⟩
    simp only [decide_eq_true_eq]
    rintro rfl
    exact hb .refl

end Prune

/-! ## Breadth-first traversal -/

/-- The nodes popped from the queue in at most `n` rounds. -/
def bfs (kids : α → List α) : ℕ → List α → List α
  | 0, _ => []
  | _ + 1, [] => []
  | n + 1, a :: queue => a :: bfs kids n (queue ++ kids a)

@[simp] theorem bfs_nil (n : ℕ) : bfs kids n [] = [] := by cases n <;> rfl

theorem desc_of_mem_bfs {n : ℕ} {queue : List α} (h : b ∈ bfs kids n queue) :
    ∃ a ∈ queue, Desc kids a b := by
  induction n generalizing queue with
  | zero => cases h
  | succ n ih =>
    cases queue with
    | nil => cases h
    | cons a queue =>
      rcases List.mem_cons.mp h with rfl | h
      · exact ⟨b, List.mem_cons_self, .refl⟩
      · obtain ⟨c, hc, hcb⟩ := ih h
        rcases List.mem_append.mp hc with hc | hc
        · exact ⟨c, List.mem_cons_of_mem _ hc, hcb⟩
        · exact ⟨a, List.mem_cons_self, .head hc hcb⟩

/-- A traversal that ends before its fuel does has reached every descendant. -/
theorem mem_bfs_of_desc {n : ℕ} {queue : List α} (hn : (bfs kids n queue).length < n)
    (ha : a ∈ queue) (h : Desc kids a b) : b ∈ bfs kids n queue := by
  induction n generalizing queue a with
  | zero => cases hn
  | succ n ih =>
    cases queue with
    | nil => cases ha
    | cons q queue =>
      unfold bfs at hn ⊢
      have hn' : (bfs kids n (queue ++ kids q)).length < n := by
        rw [List.length_cons] at hn
        omega
      rcases List.mem_cons.mp ha with rfl | ha
      · rcases Relation.ReflTransGen.cases_head h with rfl | ⟨c, hc, hcb⟩
        · exact List.mem_cons_self
        · exact List.mem_cons_of_mem _ (ih hn' (List.mem_append_right _ hc) hcb)
      · exact List.mem_cons_of_mem _ (ih hn' (List.mem_append_left _ ha) h)

theorem mem_bfs_iff {n : ℕ} {queue : List α} (hn : (bfs kids n queue).length < n) :
    b ∈ bfs kids n queue ↔ ∃ a ∈ queue, Desc kids a b :=
  ⟨desc_of_mem_bfs, fun ⟨_, ha, h⟩ => mem_bfs_of_desc hn ha h⟩

/-- The children of a node come after it. -/
theorem mem_of_bfs_eq {n : ℕ} {queue before after : List α} (hn : (bfs kids n queue).length < n)
    (h : bfs kids n queue = before ++ a :: after) (hb : b ∈ kids a) : b ∈ after := by
  induction n generalizing queue before with
  | zero => cases hn
  | succ n ih =>
    cases queue with
    | nil => simp at h
    | cons q queue =>
      unfold bfs at hn h
      have hn' : (bfs kids n (queue ++ kids q)).length < n := by
        rw [List.length_cons] at hn
        omega
      cases before with
      | nil =>
        obtain ⟨rfl, rfl⟩ := List.cons.inj h
        exact mem_bfs_of_desc hn' (List.mem_append_right _ hb) .refl
      | cons _ before => exact ih hn' (List.cons.inj h).2

/-- No entry of the queue is an ancestor of another. -/
def Antichain (kids : α → List α) (queue : List α) : Prop :=
  queue.Pairwise fun a b => ¬ Desc kids a b ∧ ¬ Desc kids b a

theorem antichain_singleton (a : α) : Antichain kids [a] := List.pairwise_singleton _ _

theorem IsForest.antichain_kids (hf : IsForest kids) (a : α) : Antichain kids (kids a) := by
  refine (hf.nodup a).pairwise_of_forall_ne fun b hb c hc hne => ⟨fun h => ?_, fun h => ?_⟩
  · exact hne (hf.eq_of_siblings hb hc h)
  · exact hne (hf.eq_of_siblings hc hb h).symm

theorem IsForest.antichain_step (hf : IsForest kids) {queue : List α}
    (h : Antichain kids (a :: queue)) : Antichain kids (queue ++ kids a) := by
  have ⟨ha, hq⟩ := List.pairwise_cons.mp h
  refine List.pairwise_append.mpr ⟨hq, hf.antichain_kids a, fun b hb c hc => ⟨fun h => ?_, ?_⟩⟩
  · by_cases hbc : b = c
    · subst hbc
      exact (ha b hb).1 (.of_mem hc)
    · exact (ha b hb).2 (hf.desc_parent h hbc hc)
  · intro h
    exact (ha b hb).1 (.head hc h)

theorem IsForest.nodup_bfs (hf : IsForest kids) {n : ℕ} {queue : List α}
    (h : Antichain kids queue) : (bfs kids n queue).Nodup := by
  induction n generalizing queue with
  | zero => exact List.nodup_nil
  | succ n ih =>
    cases queue with
    | nil => exact List.nodup_nil
    | cons a queue =>
      refine List.nodup_cons.mpr ⟨fun hmem => ?_, ih (hf.antichain_step h)⟩
      obtain ⟨b, hb, hba⟩ := desc_of_mem_bfs hmem
      rcases List.mem_append.mp hb with hb | hb
      · exact ((List.pairwise_cons.mp h).1 b hb).2 hba
      · exact hf.not_desc_of_mem hb hba

/-- One unit of fuel more than there are nodes is enough. -/
theorem IsForest.bfs_length_lt (hf : IsForest kids) {queue nodes : List α}
    (h : Antichain kids queue) (hq : ∀ a ∈ queue, a ∈ nodes)
    (hk : ∀ a ∈ nodes, ∀ b ∈ kids a, b ∈ nodes) {n : ℕ} (hn : nodes.length < n) :
    (bfs kids n queue).length < n := by
  have hsub : bfs kids n queue ⊆ nodes := by
    intro b hb
    obtain ⟨a, ha, hab⟩ := desc_of_mem_bfs hb
    clear hb
    induction hab with
    | refl => exact hq a ha
    | tail _ hc ih => exact hk _ ih _ hc
  exact Nat.lt_of_le_of_lt ((hf.nodup_bfs h).subperm hsub).length_le hn

end Forest
