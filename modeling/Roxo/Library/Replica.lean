import Mathlib.Data.List.Nodup
import Mathlib.Logic.Relation

/-!
# Replicas of a tree of entries

A store maps keys to entries, and every entry names the key of its parent. A replica of a store is
kept in sync by removing subtrees (`remove`), grafting subtrees as they are in a source (`graft`)
and changing single entries (`change`). Each of them has a rule for a whole list of operations,
which says what becomes of one key (`foldl_remove`, `foldl_graft`, `foldl_change`).
-/

namespace Replica

variable {κ ε υ : Type*}

/-- Entries by their keys. -/
abbrev Store (κ ε : Type*) := κ → Option ε

/-- `y` is `x` or has it among its ancestors. -/
def Below (parent : ε → κ) (r : Store κ ε) (x y : κ) : Prop :=
  Relation.ReflTransGen (fun a b => ∃ e, r b = some e ∧ parent e = a) x y

open Classical in
/-- Remove a subtree. -/
noncomputable def remove (parent : ε → κ) (r : Store κ ε) (x : κ) : Store κ ε := fun y =>
  if Below parent r x y then none else r y

open Classical in
/-- Insert a subtree as it is in the source. -/
noncomputable def graft (parent : ε → κ) (source r : Store κ ε) (x : κ) : Store κ ε := fun y =>
  if Below parent source x y then source y else r y

/-- Change one entry, if it is there. -/
def change [DecidableEq κ] (key : υ → κ) (f : υ → ε → ε) (r : Store κ ε) (u : υ) : Store κ ε :=
  fun y => if y = key u then (r y).map (f u) else r y

section

variable {parent : ε → κ} {source r : Store κ ε} {x y z : κ}

theorem Below.of_remove (h : Below parent (remove parent r x) y z) : Below parent r y z := by
  induction h with
  | refl => exact .refl
  | tail _ hab ih =>
    obtain ⟨e, he, hp⟩ := hab
    unfold remove at he
    split_ifs at he
    exact ih.tail ⟨e, he, hp⟩

/-- Removing a subtree leaves the ancestors of the others alone. -/
theorem below_remove (hz : ¬ Below parent r x z) :
    Below parent (remove parent r x) y z ↔ Below parent r y z := by
  refine ⟨Below.of_remove, fun h => ?_⟩
  induction h with
  | refl => exact .refl
  | @tail a b _ hab ih =>
    have ha : ¬ Below parent r x a := fun hxa => hz (hxa.tail hab)
    obtain ⟨e, he, hp⟩ := hab
    refine (ih ha).tail ⟨e, ?_, hp⟩
    unfold remove
    rw [if_neg hz, he]

open Classical in
/-- Subtrees removed one after the other. -/
theorem foldl_remove (l : List κ) (r : Store κ ε) (y : κ) :
    l.foldl (remove parent) r y = if ∃ x ∈ l, Below parent r x y then none else r y := by
  induction l generalizing r with
  | nil => simp only [List.foldl_nil, List.not_mem_nil, false_and, exists_false, if_false]
  | cons x l ih =>
    rw [List.foldl_cons, ih]
    by_cases hx : Below parent r x y
    · have hgone : remove parent r x y = none := if_pos hx
      rw [hgone, ite_self, if_pos ⟨x, List.mem_cons_self, hx⟩]
    · have hiff : (∃ z ∈ l, Below parent (remove parent r x) z y) ↔
          ∃ z ∈ x :: l, Below parent r z y := by
        simp only [below_remove hx, List.mem_cons, exists_eq_or_imp, hx, false_or]
      have hsame : remove parent r x y = r y := if_neg hx
      rw [if_congr hiff rfl hsame]

open Classical in
/-- Subtrees grafted one after the other. -/
theorem foldl_graft (l : List κ) (r : Store κ ε) (y : κ) :
    l.foldl (graft parent source) r y =
      if ∃ x ∈ l, Below parent source x y then source y else r y := by
  induction l generalizing r with
  | nil => simp only [List.foldl_nil, List.not_mem_nil, false_and, exists_false, if_false]
  | cons x l ih =>
    rw [List.foldl_cons, ih]
    unfold graft
    simp only [List.mem_cons, exists_eq_or_imp]
    by_cases hx : Below parent source x y
    · simp only [hx, true_or, if_true, ite_self]
    · simp only [hx, false_or, if_false]

variable [DecidableEq κ] {key : υ → κ} {f : υ → ε → ε}

theorem foldl_change_of_not_mem (l : List υ) (r : Store κ ε) (hy : y ∉ l.map key) :
    l.foldl (change key f) r y = r y := by
  induction l generalizing r with
  | nil => rfl
  | cons u l ih =>
    rw [List.map_cons, List.mem_cons, not_or] at hy
    rw [List.foldl_cons, ih _ hy.2]
    exact if_neg hy.1

/-- Changes of different entries. -/
theorem foldl_change {l : List υ} (hl : (l.map key).Nodup) (r : Store κ ε) {u : υ} (hu : u ∈ l) :
    l.foldl (change key f) r (key u) = (r (key u)).map (f u) := by
  induction l generalizing r with
  | nil => cases hu
  | cons v l ih =>
    obtain ⟨hv, hl⟩ := List.nodup_cons.mp hl
    rw [List.foldl_cons]
    rcases List.mem_cons.mp hu with rfl | hu
    · rw [foldl_change_of_not_mem l _ hv]
      exact if_pos rfl
    · have hne : key u ≠ key v := fun he => hv (he ▸ List.mem_map_of_mem hu)
      rw [ih hl _ hu]
      exact congrArg _ (if_neg hne)

end

end Replica
