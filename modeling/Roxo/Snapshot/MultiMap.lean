import Mathlib.Data.List.Nodup
import Mathlib.Data.List.Perm.Basic
import Roxo.Library.AssocMap

/-!
# The multimap

A map from keys to sets of values, kept as buckets without duplicates. A bucket that runs empty
is dropped, so every bucket of a map has an element.
-/

namespace Roxo

open AssocMap

section SwapRemove

variable {V : Type} [DecidableEq V]

/-- `Vec::swap_remove`: the last element takes the place of the one at `index`. -/
def swapRemove (bucket : List V) (index : ℕ) : List V :=
  match bucket.getLast? with
  | some last => (bucket.set index last).dropLast
  | none => []

/-- Up to order, removing the position of `v` erases `v`. -/
theorem swapRemove_idxOf_perm {bucket : List V} {v : V} (h : v ∈ bucket) :
    (swapRemove bucket (bucket.idxOf v)).Perm (bucket.erase v) := by
  obtain ⟨as, bs, rfl, has⟩ := List.eq_append_cons_of_mem h
  have hidx : (as ++ v :: bs).idxOf v = as.length := by
    rw [List.idxOf_append, if_neg has, List.idxOf_cons_self, Nat.zero_add]
  rw [List.erase_append_right _ has, List.erase_cons_head, hidx]
  unfold swapRemove
  rcases List.eq_nil_or_concat' bs with rfl | ⟨bs, last, rfl⟩
  · simp only [List.getLast?_append_cons, List.getLast?_singleton, List.append_nil,
      List.set_append_right _ _ (Nat.le_refl _), Nat.sub_self, List.set_cons_zero,
      List.dropLast_concat]
    exact List.Perm.refl _
  · have hlast : as ++ v :: (bs ++ [last]) = (as ++ v :: bs) ++ [last] := by
      rw [List.append_assoc, List.cons_append]
    have hset : (as ++ v :: (bs ++ [last])).set as.length last = (as ++ last :: bs) ++ [last] := by
      rw [List.set_append_right _ _ (Nat.le_refl _), Nat.sub_self, List.set_cons_zero,
        List.append_assoc, List.cons_append]
    have hget : (as ++ v :: (bs ++ [last])).getLast? = some last := by
      rw [hlast, List.getLast?_concat]
    simp only [hget, hset, List.dropLast_concat]
    exact List.Perm.append_left as (List.perm_append_singleton last bs).symm

end SwapRemove

/-- A map whose value contains a set of multiple values. -/
structure MultiMap (K V : Type) [DecidableEq K] where
  inner : Map K (List V)
  nodup : ∀ k bucket, inner.lookup k = some bucket → bucket.Nodup
  ne_nil : ∀ k bucket, inner.lookup k = some bucket → bucket ≠ []

namespace MultiMap

variable {K V : Type} [DecidableEq K] [DecidableEq V]

omit [DecidableEq V] in
def new : MultiMap K V where
  inner := ∅
  nodup := nofun
  ne_nil := nofun

omit [DecidableEq V] in
def get (m : MultiMap K V) (k : K) : List V := (m.inner.lookup k).getD []

omit [DecidableEq V] in
theorem nodup_get (m : MultiMap K V) (k : K) : (m.get k).Nodup := by
  unfold get
  cases h : m.inner.lookup k with
  | none => exact List.nodup_nil
  | some bucket => exact m.nodup k bucket h

/-- The bucket after an insertion: a value that is there is not pushed again. -/
def push (bucket : List V) (v : V) : List V := if v ∈ bucket then bucket else bucket ++ [v]

theorem mem_push {bucket : List V} {v x : V} : x ∈ push bucket v ↔ x ∈ bucket ∨ x = v := by
  unfold push
  split_ifs with h
  · exact ⟨Or.inl, fun hx => hx.elim id fun hx => hx ▸ h⟩
  · rw [List.mem_append, List.mem_singleton]

theorem nodup_push {bucket : List V} (h : bucket.Nodup) (v : V) : (push bucket v).Nodup := by
  unfold push
  split_ifs with hv
  · exact h
  · rw [← List.concat_eq_append]
    exact List.Nodup.concat hv h

def insert (m : MultiMap K V) (k : K) (v : V) : MultiMap K V where
  inner := m.inner.insert k (push (m.get k) v)
  nodup k' bucket h := by
    rw [lookup_insert_eq] at h
    split_ifs at h with hk
    · rw [← Option.some.inj h]
      exact nodup_push (m.nodup_get k) v
    · exact m.nodup k' bucket h
  ne_nil k' bucket h := by
    rw [lookup_insert_eq] at h
    split_ifs at h with hk
    · rw [← Option.some.inj h]
      exact List.ne_nil_of_mem (mem_push.mpr (Or.inr rfl))
    · exact m.ne_nil k' bucket h

/-- The map after `bucket` is put back, or dropped if it has run empty. -/
def putBack (m : MultiMap K V) (k : K) (bucket : List V) (h : bucket.Nodup) : MultiMap K V where
  inner := if bucket = [] then m.inner.erase k else m.inner.insert k bucket
  nodup k' bucket' hk := by
    split_ifs at hk with hb
    · rw [lookup_erase_eq] at hk
      split_ifs at hk
      exact m.nodup k' bucket' hk
    · rw [lookup_insert_eq] at hk
      split_ifs at hk
      · rwa [← Option.some.inj hk]
      · exact m.nodup k' bucket' hk
  ne_nil k' bucket' hk := by
    split_ifs at hk with hb
    · rw [lookup_erase_eq] at hk
      split_ifs at hk
      exact m.ne_nil k' bucket' hk
    · rw [lookup_insert_eq] at hk
      split_ifs at hk
      · rwa [← Option.some.inj hk]
      · exact m.ne_nil k' bucket' hk

/-- Removes a value and returns it if it was there. -/
def remove (m : MultiMap K V) (k : K) (v : V) : Option V × MultiMap K V :=
  if h : v ∈ m.get k then
    (some v, m.putBack k (swapRemove (m.get k) ((m.get k).idxOf v))
      ((swapRemove_idxOf_perm h).nodup_iff.mpr ((m.nodup_get k).erase v)))
  else (none, m)

/-! ## What a map holds -/

section Lemmas

variable {m : MultiMap K V} {k k' : K} {v x : V}

omit [DecidableEq V] in
@[simp] theorem get_new : (new : MultiMap K V).get k = [] := rfl

theorem get_insert : (m.insert k v).get k' = if k' = k then push (m.get k) v else m.get k' := by
  unfold insert get
  dsimp only
  rw [lookup_insert_eq]
  split_ifs <;> rfl

theorem mem_get_insert : x ∈ (m.insert k v).get k' ↔ x ∈ m.get k' ∨ k' = k ∧ x = v := by
  rw [get_insert]
  split_ifs with h
  · rw [mem_push, h]
    simp only [true_and]
  · simp only [h, false_and, or_false]

omit [DecidableEq V] in
theorem get_putBack {bucket : List V} {h : bucket.Nodup} :
    (m.putBack k bucket h).get k' = if k' = k then bucket else m.get k' := by
  unfold putBack get
  dsimp only
  by_cases hb : bucket = []
  · rw [if_pos hb, lookup_erase_eq, hb]
    split_ifs <;> rfl
  · rw [if_neg hb, lookup_insert_eq]
    split_ifs <;> rfl

theorem mem_get_remove : x ∈ (m.remove k v).2.get k' ↔ x ∈ m.get k' ∧ ¬ (k' = k ∧ x = v) := by
  unfold remove
  split_ifs with h
  · rw [get_putBack]
    split_ifs with hk
    · subst hk
      rw [(swapRemove_idxOf_perm h).mem_iff, (m.nodup_get k').mem_erase_iff]
      simp only [true_and]
      exact and_comm
    · simp only [hk, false_and, not_false_eq_true, and_true]
  · refine ⟨fun hx => ⟨hx, ?_⟩, And.left⟩
    rintro ⟨rfl, rfl⟩
    exact h hx

end Lemmas

end MultiMap

end Roxo
