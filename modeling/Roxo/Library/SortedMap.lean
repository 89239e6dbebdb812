import Mathlib.Data.List.Basic
import Mathlib.Order.Lattice
import Mathlib.Tactic.Tauto

/-!
# Sorted maps

Maps from an ordered type as lists of entries with increasing keys, so that a map is determined by
what it holds under each key (`SortedMap.ext_lookup`).
-/

universe u v

/-- A map whose entries stand in the order of their keys. -/
@[ext] structure SortedMap (K : Type u) (V : Type v) [LinearOrder K] where
  entries : List (K × V)
  sorted : entries.Pairwise fun a b => a.1 < b.1

namespace SortedMap

variable {K : Type u} {V : Type v} [LinearOrder K] {m m' : SortedMap K V} {k k' : K} {v v' : V}

instance : EmptyCollection (SortedMap K V) := ⟨⟨[], List.Pairwise.nil⟩⟩

instance [DecidableEq V] : DecidableEq (SortedMap K V) := fun _ _ =>
  decidable_of_iff _ SortedMap.ext_iff.symm

def keys (m : SortedMap K V) : List K := m.entries.map Prod.fst

/-- What the first of some entries with a key holds. -/
def lookupEntries (k : K) : List (K × V) → Option V
  | [] => none
  | e :: l => if e.1 = k then some e.2 else lookupEntries k l

def lookup (m : SortedMap K V) (k : K) : Option V := lookupEntries k m.entries

def insertEntries (k : K) (v : V) : List (K × V) → List (K × V)
  | [] => [(k, v)]
  | e :: l =>
    if k < e.1 then (k, v) :: e :: l
    else if e.1 = k then (k, v) :: l
    else e :: insertEntries k v l

theorem fst_of_mem_insertEntries {l : List (K × V)} {e : K × V} (h : e ∈ insertEntries k v l) :
    e.1 = k ∨ e ∈ l := by
  induction l with
  | nil => exact .inl (by rw [List.mem_singleton.mp h])
  | cons a l ih =>
    unfold insertEntries at h
    split at h
    · rcases List.mem_cons.mp h with rfl | h
      · exact .inl rfl
      · exact .inr h
    · split at h
      · rcases List.mem_cons.mp h with rfl | h
        · exact .inl rfl
        · exact .inr (List.mem_cons_of_mem _ h)
      · rcases List.mem_cons.mp h with rfl | h
        · exact .inr List.mem_cons_self
        · exact (ih h).imp_right (List.mem_cons_of_mem _)

theorem sorted_insertEntries {l : List (K × V)} (h : l.Pairwise fun a b => a.1 < b.1) :
    (insertEntries k v l).Pairwise fun a b => a.1 < b.1 := by
  induction l with
  | nil => exact List.pairwise_singleton _ _
  | cons a l ih =>
    obtain ⟨ha, hl⟩ := List.pairwise_cons.mp h
    unfold insertEntries
    split
    · next hlt =>
      refine List.pairwise_cons.mpr ⟨fun b hb => ?_, h⟩
      rcases List.mem_cons.mp hb with rfl | hb
      · exact hlt
      · exact hlt.trans (ha b hb)
    · split
      · next heq => exact List.pairwise_cons.mpr ⟨fun b hb => heq ▸ ha b hb, hl⟩
      · next hle hne =>
        refine List.pairwise_cons.mpr ⟨fun b hb => ?_, ih hl⟩
        rcases fst_of_mem_insertEntries hb with hb | hb
        · exact hb ▸ lt_of_le_of_ne (not_lt.mp hle) hne
        · exact ha b hb

def insert (m : SortedMap K V) (k : K) (v : V) : SortedMap K V :=
  ⟨insertEntries k v m.entries, sorted_insertEntries m.sorted⟩

/-- Keep the entries that pass a test. -/
def retain (f : K → V → Bool) (m : SortedMap K V) : SortedMap K V :=
  ⟨m.entries.filter fun e => f e.1 e.2, m.sorted.sublist List.filter_sublist⟩

/-! ## Lookups -/

@[simp] theorem lookup_empty : (∅ : SortedMap K V).lookup k = none := rfl

theorem lookup_insert : (m.insert k v).lookup k' = if k = k' then some v else m.lookup k' := by
  obtain ⟨l, hl⟩ := m
  show lookupEntries k' (insertEntries k v l) = if k = k' then some v else lookupEntries k' l
  clear hl
  induction l with
  | nil => rfl
  | cons a l ih =>
    unfold insertEntries
    split
    · rfl
    · split
      · next heq =>
        by_cases hk : k = k'
        · simp [lookupEntries, hk]
        · have ha : a.1 ≠ k' := heq ▸ hk
          simp [lookupEntries, hk, ha]
      · next hne =>
        by_cases hk : k = k'
        · have ha : a.1 ≠ k' := hk ▸ hne
          rw [lookupEntries, if_neg ha, ih, if_pos hk, if_pos hk]
        · rw [lookupEntries, ih, if_neg hk, if_neg hk, lookupEntries]

theorem lookup_eq_some_iff : m.lookup k = some v ↔ (k, v) ∈ m.entries := by
  obtain ⟨l, hl⟩ := m
  show lookupEntries k l = some v ↔ (k, v) ∈ l
  induction l with
  | nil => exact iff_of_false (by intro h; cases h) List.not_mem_nil
  | cons a l ih =>
    obtain ⟨ha, hl⟩ := List.pairwise_cons.mp hl
    rw [lookupEntries, List.mem_cons]
    by_cases hk : a.1 = k
    · rw [if_pos hk]
      constructor
      · intro h
        exact .inl (Prod.ext hk.symm (Option.some.inj h).symm)
      · rintro (rfl | hmem)
        · rfl
        · exact absurd (ha _ hmem) (not_lt_of_ge hk.ge)
    · rw [if_neg hk, ih hl]
      refine ⟨.inr, fun h => h.resolve_left ?_⟩
      rintro rfl
      exact hk rfl

/-- A map is what it holds. -/
theorem ext_lookup (h : ∀ k, m.lookup k = m'.lookup k) : m = m' := by
  have hmem : ∀ e, e ∈ m.entries ↔ e ∈ m'.entries := by
    intro e
    rw [show e = (e.1, e.2) from rfl, ← lookup_eq_some_iff, ← lookup_eq_some_iff, h]
  have hnodup : ∀ m : SortedMap K V, m.entries.Nodup := fun m =>
    m.sorted.imp fun hlt => by
      rintro rfl
      exact lt_irrefl _ hlt
  refine SortedMap.ext ?_
  exact List.Perm.eq_of_pairwise (fun a b _ _ hab hba => absurd hba (lt_asymm hab)) m.sorted
    m'.sorted ((List.perm_ext_iff_of_nodup (hnodup m) (hnodup m')).mpr hmem)

theorem lookup_retain (f : K → V → Bool) :
    (m.retain f).lookup k = (m.lookup k).filter (f k) := by
  refine Option.ext fun v => ?_
  rw [Option.filter_eq_some_iff, lookup_eq_some_iff, lookup_eq_some_iff]
  exact List.mem_filter

theorem mem_keys : k ∈ m.keys ↔ ∃ v, m.lookup k = some v := by
  refine List.mem_map.trans ⟨?_, ?_⟩
  · rintro ⟨e, he, rfl⟩
    exact ⟨e.2, lookup_eq_some_iff.mpr he⟩
  · rintro ⟨v, hv⟩
    exact ⟨(k, v), lookup_eq_some_iff.mp hv, rfl⟩

/-! ## Inserting a list -/

/-- Insert the entries of a list one after the other. -/
def extend (m : SortedMap K V) (l : List (K × V)) : SortedMap K V :=
  l.foldl (fun m e => m.insert e.1 e.2) m

theorem mem_keys_insert : k' ∈ (m.insert k v).keys ↔ k' = k ∨ k' ∈ m.keys := by
  simp only [mem_keys, lookup_insert]
  by_cases hk : k = k'
  · simp [hk]
  · simp [hk, Ne.symm hk]

theorem mem_keys_extend {l : List (K × V)} :
    k ∈ (m.extend l).keys ↔ k ∈ m.keys ∨ k ∈ l.map Prod.fst := by
  induction l generalizing m with
  | nil => simp [extend]
  | cons a l ih =>
    rw [extend, List.foldl_cons, ← extend, ih, mem_keys_insert, List.map_cons, List.mem_cons]
    tauto

/-- The entries of a map build it. -/
theorem extend_entries (m : SortedMap K V) : (∅ : SortedMap K V).extend m.entries = m := by
  have hlookup : ∀ (l : List (K × V)) (start : SortedMap K V),
      (l.Pairwise fun a b => a.1 < b.1) → ∀ k,
      (start.extend l).lookup k = (lookupEntries k l).or (start.lookup k) := by
    intro l
    induction l with
    | nil => exact fun start _ k => rfl
    | cons a l ih =>
      intro start hl k
      obtain ⟨ha, hl⟩ := List.pairwise_cons.mp hl
      rw [extend, List.foldl_cons, ← extend, ih _ hl, lookup_insert, lookupEntries]
      by_cases hk : a.1 = k
      · have hnone : lookupEntries k l = none := by
          cases hc : (⟨l, hl⟩ : SortedMap K V).lookup k with
          | none => exact hc
          | some v => exact absurd (ha _ (lookup_eq_some_iff.mp hc)) (not_lt_of_ge hk.ge)
        rw [if_pos hk, if_pos hk, hnone]
        rfl
      · rw [if_neg hk, if_neg hk]
  refine ext_lookup fun k => ?_
  rw [hlookup _ _ m.sorted, lookup_empty, Option.or_none]
  rfl

end SortedMap
