import Mathlib.Data.List.AList
import Mathlib.Data.List.Induction

/-!
# Association maps

Maps with unique keys as association lists, compared by what they hold under each key. A loop
over one map that writes to another is described key by key (`lookup_foldl`, `lookup_foldlM`):
what the loop leaves under a key depends on the entry of that key and on nothing else.
-/

namespace AssocMap

universe u v w

variable {K : Type u} {V : Type v} {W : Type w} [DecidableEq K]

/-- A map from `K` to `V`. -/
abbrev Map (K : Type u) (V : Type v) := AList fun _ : K => V

/-- Apply a function to every value. -/
def mapVal (f : K → V → W) (m : Map K V) : Map K W :=
  ⟨m.entries.map (.map id f), m.nodupKeys.map₂ f⟩

@[simp] theorem lookup_mapVal (f : K → V → W) (m : Map K V) (k : K) :
    (mapVal f m).lookup k = (m.lookup k).map (f k) :=
  List.dlookup_map₂ k

/-- Keep the entries that pass a test. -/
def retain (f : K → V → Bool) (m : Map K V) : Map K V :=
  ⟨m.entries.filter fun e => f e.1 e.2, m.nodupKeys.sublist List.filter_sublist⟩

theorem lookup_retain (f : K → V → Bool) (m : Map K V) (k : K) :
    (retain f m).lookup k = (m.lookup k).filter (f k) := by
  refine Option.ext fun v => ?_
  rw [← Option.mem_def, AList.mem_lookup_iff, Option.filter_eq_some_iff, ← Option.mem_def,
    AList.mem_lookup_iff]
  exact List.mem_filter

/-- Insert the entries of a list one after the other. -/
def extend (m : Map K V) (l : List (K × V)) : Map K V :=
  l.foldl (fun m e => m.insert e.1 e.2) m

@[simp] theorem extend_nil (m : Map K V) : extend m [] = m := rfl

@[simp] theorem extend_cons (m : Map K V) (k : K) (v : V) (l : List (K × V)) :
    extend m ((k, v) :: l) = extend (m.insert k v) l := rfl

theorem extend_append (m : Map K V) (l l' : List (K × V)) :
    extend m (l ++ l') = extend (extend m l) l' := List.foldl_append

theorem lookup_insert_eq (m : Map K V) (k k' : K) (v : V) :
    (m.insert k v).lookup k' = if k' = k then some v else m.lookup k' := by
  by_cases h : k' = k
  · rw [if_pos h, h, AList.lookup_insert]
  · rw [if_neg h, AList.lookup_insert_ne h]

theorem lookup_erase_eq (m : Map K V) (k k' : K) :
    (m.erase k).lookup k' = if k' = k then none else m.lookup k' := by
  by_cases h : k' = k
  · rw [if_pos h, h, AList.lookup_erase]
  · rw [if_neg h, AList.lookup_erase_ne h]

/-- A key that is not written keeps its value. -/
theorem lookup_extend_of_not_mem {m : Map K V} {l : List (K × V)} {k : K}
    (h : k ∉ l.map Prod.fst) : (extend m l).lookup k = m.lookup k := by
  induction l generalizing m with
  | nil => rfl
  | cons e l ih =>
    rw [List.map_cons, List.mem_cons, not_or] at h
    rw [extend_cons, ih h.2, lookup_insert_eq, if_neg h.1]

/-- With distinct keys every written entry is found. -/
theorem lookup_extend_of_mem {m : Map K V} {l : List (K × V)} (hl : (l.map Prod.fst).Nodup)
    {k : K} {v : V} (h : (k, v) ∈ l) : (extend m l).lookup k = some v := by
  induction l generalizing m with
  | nil => cases h
  | cons e l ih =>
    obtain ⟨he, hl⟩ := List.nodup_cons.mp hl
    rcases List.mem_cons.mp h with rfl | h
    · rw [extend_cons, lookup_extend_of_not_mem he, AList.lookup_insert]
    · exact ih hl h

/-- A key that is written is found. -/
theorem mem_extend {m : Map K V} {l : List (K × V)} {k : K} (h : k ∈ l.map Prod.fst) :
    ∃ v, (extend m l).lookup k = some v := by
  induction l generalizing m with
  | nil => cases h
  | cons e l ih =>
    rw [extend_cons]
    by_cases hk : k ∈ l.map Prod.fst
    · exact ih hk
    · have he : k = e.1 := (List.mem_cons.mp h).resolve_right hk
      exact ⟨e.2, by rw [lookup_extend_of_not_mem hk, he, AList.lookup_insert]⟩

/-- What is found was there before or has been written. -/
theorem mem_of_lookup_extend {m : Map K V} {l : List (K × V)} {k : K} {v : V}
    (h : (extend m l).lookup k = some v) : (k, v) ∈ l ∨ m.lookup k = some v := by
  induction l generalizing m with
  | nil => exact Or.inr h
  | cons e l ih =>
    rcases ih h with h | h
    · exact Or.inl (List.mem_cons_of_mem _ h)
    · rw [lookup_insert_eq] at h
      split_ifs at h with hk
      · rw [hk, ← Option.some.inj h]
        exact Or.inl List.mem_cons_self
      · exact Or.inr h

/-- With distinct keys and nothing there before, exactly the written entries are found. -/
theorem lookup_extend_empty {l : List (K × V)} (hl : (l.map Prod.fst).Nodup) {k : K} {v : V} :
    (extend (∅ : Map K V) l).lookup k = some v ↔ (k, v) ∈ l := by
  refine ⟨fun h => ?_, fun h => lookup_extend_of_mem hl h⟩
  rcases mem_of_lookup_extend h with h | h
  · exact h
  · rw [AList.lookup_empty] at h
    cases h

/-- Only what is written matters where something is written. -/
theorem lookup_extend (m : Map K V) (l : List (K × V)) (k : K) :
    (extend m l).lookup k = ((extend ∅ l).lookup k).or (m.lookup k) := by
  induction l using List.reverseRecOn with
  | nil => rw [extend_nil, extend_nil, AList.lookup_empty, Option.none_or]
  | append_singleton l e ih =>
    rw [extend_append, extend_append, extend_cons, extend_nil, extend_cons, extend_nil,
      lookup_insert_eq, lookup_insert_eq, ih]
    split_ifs
    · rw [Option.some_or]
    · rfl

/-- The entries of a map as pairs. -/
def toList (m : Map K V) : List (K × V) := m.entries.map fun e => (e.1, e.2)

theorem mem_toList {m : Map K V} {k : K} {v : V} : (k, v) ∈ toList m ↔ m.lookup k = some v := by
  unfold toList
  rw [← Option.mem_def, AList.mem_lookup_iff, List.mem_map]
  constructor
  · rintro ⟨⟨k', v'⟩, he, h⟩
    obtain ⟨rfl, rfl⟩ := Prod.mk.inj h
    exact he
  · intro h
    exact ⟨_, h, rfl⟩

omit [DecidableEq K] in
theorem nodup_keys_toList (m : Map K V) : ((toList m).map Prod.fst).Nodup := by
  have h := m.nodupKeys
  unfold toList
  rwa [List.map_map]

/-- Writing a whole map over another. -/
theorem lookup_extend_toList (m m' : Map K V) (k : K) :
    (extend m (toList m')).lookup k = (m'.lookup k).or (m.lookup k) := by
  cases h : m'.lookup k with
  | some v =>
    rw [lookup_extend_of_mem (nodup_keys_toList m') (mem_toList.mpr h), Option.some_or]
  | none =>
    rw [lookup_extend_of_not_mem, Option.none_or]
    rintro hk
    obtain ⟨⟨_, v⟩, hv, rfl⟩ := List.mem_map.mp hk
    rw [mem_toList.mp hv] at h
    cases h

/-! ## Loops -/

section Loops

variable {g : K → V → Option W → Option W} {l : List (Σ _ : K, V)}

/-- A loop whose step for the entry `e` touches only the key of `e`. -/
theorem lookup_foldl (hl : l.NodupKeys) {f : Map K W → (Σ _ : K, V) → Map K W}
    (hf : ∀ m e k, (f m e).lookup k = if k = e.1 then g k e.2 (m.lookup k) else m.lookup k)
    (m : Map K W) (k : K) :
    (l.foldl f m).lookup k =
      (l.dlookup k).elim (m.lookup k) fun v => g k v (m.lookup k) := by
  induction l generalizing m with
  | nil => rfl
  | cons e l ih =>
    obtain ⟨he, hl⟩ := List.nodupKeys_cons.mp hl
    rw [List.foldl_cons, ih hl, hf]
    by_cases hk : k = e.1
    · subst hk
      rw [List.dlookup_cons_eq, List.dlookup_eq_none.mpr he]
      simp only [if_true, Option.elim_some, Option.elim_none]
    · rw [List.dlookup_cons_ne _ _ hk]
      simp only [if_neg hk]

/-- The same for a loop that may fail. -/
theorem lookup_foldlM (hl : l.NodupKeys) {f : Map K W → (Σ _ : K, V) → Option (Map K W)}
    (hf : ∀ m m' e, e ∈ l → f m e = some m' →
      ∀ k, m'.lookup k = if k = e.1 then g k e.2 (m.lookup k) else m.lookup k)
    {m m' : Map K W} (h : l.foldlM f m = some m') (k : K) :
    m'.lookup k =
      (l.dlookup k).elim (m.lookup k) fun v => g k v (m.lookup k) := by
  induction l generalizing m with
  | nil => rw [← Option.some.inj h]; rfl
  | cons e l ih =>
    obtain ⟨he, hl⟩ := List.nodupKeys_cons.mp hl
    obtain ⟨m₁, h₁, h⟩ := Option.bind_eq_some_iff.mp (by rwa [List.foldlM_cons] at h)
    rw [ih hl (fun m m' e he => hf m m' e (List.mem_cons_of_mem _ he)) h,
      hf _ _ _ List.mem_cons_self h₁]
    by_cases hk : k = e.1
    · subst hk
      rw [List.dlookup_cons_eq, List.dlookup_eq_none.mpr he]
      simp only [if_true, Option.elim_some, Option.elim_none]
    · rw [List.dlookup_cons_ne _ _ hk]
      simp only [if_neg hk]

end Loops

end AssocMap
