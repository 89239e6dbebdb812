import Roxo.Library.GreedyMatch

/-!
# Serving requests

`Serves` says that every request got a free item with the key it wants if there was one, whichever
that was. However the items are chosen, as many requests of a key are served as there are requests
and items of that key (`Serves.countP`). `greedy` is one way of serving.
-/

namespace GreedyMatch

variable {σ ι κ : Type*} [DecidableEq ι] {want : σ → κ} {key : ι → κ} {s : σ} {i : ι}
  {requests : List σ} {free : List ι} {got : List (Option ι)}

/-- What the requests get, in order, from the list of free items. -/
inductive Serves (want : σ → κ) (key : ι → κ) : List σ → List (Option ι) → List ι → Prop
  | nil (free : List ι) : Serves want key [] [] free
  | take {s : σ} {i : ι} {requests : List σ} {got : List (Option ι)} {free : List ι} :
      i ∈ free → key i = want s → Serves want key requests got (free.erase i) →
      Serves want key (s :: requests) (some i :: got) free
  | skip {s : σ} {requests : List σ} {got : List (Option ι)} {free : List ι} :
      (∀ i ∈ free, key i ≠ want s) → Serves want key requests got free →
      Serves want key (s :: requests) (none :: got) free

theorem Serves.length (h : Serves want key requests got free) : got.length = requests.length := by
  induction h with
  | nil => rfl
  | take _ _ _ ih => rw [List.length_cons, List.length_cons, ih]
  | skip _ _ ih => rw [List.length_cons, List.length_cons, ih]

/-- What a request got is free at first and has the key it wants. -/
theorem Serves.forall₂ (h : Serves want key requests got free) :
    List.Forall₂ (fun s m => ∀ i, m = some i → i ∈ free ∧ key i = want s) requests got := by
  induction h with
  | nil => exact .nil
  | take hi hkey _ ih =>
    refine .cons ?_ (ih.imp fun s m hm j hj => ?_)
    · rintro _ ⟨rfl⟩
      exact ⟨hi, hkey⟩
    · exact ⟨List.mem_of_mem_erase (hm j hj).1, (hm j hj).2⟩
  | skip _ _ ih => exact .cons (fun _ hj => nomatch hj) ih

theorem Serves.mem_free (h : Serves want key requests got free) (hi : some i ∈ got) : i ∈ free := by
  induction h with
  | nil => cases hi
  | take hj _ _ ih =>
    rcases List.mem_cons.mp hi with heq | hi
    · exact Option.some.inj heq ▸ hj
    · exact List.mem_of_mem_erase (ih hi)
  | skip _ _ ih =>
    rcases List.mem_cons.mp hi with heq | hi
    · cases heq
    · exact ih hi

/-- No item is given out twice. -/
theorem Serves.pairwise (h : Serves want key requests got free) (hn : free.Nodup) :
    got.Pairwise fun m m' => ∀ i, m = some i → m' ≠ some i := by
  induction h with
  | nil => exact .nil
  | @take s i requests got free _ _ hrest ih =>
    refine .cons ?_ (ih (hn.erase i))
    rintro m' hm' _ ⟨rfl⟩ rfl
    exact hn.not_mem_erase (hrest.mem_free hm')
  | skip _ _ ih => exact .cons (fun _ _ _ hj => nomatch hj) (ih hn)

variable [DecidableEq κ]

/-- **As many requests of a key are served as possible.** -/
theorem Serves.countP (h : Serves want key requests got free) (k : κ) :
    (requests.zip got).countP (fun slot => want slot.1 = k ∧ slot.2.isSome) =
      min (requests.countP fun s => want s = k) (free.countP fun i => key i = k) := by
  induction h with
  | nil => simp
  | @take s i requests got free hi hkey _ ih =>
    rw [List.zip_cons_cons, List.countP_cons, List.countP_cons, ih]
    have herase : free.countP (fun i => key i = k) =
        (free.erase i).countP (fun i => key i = k) + if key i = k then 1 else 0 := by
      rw [(List.perm_cons_erase hi).countP_eq, List.countP_cons]
      simp
    rw [herase, hkey]
    by_cases hk : want s = k
    · simp [hk]
    · simp [hk]
  | @skip s requests got free hnone _ ih =>
    rw [List.zip_cons_cons, List.countP_cons, List.countP_cons, ih]
    by_cases hk : want s = k
    · have hzero : free.countP (fun i => key i = k) = 0 := by
        rw [List.countP_eq_zero]
        intro i hi
        simpa [← hk] using hnone i hi
      simp [hk, hzero]
    · simp [hk]

theorem serves_greedy (requests : List σ) (free : List ι) :
    Serves want key requests (greedy want key requests free).1 free := by
  induction requests generalizing free with
  | nil => exact .nil free
  | cons s requests ih =>
    cases h : free.find? (fun i => key i = want s) with
    | some i =>
      rw [greedy_cons_some h]
      exact .take (List.mem_of_find?_eq_some h) (by simpa using List.find?_some h) (ih _)
    | none =>
      rw [greedy_cons_none h]
      exact .skip (fun i hi => by simpa using List.find?_eq_none.mp h i hi) (ih _)

/-- Earlier requests are served before the later ones, with what these leave. -/
theorem greedy_append (requests requests' : List σ) (free : List ι) :
    (greedy want key (requests ++ requests') free).1 =
      (greedy want key requests free).1 ++
        (greedy want key requests' (greedy want key requests free).2).1 := by
  induction requests generalizing free with
  | nil => rfl
  | cons s requests ih =>
    rw [List.cons_append]
    cases h : free.find? (fun i => key i = want s) with
    | some i => rw [greedy_cons_some h, greedy_cons_some h, ih, List.cons_append]
    | none => rw [greedy_cons_none h, greedy_cons_none h, ih, List.cons_append]

/-- The items left over are the free ones that nobody got. -/
theorem rest_greedy (hn : free.Nodup) :
    (greedy want key requests free).2 =
      free.filter (some · ∉ (greedy want key requests free).1) := by
  induction requests generalizing free with
  | nil => exact (List.filter_eq_self.mpr fun i _ => by simp [greedy]).symm
  | cons s requests ih =>
    cases h : free.find? (fun i => key i = want s) with
    | some i =>
      rw [greedy_cons_some h, ih (hn.erase i), hn.erase_eq_filter, List.filter_filter]
      refine List.filter_congr fun j _ => ?_
      by_cases hj : j = i
      · simp [hj]
      · simp [hj]
    | none =>
      rw [greedy_cons_none h, ih hn]
      simp

variable (want key) in
/-- A request gets the first item with its key that no earlier one got. -/
theorem greedy_split (hn : free.Nodup) (before : List σ) (s : σ) (after : List σ) :
    ∃ taken later, (greedy want key (before ++ s :: after) free).1 =
        taken ++ (free.filter (some · ∉ taken)).find? (fun i => key i = want s) :: later ∧
      taken.length = before.length := by
  obtain ⟨later, hlater⟩ : ∃ later,
      (greedy want key (s :: after) (greedy want key before free).2).1 =
        (greedy want key before free).2.find? (fun i => key i = want s) :: later := by
    cases h : (greedy want key before free).2.find? (fun i => key i = want s) with
    | some i => exact ⟨_, by rw [greedy_cons_some h]⟩
    | none => exact ⟨_, by rw [greedy_cons_none h]⟩
  refine ⟨(greedy want key before free).1, later, ?_, length_greedy before free⟩
  rw [greedy_append, hlater, rest_greedy hn]

end GreedyMatch
