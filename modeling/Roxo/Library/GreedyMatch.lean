import Mathlib.Data.List.Nodup
import Mathlib.Data.List.Forall2
import Mathlib.Data.List.Perm.Basic
import Mathlib.Data.List.ReduceOption

/-!
# Greedy one-to-one matching

Requests are served in order; each takes the first free item that has the key it wants.
`greedy` returns what every request got and the items left over.

The matching loses nothing (`perm_greedy`), respects keys (`forall₂_greedy`) and leaves no item
that an unserved request could have used (`not_mem_rest_of_unserved`). Once the left-over items
are dropped and the unserved requests get new items of their own, matching again serves every
request with the item it already has (`greedy_refill`).
-/

namespace GreedyMatch

variable {σ ι κ : Type*} [DecidableEq κ] [DecidableEq ι]

/-- Serve `requests` in order from the list of free items. -/
def greedy (want : σ → κ) (key : ι → κ) : List σ → List ι → List (Option ι) × List ι
  | [], free => ([], free)
  | s :: requests, free =>
    match free.find? (fun i => key i = want s) with
    | some i =>
      let r := greedy want key requests (free.erase i)
      (some i :: r.1, r.2)
    | none =>
      let r := greedy want key requests free
      (none :: r.1, r.2)

/-- The requests that got nothing. -/
def unserved : List σ → List (Option ι) → List σ
  | s :: requests, none :: got => s :: unserved requests got
  | _ :: requests, some _ :: got => unserved requests got
  | _, _ => []

/-- Hand out `new` to the requests that got nothing. -/
def fill : List (Option ι) → List ι → List ι
  | some i :: got, new => i :: fill got new
  | none :: got, i :: new => i :: fill got new
  | _, _ => []

omit [DecidableEq κ] [DecidableEq ι] in
theorem unserved_map_some (requests : List σ) (items : List ι) :
    unserved requests (items.map some) = [] := by
  induction requests generalizing items with
  | nil => rfl
  | cons s requests ih =>
    cases items with
    | nil => rfl
    | cons i items => exact ih items

section

variable {want : σ → κ} {key key' : ι → κ} {s : σ} {i : ι} {requests : List σ} {free : List ι}

theorem greedy_cons_some (h : free.find? (fun i => key i = want s) = some i) :
    greedy want key (s :: requests) free =
      (some i :: (greedy want key requests (free.erase i)).1,
        (greedy want key requests (free.erase i)).2) := by
  simp only [greedy, h]

theorem greedy_cons_none (h : free.find? (fun i => key i = want s) = none) :
    greedy want key (s :: requests) free =
      (none :: (greedy want key requests free).1, (greedy want key requests free).2) := by
  simp only [greedy, h]

theorem length_greedy (requests : List σ) (free : List ι) :
    (greedy want key requests free).1.length = requests.length := by
  induction requests generalizing free with
  | nil => rfl
  | cons s requests ih =>
    cases h : free.find? (fun i => key i = want s) with
    | some i => rw [greedy_cons_some h, List.length_cons, ih, List.length_cons]
    | none => rw [greedy_cons_none h, List.length_cons, ih, List.length_cons]

theorem rest_sublist (requests : List σ) (free : List ι) :
    (greedy want key requests free).2.Sublist free := by
  induction requests generalizing free with
  | nil => exact List.Sublist.refl _
  | cons s requests ih =>
    cases h : free.find? (fun i => key i = want s) with
    | some i =>
      rw [greedy_cons_some h]
      exact (ih _).trans List.erase_sublist
    | none =>
      rw [greedy_cons_none h]
      exact ih _

/-- Every free item is given to one request or left over. -/
theorem perm_greedy (want : σ → κ) (key : ι → κ) (requests : List σ) (free : List ι) :
    free.Perm ((greedy want key requests free).1.reduceOption ++
      (greedy want key requests free).2) := by
  induction requests generalizing free with
  | nil => exact List.Perm.refl _
  | cons s requests ih =>
    cases h : free.find? (fun i => key i = want s) with
    | some i =>
      rw [greedy_cons_some h, List.reduceOption_cons_of_some]
      exact (List.perm_cons_erase (List.mem_of_find?_eq_some h)).trans ((ih _).cons i)
    | none =>
      rw [greedy_cons_none h, List.reduceOption_cons_of_none]
      exact ih _

/-- What a request got has the key it wants. -/
theorem forall₂_greedy (requests : List σ) (free : List ι) :
    List.Forall₂ (fun s m => ∀ i, m = some i → i ∈ free ∧ key i = want s) requests
      (greedy want key requests free).1 := by
  induction requests generalizing free with
  | nil => exact .nil
  | cons s requests ih =>
    cases h : free.find? (fun i => key i = want s) with
    | some i =>
      rw [greedy_cons_some h]
      refine .cons ?_ ((ih _).imp fun s m hm j hj => ?_)
      · rintro _ ⟨rfl⟩
        exact ⟨List.mem_of_find?_eq_some h, by simpa using List.find?_some h⟩
      · exact ⟨List.mem_of_mem_erase (hm j hj).1, (hm j hj).2⟩
    | none =>
      rw [greedy_cons_none h]
      exact .cons (fun _ hj => nomatch hj) (ih _)

/-- No left-over item has a key that an unserved request wants. -/
theorem not_mem_rest_of_unserved (requests : List σ) (free : List ι) :
    ∀ s ∈ unserved requests (greedy want key requests free).1,
      ∀ i ∈ (greedy want key requests free).2, key i ≠ want s := by
  induction requests generalizing free with
  | nil => intro s hs; cases hs
  | cons t requests ih =>
    cases h : free.find? (fun i => key i = want t) with
    | some j =>
      rw [greedy_cons_some h]
      exact ih _
    | none =>
      rw [greedy_cons_none h]
      intro s hs i hi
      rcases List.mem_cons.mp hs with rfl | hs
      · have := List.find?_eq_none.mp h i ((rest_sublist _ _).subset hi)
        simpa using this
      · exact ih _ s hs i hi

theorem served_mem_of_nodup (hn : free.Nodup) {m : ι}
    (hm : some m ∈ (greedy want key requests free).1) :
    m ∈ free ∧ m ∉ (greedy want key requests free).2 := by
  have hp := perm_greedy want key requests free
  have hm' : m ∈ (greedy want key requests free).1.reduceOption :=
    List.reduceOption_mem_iff.mpr hm
  refine ⟨hp.mem_iff.mpr (List.mem_append_left _ hm'), fun hr => ?_⟩
  exact (List.nodup_append.mp (hp.nodup_iff.mp hn)).2.2 _ hm' _ hr rfl

/-- The items that are not left over are those that were given out. -/
theorem mem_served_of_not_mem_rest (hi : i ∈ free)
    (hr : i ∉ (greedy want key requests free).2) :
    some i ∈ (greedy want key requests free).1 := by
  have hp := (perm_greedy want key requests free).mem_iff.mp hi
  rcases List.mem_append.mp hp with h | h
  · exact List.reduceOption_mem_iff.mp h
  · exact absurd h hr

omit [DecidableEq ι] in
/-- The first hit of a search is still the first hit after a filter that keeps it. -/
theorem find?_filter_append {p q q' : ι → Bool} {new : List ι} (h : free.find? q = some i)
    (hp : p i = true) (hq : ∀ j ∈ free, p j = true → q' j = q j) :
    (free.filter p ++ new).find? q' = some i := by
  obtain ⟨hqi, as, bs, rfl, has⟩ := List.find?_eq_some_iff_append.mp h
  refine List.find?_eq_some_iff_append.mpr ⟨?_, as.filter p, bs.filter p ++ new, ?_, ?_⟩
  · rwa [hq i (by simp) hp]
  · rw [List.filter_append, List.filter_cons_of_pos hp, List.append_assoc, List.cons_append]
  · intro a ha
    obtain ⟨ha, hpa⟩ := List.mem_filter.mp ha
    rw [hq a (List.mem_append_left _ ha) hpa]
    exact has a ha

/-- **Matching again changes nothing.** Drop the left-over items, append new ones for the
unserved requests, and keep the keys of the others: every request is then served, with the item
it got before or the new item meant for it. -/
theorem greedy_refill (hn : free.Nodup) {new : List ι} (hdis : ∀ i ∈ new, i ∉ free)
    (hkey : ∀ i ∈ free, i ∉ (greedy want key requests free).2 → key' i = key i)
    (hfill : List.Forall₂ (fun s i => key' i = want s)
      (unserved requests (greedy want key requests free).1) new) :
    greedy want key' requests
        (free.filter (· ∉ (greedy want key requests free).2) ++ new) =
      ((fill (greedy want key requests free).1 new).map some, []) := by
  induction requests generalizing free new with
  | nil =>
    cases hfill
    simp only [greedy, fill, List.append_nil, List.map_nil, Prod.mk.injEq, true_and]
    exact List.filter_eq_nil_iff.mpr fun a ha => by simp only [ha, not_true, decide_false]; decide
  | cons s requests ih =>
    cases h : free.find? (fun i => key i = want s) with
    | some i =>
      have hi : i ∈ free := List.mem_of_find?_eq_some h
      rw [greedy_cons_some h] at hkey hfill ⊢
      have hrest : i ∉ (greedy want key requests (free.erase i)).2 := fun hir =>
        hn.not_mem_erase ((rest_sublist _ _).subset hir)
      have hfind : (free.filter (· ∉ (greedy want key requests (free.erase i)).2) ++ new).find?
          (fun j => key' j = want s) = some i :=
        find?_filter_append h (by simpa using hrest) fun j hj hr => by
          rw [hkey j hj (by simpa using hr)]
      have herase : (free.filter (· ∉ (greedy want key requests (free.erase i)).2) ++ new).erase i =
          (free.erase i).filter (· ∉ (greedy want key requests (free.erase i)).2) ++ new := by
        rw [List.erase_append_left _ (List.mem_filter.mpr ⟨hi, by simpa using hrest⟩),
          (hn.filter _).erase_eq_filter, hn.erase_eq_filter, List.filter_filter,
          List.filter_filter]
        congr 1
        exact List.filter_congr fun _ _ => Bool.and_comm _ _
      rw [greedy_cons_some hfind, herase, ih (hn.erase i)
        (fun j hj hm => hdis j hj (List.mem_of_mem_erase hm))
        (fun j hj => hkey j (List.mem_of_mem_erase hj)) hfill]
      rfl
    | none =>
      rw [greedy_cons_none h] at hkey hfill ⊢
      obtain ⟨n, new, rfl⟩ : ∃ n new', new = n :: new' := by
        cases hfill with
        | cons _ _ => exact ⟨_, _, rfl⟩
      obtain ⟨hkn, hfill⟩ := List.forall₂_cons.mp hfill
      have hn' : n ∉ free.filter (· ∉ (greedy want key requests free).2) := fun hm =>
        hdis n List.mem_cons_self (List.mem_of_mem_filter hm)
      have hfind : (free.filter (· ∉ (greedy want key requests free).2) ++ n :: new).find?
          (fun j => key' j = want s) = some n := by
        refine List.find?_eq_some_iff_append.mpr ⟨by simpa using hkn, _, new, rfl, ?_⟩
        intro a ha
        obtain ⟨ha, hr⟩ := List.mem_filter.mp ha
        rw [hkey a ha (by simpa using hr)]
        simpa using List.find?_eq_none.mp h a ha
      change greedy want key' (s :: requests)
        (free.filter (· ∉ (greedy want key requests free).2) ++ n :: new) = _
      rw [greedy_cons_some hfind, List.erase_append_right _ hn', List.erase_cons_head,
        ih hn (fun j hj => hdis j (List.mem_cons_of_mem _ hj)) hkey hfill]
      rfl

/-- Requests whose items stand ready in their order are served with them. -/
theorem greedy_ready {items : List ι} (h : List.Forall₂ (fun s i => key i = want s) requests items) :
    greedy want key requests items = (items.map some, []) := by
  induction h with
  | nil => rfl
  | @cons s i requests items hi _ ih =>
    have hfind : (i :: items).find? (fun j => key j = want s) = some i :=
      List.find?_cons_of_pos (by simpa using hi)
    rw [greedy_cons_some hfind, List.erase_cons_head, ih]
    rfl

omit [DecidableEq κ] [DecidableEq ι] in
/-- What holds of the items that requests got and of the new items meant for the others holds of
the items that requests have in the end. -/
theorem forall₂_fill {P : σ → ι → Prop} {got : List (Option ι)} {new : List ι}
    (hlen : got.length = requests.length)
    (hgot : ∀ s i, (s, some i) ∈ requests.zip got → P s i)
    (hnew : List.Forall₂ P (unserved requests got) new) :
    List.Forall₂ P requests (fill got new) := by
  induction requests generalizing got new with
  | nil =>
    rw [List.length_nil, List.length_eq_zero_iff] at hlen
    subst hlen
    exact .nil
  | cons s requests ih =>
    cases got with
    | nil => cases hlen
    | cons m got =>
      have hlen' := Nat.succ.inj hlen
      have hgot' := fun s i hmem => hgot s i (List.mem_cons_of_mem _ hmem)
      cases m with
      | some i =>
        exact .cons (hgot s i List.mem_cons_self) (ih hlen' hgot' hnew)
      | none =>
        cases hnew with
        | cons hi hnew => exact .cons hi (ih hlen' hgot' hnew)

end

end GreedyMatch
