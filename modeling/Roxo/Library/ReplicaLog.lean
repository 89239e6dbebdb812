import Roxo.Library.Replica

/-!
# Replicas that follow a log

The steps of a store are logged: each record says which entries it removed, added and updated. A
replica starts as a copy of the store and plays the records in their order, those that the copy
already has among them. A record does not hold the entries that it adds: they are taken from the
store of the time at which the record is played (`Record.play`).

`Logged` is what holds of a store and the records of its steps, and `Lags` is what holds of a
replica that has some of them still to play. Both are kept by the steps of the store; `Lags` is kept
by playing the next record (`Lags.play`), and a replica that has played all of them is the store
(`Lags.eq`).
-/

namespace Replica

variable {κ ε υ : Type*}

/-- What is logged of a step. -/
structure Record (κ υ : Type*) where
  removed : List κ
  added : List κ
  updated : List υ

/-- Entries without the null key, in which every parent that is not null has an entry. -/
structure Closed (parent : ε → κ) (null : κ) (r : Store κ ε) : Prop where
  absent : r null = none
  parents : ∀ y e, r y = some e → parent e ≠ null → (r (parent e)).isSome = true

/-- Updates overwrite: what another update leaves of the first one does not matter if the first one
is done again. -/
structure Overwrites (parent : ε → κ) (f : υ → ε → ε) : Prop where
  parent_eq : ∀ u e, parent (f u e) = parent e
  idem : ∀ u e, f u (f u e) = f u e
  absorb : ∀ u v e, f u (f v (f u e)) = f u (f v e)

section

variable {parent : ε → κ} {null : κ} {r r' source : Store κ ε} {x y : κ}

theorem Below.isSome (h : Below parent r x y) (hx : (r x).isSome = true) : (r y).isSome = true := by
  cases h with
  | refl => exact hx
  | tail _ hab =>
    obtain ⟨e, he, -⟩ := hab
    exact Option.isSome_of_eq_some he

/-- A chain of ancestors is the same in another store that has its end, as long as the parents
agree. -/
theorem Below.transfer (h : Below parent r x y) (hnull : r null = none)
    (hclosed : Closed parent null r')
    (hagree : ∀ z e e', r z = some e → r' z = some e' → parent e = parent e')
    (hx : x ≠ null) (hy : (r' y).isSome = true) :
    Below parent r' x y ∧ (r' x).isSome = true := by
  induction h with
  | refl => exact ⟨.refl, hy⟩
  | @tail a b hxa hab ih =>
    obtain ⟨e, he, rfl⟩ := hab
    obtain ⟨e', he'⟩ := Option.isSome_iff_exists.mp hy
    have hparent := hagree b e e' he he'
    have ha : parent e ≠ null := by
      intro heq
      rcases Relation.ReflTransGen.cases_tail hxa with h | ⟨c, -, d, hd, -⟩
      · exact hx (h.symm.trans heq)
      · rw [heq, hnull] at hd
        cases hd
    have hpresent : (r' (parent e)).isSome = true := by
      rw [hparent] at ha ⊢
      exact hclosed.parents b e' he' ha
    obtain ⟨hbelow, hsome⟩ := ih hpresent
    exact ⟨hbelow.tail ⟨e', he', hparent.symm⟩, hsome⟩

end

/-! ### Updates of one entry -/

section

variable [DecidableEq κ] {parent : ε → κ} {key : υ → κ} {f : υ → ε → ε} {y : κ} {e : ε}

/-- Those of some updates that are of the entry `y`. -/
def touch (key : υ → κ) (f : υ → ε → ε) (us : List υ) (y : κ) (e : ε) : ε :=
  us.foldl (fun e u => if y = key u then f u e else e) e

theorem foldl_change_eq (us : List υ) (r : Store κ ε) (y : κ) :
    us.foldl (change key f) r y = (r y).map (touch key f us y) := by
  induction us generalizing r with
  | nil => exact Option.map_id'.symm ▸ rfl
  | cons u us ih =>
    rw [List.foldl_cons, ih]
    unfold change touch
    rw [show (fun e => (u :: us).foldl (fun e u => if y = key u then f u e else e) e) =
      fun e => us.foldl (fun e u => if y = key u then f u e else e)
        (if y = key u then f u e else e) from rfl]
    by_cases hy : y = key u
    · simp only [hy, if_true, Option.map_map, Function.comp_def]
    · simp only [hy, if_false]

theorem touch_cons (u : υ) (us : List υ) :
    touch key f (u :: us) y e = touch key f us y (touch key f [u] y e) := rfl

theorem touch_append (us vs : List υ) :
    touch key f (us ++ vs) y e = touch key f vs y (touch key f us y e) := List.foldl_append

theorem touch_of_not_mem {us : List υ} (h : ∀ u ∈ us, key u ≠ y) : touch key f us y e = e := by
  induction us with
  | nil => rfl
  | cons u us ih =>
    have hu : touch key f [u] y e = e := if_neg fun heq => h u List.mem_cons_self heq.symm
    rw [touch_cons, hu]
    exact ih fun v hv => h v (List.mem_cons_of_mem _ hv)

theorem Overwrites.parent_touch (h : Overwrites parent f) (us : List υ) :
    parent (touch key f us y e) = parent e := by
  induction us generalizing e with
  | nil => rfl
  | cons u us ih =>
    rw [touch_cons, ih]
    show parent (if y = key u then f u e else e) = parent e
    split_ifs
    · exact h.parent_eq u e
    · rfl

/-- One update absorbs what it did before others. -/
theorem Overwrites.touch_singleton (h : Overwrites parent f) (u : υ) (us : List υ) :
    touch key f [u] y (touch key f us y (touch key f [u] y e)) =
      touch key f [u] y (touch key f us y e) := by
  have hone : ∀ v e, touch key f [v] y e = if y = key v then f v e else e := fun _ _ => rfl
  induction us generalizing e with
  | nil =>
    show touch key f [u] y (touch key f [u] y e) = touch key f [u] y e
    simp only [hone]
    split_ifs
    · exact h.idem u e
    · rfl
  | cons v us ih =>
    have htwo : touch key f [u] y (touch key f [v] y (touch key f [u] y e)) =
        touch key f [u] y (touch key f [v] y e) := by
      simp only [hone]
      split_ifs
      · exact h.absorb u v e
      · exact h.idem u e
      · rfl
      · rfl
    calc touch key f [u] y (touch key f (v :: us) y (touch key f [u] y e))
        = touch key f [u] y (touch key f us y
            (touch key f [u] y (touch key f [v] y (touch key f [u] y e)))) := ih.symm
      _ = touch key f [u] y (touch key f (v :: us) y e) := by
        rw [htwo]
        exact ih

/-- Updates absorb what they did before others. -/
theorem Overwrites.touch_touch (h : Overwrites parent f) (us vs : List υ) :
    touch key f us y (touch key f vs y (touch key f us y e)) =
      touch key f us y (touch key f vs y e) := by
  induction us generalizing vs e with
  | nil => rfl
  | cons u us ih =>
    have hu : touch key f [u] y (touch key f (us ++ vs) y (touch key f [u] y e)) =
        touch key f [u] y (touch key f (us ++ vs) y e) := h.touch_singleton u (us ++ vs)
    rw [touch_append, touch_append] at hu
    calc touch key f (u :: us) y (touch key f vs y (touch key f (u :: us) y e))
        = touch key f us y (touch key f [u] y (touch key f vs y (touch key f us y e))) := by
          rw [touch_cons u us, touch_cons u us, hu]
      _ = touch key f us y (touch key f (vs ++ [u]) y (touch key f us y e)) := by
          rw [touch_append]
      _ = touch key f (u :: us) y (touch key f vs y e) := by
          rw [ih, touch_append, ← touch_cons u us]

end

/-! ### Playing a record -/

section

variable [DecidableEq κ] {parent : ε → κ} {null : κ} {key : υ → κ} {f : υ → ε → ε}
  {issued issued' : κ → Prop} {s t replica source : Store κ ε} {log rest : List (Record κ υ)}
  {r : Record κ υ} {x y : κ} {e e' : ε}

/-- Removes the removed subtrees, inserts the added ones as they are in the source and updates the
updated entries. -/
noncomputable def Record.play (parent : ε → κ) (key : υ → κ) (f : υ → ε → ε)
    (replica source : Store κ ε) (r : Record κ υ) : Store κ ε :=
  r.updated.foldl (change key f)
    (r.added.foldl (graft parent source) (r.removed.foldl (remove parent) replica))

open Classical in
theorem Record.play_apply (r : Record κ υ) (replica source : Store κ ε) (y : κ) :
    r.play parent key f replica source y =
      (if ∃ x ∈ r.added, Below parent source x y then source y
        else if ∃ x ∈ r.removed, Below parent replica x y then none else replica y).map
          (touch key f r.updated y) := by
  unfold Record.play
  rw [foldl_change_eq, foldl_graft, foldl_remove]

/-- The updates of some records, in their order. -/
def updatesOf (log : List (Record κ υ)) : List υ := log.flatMap Record.updated

/-- A step from the store `s` to the store `t` whose record is `r`. Keys are never used twice:
`issued` are those that have been used before the step. -/
structure Step (parent : ε → κ) (null : κ) (key : υ → κ) (f : υ → ε → ε)
    (issued issued' : κ → Prop) (s t : Store κ ε) (r : Record κ υ) : Prop where
  closed : Closed parent null t
  play : r.play parent key f s t = t
  grows : ∀ x, issued x → issued' x
  used : ∀ x e, t x = some e → issued' x
  fresh : ∀ x ∈ r.added, ¬ issued x
  added : ∀ x ∈ r.added, (t x).isSome = true
  new : ∀ x, s x = none → (t x).isSome = true → x ∈ r.added
  below : ∀ x ∈ r.added, ∀ y, Below parent t x y → y ∈ r.added
  removed : ∀ x ∈ r.removed, x ≠ null ∧ issued x ∧ t x = none
  updated : ∀ u ∈ r.updated, issued (key u)

/-- What holds of a store and the records of its steps. -/
structure Logged (parent : ε → κ) (null : κ) (key : υ → κ) (f : υ → ε → ε) (issued : κ → Prop)
    (s : Store κ ε) (log : List (Record κ υ)) : Prop where
  closed : Closed parent null s
  used : ∀ x e, s x = some e → issued x
  removed : ∀ r ∈ log, ∀ x ∈ r.removed, x ≠ null ∧ issued x ∧ s x = none
  added : ∀ r ∈ log, ∀ x ∈ r.added, issued x
  updated : ∀ r ∈ log, ∀ u ∈ r.updated, issued (key u)
  /-- The store has the last records already. -/
  settled : ∀ rest, rest <:+ log → ∀ y e, s y = some e → touch key f (updatesOf rest) y e = e
  /-- A parent is not added after its children. -/
  order : log.Pairwise fun r r' => ∀ x ∈ r.added, ∀ e, s x = some e → parent e ∉ r'.added

/-- A replica that still has records to play. -/
structure Lags (parent : ε → κ) (null : κ) (key : υ → κ) (f : υ → ε → ε) (issued : κ → Prop)
    (s : Store κ ε) (pending : List (Record κ υ)) (replica : Store κ ε) : Prop where
  closed : Closed parent null replica
  used : ∀ y e, replica y = some e → issued y
  present : ∀ y, (s y).isSome = true → (∀ r ∈ pending, y ∉ r.added) → (replica y).isSome = true
  value : ∀ y e e', replica y = some e → s y = some e' →
    touch key f (updatesOf pending) y e = e'
  gone : ∀ y e, replica y = some e → s y = none →
    ∃ r ∈ pending, ∃ x ∈ r.removed, Below parent replica x y

omit [DecidableEq κ] in
theorem updatesOf_append_singleton : updatesOf (log ++ [r]) = updatesOf log ++ r.updated := by
  unfold updatesOf
  rw [List.flatMap_append, List.flatMap_singleton]

/-! ### The store -/

/-- No entry that was there before is below an added one. -/
theorem Step.not_below (h : Step parent null key f issued issued' s t r) (hy : issued y) :
    ¬ ∃ x ∈ r.added, Below parent t x y :=
  fun ⟨x, hx, hbelow⟩ => h.fresh y (h.below x hx y hbelow) hy

/-- An entry that stays is updated. -/
theorem Step.value (h : Step parent null key f issued issued' s t r) (hissued : issued y)
    (hs : s y = some e) (ht : t y = some e') : touch key f r.updated y e = e' := by
  classical
  have hplay := congrFun h.play y
  rw [Record.play_apply, if_neg (h.not_below hissued), ht] at hplay
  split_ifs at hplay with hremoved
  · cases hplay
  · rw [hs] at hplay
    exact Option.some.inj hplay

/-- An entry that goes is below a removed one. -/
theorem Step.gone (h : Step parent null key f issued issued' s t r) (hissued : issued y)
    (hs : s y = some e) (ht : t y = none) : ∃ x ∈ r.removed, Below parent s x y := by
  classical
  have hplay := congrFun h.play y
  rw [Record.play_apply, if_neg (h.not_below hissued), ht] at hplay
  by_contra hnot
  rw [if_neg hnot, hs] at hplay
  cases hplay

theorem Step.isSome_of_issued (h : Step parent null key f issued issued' s t r) (hy : issued y)
    (ht : (t y).isSome = true) : ∃ e, s y = some e := by
  rw [← Option.ne_none_iff_exists']
  exact fun hs => h.fresh y (h.new y hs ht) hy

/-- A step without a record changes nothing. -/
theorem Step.eq_of_empty (h : Step parent null key f issued issued' s t ⟨[], [], []⟩) : t = s :=
  h.play.symm

theorem Logged.nil (hclosed : Closed parent null s) (hissued : ∀ x e, s x = some e → issued x) :
    Logged parent null key f issued s [] where
  closed := hclosed
  used := hissued
  removed _ h := absurd h List.not_mem_nil
  added _ h := absurd h List.not_mem_nil
  updated _ h := absurd h List.not_mem_nil
  settled rest h y e _ := by rw [List.suffix_nil.mp h]; rfl
  order := .nil

theorem Logged.mono (h : Logged parent null key f issued s log)
    (hle : ∀ x, issued x → issued' x) : Logged parent null key f issued' s log where
  closed := h.closed
  used x e he := hle x (h.used x e he)
  removed r hr x hx := ⟨(h.removed r hr x hx).1, hle x (h.removed r hr x hx).2.1,
    (h.removed r hr x hx).2.2⟩
  added r hr x hx := hle x (h.added r hr x hx)
  updated r hr u hu := hle _ (h.updated r hr u hu)
  settled := h.settled
  order := h.order

theorem Logged.of_suffix (h : Logged parent null key f issued s log) (hrest : rest <:+ log) :
    Logged parent null key f issued s rest where
  closed := h.closed
  used := h.used
  removed r hr := h.removed r (hrest.subset hr)
  added r hr := h.added r (hrest.subset hr)
  updated r hr := h.updated r (hrest.subset hr)
  settled _ hsuffix := h.settled _ (hsuffix.trans hrest)
  order := h.order.sublist hrest.sublist

theorem Logged.step (hf : Overwrites parent f) (h : Logged parent null key f issued s log)
    (hstep : Step parent null key f issued issued' s t r) :
    Logged parent null key f issued' t (log ++ [r]) := by
  have hgone : ∀ x, issued x → s x = none → t x = none := by
    intro x hx hs
    by_contra ht
    exact hstep.fresh x (hstep.new x hs (Option.isSome_iff_ne_none.mpr ht)) hx
  refine
    { closed := hstep.closed
      used := hstep.used
      removed := fun r' hr' x hx => ?_
      added := fun r' hr' x hx => ?_
      updated := fun r' hr' u hu => ?_
      settled := fun rest hrest y e hy => ?_
      order := List.pairwise_append.mpr ⟨?_, List.pairwise_singleton _ _, ?_⟩ }
  · rcases List.mem_append.mp hr' with hr' | hr'
    · obtain ⟨hnull, hissued, hs⟩ := h.removed r' hr' x hx
      exact ⟨hnull, hstep.grows x hissued, hgone x hissued hs⟩
    · rw [List.mem_singleton.mp hr'] at hx
      obtain ⟨hnull, hissued, ht⟩ := hstep.removed x hx
      exact ⟨hnull, hstep.grows x hissued, ht⟩
  · rcases List.mem_append.mp hr' with hr' | hr'
    · exact hstep.grows x (h.added r' hr' x hx)
    · rw [List.mem_singleton.mp hr'] at hx
      obtain ⟨e, he⟩ := Option.isSome_iff_exists.mp (hstep.added x hx)
      exact hstep.used x e he
  · rcases List.mem_append.mp hr' with hr' | hr'
    · exact hstep.grows _ (h.updated r' hr' u hu)
    · rw [List.mem_singleton.mp hr'] at hu
      exact hstep.grows _ (hstep.updated u hu)
  · rcases List.suffix_concat_iff.mp hrest with rfl | ⟨rest', rfl, hrest'⟩
    · rfl
    rw [updatesOf_append_singleton]
    by_cases hissued : issued y
    · obtain ⟨e₀, he₀⟩ := hstep.isSome_of_issued hissued (Option.isSome_of_eq_some hy)
      obtain rfl := hstep.value hissued he₀ hy
      rw [touch_append, hf.touch_touch, h.settled rest' hrest' y e₀ he₀]
    · refine touch_of_not_mem fun u hu => ?_
      rintro rfl
      rcases List.mem_append.mp hu with hu | hu
      · obtain ⟨r', hr', hu⟩ := List.mem_flatMap.mp hu
        exact hissued (h.updated r' (hrest'.subset hr') u hu)
      · exact hissued (hstep.updated u hu)
  · refine h.order.imp_of_mem fun {a b} ha hb hab x hx e he => ?_
    have hissued := h.added a ha x hx
    obtain ⟨e₀, he₀⟩ := hstep.isSome_of_issued hissued (Option.isSome_of_eq_some he)
    rw [← hstep.value hissued he₀ he, hf.parent_touch]
    exact hab x hx e₀ he₀
  · intro a ha b hb x hx e he
    rw [List.mem_singleton.mp hb]
    have hissued := h.added a ha x hx
    obtain ⟨e₀, he₀⟩ := hstep.isSome_of_issued hissued (Option.isSome_of_eq_some he)
    rw [← hstep.value hissued he₀ he, hf.parent_touch]
    intro hmem
    by_cases hnull : parent e₀ = null
    · have hsome := hstep.added _ hmem
      rw [hnull, hstep.closed.absent] at hsome
      cases hsome
    · obtain ⟨p, hp⟩ := Option.isSome_iff_exists.mp (h.closed.parents x e₀ he₀ hnull)
      exact hstep.fresh _ hmem (h.used _ p hp)

/-! ### The replica -/

/-- A copy of the store. -/
theorem Lags.refl (h : Logged parent null key f issued s log) :
    Lags parent null key f issued s log s where
  closed := h.closed
  used := h.used
  present _ hy _ := hy
  value y e e' he he' := by
    obtain rfl := Option.some.inj (he.symm.trans he')
    exact h.settled log (List.suffix_refl log) y e he
  gone y e he hs := by
    rw [hs] at he
    cases he

theorem Lags.mono (h : Lags parent null key f issued s log replica)
    (hle : ∀ x, issued x → issued' x) : Lags parent null key f issued' s log replica :=
  { h with used := fun y e he => hle y (h.used y e he) }

theorem Lags.agree (hf : Overwrites parent f) (h : Lags parent null key f issued s log replica)
    (he : replica y = some e) (he' : s y = some e') : parent e = parent e' := by
  rw [← h.value y e e' he he', hf.parent_touch]

theorem Lags.step (hf : Overwrites parent f) (hlogged : Logged parent null key f issued s log)
    (h : Lags parent null key f issued s log replica)
    (hstep : Step parent null key f issued issued' s t r) :
    Lags parent null key f issued' t (log ++ [r]) replica where
  closed := h.closed
  used y e he := hstep.grows y (h.used y e he)
  present y hy hnot := by
    refine h.present y ?_ fun r' hr' => hnot r' (List.mem_append_left _ hr')
    by_contra hs
    rw [Bool.not_eq_true, Option.isSome_eq_false_iff, Option.isNone_iff_eq_none] at hs
    exact hnot r (List.mem_append_right _ List.mem_cons_self) (hstep.new y hs hy)
  value y e e' he he' := by
    have hissued := h.used y e he
    obtain ⟨e₀, he₀⟩ := hstep.isSome_of_issued hissued (Option.isSome_of_eq_some he')
    rw [updatesOf_append_singleton, touch_append, h.value y e e₀ he he₀]
    exact hstep.value hissued he₀ he'
  gone y e he ht := by
    cases hs : s y with
    | none =>
      obtain ⟨r', hr', hremoved⟩ := h.gone y e he hs
      exact ⟨r', List.mem_append_left _ hr', hremoved⟩
    | some e₀ =>
      obtain ⟨x, hx, hbelow⟩ := hstep.gone (h.used y e he) hs ht
      refine ⟨r, List.mem_append_right _ List.mem_cons_self, x, hx, ?_⟩
      exact (hbelow.transfer hlogged.closed.absent h.closed
        (fun z e e' he he' => (h.agree hf he' he).symm) (hstep.removed x hx).1
        (Option.isSome_of_eq_some he)).1

/-- **A record may be played late**: what it adds is taken from the store of now, which still has
it. -/
theorem Lags.play (hf : Overwrites parent f)
    (hlogged : Logged parent null key f issued s (r :: rest))
    (h : Lags parent null key f issued s (r :: rest) replica)
    (hthere : ∀ x ∈ r.added, (s x).isSome = true) :
    Lags parent null key f issued s rest (r.play parent key f replica s) := by
  classical
  have hplay : ∀ y, r.play parent key f replica s y =
      (if ∃ x ∈ r.added, Below parent s x y then s y
        else if ∃ x ∈ r.removed, Below parent replica x y then none else replica y).map
          (touch key f r.updated y) := Record.play_apply r replica s
  have hgrafted : ∀ y, (∃ x ∈ r.added, Below parent s x y) → (s y).isSome = true :=
    fun y ⟨x, hx, hbelow⟩ => hbelow.isSome (hthere x hx)
  -- nothing of the store is removed
  have hremoved : ∀ y, (s y).isSome = true → ¬ ∃ x ∈ r.removed, Below parent replica x y := by
    rintro y hy ⟨x, hx, hbelow⟩
    obtain ⟨hnull, -, hgone⟩ := hlogged.removed r List.mem_cons_self x hx
    have hsome := (hbelow.transfer h.closed.absent hlogged.closed
      (fun z e e' he he' => h.agree hf he he') hnull hy).2
    rw [hgone] at hsome
    cases hsome
  have hagree : ∀ z e e', replica z = some e → r.play parent key f replica s z = some e' →
      parent e = parent e' := by
    intro z e e' he he'
    rw [hplay] at he'
    split_ifs at he'
    · obtain ⟨e₀, he₀, rfl⟩ := Option.map_eq_some_iff.mp he'
      rw [hf.parent_touch]
      exact h.agree hf he he₀
    · cases he'
    · obtain ⟨e₀, he₀, rfl⟩ := Option.map_eq_some_iff.mp he'
      rw [hf.parent_touch, Option.some.inj (he.symm.trans he₀)]
  have hpresent : ∀ y, (s y).isSome = true → (∀ r' ∈ rest, y ∉ r'.added) →
      (r.play parent key f replica s y).isSome = true := by
    intro y hy hnot
    rw [hplay, Option.isSome_map]
    split_ifs with hg hr
    · exact hy
    · exact absurd hr (hremoved y hy)
    · refine h.present y hy fun r' hr' => ?_
      rcases List.mem_cons.mp hr' with rfl | hr'
      · exact fun hmem => hg ⟨y, hmem, .refl⟩
      · exact hnot r' hr'
  have hclosed : Closed parent null (r.play parent key f replica s) := by
    refine ⟨?_, fun y e he hne => ?_⟩
    · rw [hplay]
      split_ifs
      · rw [hlogged.closed.absent, Option.map_none]
      · rfl
      · rw [h.closed.absent, Option.map_none]
    · rw [hplay] at he
      split_ifs at he with hg hr
      · obtain ⟨e₀, he₀, rfl⟩ := Option.map_eq_some_iff.mp he
        rw [hf.parent_touch] at hne ⊢
        have hp := hlogged.closed.parents y e₀ he₀ hne
        obtain ⟨x, hx, hbelow⟩ := hg
        rcases Relation.ReflTransGen.cases_tail hbelow with rfl | ⟨a, ha, e₁, he₁, rfl⟩
        · -- the parent of an added entry may itself be added by this record, but by no later one
          exact hpresent _ hp fun r' hr' =>
            (List.pairwise_cons.mp hlogged.order).1 r' hr' y hx e₀ he₀
        · rw [Option.some.inj (he₀.symm.trans he₁), hplay, Option.isSome_map, if_pos ⟨x, hx, ha⟩]
          exact hgrafted _ ⟨x, hx, ha⟩
      · cases he
      · obtain ⟨e₀, he₀, rfl⟩ := Option.map_eq_some_iff.mp he
        rw [hf.parent_touch] at hne ⊢
        rw [hplay, Option.isSome_map]
        split_ifs with hg' hr'
        · exact hgrafted _ hg'
        · obtain ⟨x, hx, hbelow⟩ := hr'
          exact absurd ⟨x, hx, hbelow.tail ⟨e₀, he₀, rfl⟩⟩ hr
        · exact h.closed.parents y e₀ he₀ hne
  refine
    { closed := hclosed
      used := fun y e he => ?_
      present := hpresent
      value := fun y e e' he he' => ?_
      gone := fun y e he hs => ?_ }
  · rw [hplay] at he
    split_ifs at he
    · obtain ⟨e₀, he₀, rfl⟩ := Option.map_eq_some_iff.mp he
      exact hlogged.used y e₀ he₀
    · cases he
    · obtain ⟨e₀, he₀, rfl⟩ := Option.map_eq_some_iff.mp he
      exact h.used y e₀ he₀
  · have hsplit : ∀ e₀, touch key f (updatesOf rest) y (touch key f r.updated y e₀) =
        touch key f (updatesOf (r :: rest)) y e₀ := fun e₀ => (touch_append _ _).symm
    rw [hplay, if_neg (hremoved y (Option.isSome_of_eq_some he'))] at he
    split_ifs at he
    · obtain ⟨e₀, he₀, rfl⟩ := Option.map_eq_some_iff.mp he
      obtain rfl := Option.some.inj (he₀.symm.trans he')
      rw [hsplit]
      exact hlogged.settled _ (List.suffix_refl _) y e₀ he₀
    · obtain ⟨e₀, he₀, rfl⟩ := Option.map_eq_some_iff.mp he
      rw [hsplit]
      exact h.value y e₀ e' he₀ he'
  · have hsome := Option.isSome_of_eq_some he
    rw [hplay] at he
    split_ifs at he with hg hr
    · have hthere := hgrafted y hg
      rw [hs] at hthere
      cases hthere
    · cases he
    · obtain ⟨e₀, he₀, -⟩ := Option.map_eq_some_iff.mp he
      obtain ⟨r', hr', x, hx, hbelow⟩ := h.gone y e₀ he₀ hs
      have hnull := (hlogged.removed r' hr' x hx).1
      rcases List.mem_cons.mp hr' with rfl | hr'
      · exact absurd ⟨x, hx, hbelow⟩ hr
      · exact ⟨r', hr', x, hx, (hbelow.transfer h.closed.absent hclosed hagree hnull hsome).1⟩

/-- **A replica that has played every record is the store.** -/
theorem Lags.eq (h : Lags parent null key f issued s [] replica) : replica = s := by
  funext y
  cases hs : s y with
  | none =>
    by_contra hne
    obtain ⟨e, he⟩ := Option.ne_none_iff_exists'.mp hne
    obtain ⟨r, hr, -⟩ := h.gone y e he hs
    exact List.not_mem_nil hr
  | some e' =>
    obtain ⟨e, he⟩ := Option.isSome_iff_exists.mp
      (h.present y (Option.isSome_of_eq_some hs) fun _ hr => absurd hr List.not_mem_nil)
    rw [he, ← h.value y e e' he hs]
    rfl

end

end Replica
