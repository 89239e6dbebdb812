import Roxo.Plugin.ReplaceInstances
import Roxo.Plugin.RefPatch

/-!
# The sync fallback

What a patch leaves unapplied is requested once more as instances to swap in, the additions first
and then the updates, and each round assigns the references to what it has swapped in. The patch
given to the postcommit hooks is what remains after that.
-/

namespace Roxo.Plugin

open AssocMap

variable {V E : Type}

/-- The ids of the instances in a patch that could not be added. -/
def PatchSet.addedIdList (patchSet : PatchSet E) : List String := patchSet.added.keys

def PatchSet.updatedIdList (patchSet : PatchSet E) : List String :=
  patchSet.updated.map Update.id

/-- What the requests of one round come back with, and how its swaps go. -/
structure FallbackAnswer (V E : Type) where
  /-- `serialize` and what deserializing the response puts into the DOM, if that succeeds. -/
  serialize : Option (Dom V → Dom V × Map String Handle)
  /-- `refPatch`, if that succeeds. -/
  refPatch : Option (PatchSet E)
  outcomes : Swap → SwapOutcome

/-- A request of the round fails. -/
def FallbackAnswer.Fails (answer : FallbackAnswer V E) : Prop :=
  answer.serialize = none ∨ answer.refPatch = none

instance (answer : FallbackAnswer V E) : Decidable answer.Fails := by
  unfold FallbackAnswer.Fails
  exact @instDecidableOr _ _ (decidable_of_iff _ Option.isNone_iff_eq_none)
    (decidable_of_iff _ Option.isNone_iff_eq_none)

/-- The swaps for the replacements of mapped instances. -/
def swapsOf (map : InstanceMap) (replacements : Map String Handle) : List Swap :=
  (toList replacements).filterMap fun (id, replacement) =>
    (map.fromIds.lookup id).map fun oldInstance => ⟨id, replacement, oldInstance⟩

/-- The swaps of the round, in their order. -/
def FallbackAnswer.swaps (answer : FallbackAnswer V E) (s : SwapState V) : List Swap :=
  match answer.serialize with
  | none => []
  | some deserialize =>
    let (dom, replacements) := deserialize s.dom
    orderSwaps dom (swapsOf s.map replacements)

/-- The ids whose instances the round swaps out. -/
def FallbackAnswer.replaced (answer : FallbackAnswer V E) (s : SwapState V) : List String :=
  if answer.Fails then []
  else ((answer.swaps s).filter fun swap => !(answer.outcomes swap).fails).map Swap.id

variable [Engine V]

/-- The state when the swaps of the round have been made. -/
def FallbackAnswer.swapped (answer : FallbackAnswer V E) (s : SwapState V) : SwapState V :=
  match answer.serialize with
  | none => s
  | some deserialize =>
    let (dom, replacements) := deserialize s.dom
    swapInstances answer.outcomes { s with dom } (orderSwaps dom (swapsOf s.map replacements))

variable [Decoder E V]

/-- `__replaceInstances`: no patch comes back if a request fails. -/
def replaceInstances (answer : FallbackAnswer V E) (s : SwapState V) (idList : List String) :
    Option (Option (PatchSet E) × SwapState V) :=
  if idList = [] then some (some .newEmpty, s)
  else
    match answer.serialize, answer.refPatch with
    | some _, some refPatch =>
      let s := answer.swapped s
      (applyPatch s.dom s.map refPatch refPatch.added.keys).map fun w =>
        (some w.unapplied, { s with dom := w.dom, map := w.map })
    | _, _ => some (none, s)

/-- Update the unapplied patch to reflect which instances were replaced. -/
def PatchSet.reflect (unapplied : PatchSet E) (unappliedAddedRefs unappliedUpdateRefs :
    Option (PatchSet E)) : PatchSet E :=
  let unapplied := match unappliedAddedRefs with
    | some refs => { unapplied with added := ∅ }.assign refs
    | none => unapplied
  match unappliedUpdateRefs with
  | some refs => { unapplied with updated := [] }.assign refs
  | none => unapplied

/-- What `__applyPatch` has at its end. -/
structure Committed (V E : Type) where
  /-- What the reconciler has left unapplied. -/
  unapplied : PatchSet E
  unappliedAddedRefs : Option (PatchSet E)
  unappliedUpdateRefs : Option (PatchSet E)
  /-- What the postcommit hooks are given. -/
  unappliedPatch : PatchSet E
  state : SwapState V
  /-- The ids whose instances the round of the additions has swapped out. -/
  replacedAdditions : List String
  replacedUpdates : List String

/-- `__applyPatch`, after the precommit hooks and up to the postcommit hooks. -/
def ServeSession.applyPatch (enableSyncFallback : Bool) (addAnswer updateAnswer : FallbackAnswer V E)
    (dom : Dom V) (map : InstanceMap) (selection : List Handle) (patch : PatchSet E)
    (order : List String) : Option (Committed V E) := do
  let w ← Plugin.applyPatch dom map patch order
  let s := SwapState.start w.dom w.map selection
  if enableSyncFallback && !w.unapplied.isEmpty then
    let (added, s₁) ← replaceInstances addAnswer s w.unapplied.addedIdList
    let (updated, s₂) ← replaceInstances updateAnswer s₁ w.unapplied.updatedIdList
    some ⟨w.unapplied, added, updated, w.unapplied.reflect added updated, s₂, addAnswer.replaced s,
      updateAnswer.replaced s₁⟩
  else some ⟨w.unapplied, none, none, w.unapplied, s, [], []⟩

/-- The update is in the patch, or every part of it is reported. -/
def PatchSet.Keeps (patchSet : PatchSet E) (update : Update E) : Prop :=
  update ∈ patchSet.updated ∨ update.OnlyProperties ∧
    ∀ p ∈ update.changedProperties, patchSet.Reports update.id p

/-- Nothing is missing from what the postcommit hooks are given. -/
structure Committed.Honest (c : Committed V E) : Prop where
  /-- An unapplied addition stays as long as there is no instance of the id. -/
  added : ∀ id ∈ c.unapplied.added, c.state.map.fromIds.lookup id = none → id ∈ c.unappliedPatch.added
  /-- What the Ref patch of either round reports as failed is reported. -/
  refs : ∀ refs, c.unappliedAddedRefs = some refs ∨ c.unappliedUpdateRefs = some refs →
    ∀ id p, refs.Reports id p → c.unappliedPatch.Reports id p
  /-- An addition stays unless an instance has been swapped in for it. -/
  additions : ∀ id ∈ c.unapplied.added, id ∉ c.replacedAdditions → id ∈ c.unappliedPatch.added
  /-- An update stays unless an instance has been swapped in for it. -/
  updates : ∀ update ∈ c.unapplied.updated, update.id ∉ c.replacedUpdates →
    c.unappliedPatch.Keeps update

/-! ## One round -/

/-- The server answers with references only. -/
def FallbackAnswer.OnlyRefs (answer : FallbackAnswer V E) : Prop :=
  ∀ refPatch, answer.refPatch = some refPatch → refPatch.OnlyRefs

/-- What is deserialized are new instances, each of its own. -/
structure FallbackAnswer.Fresh (answer : FallbackAnswer V E) (s : SwapState V) : Prop where
  nodup : ∀ deserialize, answer.serialize = some deserialize →
    ((toList (deserialize s.dom).2).map Prod.snd).Nodup
  unmapped : ∀ deserialize, answer.serialize = some deserialize →
    ∀ e ∈ toList (deserialize s.dom).2, s.map.fromInstances.lookup e.2 = none

/-- A reference of the round's Ref patch cannot be assigned. -/
def FallbackAnswer.LeavesRef (answer : FallbackAnswer V E) (s : SwapState V)
    (idList : List String) (id p : String) : Prop :=
  idList ≠ [] ∧ ¬answer.Fails ∧ ∃ refPatch, answer.refPatch = some refPatch ∧
    refPatch.LeavesRef (answer.swapped s).dom (answer.swapped s).map id p

variable {answer : FallbackAnswer V E} {s s' : SwapState V} {idList : List String}
  {result : Option (PatchSet E)}

omit [Decoder E V] in
/-- A swap for an unmapped replacement leaves it to the ids that were mapped to be mapped. -/
theorem insert_fromIds_isSome (dom : Dom V) {map : InstanceMap} {id : String} {inst : Handle}
    (hm : (map.fromIds.lookup id).isSome) (hf : map.fromInstances.lookup inst = none) (i : String) :
    ((map.insert dom id inst).fromIds.lookup i).isSome = (map.fromIds.lookup i).isSome := by
  unfold InstanceMap.insert
  simp only [InstanceMap.connectSignals_fromIds]
  have hnone : (map.removeId id).fromInstances.lookup inst = none := by
    rw [InstanceMap.removeId_fromInstances, hf]
    exact ite_self none
  have hkeep : ((map.removeId id).removeInstance inst).fromIds = (map.removeId id).fromIds := by
    unfold InstanceMap.removeInstance
    rw [hnone]
    exact InstanceMap.disconnectSignals_fromIds _ _
  rw [lookup_insert_eq, hkeep, InstanceMap.removeId_fromIds]
  split_ifs with hi
  · rw [hi, hm]
    rfl
  · rfl

omit [Decoder E V] in
/-- The swaps of a round leave it to the ids that were mapped to be mapped. -/
theorem swapInstances_isSome (outcomes : Swap → SwapOutcome) {swaps : List Swap}
    (hids : ∀ swap ∈ swaps, (s.map.fromIds.lookup swap.id).isSome)
    (hfresh : ∀ swap ∈ swaps, s.map.fromInstances.lookup swap.replacement = none)
    (hnodup : (swaps.map Swap.replacement).Nodup) (i : String) :
    ((swapInstances outcomes s swaps).map.fromIds.lookup i).isSome =
      (s.map.fromIds.lookup i).isSome := by
  unfold swapInstances
  induction swaps generalizing s with
  | nil => rfl
  | cons swap swaps ih =>
    rw [List.foldl_cons]
    have hnot := List.nodup_cons.mp hnodup
    have hstep : ∀ i, ((swapInstance (outcomes swap) s swap).map.fromIds.lookup i).isSome =
        (s.map.fromIds.lookup i).isSome := by
      intro i
      rw [swapInstance_map]
      exact insert_fromIds_isSome s.dom (hids swap List.mem_cons_self)
        (hfresh swap List.mem_cons_self) i
    rw [ih ?_ ?_ hnot.2, hstep]
    · intro x hx
      rw [hstep]
      exact hids x (List.mem_cons_of_mem _ hx)
    · intro x hx
      have hx' := hfresh x (List.mem_cons_of_mem _ hx)
      rw [swapInstance_map, InstanceMap.insert_fromInstances, if_neg, hx']
      · exact ite_self none
      · intro heq
        exact hnot.1 (heq ▸ List.mem_map_of_mem hx)

theorem mem_swapsOf {map : InstanceMap} {replacements : Map String Handle} {swap : Swap} :
    swap ∈ swapsOf map replacements ↔ (swap.id, swap.replacement) ∈ toList replacements ∧
      map.fromIds.lookup swap.id = some swap.oldInstance := by
  unfold swapsOf
  rw [List.mem_filterMap]
  constructor
  · rintro ⟨⟨id, replacement⟩, he, hswap⟩
    obtain ⟨oldInstance, hold, rfl⟩ := Option.map_eq_some_iff.mp hswap
    exact ⟨he, hold⟩
  · rintro ⟨he, hold⟩
    refine ⟨_, he, ?_⟩
    dsimp only
    rw [hold]
    rfl

theorem nodup_swapsOf (map : InstanceMap) {replacements : Map String Handle}
    (hnodup : ((toList replacements).map Prod.snd).Nodup) :
    ((swapsOf map replacements).map Swap.replacement).Nodup := by
  unfold swapsOf
  generalize toList replacements = entries at hnodup
  induction entries with
  | nil => exact List.nodup_nil
  | cons e entries ih =>
    obtain ⟨hnot, hrest⟩ := List.nodup_cons.mp hnodup
    cases hold : map.fromIds.lookup e.1 with
    | none =>
      rw [List.filterMap_cons_none (by simp [hold])]
      exact ih hrest
    | some oldInstance =>
      rw [List.filterMap_cons_some (by simp only [hold, Option.map_some]; rfl), List.map_cons,
        List.nodup_cons]
      refine ⟨fun hmem => hnot ?_, ih hrest⟩
      obtain ⟨swap, hswap, heq⟩ := List.mem_map.mp hmem
      obtain ⟨e', he', hswap⟩ := List.mem_filterMap.mp hswap
      obtain ⟨oldInstance, -, rfl⟩ := Option.map_eq_some_iff.mp hswap
      exact List.mem_map.mpr ⟨e', he', heq⟩

omit [Decoder E V] in
theorem FallbackAnswer.Fresh.swapped_isSome (hf : answer.Fresh s) (i : String) :
    ((answer.swapped s).map.fromIds.lookup i).isSome = (s.map.fromIds.lookup i).isSome := by
  unfold FallbackAnswer.swapped
  cases hd : answer.serialize with
  | none => rfl
  | some deserialize =>
    have hperm := (isOrderSwaps_orderSwaps (deserialize s.dom).1
      (swapsOf s.map (deserialize s.dom).2)).perm
    refine swapInstances_isSome (s := { s with dom := (deserialize s.dom).1 }) answer.outcomes
      (fun swap hswap => ?_) (fun swap hswap => ?_) ?_ i
    · rw [(mem_swapsOf.mp (hperm.mem_iff.mp hswap)).2]
      rfl
    · exact hf.unmapped deserialize hd _ (mem_swapsOf.mp (hperm.mem_iff.mp hswap)).1
    · exact (hperm.map _).nodup_iff.mpr (nodup_swapsOf s.map (hf.nodup deserialize hd))

omit [Engine V] [Decoder E V] in
/-- The round swaps out the instances of mapped ids only. -/
theorem FallbackAnswer.isSome_of_mem_replaced {id : String} (h : id ∈ answer.replaced s) :
    (s.map.fromIds.lookup id).isSome := by
  unfold FallbackAnswer.replaced at h
  split_ifs at h
  · cases h
  obtain ⟨swap, hswap, rfl⟩ := List.mem_map.mp h
  have hmem := (List.mem_filter.mp hswap).1
  unfold FallbackAnswer.swaps at hmem
  cases hd : answer.serialize with
  | none =>
    rw [hd] at hmem
    cases hmem
  | some deserialize =>
    rw [hd] at hmem
    have hperm := (isOrderSwaps_orderSwaps (deserialize s.dom).1
      (swapsOf s.map (deserialize s.dom).2)).perm
    rw [(mem_swapsOf.mp (hperm.mem_iff.mp hmem)).2]
    rfl

/-- What a round leaves. -/
structure Round (answer : FallbackAnswer V E) (s : SwapState V) (idList : List String)
    (result : Option (PatchSet E)) (s' : SwapState V) : Prop where
  result_none : result = none ↔ idList ≠ [] ∧ answer.Fails
  added : ∀ refs, result = some refs → refs.added = ∅
  onlyProperties : ∀ refs, result = some refs → ∀ update ∈ refs.updated, update.OnlyProperties
  reports : ∀ id p, (∃ refs, result = some refs ∧ refs.Reports id p) ↔
    answer.LeavesRef s idList id p
  mapped : ∀ i, (s'.map.fromIds.lookup i).isSome = (s.map.fromIds.lookup i).isSome

omit [Decoder E V] in
/-- A round whose request fails returns nothing and changes nothing. -/
theorem Round.failed (hempty : idList ≠ []) (hfails : answer.Fails) :
    Round answer s idList none s :=
  { result_none := by simp [hempty, hfails]
    added := fun refs hrefs => by cases hrefs
    onlyProperties := fun refs hrefs => by cases hrefs
    reports := fun id p => by simp [FallbackAnswer.LeavesRef, hfails]
    mapped := fun _ => rfl }

theorem replaceInstances_round (ho : answer.OnlyRefs) (hf : idList ≠ [] → answer.Fresh s)
    (h : replaceInstances answer s idList = some (result, s')) :
    Round answer s idList result s' := by
  unfold replaceInstances at h
  by_cases hempty : idList = []
  · rw [if_pos hempty] at h
    cases h
    exact
      { result_none := by simp [hempty]
        added := fun refs hrefs => by cases hrefs; rfl
        onlyProperties := fun refs hrefs update hu => by cases hrefs; cases hu
        reports := fun id p => by
          simp [hempty, FallbackAnswer.LeavesRef, PatchSet.Reports, PatchSet.newEmpty]
        mapped := fun _ => rfl }
  rw [if_neg hempty] at h
  cases hd : answer.serialize with
  | none =>
    rw [hd] at h
    cases h
    exact .failed hempty (.inl hd)
  | some deserialize =>
    cases hr : answer.refPatch with
    | none =>
      rw [hd, hr] at h
      cases h
      exact .failed hempty (.inr hr)
    | some refPatch =>
      have hfails : ¬answer.Fails := by simp [FallbackAnswer.Fails, hd, hr]
      obtain ⟨w, hw, hmap, hadded, honly, hreports⟩ := exists_applyPatch_onlyRefs
        (answer.swapped s).dom (answer.swapped s).map (ho refPatch hr) refPatch.added.keys
      rw [hd, hr] at h
      simp only [hw, Option.map_some, Option.some.injEq, Prod.mk.injEq] at h
      obtain ⟨rfl, rfl⟩ := h
      exact
        { result_none := by simp [hfails]
          added := fun refs hrefs => by
            cases hrefs
            exact hadded
          onlyProperties := fun refs hrefs => by
            cases hrefs
            exact honly
          reports := fun id p => by
            simp only [Option.some.injEq, exists_eq_left', hreports]
            simp [FallbackAnswer.LeavesRef, hempty, hfails, hr]
          mapped := fun i => by
            rw [← (hf hempty).swapped_isSome i]
            exact congrArg (fun ids => (AList.lookup i ids).isSome) hmap }

/-! ## Both rounds -/

omit [Engine V] [Decoder E V] in
/-- What is reported in the end. -/
theorem reflect_reports (unapplied : PatchSet E) (added updated : Option (PatchSet E))
    (id p : String) :
    (unapplied.reflect added updated).Reports id p ↔
      (updated = none ∧ (unapplied.Reports id p ∨ ∃ refs, added = some refs ∧ refs.Reports id p)) ∨
        ∃ refs, updated = some refs ∧ refs.Reports id p := by
  unfold PatchSet.reflect PatchSet.Reports PatchSet.assign
  cases added <;> cases updated <;> simp [or_and_right, exists_or]

omit [Engine V] [Decoder E V] in
/-- What stays marked as an addition in the end. -/
theorem mem_reflect_added (unapplied : PatchSet E) {added updated : Option (PatchSet E)}
    (ha : ∀ refs, added = some refs → refs.added = ∅)
    (hu : ∀ refs, updated = some refs → refs.added = ∅) (id : String) :
    id ∈ (unapplied.reflect added updated).added ↔ added = none ∧ id ∈ unapplied.added := by
  have hassign : ∀ (patch : PatchSet E) (refs : PatchSet E), refs.added = ∅ →
      (patch.assign refs).added = patch.added := by
    intro patch refs h
    unfold PatchSet.assign
    rw [h]
    rfl
  unfold PatchSet.reflect
  cases added with
  | none =>
    cases updated with
    | none => simp
    | some refs => simp [hassign _ refs (hu refs rfl)]
  | some refs =>
    cases updated with
    | none => simp [hassign _ refs (ha refs rfl)]
    | some refs' => simp [hassign _ refs' (hu refs' rfl), hassign _ refs (ha refs rfl)]

/-- The rounds that `__applyPatch` makes. -/
structure Rounds (addAnswer updateAnswer : FallbackAnswer V E) (w : Work V E) (s s₁ : SwapState V)
    (c : Committed V E) : Prop where
  unapplied : c.unapplied = w.unapplied
  patch : c.unappliedPatch = w.unapplied.reflect c.unappliedAddedRefs c.unappliedUpdateRefs
  first : Round addAnswer s w.unapplied.addedIdList c.unappliedAddedRefs s₁
  second : Round updateAnswer s₁ w.unapplied.updatedIdList c.unappliedUpdateRefs c.state
  replacedAdditions : c.replacedAdditions = addAnswer.replaced s
  replacedUpdates : c.replacedUpdates = updateAnswer.replaced s₁

section

variable {addAnswer updateAnswer : FallbackAnswer V E} {w : Work V E} {s₁ : SwapState V}
  {c : Committed V E}

omit [Decoder E V] in
/-- Nothing is missing of the additions exactly if the first round fails or swaps an instance in for
each of them. -/
theorem Rounds.additions_iff (h : Rounds addAnswer updateAnswer w s s₁ c) :
    ((∀ id ∈ c.unapplied.added, c.state.map.fromIds.lookup id = none →
        id ∈ c.unappliedPatch.added) ∧
      ∀ id ∈ c.unapplied.added, id ∉ c.replacedAdditions → id ∈ c.unappliedPatch.added) ↔
      (addAnswer.Fails ∨ ∀ id ∈ w.unapplied.added, id ∈ addAnswer.replaced s) := by
  have hmapped : ∀ id, c.state.map.fromIds.lookup id = none ↔
      ¬(s.map.fromIds.lookup id).isSome := by
    intro id
    rw [← h.first.mapped, ← h.second.mapped, Option.not_isSome_iff_eq_none]
  rw [h.unapplied, h.patch, h.replacedAdditions]
  simp only [mem_reflect_added _ h.first.added h.second.added, h.first.result_none, hmapped]
  by_cases hfails : addAnswer.Fails
  · simp only [hfails, true_or, iff_true, and_true]
    have hkept : ∀ id ∈ w.unapplied.added, w.unapplied.addedIdList ≠ [] := by
      intro id hid hempty
      have : id ∈ w.unapplied.addedIdList := hid
      rw [hempty] at this
      cases this
    exact ⟨fun id hid _ => ⟨hkept id hid, hid⟩, fun id hid _ => ⟨hkept id hid, hid⟩⟩
  · simp only [hfails, and_false, false_and, false_or, imp_false, not_not]
    exact ⟨And.right, fun hall =>
      ⟨fun id hid => FallbackAnswer.isSome_of_mem_replaced (hall id hid), hall⟩⟩

omit [Decoder E V] in
/-- No failed reference is missing exactly if the second round fails or reports those of the first. -/
theorem Rounds.refs_iff (h : Rounds addAnswer updateAnswer w s s₁ c) :
    (∀ refs, c.unappliedAddedRefs = some refs ∨ c.unappliedUpdateRefs = some refs →
      ∀ id p, refs.Reports id p → c.unappliedPatch.Reports id p) ↔
      (w.unapplied.updatedIdList ≠ [] ∧ updateAnswer.Fails ∨
        ∀ id p, addAnswer.LeavesRef s w.unapplied.addedIdList id p →
          updateAnswer.LeavesRef s₁ w.unapplied.updatedIdList id p) := by
  rw [h.patch]
  simp only [reflect_reports, ← h.first.reports, ← h.second.reports, ← h.second.result_none]
  constructor
  · intro hc
    cases hu : c.unappliedUpdateRefs with
    | none => exact .inl rfl
    | some refs' =>
      refine .inr fun id p ⟨refs, ha, hreport⟩ => ?_
      exact hu ▸ (hc refs (.inl ha) id p hreport).resolve_left fun h => by simp [hu] at h
  · rintro hc refs (ha | hu) id p hreport
    · obtain hnone | hsub := hc
      · exact .inl ⟨hnone, .inr ⟨refs, ha, hreport⟩⟩
      · exact .inr (hsub id p ⟨refs, ha, hreport⟩)
    · exact .inr ⟨refs, hu, hreport⟩

/-- The parts of the update that the round's Ref patch has cannot be assigned, and it has no others. -/
def FallbackAnswer.LeavesUpdate (answer : FallbackAnswer V E) (s : SwapState V)
    (idList : List String) (update : Update E) : Prop :=
  update.OnlyProperties ∧ ∀ p ∈ update.changedProperties, answer.LeavesRef s idList update.id p

omit [Decoder E V] in
/-- Nothing is missing of the updates exactly if the second round fails, or swaps an instance in for
each of them that its Ref patch does not leave. -/
theorem Rounds.updates_iff (h : Rounds addAnswer updateAnswer w s s₁ c) :
    (∀ update ∈ c.unapplied.updated, update.id ∉ c.replacedUpdates →
      c.unappliedPatch.Keeps update) ↔
      (w.unapplied.updatedIdList ≠ [] ∧ updateAnswer.Fails ∨
        ∀ update ∈ w.unapplied.updated, update.id ∈ updateAnswer.replaced s₁ ∨
          updateAnswer.LeavesUpdate s₁ w.unapplied.updatedIdList update) := by
  rw [h.unapplied, h.patch, h.replacedUpdates, ← h.second.result_none]
  cases hu : c.unappliedUpdateRefs with
  | none =>
    refine iff_of_true (fun update hupdate _ => .inl ?_) (.inl rfl)
    -- the round has failed, so nothing has been cleared
    unfold PatchSet.reflect
    cases c.unappliedAddedRefs with
    | none => exact hupdate
    | some refs => exact List.mem_append_left _ hupdate
  | some refs =>
    simp only [reduceCtorEq, false_or]
    refine forall₂_congr fun update _ => ?_
    rw [or_iff_not_imp_left]
    refine imp_congr_right fun _ => ?_
    have hreports : ∀ p, updateAnswer.LeavesRef s₁ w.unapplied.updatedIdList update.id p ↔
        refs.Reports update.id p := by
      intro p
      rw [← h.second.reports, hu]
      simp
    have hupdated : (w.unapplied.reflect c.unappliedAddedRefs (some refs)).updated =
        refs.updated := by
      unfold PatchSet.reflect PatchSet.assign
      simp
    unfold PatchSet.Keeps PatchSet.Reports FallbackAnswer.LeavesUpdate
    rw [hupdated]
    simp only [hreports]
    refine or_iff_right_of_imp fun hmem => ?_
    exact ⟨h.second.onlyProperties refs hu update hmem, fun p hp => ⟨update, hmem, rfl, hp⟩⟩

omit [Decoder E V] in
/-- What is left is reported honestly exactly if the rounds that are answered swap an instance in for
everything that they clear. -/
theorem Rounds.honest (h : Rounds addAnswer updateAnswer w s s₁ c) :
    c.Honest ↔
      (addAnswer.Fails ∨ ∀ id ∈ w.unapplied.added, id ∈ addAnswer.replaced s) ∧
        (w.unapplied.updatedIdList ≠ [] ∧ updateAnswer.Fails ∨
          (∀ id p, addAnswer.LeavesRef s w.unapplied.addedIdList id p →
            updateAnswer.LeavesRef s₁ w.unapplied.updatedIdList id p) ∧
          ∀ update ∈ w.unapplied.updated, update.id ∈ updateAnswer.replaced s₁ ∨
            updateAnswer.LeavesUpdate s₁ w.unapplied.updatedIdList update) := by
  rw [or_and_left, ← h.additions_iff, ← h.refs_iff, ← h.updates_iff]
  exact ⟨fun hc => ⟨⟨hc.added, hc.additions⟩, hc.refs, hc.updates⟩,
    fun ⟨⟨hadded, hadditions⟩, hrefs, hupdates⟩ => ⟨hadded, hrefs, hadditions, hupdates⟩⟩

end

theorem exists_replaceInstances (s : SwapState V) (idList : List String) (ho : answer.OnlyRefs) :
    ∃ result s', replaceInstances answer s idList = some (result, s') := by
  unfold replaceInstances
  split_ifs with hempty
  · exact ⟨_, _, rfl⟩
  · cases hd : answer.serialize with
    | none => exact ⟨_, _, rfl⟩
    | some deserialize =>
      cases hr : answer.refPatch with
      | none => exact ⟨_, _, rfl⟩
      | some refPatch =>
        obtain ⟨w, hw, -⟩ := exists_applyPatch_onlyRefs (answer.swapped s).dom
          (answer.swapped s).map (ho refPatch hr) refPatch.added.keys
        simp only [hw, Option.map_some]
        exact ⟨_, _, rfl⟩

omit [Engine V] [Decoder E V] in
theorem PatchSet.isEmpty_iff (patchSet : PatchSet E) : patchSet.isEmpty = true ↔
    patchSet.removed = [] ∧ patchSet.added = ∅ ∧ patchSet.updated = [] := by
  unfold PatchSet.isEmpty
  simp only [Bool.and_eq_true, List.isEmpty_iff, and_assoc]
  exact and_congr_right fun _ => and_congr_left fun _ => ⟨fun h => AList.ext h, fun h => h ▸ rfl⟩

/-- With the fallback, the patch for the postcommit hooks is honest exactly if a round that is
answered swaps an instance in for everything that it clears, and no failed reference of the first
round is cleared with the updates. -/
theorem honest_iff {addAnswer updateAnswer : FallbackAnswer V E} {dom : Dom V} {map : InstanceMap}
    {selection : List Handle} {patch : PatchSet E} {order : List String} {w : Work V E}
    {s₁ : SwapState V} (hw : applyPatch dom map patch order = some w)
    (h₁ : (replaceInstances addAnswer (.start w.dom w.map selection)
      w.unapplied.addedIdList).map Prod.snd = some s₁)
    (haddRefs : addAnswer.OnlyRefs) (hupdateRefs : updateAnswer.OnlyRefs)
    (haddFresh : w.unapplied.addedIdList ≠ [] → addAnswer.Fresh (.start w.dom w.map selection))
    (hupdateFresh : w.unapplied.updatedIdList ≠ [] → updateAnswer.Fresh s₁) :
    ∃ c, ServeSession.applyPatch true addAnswer updateAnswer dom map selection patch order =
        some c ∧
      (c.Honest ↔
        (addAnswer.Fails ∨
            ∀ id ∈ w.unapplied.added, id ∈ addAnswer.replaced (.start w.dom w.map selection)) ∧
          (w.unapplied.updatedIdList ≠ [] ∧ updateAnswer.Fails ∨
            (∀ id p,
              addAnswer.LeavesRef (.start w.dom w.map selection) w.unapplied.addedIdList id p →
                updateAnswer.LeavesRef s₁ w.unapplied.updatedIdList id p) ∧
            ∀ update ∈ w.unapplied.updated, update.id ∈ updateAnswer.replaced s₁ ∨
              updateAnswer.LeavesUpdate s₁ w.unapplied.updatedIdList update)) := by
  obtain ⟨added, s', hfirst⟩ := exists_replaceInstances (.start w.dom w.map selection)
    w.unapplied.addedIdList haddRefs
  obtain rfl : s' = s₁ := by
    rw [hfirst] at h₁
    exact Option.some.inj h₁
  obtain ⟨updated, s₂, hsecond⟩ := exists_replaceInstances s' w.unapplied.updatedIdList hupdateRefs
  unfold ServeSession.applyPatch
  rw [hw]
  simp only [Option.bind_eq_bind, Option.bind_some, Bool.true_and]
  cases hempty : w.unapplied.isEmpty with
  | false =>
    simp only [Bool.not_false, if_true, hfirst, hsecond, Option.bind_some]
    refine ⟨_, rfl, ?_⟩
    exact Rounds.honest
      { unapplied := rfl, patch := rfl
        first := replaceInstances_round haddRefs haddFresh hfirst
        second := replaceInstances_round hupdateRefs hupdateFresh hsecond
        replacedAdditions := rfl, replacedUpdates := rfl }
  | true =>
    simp only [Bool.not_true, Bool.false_eq_true, if_false]
    obtain ⟨-, hadded, hupdated⟩ := (PatchSet.isEmpty_iff _).mp hempty
    refine ⟨_, rfl, iff_of_true ⟨fun id hid _ => hid, fun refs hrefs => ?_, fun id hid _ => hid,
      fun update hu _ => .inl hu⟩ ⟨.inr ?_, .inr ⟨?_, ?_⟩⟩⟩
    · rcases hrefs with h | h <;> cases h
    · rw [hadded]
      intro id hid
      cases hid
    · rintro id p ⟨hne, -⟩
      refine absurd ?_ hne
      unfold PatchSet.addedIdList
      rw [hadded]
      rfl
    · rw [hupdated]
      intro update hu
      cases hu

/-! ### An addition that has no instance -/

section Addition

@[reducible] def inertDecoder : Decoder Unit Unit := ⟨fun _ => none⟩

def newInstance : VirtualInstance Unit where
  id := "new"
  parent := some "first"
  name := "New"
  className := "Part"
  properties := ∅
  metadata := none
  children := []

/-- An addition below an instance that exists. -/
def newPatch : PatchSet Unit := { PatchSet.newEmpty with added := AList.singleton "new" newInstance }

/-- The server answers with an instance for the id. -/
def newAnswer : FallbackAnswer Unit Unit where
  serialize := some fun dom => ((dom.create "Part").2, AList.singleton "new" dom.next)
  refPatch := some .newEmpty
  outcomes := fun _ => siblingOutcome true

/-- The server answers with an instance for the id, and the addition is gone without one. -/
theorem not_honest_new :
    letI := inertEngine
    letI := inertDecoder
    ∃ c, ServeSession.applyPatch true newAnswer newAnswer siblingDom siblingMap [] newPatch
      ["new"] = some c ∧ "new" ∈ newPatch.added ∧
        c.state.map.fromIds.lookup "new" = none ∧ c.unappliedPatch.added.lookup "new" = none ∧
          ¬c.Honest := by
  let _ := inertEngine
  let _ := inertDecoder
  refine ⟨_, rfl, by decide +kernel, by decide +kernel, rfl, fun h => ?_⟩
  have hmem := AList.lookup_isSome.mpr (h.added "new" (by decide +kernel) (by decide +kernel))
  exact absurd hmem (by decide +kernel)

/-- An addition, and an update of the instance that exists. -/
def mixedPatch : PatchSet Unit :=
  { newPatch with updated := [⟨"first", none, none, ∅, some ⟨some true⟩⟩] }

/-- The server answers with an instance for the id of the update, and for the references or not. -/
def firstAnswer (answersRefs : Bool) : FallbackAnswer Unit Unit where
  serialize := some fun dom => ((dom.create "Part").2, AList.singleton "first" dom.next)
  refPatch := if answersRefs then some .newEmpty else none
  outcomes := fun _ => siblingOutcome true

/-- What the reconciler leaves of the patch. -/
def mixedWork : Work Unit Unit where
  dom := siblingDom
  map := siblingMap.pauseInstance 1
  deferredRefs := []
  unapplied := mixedPatch
  created := []

theorem applyPatch_mixedPatch :
    letI := inertEngine
    letI := inertDecoder
    applyPatch siblingDom siblingMap mixedPatch ["new"] = some mixedWork := by
  rfl

theorem firstAnswer_onlyRefs (answersRefs : Bool) : (firstAnswer answersRefs).OnlyRefs := by
  intro refPatch h
  cases answersRefs <;> cases h
  exact ⟨rfl, rfl, fun update hu => by cases hu⟩

theorem firstAnswer_fresh (answersRefs : Bool) :
    (firstAnswer answersRefs).Fresh (.start siblingDom mixedWork.map []) where
  nodup deserialize h := by
    cases h
    exact List.nodup_singleton _
  unmapped deserialize h e he := by
    cases h
    rw [List.mem_singleton.mp he]
    decide +kernel

/-- The first round fails and the addition stays; the second one swaps an instance in for the update,
which is cleared. -/
theorem honest_swapped :
    letI := inertEngine
    letI := inertDecoder
    ∃ c, ServeSession.applyPatch true (firstAnswer false) (firstAnswer true) siblingDom siblingMap []
        mixedPatch ["new"] = some c ∧ c.Honest ∧ "new" ∈ c.unappliedPatch.added ∧
      mixedPatch.updatedIdList = ["first"] ∧ c.unappliedPatch.updated.isEmpty ∧
      c.state.map.fromIds.lookup "first" = some 4 := by
  let _ := inertEngine
  let _ := inertDecoder
  obtain ⟨c, hc, hiff⟩ := honest_iff applyPatch_mixedPatch rfl
    (firstAnswer_onlyRefs false) (firstAnswer_onlyRefs true)
    (fun _ => firstAnswer_fresh false) (fun _ => firstAnswer_fresh true)
  obtain rfl := Option.some.inj ((show _ = some _ from rfl).symm.trans hc)
  refine ⟨_, rfl, hiff.mpr ⟨.inl (.inr rfl), .inr ⟨fun id p h => ?_, fun update hu => .inl ?_⟩⟩,
    by decide +kernel, rfl, rfl, by decide +kernel⟩
  · exact absurd (Or.inr rfl) h.2.1
  · rw [List.mem_singleton.mp hu]
    decide +kernel

end Addition

end Roxo.Plugin
