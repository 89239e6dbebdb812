import Roxo.Plugin.AddedTrees
import Roxo.Plugin.Hydrate

/-!
# What hydration leaves in the map

Every id that hydration maps is paired with an instance of the same name and class below the
instance that its virtual parent is paired with. Ids and instances are paired once.
-/

namespace Roxo.Plugin

open AssocMap Forest

variable {V E : Type}

/-! ## Picking an instance -/

/-- The first instance that has not been passed over is not paired. -/
theorem not_mem_of_leadingVisited {visited instances : List Handle} {inst : Handle}
    (h : instances[leadingVisited visited instances]? = some inst) : inst ∉ visited := by
  induction instances with
  | nil => cases h
  | cons first rest ih =>
    unfold leadingVisited at h
    split_ifs at h with hv
    · exact ih (by simpa using h)
    · simp only [List.getElem?_cons_zero, Option.some.injEq] at h
      exact h ▸ hv

/-- A fold that keeps what it has or takes the element ends with an element. -/
theorem mem_of_foldl_keep {step : Option (Handle × ℕ) → Handle → Option (Handle × ℕ)}
    (hstep : ∀ best c, step best c = best ∨ ∃ n, step best c = some (c, n)) {l : List Handle}
    {best : Option (Handle × ℕ)} {found : Handle × ℕ} (h : l.foldl step best = some found) :
    found.1 ∈ l ∨ best = some found := by
  induction l generalizing best with
  | nil => exact .inr h
  | cons c l ih =>
    rcases ih h with hmem | heq
    · exact .inl (List.mem_cons_of_mem _ hmem)
    · rcases hstep best c with hkeep | ⟨n, htake⟩
      · exact .inr (hkeep ▸ heq)
      · rw [htake, Option.some.injEq] at heq
        exact .inl (heq ▸ List.mem_cons_self)

theorem bestCandidate_mem {score : Handle → ℕ} {candidates : List Handle} {inst : Handle}
    (h : bestCandidate score candidates = some inst) : inst ∈ candidates := by
  unfold bestCandidate at h
  obtain ⟨found, hf, rfl⟩ := Option.map_eq_some_iff.mp h
  refine (mem_of_foldl_keep (fun best c => ?_) hf).resolve_right nofun
  cases best with
  | none => exact .inr ⟨score c, rfl⟩
  | some b =>
    dsimp only
    split_ifs
    · exact .inr ⟨score c, rfl⟩
    · exact .inl rfl

/-- What is picked is in the bucket and is not paired yet. -/
theorem pickMatch_mem {score : Handle → ℕ} {visited : List Handle} {bucket : Bucket}
    {inst : Handle} (h : (pickMatch score visited bucket).1 = some inst) :
    inst ∈ bucket.instances ∧ inst ∉ visited := by
  unfold pickMatch at h
  simp only at h
  split_ifs at h with hmany
  · have hhead : (bucket.instances.drop bucket.cursor)[leadingVisited visited
        (bucket.instances.drop bucket.cursor)]? = some inst := by
      rwa [List.getElem?_drop]
    exact ⟨List.mem_of_getElem? h, not_mem_of_leadingVisited hhead⟩
  · have hmem : inst ∈ (bucket.instances.drop (bucket.cursor +
        leadingVisited visited (bucket.instances.drop bucket.cursor))).filter (· ∉ visited) := by
      split at h
      · next candidate heq =>
        rw [heq, ← Option.some.inj h]
        exact List.mem_singleton_self _
      · exact bestCandidate_mem h
    rw [List.mem_filter, decide_eq_true_eq] at hmem
    exact ⟨List.mem_of_mem_drop hmem.1, hmem.2⟩

@[simp] theorem pickMatch_instances (score : Handle → ℕ) (visited : List Handle)
    (bucket : Bucket) : (pickMatch score visited bucket).2.instances = bucket.instances := rfl

/-- The instances of the buckets are children, under their own names and classes. -/
def BucketsOf (dom : Dom V) (inst : Handle) (buckets : Buckets) : Prop :=
  ∀ key bucket, buckets.lookup key = some bucket → ∀ child ∈ bucket.instances,
    child ∈ dom.getChildren inst ∧ (dom.instances child).accessible = true ∧
      ((dom.instances child).name, (dom.instances child).className) = key

theorem bucketsOf_start (dom : Dom V) (inst : Handle) :
    BucketsOf dom inst ((dom.getChildren inst).foldl (addToBuckets dom) ∅) := by
  suffices h : ∀ (children : List Handle) (buckets : Buckets), BucketsOf dom inst buckets →
      (∀ child ∈ children, child ∈ dom.getChildren inst) →
      BucketsOf dom inst (children.foldl (addToBuckets dom) buckets) from
    h _ _ (by simp [BucketsOf]) fun _ hc => hc
  intro children
  induction children with
  | nil => exact fun _ hb _ => hb
  | cons child rest ih =>
    intro buckets hb hsub
    refine ih _ ?_ fun c hc => hsub c (List.mem_cons_of_mem _ hc)
    unfold addToBuckets
    simp only
    split_ifs with ha
    · intro key bucket hkey c hc
      rw [lookup_insert_eq] at hkey
      split_ifs at hkey with heq
      · rw [← Option.some.inj hkey] at hc
        rcases List.mem_append.mp hc with hc | hc
        · cases hl : buckets.lookup ((dom.instances child).name,
            (dom.instances child).className) with
          | none =>
            rw [hl] at hc
            cases hc
          | some b =>
            rw [hl, Option.getD_some] at hc
            exact heq ▸ hb _ _ hl c hc
        · rw [List.mem_singleton.mp hc]
          exact ⟨hsub child List.mem_cons_self, ha, heq.symm⟩
      · exact hb key bucket hkey c hc
    · exact hb

/-! ## Any score -/

/-- `pairChild` with any way of scoring an instance for a virtual child. -/
def pairWith (score : InstanceMap → Handle → VirtualInstance E → ℕ)
    (virtualInstances : Map String (VirtualInstance E))
    (hydrate : String → Handle → InstanceMap → Option InstanceMap) (state : Pairing)
    (childId : String) : Option Pairing := do
  let virtualChild ← virtualInstances.lookup childId
  let key := (virtualChild.name, virtualChild.className)
  match state.buckets.lookup key with
  | none => some state
  | some bucket =>
    let (picked, bucket) := pickMatch (fun inst => score state.map inst virtualChild) state.visited
      bucket
    let state := { state with buckets := state.buckets.insert key bucket }
    match picked with
    | none => some state
    | some inst =>
      let map ← hydrate childId inst state.map
      some { state with map, visited := inst :: state.visited }

/-- The state before the first virtual child is paired. -/
def startPairing [Engine V] (dom : Dom V) (rootId : String) (rootInstance : Handle)
    (map : InstanceMap) : Pairing where
  map := map.insert dom rootId rootInstance
  buckets := (dom.getChildren rootInstance).foldl (addToBuckets dom) ∅
  visited := []

/-- `hydrateInner` with any way of scoring. -/
def hydrateWith [Engine V] (score : InstanceMap → Handle → VirtualInstance E → ℕ) (dom : Dom V)
    (virtualInstances : Map String (VirtualInstance E)) :
    ℕ → String → Handle → InstanceMap → Option InstanceMap
  | 0, _, _, _ => none
  | levels + 1, rootId, rootInstance, map => do
    let virtualInstance ← virtualInstances.lookup rootId
    let state ← virtualInstance.children.foldlM
      (pairWith score virtualInstances (hydrateWith score dom virtualInstances levels))
      (startPairing dom rootId rootInstance map)
    some state.map

theorem pairChild_eq [Engine V] [Decoder E V] (dom : Dom V)
    (virtualInstances : Map String (VirtualInstance E))
    (recurse : String → Handle → InstanceMap → Option InstanceMap) :
    pairChild dom virtualInstances recurse =
      pairWith (countMatchingProperties dom) virtualInstances recurse := by
  funext state childId
  unfold pairChild pairWith
  refine congrArg (Option.bind _) (funext fun virtualChild => ?_)
  cases state.buckets.lookup (virtualChild.name, virtualChild.className) with
  | none => rfl
  | some bucket => rfl

theorem hydrateInner_eq [Engine V] [Decoder E V] (dom : Dom V)
    (virtualInstances : Map String (VirtualInstance E)) (levels : ℕ) :
    hydrateInner dom virtualInstances levels =
      hydrateWith (countMatchingProperties dom) dom virtualInstances levels := by
  induction levels with
  | zero => rfl
  | succ levels ih =>
    funext rootId rootInstance map
    unfold hydrateInner hydrateWith
    rw [ih, pairChild_eq]
    rfl

/-! ## Runs -/

/-- The instance has the name and the class of the virtual instance. -/
def Fits (dom : Dom V) (v : VirtualInstance E) (inst : Handle) : Prop :=
  (dom.instances inst).name = v.name ∧ (dom.instances inst).className = v.className ∧
    (dom.instances inst).accessible = true

/-- An id is paired with an instance that fits it, below what its virtual parent is paired with. -/
def Paired (virtualInstances : Map String (VirtualInstance E)) (dom : Dom V) (map : InstanceMap)
    (id : String) (inst : Handle) : Prop :=
  ∃ p hp v, id ∈ kids virtualInstances p ∧ map.fromIds.lookup p = some hp ∧
    inst ∈ dom.getChildren hp ∧ virtualInstances.lookup id = some v ∧ Fits dom v inst

theorem Paired.mono {virtualInstances : Map String (VirtualInstance E)} {dom : Dom V}
    {map map' : InstanceMap} {id : String} {inst : Handle}
    (h : Paired virtualInstances dom map id inst)
    (hkept : ∀ i h, map.fromIds.lookup i = some h → map'.fromIds.lookup i = some h) :
    Paired virtualInstances dom map' id inst := by
  obtain ⟨p, hp, v, hkid, hmap, hrest⟩ := h
  exact ⟨p, hp, v, hkid, hkept p hp hmap, hrest⟩

/-- What hydrating the subtree of an id with an instance does to the map. -/
structure HydrateRun (virtualInstances : Map String (VirtualInstance E)) (dom : Dom V) (id : String)
    (inst : Handle) (map map' : InstanceMap) : Prop where
  inverse : map'.Inverse
  self : map'.fromIds.lookup id = some inst
  kept : ∀ i h, map.fromIds.lookup i = some h → map'.fromIds.lookup i = some h
  new : ∀ i h, map'.fromIds.lookup i = some h → map.fromIds.lookup i = some h ∨
    (Desc (kids virtualInstances) id i ∧ Desc dom.getChildren inst h ∧
      (i = id ∨ Paired virtualInstances dom map' i h))

/-- What has been paired when the virtual children in `done` have been visited. -/
structure Pairs (virtualInstances : Map String (VirtualInstance E)) (dom : Dom V) (id : String)
    (inst : Handle) (map : InstanceMap) (done : List String) (state : Pairing) : Prop where
  inverse : state.map.Inverse
  self : state.map.fromIds.lookup id = some inst
  kept : ∀ i h, map.fromIds.lookup i = some h → state.map.fromIds.lookup i = some h
  new : ∀ i h, state.map.fromIds.lookup i = some h → map.fromIds.lookup i = some h ∨ i = id ∨
    ∃ c ∈ done, ∃ m ∈ state.visited, Desc (kids virtualInstances) c i ∧
      Desc dom.getChildren m h ∧ Paired virtualInstances dom state.map i h
  visited : ∀ m ∈ state.visited, m ∈ dom.getChildren inst
  buckets : BucketsOf dom inst state.buckets

section Runs

variable {score : InstanceMap → Handle → VirtualInstance E → ℕ}
  {virtualInstances : Map String (VirtualInstance E)} {dom : Dom V} {id : String} {inst : Handle}
  {map : InstanceMap} {done : List String} {state : Pairing}

/-- Neither the next virtual child nor anything below it has been paired. -/
theorem Pairs.fresh_below (hp : Pairs virtualInstances dom id inst map done state)
    (hn : Nested virtualInstances)
    (hfresh : ∀ i, Desc (kids virtualInstances) id i → map.fromIds.lookup i = none) {c : String}
    (hc : c ∈ kids virtualInstances id)
    (hdone : ∀ d ∈ done, d ∈ kids virtualInstances id ∧ d ≠ c) (i : String)
    (hi : Desc (kids virtualInstances) c i) : state.map.fromIds.lookup i = none := by
  cases hl : state.map.fromIds.lookup i with
  | none => rfl
  | some h =>
    rcases hp.new i h hl with hold | rfl | ⟨d, hd, -, -, hdi, -, -⟩
    · rw [hfresh i ((Desc.of_mem hc).trans hi)] at hold
      cases hold
    · exact absurd hi (hn.forest.not_desc_of_mem hc)
    · obtain ⟨hdk, hdc⟩ := hdone d hd
      exact absurd (hn.forest.eq_of_common_desc hdk hc hdi hi) hdc

/-- Nothing below a child that has not been passed over has been paired. -/
theorem Pairs.free_below (hp : Pairs virtualInstances dom id inst map done state)
    (hwf : dom.WellFormed)
    (hfree : ∀ h, Desc dom.getChildren inst h → map.fromInstances.lookup h = none)
    (hinv : map.Inverse) {m : Handle} (hchild : m ∈ dom.getChildren inst) (hmv : m ∉ state.visited)
    (h : Handle) (hmh : Desc dom.getChildren m h) : state.map.fromInstances.lookup h = none := by
  cases hl : state.map.fromInstances.lookup h with
  | none => rfl
  | some i =>
    have hl' := (hp.inverse i h).mpr hl
    rcases hp.new i h hl' with hold | rfl | ⟨d, -, m', hm', -, hm'h, -⟩
    · have hnone := hfree h ((Desc.of_mem hchild).trans hmh)
      rw [hinv] at hold
      rw [hold] at hnone
      cases hnone
    · rw [hp.self, Option.some.injEq] at hl'
      subst hl'
      exact absurd hmh (hwf.forest.not_desc_of_mem hchild)
    · have heq := hwf.forest.eq_of_common_desc (hp.visited m' hm') hchild hm'h hmh
      exact absurd (heq ▸ hm') hmv

/-- One virtual child. -/
theorem Pairs.step (hn : Nested virtualInstances) (hwf : dom.WellFormed)
    (hfresh : ∀ i, Desc (kids virtualInstances) id i → map.fromIds.lookup i = none)
    (hfree : ∀ h, Desc dom.getChildren inst h → map.fromInstances.lookup h = none)
    (hinv : map.Inverse)
    {recurse : String → Handle → InstanceMap → Option InstanceMap} {c : String}
    (hrec : ∀ m map', map'.Inverse →
      (∀ i, Desc (kids virtualInstances) c i → map'.fromIds.lookup i = none) →
      (∀ h, Desc dom.getChildren m h → map'.fromInstances.lookup h = none) →
      ∃ map'', recurse c m map' = some map'' ∧
        HydrateRun virtualInstances dom c m map' map'')
    (hp : Pairs virtualInstances dom id inst map done state) (hc : c ∈ kids virtualInstances id)
    (hdone : ∀ d ∈ done, d ∈ kids virtualInstances id ∧ d ≠ c) :
    ∃ state', pairWith score virtualInstances recurse state c = some state' ∧
      Pairs virtualInstances dom id inst map (done ++ [c]) state' := by
  obtain ⟨v, hv⟩ := exists_lookup (hn.present hc)
  unfold pairWith
  rw [hv]
  simp only [Option.bind_eq_bind, Option.bind_some]
  cases hb : state.buckets.lookup (v.name, v.className) with
  | none =>
    exact ⟨state, rfl,
      { hp with
        new := fun i h hi => (hp.new i h hi).imp_right <| Or.imp_right
          fun ⟨d, hd, hrest⟩ => ⟨d, List.mem_append_left _ hd, hrest⟩ }⟩
  | some bucket =>
    simp only
    rcases hpick : pickMatch (fun inst => score state.map inst v)
      state.visited bucket with ⟨picked, bucket'⟩
    have hinsts : bucket'.instances = bucket.instances := by
      have h := pickMatch_instances (fun inst => score state.map inst v) state.visited bucket
      rwa [hpick] at h
    have hbuckets : BucketsOf dom inst (state.buckets.insert (v.name, v.className) bucket') := by
      intro key b hkey child hchild
      rw [lookup_insert_eq] at hkey
      split_ifs at hkey with heq
      · rw [← Option.some.inj hkey, hinsts] at hchild
        exact heq ▸ hp.buckets _ _ hb child hchild
      · exact hp.buckets key b hkey child hchild
    cases picked with
    | none =>
      exact ⟨_, rfl,
        { hp with
          buckets := hbuckets
          new := fun i h hi => (hp.new i h hi).imp_right <| Or.imp_right
            fun ⟨d, hd, hrest⟩ => ⟨d, List.mem_append_left _ hd, hrest⟩ }⟩
    | some m =>
      obtain ⟨hmb, hmv⟩ := pickMatch_mem (congrArg Prod.fst hpick)
      obtain ⟨hchild, haccess, hkey⟩ := hp.buckets _ _ hb m hmb
      obtain ⟨map'', hrun, hr⟩ := hrec m state.map hp.inverse
        (hp.fresh_below hn hfresh hc hdone) (hp.free_below hwf hfree hinv hchild hmv)
      simp only [hrun, Option.bind_some]
      refine ⟨_, rfl, ?_⟩
      have hself := hr.kept _ _ hp.self
      exact
        { inverse := hr.inverse
          self := hself
          kept := fun i h hi => hr.kept i h (hp.kept i h hi)
          new := by
            intro i h hi
            rcases hr.new i h hi with hold | ⟨hci, hmh, hpaired⟩
            · rcases hp.new i h hold with hold | hid | ⟨d, hd, m', hm', hdi, hm'h, hpd⟩
              · exact .inl hold
              · exact .inr (.inl hid)
              · exact .inr (.inr ⟨d, List.mem_append_left _ hd, m', List.mem_cons_of_mem _ hm',
                  hdi, hm'h, hpd.mono hr.kept⟩)
            · refine .inr (.inr ⟨c, List.mem_append_right _ (List.mem_singleton_self _), m,
                List.mem_cons_self, hci, hmh, ?_⟩)
              rcases hpaired with rfl | hpaired
              · have hhm : h = m := by
                  have := hr.self
                  rw [hi] at this
                  exact Option.some.inj this
                subst hhm
                exact ⟨id, inst, v, hc, hself, hchild, hv, (Prod.mk.inj hkey).1,
                  (Prod.mk.inj hkey).2, haccess⟩
              · exact hpaired
          visited := by
            intro m' hm'
            rcases List.mem_cons.mp hm' with rfl | hm'
            · exact hchild
            · exact hp.visited m' hm'
          buckets := hbuckets }

variable (score) in
theorem Pairs.steps (hn : Nested virtualInstances) (hwf : dom.WellFormed)
    (hfresh : ∀ i, Desc (kids virtualInstances) id i → map.fromIds.lookup i = none)
    (hfree : ∀ h, Desc dom.getChildren inst h → map.fromInstances.lookup h = none)
    (hinv : map.Inverse)
    {recurse : String → Handle → InstanceMap → Option InstanceMap}
    (hrec : ∀ c ∈ kids virtualInstances id, ∀ m map', map'.Inverse →
      (∀ i, Desc (kids virtualInstances) c i → map'.fromIds.lookup i = none) →
      (∀ h, Desc dom.getChildren m h → map'.fromInstances.lookup h = none) →
      ∃ map'', recurse c m map' = some map'' ∧
        HydrateRun virtualInstances dom c m map' map'')
    (rest : List String) (hp : Pairs virtualInstances dom id inst map done state)
    (hsub : ∀ c ∈ done ++ rest, c ∈ kids virtualInstances id) (hnd : (done ++ rest).Nodup) :
    ∃ state', rest.foldlM (pairWith score virtualInstances recurse) state = some state' ∧
      Pairs virtualInstances dom id inst map (done ++ rest) state' := by
  induction rest generalizing done state with
  | nil =>
    rw [List.append_nil]
    exact ⟨state, rfl, hp⟩
  | cons c rest ih =>
    have hc := hsub c (List.mem_append_right _ List.mem_cons_self)
    obtain ⟨state₁, hrun₁, hp₁⟩ := hp.step hn hwf hfresh hfree hinv (hrec c hc) hc fun d hd =>
      ⟨hsub d (List.mem_append_left _ hd),
        (List.nodup_append.mp hnd).2.2 d hd c List.mem_cons_self⟩
    rw [List.append_cons] at hsub hnd ⊢
    obtain ⟨state', hrun, hp'⟩ := ih hp₁ hsub hnd
    refine ⟨state', ?_, hp'⟩
    rw [List.foldlM_cons, hrun₁]
    exact hrun

variable [Engine V]

/-- Nothing has been paired at the start. -/
theorem pairs_start (hinv : map.Inverse) (hfresh : map.fromIds.lookup id = none)
    (hfree : map.fromInstances.lookup inst = none) :
    Pairs virtualInstances dom id inst map [] (startPairing dom id inst map) := by
  have hnone : ∀ i, map.fromIds.lookup i ≠ some inst := by
    intro i hi
    rw [(hinv i inst).mp hi] at hfree
    cases hfree
  have hinsert : ∀ i, (startPairing dom id inst map).map.fromIds.lookup i =
      if i = id then some inst else map.fromIds.lookup i := by
    intro i
    unfold startPairing
    rw [InstanceMap.insert_fromIds hinv, if_neg (hnone i)]
  exact
    { inverse := hinv.insert _ _ _
      self := by rw [hinsert, if_pos rfl]
      kept := by
        intro i h hi
        rw [hinsert, if_neg]
        · exact hi
        · rintro rfl
          rw [hfresh] at hi
          cases hi
      new := by
        intro i h hi
        rw [hinsert] at hi
        split_ifs at hi with heq
        · exact .inr (.inl heq)
        · exact .inl hi
      visited := nofun
      buckets := bucketsOf_start dom inst }

/-- Hydration goes through and pairs ids with instances of their subtrees. -/
theorem exists_hydrateWith (hn : Nested virtualInstances) (hwf : dom.WellFormed) {n : ℕ}
    (hid : id ∈ virtualInstances) (hw : weight virtualInstances id ≤ n) (hinv : map.Inverse)
    (hfresh : ∀ i, Desc (kids virtualInstances) id i → map.fromIds.lookup i = none)
    (hfree : ∀ h, Desc dom.getChildren inst h → map.fromInstances.lookup h = none) :
    ∃ map', hydrateWith score dom virtualInstances n id inst map = some map' ∧
      HydrateRun virtualInstances dom id inst map map' := by
  induction n generalizing id inst map with
  | zero =>
    have := weight_pos hid
    omega
  | succ n ih =>
    obtain ⟨v, hv⟩ := exists_lookup hid
    have hstart : Pairs virtualInstances dom id inst map [] (startPairing dom id inst map) :=
      pairs_start hinv (hfresh id .refl) (hfree inst .refl)
    obtain ⟨state, hrun, hp⟩ := hstart.steps score hn hwf hfresh hfree hinv
      (fun c hc m map' hinv' hfresh' hfree' => ih (hn.present hc)
        (by have := weight_lt hn hid hc; omega) hinv' hfresh' hfree')
      (kids virtualInstances id) (fun _ hc => hc) (hn.forest.nodup id)
    refine ⟨state.map, ?_, ?_⟩
    · unfold hydrateWith
      rw [hv]
      rw [kids_of_lookup hv] at hrun
      simp only [Option.bind_eq_bind, Option.bind_some, hrun]
    · exact
        { inverse := hp.inverse
          self := hp.self
          kept := hp.kept
          new := by
            intro i h hi
            rcases hp.new i h hi with hold | rfl | ⟨c, hc, m, hm, hci, hmh, hpaired⟩
            · exact .inl hold
            · rw [hp.self, Option.some.injEq] at hi
              exact .inr ⟨.refl, hi ▸ .refl, .inl rfl⟩
            · exact .inr ⟨(Desc.of_mem hc).trans hci, (Desc.of_mem (hp.visited m hm)).trans hmh,
                .inr hpaired⟩ }

theorem exists_hydrateInner [Decoder E V] (hn : Nested virtualInstances)
    (hwf : dom.WellFormed) {n : ℕ} (hid : id ∈ virtualInstances)
    (hw : weight virtualInstances id ≤ n) (hinv : map.Inverse)
    (hfresh : ∀ i, Desc (kids virtualInstances) id i → map.fromIds.lookup i = none)
    (hfree : ∀ h, Desc dom.getChildren inst h → map.fromInstances.lookup h = none) :
    ∃ map', hydrateInner dom virtualInstances n id inst map = some map' ∧
      HydrateRun virtualInstances dom id inst map map' := by
  rw [hydrateInner_eq]
  exact exists_hydrateWith hn hwf hid hw hinv hfresh hfree

end Runs

end Roxo.Plugin
