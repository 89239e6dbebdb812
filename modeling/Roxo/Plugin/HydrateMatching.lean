import Roxo.Library.Serving
import Roxo.Plugin.Additions
import Roxo.Plugin.Hydrated
import Roxo.Plugin.SiblingOrder

/-!
# What hydration matches

The children of an instance are paired with as many virtual children of their name and class as
there are. While many slots of a bucket remain, none of them is taken, so that the first one is the
earliest that is free; once few remain, the earliest one with the best score is taken.
-/

namespace Roxo.Plugin

open AssocMap Forest GreedyMatch

variable {V E : Type}

/-! ## The choice in one bucket -/

/-- The earliest of the candidates with the greatest score. -/
def Earliest (score : Handle → ℕ) (candidates : List Handle) : Option Handle → Prop
  | none => candidates = []
  | some m => ∃ front back, candidates = front ++ m :: back ∧ (∀ x ∈ front, score x < score m) ∧
      ∀ x ∈ back, score x ≤ score m

theorem Earliest.cons_lt {score : Handle → ℕ} {b c m : Handle} {l : List Handle}
    (h : Earliest score (c :: l) (some m)) (hbc : score b < score c) :
    Earliest score (b :: c :: l) (some m) := by
  obtain ⟨front, back, heq, hfront, hback⟩ := h
  have hcm : score c ≤ score m := by
    cases front with
    | nil => exact (List.cons.inj heq).1 ▸ le_rfl
    | cons x front =>
      rw [List.cons_append] at heq
      exact (List.cons.inj heq).1 ▸ (hfront x List.mem_cons_self).le
  refine ⟨b :: front, back, by rw [heq, List.cons_append], ?_, hback⟩
  intro x hx
  rcases List.mem_cons.mp hx with rfl | hx
  · exact hbc.trans_le hcm
  · exact hfront x hx

theorem Earliest.cons_le {score : Handle → ℕ} {b c m : Handle} {l : List Handle}
    (h : Earliest score (b :: l) (some m)) (hbc : score c ≤ score b) :
    Earliest score (b :: c :: l) (some m) := by
  obtain ⟨front, back, heq, hfront, hback⟩ := h
  cases front with
  | nil =>
    obtain ⟨rfl, rfl⟩ := List.cons.inj heq
    refine ⟨[], c :: l, rfl, nofun, fun x hx => ?_⟩
    rcases List.mem_cons.mp hx with rfl | hx
    · exact hbc
    · exact hback x hx
  | cons x front =>
    rw [List.cons_append] at heq
    obtain ⟨rfl, rfl⟩ := List.cons.inj heq
    refine ⟨b :: c :: front, back, rfl, fun x hx => ?_, hback⟩
    have hb := hfront b List.mem_cons_self
    rcases List.mem_cons.mp hx with rfl | hx
    · exact hb
    · rcases List.mem_cons.mp hx with rfl | hx
      · exact hbc.trans_lt hb
      · exact hfront x (List.mem_cons_of_mem _ hx)

/-- A fold that takes an element only when its score is greater ends with the earliest best. -/
theorem earliest_foldl (score : Handle → ℕ)
    {step : Option (Handle × ℕ) → Handle → Option (Handle × ℕ)}
    (hstep : ∀ b c, step (some (b, score b)) c =
      if score c > score b then some (c, score c) else some (b, score b))
    (b : Handle) (l : List Handle) :
    Earliest score (b :: l) ((l.foldl step (some (b, score b))).map Prod.fst) := by
  suffices h : ∃ m, l.foldl step (some (b, score b)) = some (m, score m) ∧
      Earliest score (b :: l) (some m) by
    obtain ⟨m, hm, h⟩ := h
    rw [hm]
    exact h
  induction l generalizing b with
  | nil => exact ⟨b, rfl, [], [], rfl, nofun, nofun⟩
  | cons c l ih =>
    rw [List.foldl_cons, hstep]
    split_ifs with hgt
    · obtain ⟨m, hm, h⟩ := ih c
      exact ⟨m, hm, h.cons_lt hgt⟩
    · obtain ⟨m, hm, h⟩ := ih b
      exact ⟨m, hm, h.cons_le (not_lt.mp hgt)⟩

/-- The best candidate is the earliest one of the greatest score. -/
theorem earliest_bestCandidate (score : Handle → ℕ) (candidates : List Handle) :
    Earliest score candidates (bestCandidate score candidates) := by
  cases candidates with
  | nil => rfl
  | cons b l =>
    unfold bestCandidate
    rw [List.foldl_cons]
    refine earliest_foldl score ?_ b l
    exact fun _ _ => rfl

/-- The slot at which the cursor stops. -/
def stop (visited : List Handle) (bucket : Bucket) : ℕ :=
  bucket.cursor + leadingVisited visited (bucket.instances.drop bucket.cursor)

/-- How many slots the choice counts as remaining. -/
def remaining (visited : List Handle) (bucket : Bucket) : ℕ :=
  bucket.instances.length - stop visited bucket

/-- The candidates of a bucket, in child order. -/
def unvisited (visited : List Handle) (bucket : Bucket) : List Handle :=
  bucket.instances.filter (· ∉ visited)

/-- The slots before the cursor are taken, and where many remain, none of those is. -/
structure Tidy (visited : List Handle) (bucket : Bucket) : Prop where
  nodup : bucket.instances.Nodup
  passed : ∀ inst ∈ bucket.instances.take bucket.cursor, inst ∈ visited
  free : remaining visited bucket > maxCandidatesToScore →
    ∀ inst ∈ bucket.instances.drop (stop visited bucket), inst ∉ visited

/-- What is picked from a bucket. -/
structure Chosen (score : Handle → ℕ) (visited : List Handle) (bucket : Bucket)
    (picked : Option Handle) : Prop where
  /-- Where many slots remain, none of them is taken, their number is exact and the first one is
  picked. -/
  many : remaining visited bucket > maxCandidatesToScore →
    (∀ inst ∈ bucket.instances.drop (stop visited bucket), inst ∉ visited) ∧
      remaining visited bucket = (unvisited visited bucket).length ∧
      picked = (unvisited visited bucket).head?
  few : (unvisited visited bucket).length ≤ maxCandidatesToScore →
    Earliest score (unvisited visited bucket) picked
  /-- Nothing is picked only where nothing is free. -/
  none_iff : picked = none ↔ unvisited visited bucket = []

theorem mem_of_mem_take_leadingVisited {visited l : List Handle} {inst : Handle}
    (h : inst ∈ l.take (leadingVisited visited l)) : inst ∈ visited := by
  induction l with
  | nil => cases h
  | cons first rest ih =>
    unfold leadingVisited at h
    split_ifs at h with hv
    · rw [List.take_succ_cons] at h
      rcases List.mem_cons.mp h with rfl | h
      · exact hv
      · exact ih h
    · cases h

theorem leadingVisited_eq_zero {visited l : List Handle} (h : ∀ inst ∈ l, inst ∉ visited) :
    leadingVisited visited l = 0 := by
  cases l with
  | nil => rfl
  | cons first rest => exact if_neg (h first List.mem_cons_self)

theorem leadingVisited_cons {visited l : List Handle} {m : Handle} (hm : m ∉ l) :
    leadingVisited (m :: visited) l = leadingVisited visited l := by
  induction l with
  | nil => rfl
  | cons first rest ih =>
    obtain ⟨hne, hrest⟩ := List.ne_and_not_mem_of_not_mem_cons hm
    have hiff : first ∈ m :: visited ↔ first ∈ visited := by
      rw [List.mem_cons, or_iff_right (Ne.symm hne)]
    unfold leadingVisited
    simp only [hiff, ih hrest]

section Bucket

variable {score : Handle → ℕ} {visited : List Handle} {bucket : Bucket} {m : Handle}

/-- All slots before the stop are taken. -/
theorem Tidy.taken (h : Tidy visited bucket) {inst : Handle}
    (hi : inst ∈ bucket.instances.take (stop visited bucket)) : inst ∈ visited := by
  unfold stop at hi
  rw [List.take_add] at hi
  rcases List.mem_append.mp hi with hi | hi
  · exact h.passed inst hi
  · exact mem_of_mem_take_leadingVisited hi

/-- The candidates stand behind the stop. -/
theorem Tidy.unvisited_eq (h : Tidy visited bucket) : unvisited visited bucket =
    (bucket.instances.drop (stop visited bucket)).filter (· ∉ visited) := by
  unfold unvisited
  conv_lhs => rw [← List.take_append_drop (stop visited bucket) bucket.instances]
  rw [List.filter_append, List.filter_eq_nil_iff.mpr, List.nil_append]
  intro inst hi
  simpa using h.taken hi

theorem pickMatch_fst : (pickMatch score visited bucket).1 =
    if remaining visited bucket > maxCandidatesToScore then
      bucket.instances[stop visited bucket]?
    else bestCandidate score
      ((bucket.instances.drop (stop visited bucket)).filter (· ∉ visited)) := by
  unfold pickMatch remaining stop
  dsimp only
  split_ifs
  · rfl
  · split
    · next candidate heq =>
      rw [heq]
      rfl
    · rfl

theorem chosen_pickMatch (h : Tidy visited bucket) :
    Chosen score visited bucket (pickMatch score visited bucket).1 := by
  have hlength : (unvisited visited bucket).length ≤ remaining visited bucket := by
    rw [h.unvisited_eq]
    exact (List.length_filter_le _ _).trans (List.length_drop ..).le
  have hmany : remaining visited bucket > maxCandidatesToScore →
      unvisited visited bucket = bucket.instances.drop (stop visited bucket) := by
    intro hr
    rw [h.unvisited_eq, List.filter_eq_self]
    exact fun inst hi => decide_eq_true (h.free hr inst hi)
  have hearliest : ¬ remaining visited bucket > maxCandidatesToScore →
      Earliest score (unvisited visited bucket) (pickMatch score visited bucket).1 := by
    intro hr
    rw [pickMatch_fst, if_neg hr, ← h.unvisited_eq]
    exact earliest_bestCandidate score _
  have hhead : remaining visited bucket > maxCandidatesToScore →
      (pickMatch score visited bucket).1 = (unvisited visited bucket).head? := by
    intro hr
    rw [pickMatch_fst, if_pos hr, hmany hr, List.head?_drop]
  refine ⟨fun hr => ⟨h.free hr, ?_, hhead hr⟩, fun hfew => hearliest fun hr => ?_, ?_⟩
  · rw [hmany hr, List.length_drop]
    rfl
  · have hexact : remaining visited bucket = (unvisited visited bucket).length := by
      rw [hmany hr, List.length_drop]
      rfl
    omega
  · by_cases hr : remaining visited bucket > maxCandidatesToScore
    · rw [hhead hr, List.head?_eq_none_iff]
    · have he := hearliest hr
      revert he
      cases (pickMatch score visited bucket).1 with
      | none => exact fun he => ⟨fun _ => he, fun _ => rfl⟩
      | some m =>
        rintro ⟨front, back, heq, -⟩
        simp [heq]

/-- A bucket from which is picked stays tidy. -/
theorem Tidy.step (h : Tidy visited bucket) :
    Tidy ((pickMatch score visited bucket).1.toList ++ visited)
      (pickMatch score visited bucket).2 where
  nodup := h.nodup
  passed := fun inst hi => List.mem_append_right _ (h.taken hi)
  free := by
    intro hr
    have hstop : ∀ visited', stop visited' (pickMatch score visited bucket).2 =
        stop visited bucket +
          leadingVisited visited' (bucket.instances.drop (stop visited bucket)) := fun _ => rfl
    have hremaining : remaining ((pickMatch score visited bucket).1.toList ++ visited)
        (pickMatch score visited bucket).2 ≤ remaining visited bucket := by
      unfold remaining
      rw [hstop, pickMatch_instances]
      omega
    have hmany := hr.trans_le hremaining
    -- the first slot behind the stop is picked, and the cursor goes on by one
    have hfree := h.free hmany
    have hnodup := h.nodup.sublist (List.drop_sublist (stop visited bucket) _)
    rw [hstop, pickMatch_instances, ← List.drop_drop, pickMatch_fst, if_pos hmany,
      ← List.head?_drop]
    cases hdrop : bucket.instances.drop (stop visited bucket) with
    | nil => simp
    | cons m rest =>
      rw [hdrop] at hfree hnodup
      have hrest : ∀ inst ∈ rest, inst ∉ m :: visited := by
        intro inst hi
        rw [List.mem_cons, not_or]
        exact ⟨fun heq => (List.nodup_cons.mp hnodup).1 (heq ▸ hi),
          hfree inst (List.mem_cons_of_mem _ hi)⟩
      have hone : leadingVisited (m :: visited) (m :: rest) = 1 := by
        unfold leadingVisited
        rw [if_pos List.mem_cons_self, leadingVisited_eq_zero hrest]
      rw [List.head?_cons, Option.toList_some, List.singleton_append, hone]
      exact hrest

/-- A bucket from which is not picked stays tidy. -/
theorem Tidy.other (h : Tidy visited bucket) (hm : m ∉ bucket.instances) :
    Tidy (m :: visited) bucket := by
  have hstop : stop (m :: visited) bucket = stop visited bucket := by
    unfold stop
    rw [leadingVisited_cons fun hd => hm (List.mem_of_mem_drop hd)]
  refine ⟨h.nodup, fun inst hi => List.mem_cons_of_mem _ (h.passed inst hi), fun hr inst hi => ?_⟩
  unfold remaining at hr
  rw [hstop] at hr hi
  rw [List.mem_cons, not_or]
  exact ⟨fun heq => hm (heq ▸ List.mem_of_mem_drop hi), h.free hr inst hi⟩

end Bucket

/-! ## The buckets of one instance -/

/-- The children whose name and class can be read. -/
def accessibleChildren (dom : Dom V) (inst : Handle) : List Handle :=
  (dom.getChildren inst).filter fun child => (dom.instances child).accessible

def nameAndClass (dom : Dom V) (inst : Handle) : String × String :=
  ((dom.instances inst).name, (dom.instances inst).className)

/-- The name and class of a virtual instance. -/
def virtualKey (virtualInstances : Map String (VirtualInstance E)) (id : String) :
    Option (String × String) :=
  (virtualInstances.lookup id).map fun v => (v.name, v.className)

/-- What pairing a virtual child picks. -/
def pick (score : InstanceMap → Handle → VirtualInstance E → ℕ)
    (virtualInstances : Map String (VirtualInstance E)) (state : Pairing) (childId : String) :
    Option Handle := do
  let virtualChild ← virtualInstances.lookup childId
  let bucket ← state.buckets.lookup (virtualChild.name, virtualChild.className)
  (pickMatch (fun inst => score state.map inst virtualChild) state.visited bucket).1

/-- The buckets hold the children by name and class, in order, and are tidy. -/
structure Tracked (dom : Dom V) (inst : Handle) (state : Pairing) : Prop where
  instances : ∀ key, ((state.buckets.lookup key).map Bucket.instances).getD [] =
    (accessibleChildren dom inst).filter (nameAndClass dom · = key)
  tidy : ∀ key bucket, state.buckets.lookup key = some bucket → Tidy state.visited bucket

section Instance

variable {score : InstanceMap → Handle → VirtualInstance E → ℕ}
  {virtualInstances : Map String (VirtualInstance E)} {dom : Dom V} {inst m : Handle}
  {state state' : Pairing} {c : String}
  {recurse : String → Handle → InstanceMap → Option InstanceMap}

variable (score) in
theorem pick_of_lookup {v : VirtualInstance E} {bucket : Bucket}
    (hv : virtualInstances.lookup c = some v)
    (hb : state.buckets.lookup (v.name, v.className) = some bucket) :
    pick score virtualInstances state c =
      (pickMatch (fun inst => score state.map inst v) state.visited bucket).1 := by
  unfold pick
  rw [hv]
  simp only [Option.bind_eq_bind, Option.bind_some, hb]

/-- What pairing one virtual child does. -/
theorem pairWith_cases (h : pairWith score virtualInstances recurse state c = some state') :
    ∃ v, virtualInstances.lookup c = some v ∧
      state'.visited = (pick score virtualInstances state c).toList ++ state.visited ∧
      (∀ key, state'.buckets.lookup key = if key = (v.name, v.className) then
        (state.buckets.lookup key).map fun bucket =>
          (pickMatch (fun inst => score state.map inst v) state.visited bucket).2
        else state.buckets.lookup key) ∧
      ((pick score virtualInstances state c = none ∧ state'.map = state.map) ∨
        ∃ m, pick score virtualInstances state c = some m ∧
          recurse c m state.map = some state'.map) := by
  unfold pairWith at h
  obtain ⟨v, hv, h⟩ := Option.bind_eq_some_iff.mp h
  refine ⟨v, hv, ?_⟩
  dsimp only at h
  cases hb : state.buckets.lookup (v.name, v.className) with
  | none =>
    have hpick : pick score virtualInstances state c = none := by
      unfold pick
      rw [hv]
      simp only [Option.bind_eq_bind, Option.bind_some, hb, Option.bind_none]
    rw [hb] at h
    obtain rfl := Option.some.inj h
    refine ⟨by rw [hpick]; rfl, fun key => ?_, .inl ⟨hpick, rfl⟩⟩
    split_ifs with hkey
    · rw [hkey, hb]
      rfl
    · rfl
  | some bucket =>
    have hpick := pick_of_lookup score hv hb
    rw [hb] at h
    dsimp only at h
    have hbuckets : ∀ key, (state.buckets.insert (v.name, v.className)
        (pickMatch (fun inst => score state.map inst v) state.visited bucket).2).lookup key =
        if key = (v.name, v.className) then (state.buckets.lookup key).map fun bucket =>
          (pickMatch (fun inst => score state.map inst v) state.visited bucket).2
        else state.buckets.lookup key := by
      intro key
      rw [lookup_insert_eq]
      split_ifs with hkey
      · rw [hkey, hb]
        rfl
      · rfl
    rw [hpick]
    cases hm : (pickMatch (fun inst => score state.map inst v) state.visited bucket).1 with
    | none =>
      rw [hm] at h
      obtain rfl := Option.some.inj h
      exact ⟨rfl, hbuckets, .inl ⟨rfl, rfl⟩⟩
    | some m =>
      rw [hm] at h
      obtain ⟨map, hrec, h⟩ := Option.bind_eq_some_iff.mp h
      obtain rfl := Option.some.inj h
      exact ⟨rfl, hbuckets, .inr ⟨m, rfl, hrec⟩⟩

theorem bucket_instances (ht : Tracked dom inst state) {key : String × String} {bucket : Bucket}
    (hb : state.buckets.lookup key = some bucket) :
    bucket.instances = (accessibleChildren dom inst).filter (nameAndClass dom · = key) := by
  rw [← ht.instances key, hb]
  rfl

theorem mem_bucket (ht : Tracked dom inst state) {key : String × String} {bucket : Bucket}
    (hb : state.buckets.lookup key = some bucket) {x : Handle} :
    x ∈ bucket.instances ↔ x ∈ accessibleChildren dom inst ∧ nameAndClass dom x = key := by
  rw [bucket_instances ht hb, List.mem_filter, decide_eq_true_eq]

/-- What is picked is a child of the name and class that is not taken. -/
theorem Tracked.of_pick (ht : Tracked dom inst state)
    (hp : pick score virtualInstances state c = some m) :
    m ∈ accessibleChildren dom inst ∧ some (nameAndClass dom m) = virtualKey virtualInstances c ∧
      m ∉ state.visited := by
  unfold pick at hp
  obtain ⟨v, hv, hp⟩ := Option.bind_eq_some_iff.mp hp
  obtain ⟨bucket, hb, hp⟩ := Option.bind_eq_some_iff.mp hp
  obtain ⟨hmem, hvisited⟩ := pickMatch_mem hp
  obtain ⟨hchild, hkey⟩ := (mem_bucket ht hb).mp hmem
  refine ⟨hchild, ?_, hvisited⟩
  unfold virtualKey
  rw [hv, hkey]
  rfl

variable (score) in
/-- What is picked for a virtual child whose name and class have a bucket. -/
theorem Tracked.chosen (ht : Tracked dom inst state) {v : VirtualInstance E} {bucket : Bucket}
    (hv : virtualInstances.lookup c = some v)
    (hb : state.buckets.lookup (v.name, v.className) = some bucket) :
    Chosen (fun inst => score state.map inst v) state.visited bucket
      (pick score virtualInstances state c) := by
  rw [pick_of_lookup score hv hb]
  exact chosen_pickMatch (ht.tidy _ _ hb)

/-- Where nothing is picked, no free child has the name and class. -/
theorem Tracked.of_pick_none (ht : Tracked dom inst state)
    (hp : pick score virtualInstances state c = none) {x : Handle}
    (hx : x ∈ accessibleChildren dom inst) (hfree : x ∉ state.visited) :
    some (nameAndClass dom x) ≠ virtualKey virtualInstances c := by
  intro hkey
  obtain ⟨v, hv, heq⟩ := Option.map_eq_some_iff.mp hkey.symm
  have hin : x ∈ (accessibleChildren dom inst).filter
      (nameAndClass dom · = (v.name, v.className)) := by
    rw [List.mem_filter, decide_eq_true_eq]
    exact ⟨hx, heq.symm⟩
  cases hb : state.buckets.lookup (v.name, v.className) with
  | none =>
    rw [← ht.instances, hb] at hin
    cases hin
  | some bucket =>
    have hnil := (Tracked.chosen score ht hv hb).none_iff.mp hp
    rw [← bucket_instances ht hb] at hin
    have hmem : x ∈ unvisited state.visited bucket :=
      List.mem_filter.mpr ⟨hin, decide_eq_true hfree⟩
    rw [hnil] at hmem
    cases hmem

/-- Pairing a virtual child keeps the buckets tidy. -/
theorem Tracked.step (ht : Tracked dom inst state)
    (h : pairWith score virtualInstances recurse state c = some state') :
    Tracked dom inst state' := by
  obtain ⟨v, hv, hvisited, hbuckets, -⟩ := pairWith_cases h
  refine ⟨fun key => ?_, fun key bucket hkey => ?_⟩
  · rw [hbuckets, ← ht.instances key]
    split_ifs
    · cases state.buckets.lookup key <;> rfl
    · rfl
  · rw [hbuckets] at hkey
    rw [hvisited]
    split_ifs at hkey with heq
    · obtain ⟨bucket, hb, rfl⟩ := Option.map_eq_some_iff.mp hkey
      rw [pick_of_lookup score hv (heq ▸ hb)]
      exact (ht.tidy key bucket hb).step
    · cases hp : pick score virtualInstances state c with
      | none => exact ht.tidy key bucket hkey
      | some m =>
        obtain ⟨-, hm, -⟩ := ht.of_pick hp
        unfold virtualKey at hm
        rw [hv] at hm
        refine (ht.tidy key bucket hkey).other fun hmem => heq ?_
        rw [← ((mem_bucket ht hkey).mp hmem).2]
        exact Option.some.inj hm

theorem lookup_addToBuckets [Engine V] (children : List Handle) (buckets : Buckets)
    (key : String × String) :
    (((children.foldl (addToBuckets dom) buckets).lookup key).map Bucket.instances).getD [] =
      ((buckets.lookup key).map Bucket.instances).getD [] ++
        (children.filter fun child => (dom.instances child).accessible).filter
          (nameAndClass dom · = key) := by
  induction children generalizing buckets with
  | nil => simp
  | cons child rest ih =>
    rw [List.foldl_cons, ih]
    unfold addToBuckets
    dsimp only
    cases ha : (dom.instances child).accessible with
    | false => simp [ha]
    | true =>
      have hfilter : ((child :: rest).filter fun child => (dom.instances child).accessible) =
          child :: rest.filter fun child => (dom.instances child).accessible :=
        List.filter_cons_of_pos ha
      rw [if_pos rfl, lookup_insert_eq, hfilter]
      by_cases hkey : key = nameAndClass dom child
      · have hkey' : key = ((dom.instances child).name, (dom.instances child).className) := hkey
        rw [if_pos hkey', ← hkey', List.filter_cons, if_pos (decide_eq_true hkey.symm)]
        cases buckets.lookup key <;> simp
      · have hkey' : ¬ key = ((dom.instances child).name, (dom.instances child).className) := hkey
        rw [if_neg hkey', List.filter_cons, if_neg]
        exact fun heq => hkey (of_decide_eq_true heq).symm

theorem cursor_addToBuckets [Engine V] (children : List Handle) {buckets : Buckets}
    (h : ∀ key bucket, buckets.lookup key = some bucket → bucket.cursor = 0)
    {key : String × String} {bucket : Bucket}
    (hb : (children.foldl (addToBuckets dom) buckets).lookup key = some bucket) :
    bucket.cursor = 0 := by
  induction children generalizing buckets with
  | nil => exact h key bucket hb
  | cons child rest ih =>
    refine ih (fun key bucket hkey => ?_) hb
    unfold addToBuckets at hkey
    dsimp only at hkey
    split_ifs at hkey
    · rw [lookup_insert_eq] at hkey
      split_ifs at hkey
      · rw [← Option.some.inj hkey]
        cases hl : buckets.lookup ((dom.instances child).name, (dom.instances child).className) with
        | none => rfl
        | some b => exact h _ b hl
      · exact h key bucket hkey
    · exact h key bucket hkey

theorem tracked_start [Engine V] (hwf : dom.WellFormed) (id : String) (inst : Handle)
    (map : InstanceMap) : Tracked dom inst (startPairing dom id inst map) := by
  have hinstances : ∀ key, (((startPairing dom id inst map).buckets.lookup key).map
      Bucket.instances).getD [] =
      (accessibleChildren dom inst).filter (nameAndClass dom · = key) := by
    intro key
    refine (lookup_addToBuckets _ ∅ key).trans ?_
    rw [AList.lookup_empty]
    rfl
  refine ⟨hinstances, fun key bucket hb => ⟨?_, ?_, fun _ _ _ => nofun⟩⟩
  · have heq := hinstances key
    rw [hb] at heq
    have heq' : bucket.instances = _ := heq
    rw [heq']
    exact ((hwf.forest.nodup inst).filter _).filter _
  · rw [cursor_addToBuckets (dom.getChildren inst) (by simp) hb]
    exact nofun

end Instance

/-! ## The loop over the virtual children -/

/-- Nothing of the virtual tree and nothing below the instance is mapped yet. -/
structure Unmapped (virtualInstances : Map String (VirtualInstance E)) (dom : Dom V) (id : String)
    (inst : Handle) (map : InstanceMap) : Prop where
  inverse : map.Inverse
  ids : ∀ i, Desc (kids virtualInstances) id i → map.fromIds.lookup i = none
  instances : ∀ h, Desc dom.getChildren inst h → map.fromInstances.lookup h = none

/-- Between two virtual children, those in `done` having been paired. -/
structure Loop (virtualInstances : Map String (VirtualInstance E)) (dom : Dom V) (levels : ℕ)
    (id : String) (inst : Handle) (map : InstanceMap) (done : List String) (state : Pairing) :
    Prop where
  nested : Nested virtualInstances
  wellFormed : dom.WellFormed
  weight_le : ∀ c ∈ kids virtualInstances id, weight virtualInstances c ≤ levels
  unmapped : Unmapped virtualInstances dom id inst map
  pairs : Pairs virtualInstances dom id inst map done state
  tracked : Tracked dom inst state

section Loop

variable [Engine V] {score : InstanceMap → Handle → VirtualInstance E → ℕ}
  {virtualInstances : Map String (VirtualInstance E)} {dom : Dom V} {levels : ℕ} {id c : String}
  {inst m : Handle} {map map' : InstanceMap} {done rest : List String}
  {state state' final : Pairing}

theorem Unmapped.run (hu : Unmapped virtualInstances dom id inst map)
    (hn : Nested virtualInstances) (hwf : dom.WellFormed) (hid : id ∈ virtualInstances)
    (hw : weight virtualInstances id ≤ levels)
    (h : hydrateWith score dom virtualInstances levels id inst map = some map') :
    HydrateRun virtualInstances dom id inst map map' := by
  obtain ⟨map'', hrun, hr⟩ := exists_hydrateWith hn hwf hid hw hu.inverse hu.ids hu.instances
  rw [h, Option.some.injEq] at hrun
  exact hrun ▸ hr

omit [Engine V] in
/-- What is picked for a virtual child can be hydrated. -/
theorem Loop.below (hl : Loop virtualInstances dom levels id inst map done state)
    (hc : c ∈ kids virtualInstances id)
    (hdone : ∀ d ∈ done, d ∈ kids virtualInstances id ∧ d ≠ c)
    (hp : pick score virtualInstances state c = some m) :
    Unmapped virtualInstances dom c m state.map := by
  obtain ⟨hchild, -, hfree⟩ := hl.tracked.of_pick hp
  exact ⟨hl.pairs.inverse, hl.pairs.fresh_below hl.nested hl.unmapped.ids hc hdone,
    hl.pairs.free_below hl.wellFormed hl.unmapped.instances hl.unmapped.inverse
      (List.mem_filter.mp hchild).1 hfree⟩

/-- One virtual child: the loop goes on, and only ids below the child are added. -/
theorem Loop.step (hl : Loop virtualInstances dom levels id inst map done state)
    (hc : c ∈ kids virtualInstances id)
    (hdone : ∀ d ∈ done, d ∈ kids virtualInstances id ∧ d ≠ c)
    (h : pairWith score virtualInstances (hydrateWith score dom virtualInstances levels) state c =
      some state') :
    Loop virtualInstances dom levels id inst map (done ++ [c]) state' ∧
      (∀ i h, state.map.fromIds.lookup i = some h → state'.map.fromIds.lookup i = some h) ∧
      ∀ i h, state'.map.fromIds.lookup i = some h → state.map.fromIds.lookup i = some h ∨
        Desc (kids virtualInstances) c i := by
  have hpresent := hl.nested.present hc
  obtain ⟨state₁, h₁, hp₁⟩ := hl.pairs.step hl.nested hl.wellFormed hl.unmapped.ids
    hl.unmapped.instances hl.unmapped.inverse
    (fun m map' hinv hids hinsts => exists_hydrateWith hl.nested hl.wellFormed
      hpresent (hl.weight_le c hc) hinv hids hinsts) hc hdone
  rw [h, Option.some.injEq] at h₁
  subst h₁
  refine ⟨{ hl with pairs := hp₁, tracked := hl.tracked.step h }, ?_⟩
  obtain ⟨-, -, -, -, ⟨-, hmap⟩ | ⟨m, hp, hrun⟩⟩ := pairWith_cases h
  · rw [hmap]
    exact ⟨fun _ _ hi => hi, fun _ _ hi => .inl hi⟩
  · have hr := (hl.below hc hdone hp).run hl.nested hl.wellFormed hpresent (hl.weight_le c hc) hrun
    exact ⟨hr.kept, fun i h hi => (hr.new i h hi).imp_right And.left⟩

theorem Loop.steps (hl : Loop virtualInstances dom levels id inst map done state)
    (hsub : ∀ d ∈ done ++ rest, d ∈ kids virtualInstances id) (hnd : (done ++ rest).Nodup)
    (h : rest.foldlM (pairWith score virtualInstances
      (hydrateWith score dom virtualInstances levels)) state = some final) :
    Loop virtualInstances dom levels id inst map (done ++ rest) final ∧
      (∀ i h, state.map.fromIds.lookup i = some h → final.map.fromIds.lookup i = some h) ∧
      ∀ i h, final.map.fromIds.lookup i = some h → state.map.fromIds.lookup i = some h ∨
        ∃ d ∈ rest, Desc (kids virtualInstances) d i := by
  induction rest generalizing done state with
  | nil =>
    obtain rfl := Option.some.inj h
    rw [List.append_nil]
    exact ⟨hl, fun _ _ hi => hi, fun _ _ hi => .inl hi⟩
  | cons c rest ih =>
    rw [List.foldlM_cons] at h
    obtain ⟨state₁, h₁, h⟩ := Option.bind_eq_some_iff.mp h
    obtain ⟨hl₁, hkept₁, hnew₁⟩ := hl.step (hsub c (List.mem_append_right _ List.mem_cons_self))
      (fun d hd => ⟨hsub d (List.mem_append_left _ hd),
        (List.nodup_append.mp hnd).2.2 d hd c List.mem_cons_self⟩) h₁
    rw [List.append_cons] at hsub hnd ⊢
    obtain ⟨hl', hkept, hnew⟩ := ih hl₁ hsub hnd h
    refine ⟨hl', fun i h hi => hkept i h (hkept₁ i h hi), fun i h hi => ?_⟩
    rcases hnew i h hi with hi | ⟨d, hd, hdi⟩
    · exact (hnew₁ i h hi).imp_right fun hci => ⟨c, List.mem_cons_self, hci⟩
    · exact .inr ⟨d, List.mem_cons_of_mem _ hd, hdi⟩

/-- At the end, the ids below a virtual child are mapped as when it was paired. -/
theorem Loop.settled (hl : Loop virtualInstances dom levels id inst map done state)
    (hsub : ∀ d ∈ done ++ c :: rest, d ∈ kids virtualInstances id)
    (hnd : (done ++ c :: rest).Nodup)
    (h : (c :: rest).foldlM (pairWith score virtualInstances
      (hydrateWith score dom virtualInstances levels)) state = some final) :
    (pick score virtualInstances state c = none ∧
        ∀ i, Desc (kids virtualInstances) c i → final.map.fromIds.lookup i = none) ∨
      ∃ m map', pick score virtualInstances state c = some m ∧
        Unmapped virtualInstances dom c m state.map ∧
        hydrateWith score dom virtualInstances levels c m state.map = some map' ∧
        ∀ i, Desc (kids virtualInstances) c i →
          final.map.fromIds.lookup i = map'.fromIds.lookup i := by
  have hc := hsub c (List.mem_append_right _ List.mem_cons_self)
  have hdone : ∀ d ∈ done, d ∈ kids virtualInstances id ∧ d ≠ c := fun d hd =>
    ⟨hsub d (List.mem_append_left _ hd), (List.nodup_append.mp hnd).2.2 d hd c List.mem_cons_self⟩
  rw [List.foldlM_cons] at h
  obtain ⟨state₁, h₁, h⟩ := Option.bind_eq_some_iff.mp h
  obtain ⟨hl₁, -, -⟩ := hl.step hc hdone h₁
  have hnotin : c ∉ rest := (List.nodup_cons.mp (List.nodup_append.mp hnd).2.1).1
  have hrest : ∀ d ∈ rest, d ∈ kids virtualInstances id := fun d hd =>
    hsub d (List.mem_append_right _ (List.mem_cons_of_mem _ hd))
  rw [List.append_cons] at hsub hnd
  obtain ⟨-, hkept, hnew⟩ := hl₁.steps hsub hnd h
  -- later virtual children leave the ids below this one as they are
  have hsame : ∀ i, Desc (kids virtualInstances) c i →
      final.map.fromIds.lookup i = state₁.map.fromIds.lookup i := by
    intro i hci
    refine Option.ext fun x => ⟨fun hi => ?_, hkept i x⟩
    rcases hnew i x hi with hi | ⟨d, hd, hdi⟩
    · exact hi
    · have heq := hl.nested.forest.eq_of_common_desc (hrest d hd) hc hdi hci
      exact absurd (heq ▸ hd) hnotin
  obtain ⟨-, -, -, -, ⟨hp, hmap⟩ | ⟨m, hp, hrun⟩⟩ := pairWith_cases h₁
  · refine .inl ⟨hp, fun i hi => ?_⟩
    rw [hsame i hi, hmap]
    exact hl.pairs.fresh_below hl.nested hl.unmapped.ids hc hdone i hi
  · exact .inr ⟨m, state₁.map, hp, hl.below hc hdone hp, hrun, hsame⟩

/-- The virtual children are served with the children that are not taken. -/
theorem Loop.serves (hl : Loop virtualInstances dom levels id inst map done state)
    (hsub : ∀ d ∈ done ++ rest, d ∈ kids virtualInstances id) (hnd : (done ++ rest).Nodup)
    (h : rest.foldlM (pairWith score virtualInstances
      (hydrateWith score dom virtualInstances levels)) state = some final) :
    Serves (virtualKey virtualInstances) (fun x => some (nameAndClass dom x)) rest
      (rest.map final.map.fromIds.lookup)
      ((accessibleChildren dom inst).filter (· ∉ state.visited)) := by
  induction rest generalizing done state with
  | nil => exact .nil _
  | cons c rest ih =>
    have hsettled := hl.settled hsub hnd h
    have hc := hsub c (List.mem_append_right _ List.mem_cons_self)
    rw [List.foldlM_cons] at h
    obtain ⟨state₁, h₁, h⟩ := Option.bind_eq_some_iff.mp h
    obtain ⟨hl₁, -, -⟩ := hl.step hc
      (fun d hd => ⟨hsub d (List.mem_append_left _ hd),
        (List.nodup_append.mp hnd).2.2 d hd c List.mem_cons_self⟩) h₁
    obtain ⟨-, -, hvisited, -, -⟩ := pairWith_cases h₁
    rw [List.append_cons] at hsub hnd
    have hrest := ih hl₁ hsub hnd h
    rw [hvisited] at hrest
    rw [List.map_cons]
    rcases hsettled with ⟨hp, hnone⟩ | ⟨m, map', hp, hu, hrun, hsame⟩
    · rw [hnone c .refl]
      rw [hp] at hrest
      refine .skip (fun x hx => ?_) hrest
      obtain ⟨hchild, hfree⟩ := List.mem_filter.mp hx
      exact hl.tracked.of_pick_none hp hchild (of_decide_eq_true hfree)
    · have hr := hu.run hl.nested hl.wellFormed (hl.nested.present hc) (hl.weight_le c hc) hrun
      obtain ⟨hchild, hkey, hfree⟩ := hl.tracked.of_pick hp
      have hnodup : ((accessibleChildren dom inst).filter (· ∉ state.visited)).Nodup :=
        ((hl.wellFormed.forest.nodup inst).filter _).filter _
      rw [hsame c .refl, hr.self]
      refine .take (List.mem_filter.mpr ⟨hchild, decide_eq_true hfree⟩) hkey ?_
      rw [hnodup.erase_eq_filter, List.filter_filter]
      rw [hp] at hrest
      convert hrest using 2
      funext x
      rw [Option.toList_some, List.singleton_append, Bool.eq_iff_iff]
      simp only [bne_iff_ne, ne_eq, Bool.and_eq_true, decide_eq_true_eq, List.mem_cons, not_or]

end Loop

/-! ## Whole runs -/

/-- Directly below an id, hydration comes to the virtual child `c` with `state`. -/
def Comes [Engine V] (score : InstanceMap → Handle → VirtualInstance E → ℕ) (dom : Dom V)
    (virtualInstances : Map String (VirtualInstance E)) (levels : ℕ) (id : String) (inst : Handle)
    (map : InstanceMap) (c : String) (state : Pairing) : Prop :=
  ∃ before after, kids virtualInstances id = before ++ c :: after ∧
    before.foldlM (pairWith score virtualInstances (hydrateWith score dom virtualInstances levels))
      (startPairing dom id inst map) = some state

/-- Hydration comes to the virtual child with the state, at some depth. -/
inductive Reaches [Engine V] (score : InstanceMap → Handle → VirtualInstance E → ℕ) (dom : Dom V)
    (virtualInstances : Map String (VirtualInstance E)) :
    ℕ → String → Handle → InstanceMap → String → Pairing → Prop
  | here {levels : ℕ} {id : String} {inst : Handle} {map : InstanceMap} {c : String}
      {state : Pairing} :
      Comes score dom virtualInstances levels id inst map c state →
      Reaches score dom virtualInstances (levels + 1) id inst map c state
  | deeper {levels : ℕ} {id : String} {inst m : Handle} {map : InstanceMap} {c c' : String}
      {state state' : Pairing} :
      Comes score dom virtualInstances levels id inst map c state →
      pick score virtualInstances state c = some m →
      Reaches score dom virtualInstances levels c m state.map c' state' →
      Reaches score dom virtualInstances (levels + 1) id inst map c' state'

/-- What hydrating a tree of virtual instances matches. -/
structure MaximumMatching [Engine V] (score : InstanceMap → Handle → VirtualInstance E → ℕ)
    (dom : Dom V) (virtualInstances : Map String (VirtualInstance E)) (levels : ℕ) (id : String)
    (inst : Handle) (map map' : InstanceMap) : Prop where
  injective : ∀ i j h, map'.fromIds.lookup i = some h → map'.fromIds.lookup j = some h → i = j
  fits : ∀ p hp c h, Desc (kids virtualInstances) id p → map'.fromIds.lookup p = some hp →
    c ∈ kids virtualInstances p → map'.fromIds.lookup c = some h →
    h ∈ dom.getChildren hp ∧ ∃ v, virtualInstances.lookup c = some v ∧ Fits dom v h
  /-- As many are matched as there are on both sides. -/
  maximum : ∀ p hp, Desc (kids virtualInstances) id p → map'.fromIds.lookup p = some hp → ∀ key,
    (kids virtualInstances p).countP
        (fun c => virtualKey virtualInstances c = some key ∧ (map'.fromIds.lookup c).isSome) =
      min ((kids virtualInstances p).countP fun c => virtualKey virtualInstances c = some key)
        ((accessibleChildren dom hp).countP fun x => nameAndClass dom x = key)
  /-- Every virtual child of a matched one is reached. -/
  reached : ∀ p hp c, Desc (kids virtualInstances) id p → map'.fromIds.lookup p = some hp →
    c ∈ kids virtualInstances p → ∃ state, Reaches score dom virtualInstances levels id inst map c
      state
  /-- Whenever a virtual child is reached, its bucket holds the children of its name and class, and
  it is matched with what is chosen from there. -/
  choices : ∀ c state, Reaches score dom virtualInstances levels id inst map c state →
    ∃ p hp, c ∈ kids virtualInstances p ∧ map'.fromIds.lookup p = some hp ∧
      ∀ v bucket, virtualInstances.lookup c = some v →
        state.buckets.lookup (v.name, v.className) = some bucket →
        bucket.instances =
            (accessibleChildren dom hp).filter (nameAndClass dom · = (v.name, v.className)) ∧
          Chosen (fun x => score state.map x v) state.visited bucket (map'.fromIds.lookup c)

section Whole

variable [Engine V] {score : InstanceMap → Handle → VirtualInstance E → ℕ}
  {virtualInstances : Map String (VirtualInstance E)} {dom : Dom V} {levels : ℕ} {id c p : String}
  {inst hp m : Handle} {map map' : InstanceMap} {state : Pairing}

/-- The loop that a run goes through. -/
theorem exists_loop (hn : Nested virtualInstances) (hwf : dom.WellFormed)
    (hid : id ∈ virtualInstances) (hw : weight virtualInstances id ≤ levels + 1)
    (hu : Unmapped virtualInstances dom id inst map)
    (h : hydrateWith score dom virtualInstances (levels + 1) id inst map = some map') :
    Loop virtualInstances dom levels id inst map [] (startPairing dom id inst map) ∧
      ∃ final, (kids virtualInstances id).foldlM (pairWith score virtualInstances
        (hydrateWith score dom virtualInstances levels)) (startPairing dom id inst map) =
          some final ∧ final.map = map' := by
  refine ⟨⟨hn, hwf, fun c hc => ?_, hu,
    pairs_start hu.inverse (hu.ids id .refl) (hu.instances inst .refl),
    tracked_start hwf id inst map⟩, ?_⟩
  · have := weight_lt hn hid hc
    omega
  · unfold hydrateWith at h
    obtain ⟨v, hv, h⟩ := Option.bind_eq_some_iff.mp h
    obtain ⟨final, hrun, h⟩ := Option.bind_eq_some_iff.mp h
    rw [kids_of_lookup hv]
    exact ⟨final, hrun, Option.some.inj h⟩

/-- What becomes of a virtual child. -/
theorem Comes.settled (hn : Nested virtualInstances) (hwf : dom.WellFormed)
    (hid : id ∈ virtualInstances) (hw : weight virtualInstances id ≤ levels + 1)
    (hu : Unmapped virtualInstances dom id inst map)
    (h : hydrateWith score dom virtualInstances (levels + 1) id inst map = some map')
    (hc : Comes score dom virtualInstances levels id inst map c state) :
    Tracked dom inst state ∧
      ((pick score virtualInstances state c = none ∧
          ∀ i, Desc (kids virtualInstances) c i → map'.fromIds.lookup i = none) ∨
        ∃ m map'', pick score virtualInstances state c = some m ∧
          Unmapped virtualInstances dom c m state.map ∧
          hydrateWith score dom virtualInstances levels c m state.map = some map'' ∧
          ∀ i, Desc (kids virtualInstances) c i →
            map'.fromIds.lookup i = map''.fromIds.lookup i) := by
  obtain ⟨hl, final, hrun, rfl⟩ := exists_loop hn hwf hid hw hu h
  obtain ⟨before, after, hsplit, hbefore⟩ := hc
  have hnd := hn.forest.nodup id
  rw [hsplit] at hrun hnd
  have hsub : ∀ d ∈ before ++ c :: after, d ∈ kids virtualInstances id := fun d hd => hsplit ▸ hd
  rw [List.foldlM_append, hbefore] at hrun
  obtain ⟨hl₁, -, -⟩ := hl.steps
    (fun d hd => hsub d (List.mem_append_left _ hd)) (List.nodup_append.mp hnd).1 hbefore
  exact ⟨hl₁.tracked, hl₁.settled hsub hnd hrun⟩

/-- Each virtual child of the root is come to. -/
theorem exists_comes (hn : Nested virtualInstances) (hwf : dom.WellFormed)
    (hid : id ∈ virtualInstances) (hw : weight virtualInstances id ≤ levels + 1)
    (hu : Unmapped virtualInstances dom id inst map)
    (h : hydrateWith score dom virtualInstances (levels + 1) id inst map = some map')
    (hc : c ∈ kids virtualInstances id) :
    ∃ state, Comes score dom virtualInstances levels id inst map c state := by
  obtain ⟨-, final, hrun, rfl⟩ := exists_loop hn hwf hid hw hu h
  obtain ⟨before, after, hsplit⟩ := List.append_of_mem hc
  rw [hsplit, List.foldlM_append] at hrun
  obtain ⟨state, hstate, -⟩ := Option.bind_eq_some_iff.mp hrun
  exact ⟨state, before, after, hsplit, hstate⟩

/-- A matched id below a virtual child was mapped when that child was paired. -/
theorem exists_settled (hn : Nested virtualInstances) (hwf : dom.WellFormed)
    (hid : id ∈ virtualInstances) (hw : weight virtualInstances id ≤ levels + 1)
    (hu : Unmapped virtualInstances dom id inst map)
    (h : hydrateWith score dom virtualInstances (levels + 1) id inst map = some map')
    (hc : c ∈ kids virtualInstances id) (hcp : Desc (kids virtualInstances) c p)
    (hmap : map'.fromIds.lookup p = some hp) :
    ∃ state m map'', Comes score dom virtualInstances levels id inst map c state ∧
      pick score virtualInstances state c = some m ∧
      Unmapped virtualInstances dom c m state.map ∧
      hydrateWith score dom virtualInstances levels c m state.map = some map'' ∧
      ∀ i, Desc (kids virtualInstances) c i →
        map'.fromIds.lookup i = map''.fromIds.lookup i := by
  obtain ⟨state, hcomes⟩ := exists_comes hn hwf hid hw hu h hc
  obtain ⟨-, ⟨-, hnone⟩ | ⟨m, map'', hpick, hrest⟩⟩ := hcomes.settled hn hwf hid hw hu h
  · rw [hnone p hcp] at hmap
    cases hmap
  · exact ⟨state, m, map'', hcomes, hpick, hrest⟩

/-- Under every matched parent the virtual children are served. -/
theorem serves_hydrateWith (hn : Nested virtualInstances) (hwf : dom.WellFormed)
    (hid : id ∈ virtualInstances) (hw : weight virtualInstances id ≤ levels)
    (hu : Unmapped virtualInstances dom id inst map)
    (h : hydrateWith score dom virtualInstances levels id inst map = some map')
    (hdesc : Desc (kids virtualInstances) id p) (hmap : map'.fromIds.lookup p = some hp) :
    Serves (virtualKey virtualInstances) (fun x => some (nameAndClass dom x))
      (kids virtualInstances p) ((kids virtualInstances p).map map'.fromIds.lookup)
      (accessibleChildren dom hp) := by
  induction levels generalizing id inst map map' with
  | zero => cases h
  | succ levels ih =>
    rcases Relation.ReflTransGen.cases_head hdesc with rfl | ⟨c, hc, hcp⟩
    · rw [(hu.run hn hwf hid hw h).self, Option.some.injEq] at hmap
      subst hmap
      obtain ⟨hl, final, hrun, rfl⟩ := exists_loop hn hwf hid hw hu h
      have hsub : ∀ d ∈ [] ++ kids virtualInstances id, d ∈ kids virtualInstances id :=
        fun d hd => hd
      have hserves := hl.serves hsub (hn.forest.nodup id) hrun
      have hall : (accessibleChildren dom inst).filter
          (· ∉ (startPairing dom id inst map).visited) = accessibleChildren dom inst :=
        List.filter_eq_self.mpr fun x _ => decide_eq_true List.not_mem_nil
      rwa [hall] at hserves
    · obtain ⟨state, m, map'', -, -, hu', hrun, hsame⟩ :=
        exists_settled hn hwf hid hw hu h hc hcp hmap
      have hwc := weight_lt hn hid hc
      have hserves := ih (hn.present hc) (by omega) hu' hrun hcp (hsame p hcp ▸ hmap)
      rwa [List.map_congr_left fun i hi => (hsame i (hcp.trans (Desc.of_mem hi))).symm] at hserves

/-- Every virtual child of a matched one is reached. -/
theorem exists_reaches (hn : Nested virtualInstances) (hwf : dom.WellFormed)
    (hid : id ∈ virtualInstances) (hw : weight virtualInstances id ≤ levels)
    (hu : Unmapped virtualInstances dom id inst map)
    (h : hydrateWith score dom virtualInstances levels id inst map = some map')
    (hdesc : Desc (kids virtualInstances) id p) (hmap : map'.fromIds.lookup p = some hp)
    (hk : c ∈ kids virtualInstances p) :
    ∃ state, Reaches score dom virtualInstances levels id inst map c state := by
  induction levels generalizing id inst map map' with
  | zero => cases h
  | succ levels ih =>
    rcases Relation.ReflTransGen.cases_head hdesc with rfl | ⟨d, hd, hdp⟩
    · exact (exists_comes hn hwf hid hw hu h hk).imp fun _ hcomes => .here hcomes
    · obtain ⟨state, m, map'', hcomes, hpick, hu', hrun, hsame⟩ :=
        exists_settled hn hwf hid hw hu h hd hdp hmap
      have hwd := weight_lt hn hid hd
      obtain ⟨state', hreaches⟩ := ih (hn.present hd) (by omega) hu' hrun hdp (hsame p hdp ▸ hmap)
      exact ⟨state', .deeper hcomes hpick hreaches⟩

/-- A virtual child that is reached is matched with what is picked. -/
theorem Reaches.tracked (hr : Reaches score dom virtualInstances levels id inst map c state)
    (hn : Nested virtualInstances) (hwf : dom.WellFormed) (hid : id ∈ virtualInstances)
    (hw : weight virtualInstances id ≤ levels) (hu : Unmapped virtualInstances dom id inst map)
    (h : hydrateWith score dom virtualInstances levels id inst map = some map') :
    ∃ p hp, Desc (kids virtualInstances) id p ∧ c ∈ kids virtualInstances p ∧
      map'.fromIds.lookup p = some hp ∧ Tracked dom hp state ∧
      map'.fromIds.lookup c = pick score virtualInstances state c := by
  induction hr generalizing map' with
  | @here levels id inst map c state hcomes =>
    obtain ⟨ht, hcase⟩ := hcomes.settled hn hwf hid hw hu h
    obtain ⟨before, after, hsplit, -⟩ := hcomes
    have hc : c ∈ kids virtualInstances id := hsplit ▸ List.mem_append_right _ List.mem_cons_self
    refine ⟨id, inst, .refl, hc, (hu.run hn hwf hid hw h).self, ht, ?_⟩
    rcases hcase with ⟨hpick, hnone⟩ | ⟨m, map'', hpick, hu', hrun, hsame⟩
    · rw [hpick, hnone c .refl]
    · have hwc := weight_lt hn hid hc
      rw [hpick, hsame c .refl, (hu'.run hn hwf (hn.present hc) (by omega) hrun).self]
  | @deeper levels id inst m map d c state state' hcomes hpick _ ih =>
    obtain ⟨-, ⟨hnone, -⟩ | ⟨m', map'', hpick', hu', hrun, hsame⟩⟩ :=
      hcomes.settled hn hwf hid hw hu h
    · rw [hpick] at hnone
      cases hnone
    · rw [hpick, Option.some.injEq] at hpick'
      subst hpick'
      obtain ⟨before, after, hsplit, -⟩ := hcomes
      have hd : d ∈ kids virtualInstances id :=
        hsplit ▸ List.mem_append_right _ List.mem_cons_self
      have hwd := weight_lt hn hid hd
      obtain ⟨p, hp, hdp, hc, hmap, ht, heq⟩ := ih (hn.present hd) (by omega) hu' hrun
      exact ⟨p, hp, (Desc.of_mem hd).trans hdp, hc, (hsame p hdp).trans hmap, ht,
        (hsame c (hdp.trans (Desc.of_mem hc))).trans heq⟩

theorem maximumMatching_hydrateWith (hn : Nested virtualInstances) (hwf : dom.WellFormed)
    (hid : id ∈ virtualInstances) (hw : weight virtualInstances id ≤ levels)
    (hu : Unmapped virtualInstances dom id inst map)
    (h : hydrateWith score dom virtualInstances levels id inst map = some map') :
    MaximumMatching score dom virtualInstances levels id inst map map' := by
  have hr := hu.run hn hwf hid hw h
  refine
    { injective := fun i j x hi hj => ?_, fits := fun p hp c x hdesc hmap hc hx => ?_
      maximum := fun p hp hdesc hmap key => ?_
      reached := fun p hp c hdesc hmap hc => exists_reaches hn hwf hid hw hu h hdesc hmap hc
      choices := fun c state hreach => ?_ }
  · rw [hr.inverse i x] at hi
    rw [hr.inverse j x, hi, Option.some.injEq] at hj
    exact hj
  · have hserves := serves_hydrateWith hn hwf hid hw hu h hdesc hmap
    have hslot : (c, some x) ∈ (kids virtualInstances p).zip
        ((kids virtualInstances p).map map'.fromIds.lookup) := by
      rw [← List.map_prod_left_eq_zip, ← hx]
      exact List.mem_map_of_mem hc
    obtain ⟨hmem, hkey⟩ := (List.forall₂_iff_zip.mp hserves.forall₂).2 hslot x rfl
    obtain ⟨hchild, haccess⟩ := List.mem_filter.mp hmem
    obtain ⟨v, hv, heq⟩ := Option.map_eq_some_iff.mp hkey.symm
    exact ⟨hchild, v, hv, (Prod.mk.inj heq).1.symm, (Prod.mk.inj heq).2.symm, haccess⟩
  · have hcount := (serves_hydrateWith hn hwf hid hw hu h hdesc hmap).countP (some key)
    rw [← List.map_prod_left_eq_zip, List.countP_map] at hcount
    have hsome : ∀ x, some (nameAndClass dom x) = some key ↔ nameAndClass dom x = key :=
      fun x => Option.some_inj
    simp only [hsome] at hcount
    exact hcount
  · obtain ⟨p, hp, -, hc, hmap, ht, heq⟩ := hreach.tracked hn hwf hid hw hu h
    refine ⟨p, hp, hc, hmap, fun v bucket hv hb => ⟨bucket_instances ht hb, ?_⟩⟩
    rw [heq]
    exact ht.chosen score hv hb

/-- **Hydration is a maximum one-to-one matching**, for every score. Its caller hydrates with a map
in which nothing of the tree is mapped yet. -/
theorem hydrate_maximumMatching [Decoder E V] (hn : Nested virtualInstances) (hwf : dom.WellFormed)
    (hid : id ∈ virtualInstances) (hu : Unmapped virtualInstances dom id inst map) :
    hydrate dom map virtualInstances id inst = hydrateWith (countMatchingProperties dom) dom
        virtualInstances virtualInstances.keys.length id inst map ∧
      ∀ score, ∃ map', hydrateWith score dom virtualInstances virtualInstances.keys.length id inst
          map = some map' ∧
        MaximumMatching score dom virtualInstances virtualInstances.keys.length id inst map
          map' := by
  refine ⟨?_, fun score => ?_⟩
  · unfold hydrate
    rw [hydrateInner_eq]
  · have hw := weight_le virtualInstances id
    obtain ⟨map', hrun, -⟩ := exists_hydrateWith hn hwf hid hw hu.inverse hu.ids hu.instances
    exact ⟨map', hrun, maximumMatching_hydrateWith hn hwf hid hw hu hrun⟩

end Whole

/-! ### One virtual part and two parts -/

section Parts

def partsRoot : VirtualInstance Unit where
  id := "root"
  parent := none
  name := "Folder"
  className := "Folder"
  properties := ∅
  metadata := none
  children := ["part"]

def partInstance : VirtualInstance Unit where
  id := "part"
  parent := some "root"
  name := "Part"
  className := "Part"
  properties := ∅
  metadata := none
  children := []

def partsInstances : Map String (VirtualInstance Unit) :=
  ((∅ : Map String (VirtualInstance Unit)).insert "part" partInstance).insert "root" partsRoot

theorem mem_partsInstances_kids {p c : String} :
    c ∈ kids partsInstances p ↔ p = "root" ∧ c = "part" := by
  unfold kids partsInstances
  rw [lookup_insert_eq, lookup_insert_eq, AList.lookup_empty]
  split_ifs with h₁ h₂ <;> simp [h₁, partsRoot, partInstance]

theorem partsInstances_nested : Nested partsInstances where
  forest :=
    { nodup := fun id => by
        unfold kids partsInstances
        rw [lookup_insert_eq, lookup_insert_eq, AList.lookup_empty]
        split_ifs <;> simp [partsRoot, partInstance]
      unique := fun h h' =>
        (mem_partsInstances_kids.mp h).1.trans (mem_partsInstances_kids.mp h').1.symm
      acyclic := ⟨fun id => if id = "root" then 0 else 1, fun a b h => by
        obtain ⟨rfl, rfl⟩ := mem_partsInstances_kids.mp h
        decide⟩ }
  present := fun h => by
    rw [(mem_partsInstances_kids.mp h).2]
    decide

theorem hydrate_maximumMatching_part :
    letI := inertEngine
    letI := unitDecoder
    hydrate siblingDom .new partsInstances "root" 0 = hydrateWith
        (countMatchingProperties siblingDom) siblingDom partsInstances
        partsInstances.keys.length "root" 0 .new ∧
      ∀ score, ∃ map', hydrateWith score siblingDom partsInstances partsInstances.keys.length
          "root" 0 .new = some map' ∧
        MaximumMatching score siblingDom partsInstances partsInstances.keys.length "root" 0 .new
          map' := by
  let _ := inertEngine
  let _ := unitDecoder
  exact hydrate_maximumMatching partsInstances_nested siblingDom_wellFormed (by decide)
    ⟨InstanceMap.new_inverse, fun _ _ => rfl, fun _ _ => rfl⟩

end Parts

end Roxo.Plugin
