import Roxo.Syncback.RefProperties

/-!
# What is collected

`collect_referents` visits the live links of a DOM one after the other, those of an instance
together and parents first. What it returns is told by the list of these visits: every link is
kept, and a target is rewritten if it has no id or if another target with its id was visited just
before one of its own visits (`collectReferents_eq`, `mem_needRewrite`).
-/

namespace Roxo

open AssocMap Forest WeakDom

variable {D : Type} [WeakDom D]

/-- The live links of an instance. -/
def instanceLinks (dom : D) (instRef : Ref) : List RefLink :=
  match getByRef dom instRef with
  | some inst => (toList inst.properties).filterMap fun e => refLink dom e.1 e.2
  | none => []

/-- The live links of a DOM with the instances that have them, in the order of the walk. -/
def visits [FiniteWeakDom D] (dom : D) : List (Ref × RefLink) :=
  (walk dom (rootRef dom)).flatMap fun instRef => (instanceLinks dom instRef).map (instRef, ·)

/-- The id of an instance of a DOM. -/
def targetId (dom : D) (target : Ref) : Option String := (getByRef dom target).bind getExistingId

/-- The last of some visits to a target with the given id. -/
def lastTarget (dom : D) (id : String) (seen : List (Ref × RefLink)) : Option Ref :=
  (seen.reverse.find? fun visit => targetId dom visit.2.value = some id).map (·.2.value)

/-- After the given visits the target is taken to need an id. -/
def Clashes (dom : D) (seen : List (Ref × RefLink)) (target : Ref) : Prop :=
  ∀ id, targetId dom target = some id → ∃ other, lastTarget dom id seen = some other ∧
    other ≠ target

/-- One of the visits to the target finds that it needs an id. -/
def NeedsId (dom : D) (seen : List (Ref × RefLink)) (target : Ref) : Prop :=
  ∃ before visit after, seen = before ++ visit :: after ∧ visit.2.value = target ∧
    Clashes dom before target

/-! ## The loop over the visits -/

/-- What the visits make of the state. -/
def collectVisits (dom : D) (seen : List (Ref × RefLink)) : CollectState :=
  seen.foldl (fun state visit => collectLink dom visit.1 state visit.2) ⟨∅, [], MultiMap.new⟩

section Collect

variable {dom : D} {instRef target root : Ref} {seen : List (Ref × RefLink)}

theorem collectProperties_eq (state : CollectState) (properties : List (String × Variant)) :
    collectProperties dom instRef state properties =
      (properties.filterMap fun e => refLink dom e.1 e.2).foldl (collectLink dom instRef) state := by
  induction properties generalizing state with
  | nil => rfl
  | cons e properties ih =>
    obtain ⟨propName, propValue⟩ := e
    unfold collectProperties
    rw [List.filterMap_cons]
    dsimp only
    cases refLink dom propName propValue with
    | none => exact ih state
    | some link => exact ih _

theorem collectLoop_eq [LawfulWeakDom D] {n : ℕ} {queue : List Ref} (state : CollectState)
    (hqueue : ∀ a ∈ queue, ∃ i, getByRef dom a = some i)
    (hn : (bfs (kids dom) n queue).length < n) :
    collectLoop dom n queue state = some ((bfs (kids dom) n queue).foldl
      (fun state instRef => (instanceLinks dom instRef).foldl (collectLink dom instRef) state)
      state) := by
  induction n generalizing queue state with
  | zero => cases hn
  | succ n ih =>
    cases queue with
    | nil => rfl
    | cons a queue =>
      obtain ⟨i, hi⟩ := hqueue a List.mem_cons_self
      have hlinks : instanceLinks dom a =
          (toList i.properties).filterMap fun e => refLink dom e.1 e.2 := by
        unfold instanceLinks
        rw [hi]
      have hqueue' : ∀ b ∈ queue ++ kids dom a, ∃ j, getByRef dom b = some j := by
        intro b hb
        rcases List.mem_append.mp hb with hb | hb
        · exact hqueue b (List.mem_cons_of_mem _ hb)
        · exact present_of_desc hi (Desc.of_mem hb)
      unfold bfs at hn ⊢
      have hn' : (bfs (kids dom) n (queue ++ kids dom a)).length < n := by
        rw [List.length_cons] at hn
        omega
      unfold collectLoop
      rw [hi]
      change collectLoop dom n (queue ++ i.children) _ = _
      rw [← kids_eq hi, ih _ hqueue' hn', List.foldl_cons, hlinks, collectProperties_eq]

/-- The loop ends, and the visits tell what is returned. -/
theorem collectReferents_eq [LawfulWeakDom D] [FiniteWeakDom D] (dom : D) :
    collectReferents dom = some
      ⟨(collectVisits dom (visits dom)).links, (collectVisits dom (visits dom)).needRewrite⟩ := by
  obtain ⟨i, hroot, -⟩ := LawfulWeakDom.root_spec dom
  have hqueue : ∀ a ∈ [rootRef dom], ∃ i, getByRef dom a = some i := by
    intro a ha
    rw [List.mem_singleton.mp ha]
    exact ⟨i, hroot⟩
  have hfold : ∀ (refs : List Ref) (state : CollectState),
      refs.foldl (fun state instRef =>
        (instanceLinks dom instRef).foldl (collectLink dom instRef) state) state =
      (refs.flatMap fun instRef => (instanceLinks dom instRef).map (instRef, ·)).foldl
        (fun state visit => collectLink dom visit.1 state visit.2) state := by
    intro refs
    induction refs with
    | nil => exact fun _ => rfl
    | cons a refs ih =>
      intro state
      rw [List.foldl_cons, List.flatMap_cons, List.foldl_append, List.foldl_map, ih]
  unfold collectReferents
  rw [collectLoop_eq _ hqueue (walk_length_lt hroot), hfold]
  rfl

theorem collectVisits_concat (visit : Ref × RefLink) : collectVisits dom (seen ++ [visit]) =
    collectLink dom visit.1 (collectVisits dom seen) visit.2 := by
  unfold collectVisits
  rw [List.foldl_append]
  rfl

theorem collectLink_links (state : CollectState) (link : RefLink) :
    (collectLink dom instRef state link).links = state.links.insert instRef link := by
  unfold collectLink
  split <;> rfl

theorem mem_links {link : RefLink} :
    link ∈ (collectVisits dom seen).links.get instRef ↔ (instRef, link) ∈ seen := by
  induction seen using List.reverseRecOn with
  | nil => exact ⟨nofun, nofun⟩
  | append_singleton seen visit ih =>
    obtain ⟨visited, visitLink⟩ := visit
    rw [collectVisits_concat, collectLink_links, MultiMap.mem_get_insert, ih, List.mem_append,
      List.mem_singleton, Prod.mk.injEq]

theorem lastTarget_concat (id : String) (visit : Ref × RefLink) :
    lastTarget dom id (seen ++ [visit]) =
      if targetId dom visit.2.value = some id then some visit.2.value
      else lastTarget dom id seen := by
  unfold lastTarget
  rw [List.reverse_append, List.reverse_singleton, List.singleton_append, List.find?_cons]
  by_cases hid : targetId dom visit.2.value = some id
  · rw [if_pos hid, decide_eq_true hid]
    rfl
  · rw [if_neg hid, decide_eq_false hid]

theorem lookup_ids (id : String) :
    (collectVisits dom seen).ids.lookup id = lastTarget dom id seen := by
  induction seen using List.reverseRecOn with
  | nil => rfl
  | append_singleton seen visit ih =>
    rw [collectVisits_concat, lastTarget_concat]
    unfold collectLink
    change _ = if (getByRef dom visit.2.value).bind getExistingId = some id then _ else _
    cases hid : (getByRef dom visit.2.value).bind getExistingId with
    | none =>
      rw [if_neg nofun]
      exact ih
    | some visitId =>
      change ((collectVisits dom seen).ids.insert visitId visit.2.value).lookup id = _
      rw [lookup_insert_eq, ih]
      by_cases h : id = visitId
      · rw [if_pos h, if_pos (h ▸ rfl)]
      · rw [if_neg h, if_neg fun heq => h (Option.some.inj heq).symm]

theorem mem_needRewrite_collectLink {state : CollectState} {link : RefLink}
    (hids : ∀ id, state.ids.lookup id = lastTarget dom id seen) :
    target ∈ (collectLink dom instRef state link).needRewrite ↔
      target ∈ state.needRewrite ∨ target = link.value ∧ Clashes dom seen target := by
  unfold collectLink Clashes
  change _ ↔ _ ∨ target = link.value ∧ ∀ id, (getByRef dom target).bind getExistingId = _ → _
  cases hid : (getByRef dom link.value).bind getExistingId with
  | none =>
    dsimp only
    rw [List.mem_insert_iff, or_comm]
    refine or_congr_right ⟨?_, And.left⟩
    rintro rfl
    refine ⟨rfl, fun id hsome => ?_⟩
    rw [hid] at hsome
    cases hsome
  | some id =>
    have hclash : target = link.value → ((∀ id', (getByRef dom target).bind getExistingId =
        some id' → ∃ other, lastTarget dom id' seen = some other ∧ other ≠ target) ↔
        ∃ other, lastTarget dom id seen = some other ∧ other ≠ link.value) := by
      rintro rfl
      rw [hid]
      exact ⟨fun h => h id rfl, fun h id' heq => Option.some.inj heq ▸ h⟩
    dsimp only
    rw [hids, and_congr_right hclash]
    cases hlast : lastTarget dom id seen with
    | none =>
      dsimp only
      refine ⟨Or.inl, fun h => h.elim (fun h => h) ?_⟩
      rintro ⟨-, other, h, -⟩
      cases h
    | some other =>
      dsimp only
      by_cases hne : other ≠ link.value
      · rw [if_pos hne, List.mem_insert_iff, or_comm]
        exact or_congr_right ⟨fun h => ⟨h, other, rfl, hne⟩, And.left⟩
      · rw [if_neg hne]
        refine ⟨Or.inl, fun h => h.elim (fun h => h) ?_⟩
        rintro ⟨-, other', h, hne'⟩
        rw [← Option.some.inj h] at hne'
        exact absurd hne' hne

theorem needsId_concat (visit : Ref × RefLink) : NeedsId dom (seen ++ [visit]) target ↔
    NeedsId dom seen target ∨ target = visit.2.value ∧ Clashes dom seen target := by
  constructor
  · rintro ⟨before, v, after, heq, hvalue, hclash⟩
    rcases List.eq_nil_or_concat' after with rfl | ⟨after, last, rfl⟩
    · obtain ⟨rfl, h⟩ := List.append_inj' heq rfl
      obtain rfl := List.singleton_inj.mp h
      exact Or.inr ⟨hvalue.symm, hclash⟩
    · have heq' : seen ++ [visit] = (before ++ v :: after) ++ [last] := by
        rw [heq, List.append_assoc, List.cons_append]
      obtain ⟨rfl, -⟩ := List.append_inj' heq' rfl
      exact Or.inl ⟨before, v, after, rfl, hvalue, hclash⟩
  · rintro (⟨before, v, after, rfl, hvalue, hclash⟩ | ⟨rfl, hclash⟩)
    · exact ⟨before, v, after ++ [visit], by rw [List.append_assoc, List.cons_append], hvalue,
        hclash⟩
    · exact ⟨seen, visit, [], rfl, rfl, hclash⟩

theorem mem_needRewrite :
    target ∈ (collectVisits dom seen).needRewrite ↔ NeedsId dom seen target := by
  induction seen using List.reverseRecOn with
  | nil =>
    refine ⟨nofun, ?_⟩
    rintro ⟨before, v, after, heq, -⟩
    cases before <;> cases heq
  | append_singleton seen visit ih =>
    rw [collectVisits_concat, mem_needRewrite_collectLink lookup_ids, ih, needsId_concat]

theorem nodup_needRewrite : (collectVisits dom seen).needRewrite.Nodup := by
  induction seen using List.reverseRecOn with
  | nil => exact List.nodup_nil
  | append_singleton seen visit ih =>
    rw [collectVisits_concat]
    unfold collectLink
    split
    · dsimp only
      split
      · split_ifs
        · exact ih.insert
        · exact ih
      · exact ih
    · exact ih.insert

end Collect

end Roxo
