import Roxo.Plugin.ReplaceInstances

/-!
# The order of siblings after swaps

Every swap moves an instance to the end of the children of its parent. So the children that are not
swapped come first and those that are swapped behind them, each in the order that they had.
-/

namespace Roxo.Plugin

open Forest

variable {V : Type}

/-! ## Setting a parent -/

/-- Every step of the swap goes through. -/
structure SwapOutcome.Succeeds (outcome : SwapOutcome) : Prop where
  moves : ∀ child, outcome.moves child = true
  deletes : outcome.deletes = true
  replaces : outcome.replaces = true

namespace Dom

theorem attach_parent (dom : Dom V) (inst h : Handle) (parent : Option Handle) :
    (dom.attach inst parent).parent h = dom.parent h := by
  cases parent with
  | none => rfl
  | some new =>
    unfold attach Dom.parent
    by_cases hn : h = new
    · rw [hn, modify_self]
    · rw [modify_of_ne _ _ hn]

theorem detach_parent (dom : Dom V) (inst h : Handle) :
    (dom.detach inst).parent h = dom.parent h := by
  unfold detach
  cases dom.parent inst with
  | none => rfl
  | some old =>
    unfold Dom.parent
    by_cases ho : h = old
    · rw [ho, modify_self]
    · rw [modify_of_ne _ _ ho]

theorem setParent_parent (dom : Dom V) (inst h : Handle) (parent : Option Handle) :
    (dom.setParent inst parent).parent h = if h = inst then parent else dom.parent h := by
  unfold setParent
  by_cases hsame : dom.parent inst = parent
  · rw [if_pos hsame]
    split_ifs with hh
    · rw [hh, hsame]
    · rfl
  · rw [if_neg hsame]
    split_ifs with hh
    · unfold Dom.parent
      rw [hh, modify_self]
    · have hmodify : (((dom.detach inst).attach inst parent).modify inst
          fun i => { i with parent }).parent h =
          ((dom.detach inst).attach inst parent).parent h := by
        unfold Dom.parent
        rw [modify_of_ne _ _ hh]
      rw [hmodify, attach_parent, detach_parent]

theorem attach_getChildren (dom : Dom V) (inst h : Handle) (parent : Option Handle) :
    (dom.attach inst parent).getChildren h =
      dom.getChildren h ++ if parent = some h then [inst] else [] := by
  cases parent with
  | none => simp [attach]
  | some new =>
    unfold attach getChildren
    by_cases hn : h = new
    · rw [hn, modify_self, if_pos rfl]
    · rw [modify_of_ne _ _ hn, if_neg fun heq => hn (Option.some.inj heq).symm, List.append_nil]

theorem detach_getChildren (dom : Dom V) (inst h : Handle) :
    (dom.detach inst).getChildren h =
      if dom.parent inst = some h then (dom.getChildren h).erase inst else dom.getChildren h := by
  unfold detach
  cases hp : dom.parent inst with
  | none => rw [if_neg (Option.some_ne_none h).symm]
  | some old =>
    unfold getChildren
    by_cases ho : h = old
    · rw [ho, modify_self, if_pos rfl]
    · rw [modify_of_ne _ _ ho, if_neg fun heq => ho (Option.some.inj heq).symm]

theorem setParent_getChildren (dom : Dom V) (inst h : Handle) (parent : Option Handle) :
    (dom.setParent inst parent).getChildren h =
      if dom.parent inst = parent then dom.getChildren h
      else (if dom.parent inst = some h then (dom.getChildren h).erase inst
        else dom.getChildren h) ++ if parent = some h then [inst] else [] := by
  unfold setParent
  split_ifs with hsame
  · rfl
  all_goals
    have hparent : (((dom.detach inst).attach inst parent).modify inst
        fun i => { i with parent }).getChildren h =
        ((dom.detach inst).attach inst parent).getChildren h := by
      unfold getChildren
      by_cases hh : h = inst
      · rw [hh, modify_self]
      · rw [modify_of_ne _ _ hh]
    rw [hparent, attach_getChildren, detach_getChildren]
    simp_all

/-- Moving all the children of an instance to another. -/
theorem moveAll_spec {dom : Dom V} {old new : Handle} {children : List Handle} (hne : old ≠ new)
    (hchildren : dom.getChildren old = children) (hnd : children.Nodup)
    (hparent : ∀ c ∈ children, dom.parent c = some old) :
    (∀ h, (dom.moveAll (fun _ => true) children new).getChildren h =
      if h = old then [] else if h = new then dom.getChildren new ++ children
      else dom.getChildren h) ∧
    ∀ h, (dom.moveAll (fun _ => true) children new).parent h =
      if h ∈ children then some new else dom.parent h := by
  induction children generalizing dom with
  | nil =>
    refine ⟨fun h => ?_, fun h => ?_⟩
    · show dom.getChildren h = _
      split_ifs with h₁ h₂
      · rw [h₁, hchildren]
      · rw [h₂, List.append_nil]
      · rfl
    · rfl
  | cons c children ih =>
    have hc := hparent c List.mem_cons_self
    have hnotmem := (List.nodup_cons.mp hnd).1
    have hsome : some old ≠ some new := fun h => hne (Option.some.inj h)
    have hstep : ∀ h, (dom.setParent c (some new)).getChildren h =
        if h = old then children else if h = new then dom.getChildren new ++ [c]
        else dom.getChildren h := by
      intro h
      rw [setParent_getChildren, hc, if_neg hsome]
      by_cases h₁ : h = old
      · subst h₁
        rw [if_pos rfl, if_neg hsome.symm, if_pos rfl, hchildren, List.erase_cons_head,
          List.append_nil]
      · rw [if_neg fun heq => h₁ (Option.some.inj heq).symm, if_neg h₁]
        by_cases h₂ : h = new
        · rw [h₂, if_pos rfl, if_pos rfl]
        · rw [if_neg h₂, if_neg fun heq => h₂ (Option.some.inj heq).symm, List.append_nil]
    obtain ⟨hkids, hparents⟩ := @ih (dom.setParent c (some new))
      (by rw [hstep, if_pos rfl]) (List.nodup_cons.mp hnd).2 fun x hx => by
        rw [setParent_parent, if_neg (ne_of_mem_of_not_mem hx hnotmem)]
        exact hparent x (List.mem_cons_of_mem _ hx)
    refine ⟨fun h => ?_, fun h => ?_⟩
    · show ((dom.setParent c (some new)).moveAll (fun _ => true) children new).getChildren h = _
      rw [hkids, hstep, hstep, if_neg hne.symm, if_pos rfl, List.append_assoc]
      split_ifs <;> rfl
    · show ((dom.setParent c (some new)).moveAll (fun _ => true) children new).parent h = _
      rw [hparents, setParent_parent]
      by_cases h₁ : h = c
      · simp [h₁]
      · simp [h₁]

/-- What a swap leaves in which every step goes through. The replacement is no part of the tree, and
neither are its parent and its children. -/
structure Exchanged (dom dom' : Dom V) (swap : Swap) : Prop where
  getChildren : ∀ h, dom'.getChildren h =
    if h = swap.oldInstance then []
    else if h = swap.replacement then dom.getChildren swap.oldInstance
    else if dom.parent swap.oldInstance = some h then
      (dom.getChildren h).erase swap.oldInstance ++ [swap.replacement]
    else if dom.parent swap.replacement = some h then (dom.getChildren h).erase swap.replacement
    else dom.getChildren h
  parent : ∀ h, dom'.parent h =
    if h = swap.oldInstance then none
    else if h = swap.replacement then dom.parent swap.oldInstance
    else if h ∈ dom.getChildren swap.oldInstance then some swap.replacement
    else dom.parent h

theorem exchanged {dom : Dom V} {outcome : SwapOutcome} {swap : Swap} (ho : outcome.Succeeds)
    (hne : swap.oldInstance ≠ swap.replacement)
    (hnd : (dom.getChildren swap.oldInstance).Nodup)
    (hparent : ∀ c ∈ dom.getChildren swap.oldInstance, dom.parent c = some swap.oldInstance)
    (hold : swap.oldInstance ∉ dom.getChildren swap.oldInstance)
    (hreplacement : swap.replacement ∉ dom.getChildren swap.oldInstance)
    (hempty : dom.getChildren swap.replacement = [])
    (hself : dom.parent swap.oldInstance ≠ some swap.oldInstance)
    (hnot : dom.parent swap.oldInstance ≠ some swap.replacement)
    (hcontainer : ∀ c, dom.parent swap.replacement = some c → c ≠ swap.oldInstance ∧
      c ≠ swap.replacement ∧ dom.parent swap.oldInstance ≠ some c) :
    Exchanged dom (dom.exchange outcome swap) swap := by
  have hmoves : outcome.moves = fun _ => true := funext ho.moves
  obtain ⟨hkids, hparents⟩ := moveAll_spec hne rfl hnd hparent
  unfold exchange
  dsimp only
  rw [hmoves, ho.deletes, ho.replaces, if_pos rfl, if_pos rfl]
  generalize dom.moveAll (fun _ => true) (dom.getChildren swap.oldInstance) swap.replacement =
    moved at *
  have hmovedOld : moved.parent swap.oldInstance = dom.parent swap.oldInstance := by
    rw [hparents, if_neg hold]
  have hmovedReplacement : moved.parent swap.replacement = dom.parent swap.replacement := by
    rw [hparents, if_neg hreplacement]
  refine ⟨fun h => ?_, fun h => ?_⟩
  · rw [setParent_getChildren, setParent_getChildren, setParent_parent, if_neg hne.symm, hmovedOld,
      hmovedReplacement, hkids, hempty, List.nil_append]
    generalize dom.parent swap.oldInstance = q at *
    generalize dom.parent swap.replacement = container at *
    cases q with
    | none => cases container <;> grind
    | some q => cases container <;> grind
  · rw [setParent_parent, setParent_parent, hparents]
    by_cases h₁ : h = swap.oldInstance
    · rw [if_pos h₁, if_pos h₁, if_neg (h₁ ▸ hne)]
    · rw [if_neg h₁, if_neg h₁]

end Dom

/-! ## The loop -/

/-- Each swap is of an instance of the tree, with a fresh replacement: what has been deserialized is
apart from the tree, and a replacement comes without children. -/
structure Replaceable (dom : Dom V) (swaps : List Swap) : Prop where
  wellFormed : dom.WellFormed
  oldInstances : (swaps.map Swap.oldInstance).Nodup
  replacements : (swaps.map Swap.replacement).Nodup
  childless : ∀ swap ∈ swaps, dom.getChildren swap.replacement = []
  notOld : ∀ swap ∈ swaps, ∀ swap' ∈ swaps, swap.replacement ≠ swap'.oldInstance
  apart : ∀ swap ∈ swaps, ∀ swap' ∈ swaps, ∀ c, dom.parent swap.replacement = some c →
    c ≠ swap'.oldInstance ∧ dom.parent swap'.oldInstance ≠ some c

/-- The instance is one of the tree and not of what has been deserialized. -/
structure InTree (dom : Dom V) (swaps : List Swap) (h : Handle) : Prop where
  notReplacement : ∀ swap ∈ swaps, h ≠ swap.replacement
  notContainer : ∀ swap ∈ swaps, dom.parent swap.replacement ≠ some h

/-- The instance that stands for one after the swaps. -/
def standIn (swaps : List Swap) (h : Handle) : Handle :=
  match swaps.find? (·.oldInstance = h) with
  | some swap => swap.replacement
  | none => h

/-- A replacement read as the instance that it replaced. -/
def readAs (swaps : List Swap) (h : Handle) : Handle :=
  match swaps.find? (·.replacement = h) with
  | some swap => swap.oldInstance
  | none => h

/-- The instance is swapped. -/
def isSwapped (swaps : List Swap) (h : Handle) : Bool := swaps.any (·.oldInstance = h)

theorem isSwapped_iff {swaps : List Swap} {h : Handle} :
    isSwapped swaps h = true ↔ ∃ swap ∈ swaps, swap.oldInstance = h := by
  simp [isSwapped]

theorem isSwapped_append (swaps swaps' : List Swap) (h : Handle) :
    isSwapped (swaps ++ swaps') h = (isSwapped swaps h || isSwapped swaps' h) := by
  simp [isSwapped]

theorem standIn_of_not_mem {swaps : List Swap} {h : Handle} (hn : isSwapped swaps h = false) :
    standIn swaps h = h := by
  unfold standIn
  rw [List.find?_eq_none.mpr]
  intro swap hswap heq
  have hmem := isSwapped_iff.mpr ⟨swap, hswap, of_decide_eq_true heq⟩
  rw [hn] at hmem
  cases hmem

theorem standIn_of_mem {swaps : List Swap} (hnd : (swaps.map Swap.oldInstance).Nodup) {swap : Swap}
    (hswap : swap ∈ swaps) : standIn swaps swap.oldInstance = swap.replacement := by
  unfold standIn
  cases hf : swaps.find? (·.oldInstance = swap.oldInstance) with
  | none =>
    have hnot := List.find?_eq_none.mp hf swap hswap
    simp at hnot
  | some found =>
    have heq : found.oldInstance = swap.oldInstance := by simpa using List.find?_some hf
    rw [List.inj_on_of_nodup_map hnd (List.mem_of_find?_eq_some hf) hswap heq]

theorem readAs_of_mem {swaps : List Swap} (hnd : (swaps.map Swap.replacement).Nodup) {swap : Swap}
    (hswap : swap ∈ swaps) : readAs swaps swap.replacement = swap.oldInstance := by
  unfold readAs
  cases hf : swaps.find? (·.replacement = swap.replacement) with
  | none =>
    have hnot := List.find?_eq_none.mp hf swap hswap
    simp at hnot
  | some found =>
    have heq : found.replacement = swap.replacement := by simpa using List.find?_some hf
    rw [List.inj_on_of_nodup_map hnd (List.mem_of_find?_eq_some hf) hswap heq]

theorem readAs_of_not_mem {swaps : List Swap} {h : Handle}
    (hn : ∀ swap ∈ swaps, h ≠ swap.replacement) : readAs swaps h = h := by
  unfold readAs
  rw [List.find?_eq_none.mpr]
  intro swap hswap heq
  exact hn swap hswap (of_decide_eq_true heq).symm

/-- The swaps of `done` have been made, those of `todo` have not. -/
structure Halfway (dom₀ dom : Dom V) (done todo : List Swap) : Prop where
  getChildren : ∀ h, InTree dom₀ (done ++ todo) h → dom.getChildren (standIn done h) =
    (dom₀.getChildren h).filter (!isSwapped done ·) ++
      (done.filter fun swap => dom₀.parent swap.oldInstance = some h).map Swap.replacement
  parent : ∀ h, isSwapped done h = false → (∀ swap ∈ done ++ todo, h ≠ swap.replacement) →
    dom.parent h = (dom₀.parent h).map (standIn done)
  replaced : ∀ swap ∈ done,
    dom.parent swap.replacement = (dom₀.parent swap.oldInstance).map (standIn done)
  childless : ∀ swap ∈ todo, dom.getChildren swap.replacement = []
  container : ∀ swap ∈ todo, dom.parent swap.replacement = dom₀.parent swap.replacement

theorem halfway_start {dom : Dom V} {swaps : List Swap} (hr : Replaceable dom swaps) :
    Halfway dom dom [] swaps where
  getChildren h _ := by
    have hall : (dom.getChildren h).filter (!isSwapped [] ·) = dom.getChildren h :=
      List.filter_eq_self.mpr fun _ _ => rfl
    rw [hall]
    exact (List.append_nil _).symm
  parent h _ _ := by
    have hid : standIn [] = id := rfl
    rw [hid, Option.map_id]
    rfl
  replaced swap hswap := absurd hswap List.not_mem_nil
  childless := hr.childless
  container _ _ := rfl

/-! ### One step -/

section Step

variable {dom₀ dom : Dom V} {done todo : List Swap} {swap : Swap} {h p : Handle}

theorem standIn_cases (hnd : (done.map Swap.oldInstance).Nodup) (h : Handle) :
    isSwapped done h = false ∧ standIn done h = h ∨
      ∃ s ∈ done, s.oldInstance = h ∧ standIn done h = s.replacement := by
  cases hs : isSwapped done h with
  | false => exact .inl ⟨rfl, standIn_of_not_mem hs⟩
  | true =>
    obtain ⟨s, hmem, rfl⟩ := isSwapped_iff.mp hs
    exact .inr ⟨s, hmem, rfl, standIn_of_mem hnd hmem⟩

namespace Replaceable

variable {swaps : List Swap} (hr : Replaceable dom₀ swaps)

include hr

theorem inTree_old (hswap : swap ∈ swaps) : InTree dom₀ swaps swap.oldInstance where
  notReplacement s hs heq := hr.notOld s hs swap hswap heq.symm
  notContainer s hs heq := (hr.apart s hs swap hswap _ heq).1 rfl

/-- A replacement has no children, so it is no parent. -/
theorem parent_ne (hswap : swap ∈ swaps) (h : Handle) :
    dom₀.parent h ≠ some swap.replacement := by
  intro heq
  have hmem := hr.wellFormed.parent_iff.mpr heq
  rw [hr.childless swap hswap] at hmem
  cases hmem

theorem inTree_parent (hswap : swap ∈ swaps) (hp : dom₀.parent swap.oldInstance = some p) :
    InTree dom₀ swaps p where
  notReplacement _ hs heq := hr.parent_ne hs swap.oldInstance (heq ▸ hp)
  notContainer s hs heq := (hr.apart s hs swap hswap p heq).2 hp

end Replaceable

theorem mem_next : swap ∈ done ++ swap :: todo := List.mem_append_right _ List.mem_cons_self

theorem mem_next_of_done {s : Swap} (hs : s ∈ done) : s ∈ done ++ swap :: todo :=
  List.mem_append_left _ hs

namespace Replaceable

variable (hr : Replaceable dom₀ (done ++ swap :: todo))

include hr

/-- A child in the tree is no replacement. -/
theorem child_ne {c : Handle} (hc : c ∈ dom₀.getChildren swap.oldInstance) {s : Swap}
    (hs : s ∈ done ++ swap :: todo) : c ≠ s.replacement := by
  rintro rfl
  exact (hr.apart s hs swap mem_next _ (hr.wellFormed.parent_iff.mp hc)).1 rfl

theorem nodup_done : (done.map Swap.oldInstance).Nodup := by
  have h := hr.oldInstances
  rw [List.map_append] at h
  exact (List.nodup_append.mp h).1

theorem not_swapped : isSwapped done swap.oldInstance = false := by
  rw [Bool.eq_false_iff]
  intro h
  obtain ⟨s, hs, heq⟩ := isSwapped_iff.mp h
  have hnd := hr.oldInstances
  rw [List.map_append, List.map_cons] at hnd
  exact (List.nodup_append.mp hnd).2.2 _ (List.mem_map_of_mem hs) _ List.mem_cons_self heq

theorem replacement_ne {s : Swap} (hs : s ∈ done) : s.replacement ≠ swap.replacement := by
  have hnd := hr.replacements
  rw [List.map_append, List.map_cons] at hnd
  exact (List.nodup_append.mp hnd).2.2 _ (List.mem_map_of_mem hs) _ List.mem_cons_self

theorem todo_ne {s : Swap} (hs : s ∈ todo) : s.replacement ≠ swap.replacement := by
  have hnd := hr.replacements
  rw [List.map_append, List.map_cons] at hnd
  intro heq
  exact (List.nodup_cons.mp (List.nodup_append.mp hnd).2.1).1 (heq ▸ List.mem_map_of_mem hs)

theorem done_ne_todo {s s' : Swap} (hs : s ∈ done) (hs' : s' ∈ todo) :
    s.replacement ≠ s'.replacement := by
  have hnd := hr.replacements
  rw [List.map_append, List.map_cons] at hnd
  exact (List.nodup_append.mp hnd).2.2 _ (List.mem_map_of_mem hs) _
    (List.mem_cons_of_mem _ (List.mem_map_of_mem hs'))

theorem standIn_old : standIn done swap.oldInstance = swap.oldInstance :=
  standIn_of_not_mem hr.not_swapped

/-- An instance of the tree is stood in for by itself or by one of the replacements. -/
theorem standIn_ne_todo {s : Swap} (hs : s ∈ swap :: todo)
    (hp : ∀ x ∈ done ++ swap :: todo, p ≠ x.replacement) : standIn done p ≠ s.replacement := by
  rcases standIn_cases hr.nodup_done p with ⟨-, heq⟩ | ⟨x, hx, -, heq⟩
  · rw [heq]
    exact hp s (List.mem_append_right _ hs)
  · rw [heq]
    rcases List.mem_cons.mp hs with rfl | hs
    · exact hr.replacement_ne hx
    · exact hr.done_ne_todo hx hs

theorem standIn_eq_old (hne : p ≠ swap.oldInstance) : standIn done p ≠ swap.oldInstance := by
  rcases standIn_cases hr.nodup_done p with ⟨-, heq⟩ | ⟨x, hx, -, heq⟩
  · rw [heq]
    exact hne
  · rw [heq]
    exact hr.notOld x (mem_next_of_done hx) swap mem_next

theorem standIn_inj {q : Handle} (hp : ∀ x ∈ done ++ swap :: todo, p ≠ x.replacement)
    (hq : ∀ x ∈ done ++ swap :: todo, q ≠ x.replacement) (heq : standIn done p = standIn done q) :
    p = q := by
  rcases standIn_cases hr.nodup_done p with ⟨-, hp'⟩ | ⟨x, hx, hxp, hp'⟩ <;>
    rcases standIn_cases hr.nodup_done q with ⟨-, hq'⟩ | ⟨y, hy, hyq, hq'⟩
  · rw [← hp', heq, hq']
  · exact absurd (hp'.symm.trans (heq.trans hq')) (hp y (mem_next_of_done hy))
  · exact absurd (hq'.symm.trans (heq.symm.trans hp')) (hq x (mem_next_of_done hx))
  · have hxy : x.replacement = y.replacement := hp'.symm.trans (heq.trans hq')
    rw [← hxp, ← hyq, List.inj_on_of_nodup_map hr.replacements (mem_next_of_done hx)
      (mem_next_of_done hy) hxy]

/-- The stand-ins once the swap has been made. -/
theorem standIn_append (h : Handle) : standIn (done ++ [swap]) h =
    if h = swap.oldInstance then swap.replacement else standIn done h := by
  have hnd : ((done ++ [swap]).map Swap.oldInstance).Nodup := by
    have h := hr.oldInstances
    rw [← List.singleton_append, ← List.append_assoc, List.map_append] at h
    exact (List.nodup_append.mp h).1
  split_ifs with hh
  · rw [hh]
    exact standIn_of_mem hnd (List.mem_append_right _ (List.mem_singleton_self _))
  · rcases standIn_cases hr.nodup_done h with ⟨hs, heq⟩ | ⟨x, hx, rfl, heq⟩
    · rw [heq, standIn_of_not_mem]
      rw [isSwapped_append, hs]
      simp [isSwapped, Ne.symm hh]
    · rw [heq, standIn_of_mem hnd (List.mem_append_left _ hx)]

end Replaceable

namespace Halfway

variable (hr : Replaceable dom₀ (done ++ swap :: todo)) (hh : Halfway dom₀ dom done (swap :: todo))

include hr hh

/-- The children of the instance that is swapped next. -/
theorem mem_oldChildren {c : Handle} : c ∈ dom.getChildren swap.oldInstance ↔
    c ∈ dom₀.getChildren swap.oldInstance ∧ isSwapped done c = false ∨
      ∃ s ∈ done, dom₀.parent s.oldInstance = some swap.oldInstance ∧ s.replacement = c := by
  have hkids := hh.getChildren swap.oldInstance (hr.inTree_old mem_next)
  rw [hr.standIn_old] at hkids
  rw [hkids, List.mem_append, List.mem_filter, List.mem_map]
  simp [and_assoc]

theorem parent_oldChild {c : Handle} (hc : c ∈ dom.getChildren swap.oldInstance) :
    dom.parent c = some swap.oldInstance := by
  rcases (hh.mem_oldChildren hr).mp hc with ⟨hc, hs⟩ | ⟨s, hs, hp, rfl⟩
  · rw [hh.parent c hs fun s hs => hr.child_ne hc hs, hr.wellFormed.parent_iff.mp hc,
      Option.map_some, hr.standIn_old]
  · rw [hh.replaced s hs, hp, Option.map_some, hr.standIn_old]

theorem nodup_oldChildren : (dom.getChildren swap.oldInstance).Nodup := by
  have hkids := hh.getChildren swap.oldInstance (hr.inTree_old mem_next)
  rw [hr.standIn_old] at hkids
  rw [hkids]
  have hnd := hr.replacements
  rw [List.map_append] at hnd
  refine ((hr.wellFormed.forest.nodup _).filter _).append
    ((List.nodup_append.mp hnd).1.sublist (List.filter_sublist.map _)) fun c hc hc' => ?_
  obtain ⟨s, hs, rfl⟩ := List.mem_map.mp hc'
  exact hr.child_ne (List.mem_filter.mp hc).1
    (mem_next_of_done (List.mem_filter.mp hs).1) rfl

/-- The parent of the instance that is swapped next. -/
theorem parent_old : dom.parent swap.oldInstance =
    (dom₀.parent swap.oldInstance).map (standIn done) :=
  hh.parent _ hr.not_swapped fun _ hs heq => hr.notOld _ hs _ mem_next heq.symm

theorem exchanged {outcome : SwapOutcome} (ho : outcome.Succeeds) :
    Dom.Exchanged dom (dom.exchange outcome swap) swap := by
  have hself : swap.oldInstance ∉ dom₀.getChildren swap.oldInstance :=
    fun h => hr.wellFormed.forest.ne_of_mem h rfl
  have hparent : ∀ q, dom.parent swap.oldInstance = some q → ∃ p,
      dom₀.parent swap.oldInstance = some p ∧ standIn done p = q := by
    intro q hq
    rw [hh.parent_old hr] at hq
    exact Option.map_eq_some_iff.mp hq
  have htree : ∀ p, dom₀.parent swap.oldInstance = some p →
      InTree dom₀ (done ++ swap :: todo) p := fun p hp => hr.inTree_parent mem_next hp
  refine Dom.exchanged ho (hr.notOld _ mem_next _ mem_next).symm (hh.nodup_oldChildren hr)
    (fun c hc => hh.parent_oldChild hr hc) (fun hmem => ?_) (fun hmem => ?_)
    (hh.childless swap List.mem_cons_self) (fun heq => ?_) (fun heq => ?_) fun c hc => ?_
  · rcases (hh.mem_oldChildren hr).mp hmem with ⟨hmem, -⟩ | ⟨s, hs, -, heq⟩
    · exact hself hmem
    · exact hr.notOld s (mem_next_of_done hs) swap mem_next heq
  · rcases (hh.mem_oldChildren hr).mp hmem with ⟨hmem, -⟩ | ⟨s, hs, -, heq⟩
    · exact hr.child_ne hmem mem_next rfl
    · exact hr.replacement_ne hs heq
  · obtain ⟨p, hp, hstand⟩ := hparent _ heq
    refine hr.standIn_eq_old (p := p) ?_ hstand
    rintro rfl
    exact hself (hr.wellFormed.parent_iff.mpr hp)
  · obtain ⟨p, hp, hstand⟩ := hparent _ heq
    exact hr.standIn_ne_todo List.mem_cons_self (htree p hp).notReplacement hstand
  · rw [hh.container swap List.mem_cons_self] at hc
    obtain ⟨hne, hnot⟩ := hr.apart swap mem_next swap mem_next c hc
    refine ⟨hne, ?_, fun heq => ?_⟩
    · rintro rfl
      exact hr.parent_ne mem_next swap.replacement hc
    · obtain ⟨p, hp, hstand⟩ := hparent c heq
      rcases standIn_cases hr.nodup_done p with ⟨-, hsame⟩ | ⟨s, hs, -, hsame⟩
      · rw [← hstand, hsame] at hnot
        exact hnot hp
      · rw [← hstand, hsame] at hc
        exact hr.parent_ne (mem_next_of_done hs) _ hc

/-- The children of an instance of the tree after the step. -/
theorem getChildren_step {dom' : Dom V} (hx : Dom.Exchanged dom dom' swap)
    (htree : InTree dom₀ (done ++ swap :: todo) h) :
    dom'.getChildren (standIn (done ++ [swap]) h) =
      (dom₀.getChildren h).filter (!isSwapped (done ++ [swap]) ·) ++
        ((done ++ [swap]).filter fun s => dom₀.parent s.oldInstance = some h).map
          Swap.replacement := by
  have hne : swap.oldInstance ≠ swap.replacement := (hr.notOld _ mem_next _ mem_next).symm
  have hkids := hh.getChildren h htree
  rw [List.filter_append, List.map_append, hr.standIn_append]
  -- the other children are swapped or not as before
  have hfilter : swap.oldInstance ∉ dom₀.getChildren h →
      (dom₀.getChildren h).filter (!isSwapped (done ++ [swap]) ·) =
        (dom₀.getChildren h).filter (!isSwapped done ·) := by
    intro hnot
    refine List.filter_congr fun c hc => ?_
    have hcne : swap.oldInstance ≠ c := fun heq => hnot (heq ▸ hc)
    simp [isSwapped, hcne]
  by_cases ho : h = swap.oldInstance
  · have hself : swap.oldInstance ∉ dom₀.getChildren swap.oldInstance :=
      fun h => hr.wellFormed.forest.ne_of_mem h rfl
    subst ho
    have hparent : dom₀.parent swap.oldInstance ≠ some swap.oldInstance :=
      fun heq => hself (hr.wellFormed.parent_iff.mpr heq)
    rw [hr.standIn_old] at hkids
    rw [if_pos rfl, hx.getChildren, if_neg hne.symm, if_pos rfl, hkids, hfilter hself]
    simp [hparent]
  · have hnotReplacement : standIn done h ≠ swap.replacement :=
      hr.standIn_ne_todo List.mem_cons_self htree.notReplacement
    have hcontainer : dom.parent swap.replacement ≠ some (standIn done h) := by
      rw [hh.container swap List.mem_cons_self]
      rcases standIn_cases hr.nodup_done h with ⟨-, heq⟩ | ⟨s, hs, -, heq⟩
      · rw [heq]
        exact htree.notContainer swap mem_next
      · rw [heq]
        exact hr.parent_ne (mem_next_of_done hs) _
    have hiff : dom.parent swap.oldInstance = some (standIn done h) ↔
        dom₀.parent swap.oldInstance = some h := by
      rw [hh.parent_old hr, Option.map_eq_some_iff]
      refine ⟨fun ⟨p, hp, heq⟩ => ?_, fun heq => ⟨h, heq, rfl⟩⟩
      rw [← hr.standIn_inj (hr.inTree_parent mem_next hp).notReplacement htree.notReplacement heq]
      exact hp
    rw [if_neg ho, hx.getChildren, if_neg (hr.standIn_eq_old ho), if_neg hnotReplacement,
      if_neg hcontainer, hkids]
    by_cases hp : dom₀.parent swap.oldInstance = some h
    · have hmem : swap.oldInstance ∈ dom₀.getChildren h := hr.wellFormed.parent_iff.mpr hp
      have hkept : swap.oldInstance ∈ (dom₀.getChildren h).filter (!isSwapped done ·) := by
        rw [List.mem_filter, hr.not_swapped]
        exact ⟨hmem, rfl⟩
      rw [if_pos (hiff.mpr hp), List.erase_append_left _ hkept,
        ((hr.wellFormed.forest.nodup h).filter _).erase_eq_filter, List.filter_filter,
        List.append_assoc]
      congr 1
      · refine List.filter_congr fun c _ => ?_
        by_cases hc : c = swap.oldInstance
        · simp [hc, isSwapped]
        · simp [hc, isSwapped, Ne.symm hc]
      · simp [hp]
    · have hnot : swap.oldInstance ∉ dom₀.getChildren h :=
        fun hmem => hp (hr.wellFormed.parent_iff.mp hmem)
      rw [if_neg fun heq => hp (hiff.mp heq), hfilter hnot]
      simp [hp]

/-- One swap more has been made. -/
theorem step {outcome : SwapOutcome} (ho : outcome.Succeeds) :
    Halfway dom₀ (dom.exchange outcome swap) (done ++ [swap]) todo := by
  have hx := hh.exchanged hr ho
  have hall : done ++ [swap] ++ todo = done ++ swap :: todo := by simp
  have hne : swap.oldInstance ≠ swap.replacement := (hr.notOld _ mem_next _ mem_next).symm
  -- who stands in for a parent changes where the children are moved
  have hmap : ∀ c q, dom.parent c = q.map (standIn done) → (q = some swap.oldInstance →
      c ∈ dom.getChildren swap.oldInstance) → (∀ x ∈ done ++ swap :: todo, q ≠ some x.replacement) →
      (if c ∈ dom.getChildren swap.oldInstance then some swap.replacement else dom.parent c) =
        q.map (standIn (done ++ [swap])) := by
    intro c q hq hmoved hnot
    by_cases hc : c ∈ dom.getChildren swap.oldInstance
    · have hp := hh.parent_oldChild hr hc
      rw [hq] at hp
      obtain ⟨p, rfl, hstand⟩ := Option.map_eq_some_iff.mp hp
      have hpo : p = swap.oldInstance := by
        by_contra hpo
        exact hr.standIn_eq_old hpo hstand
      rw [if_pos hc, Option.map_some, hr.standIn_append, if_pos hpo]
    · rw [if_neg hc, hq]
      cases q with
      | none => rfl
      | some p =>
        rw [Option.map_some, Option.map_some, hr.standIn_append, if_neg]
        exact fun heq => hc (hmoved (congrArg some heq))
  refine
    { getChildren := fun h htree => hh.getChildren_step hr hx (hall ▸ htree)
      parent := fun h hs hnot => ?_
      replaced := fun s hs => ?_
      childless := fun s hs => ?_
      container := fun s hs => ?_ }
  · rw [hall] at hnot
    rw [isSwapped_append, Bool.or_eq_false_iff] at hs
    have hho : h ≠ swap.oldInstance := by
      rintro rfl
      simp [isSwapped] at hs
    rw [hx.parent, if_neg hho, if_neg (hnot swap mem_next)]
    refine hmap h _ (hh.parent h hs.1 hnot) (fun hp => ?_) fun x hx => hr.parent_ne hx h
    exact (hh.mem_oldChildren hr).mpr (.inl ⟨hr.wellFormed.parent_iff.mpr hp, hs.1⟩)
  · rcases List.mem_append.mp hs with hs | hs
    · rw [hx.parent, if_neg (hr.notOld s (mem_next_of_done hs) swap mem_next),
        if_neg (hr.replacement_ne hs)]
      refine hmap _ _ (hh.replaced s hs) (fun hp => ?_) fun x hx => hr.parent_ne hx _
      exact (hh.mem_oldChildren hr).mpr (.inr ⟨s, hs, hp, rfl⟩)
    · rw [List.mem_singleton.mp hs, hx.parent, if_neg hne.symm, if_pos rfl, hh.parent_old hr]
      cases hp : dom₀.parent swap.oldInstance with
      | none => rfl
      | some p =>
        rw [Option.map_some, Option.map_some, hr.standIn_append, if_neg]
        rintro rfl
        exact hr.wellFormed.forest.ne_of_mem (hr.wellFormed.parent_iff.mpr hp) rfl
  · have hmem : s ∈ done ++ swap :: todo := List.mem_append_right _ (List.mem_cons_of_mem _ hs)
    rw [hx.getChildren, if_neg (hr.notOld s hmem swap mem_next), if_neg (hr.todo_ne hs), if_neg,
      if_neg]
    · exact hh.childless s (List.mem_cons_of_mem _ hs)
    · rw [hh.container swap List.mem_cons_self]
      exact hr.parent_ne hmem _
    · rw [hh.parent_old hr]
      intro heq
      obtain ⟨p, hp, hstand⟩ := Option.map_eq_some_iff.mp heq
      exact hr.standIn_ne_todo (List.mem_cons_of_mem _ hs)
        (hr.inTree_parent mem_next hp).notReplacement hstand
  · have hmem : s ∈ done ++ swap :: todo := List.mem_append_right _ (List.mem_cons_of_mem _ hs)
    rw [hx.parent, if_neg (hr.notOld s hmem swap mem_next), if_neg (hr.todo_ne hs), if_neg]
    · exact hh.container s (List.mem_cons_of_mem _ hs)
    · intro hc
      rcases (hh.mem_oldChildren hr).mp hc with ⟨hc, -⟩ | ⟨x, hx, -, heq⟩
      · exact hr.child_ne hc hmem rfl
      · exact hr.done_ne_todo hx hs heq

end Halfway

end Step

/-! ### The whole loop -/

section Loop

variable {dom₀ dom : Dom V} {swaps ordered : List Swap} {h : Handle}

theorem swapInstance_dom [Engine V] {outcome : SwapOutcome} (ho : outcome.Succeeds)
    (s : SwapState V) (swap : Swap) :
    (swapInstance outcome s swap).dom = s.dom.exchange outcome swap := by
  have hfails : outcome.fails = false := by
    unfold SwapOutcome.fails
    rw [ho.deletes, ho.replaces]
    rfl
  unfold swapInstance
  dsimp only
  rw [hfails]
  rfl

theorem Halfway.run [Engine V] {outcomes : Swap → SwapOutcome} (ho : ∀ swap, (outcomes swap).Succeeds)
    {done todo : List Swap} (hr : Replaceable dom₀ (done ++ todo)) {s : SwapState V}
    (hh : Halfway dom₀ s.dom done todo) :
    Halfway dom₀ (swapInstances outcomes s todo).dom (done ++ todo) [] := by
  induction todo generalizing done s with
  | nil =>
    rw [List.append_nil]
    exact hh
  | cons swap todo ih =>
    have hstep := hh.step hr (ho swap)
    rw [← swapInstance_dom (ho swap)] at hstep
    rw [← List.singleton_append, ← List.append_assoc] at hr ⊢
    exact ih hr hstep

theorem Replaceable.perm (hr : Replaceable dom swaps) (hp : ordered.Perm swaps) :
    Replaceable dom ordered where
  wellFormed := hr.wellFormed
  oldInstances := (hp.map _).nodup_iff.mpr hr.oldInstances
  replacements := (hp.map _).nodup_iff.mpr hr.replacements
  childless s hs := hr.childless s (hp.mem_iff.mp hs)
  notOld s hs s' hs' := hr.notOld s (hp.mem_iff.mp hs) s' (hp.mem_iff.mp hs')
  apart s hs s' hs' := hr.apart s (hp.mem_iff.mp hs) s' (hp.mem_iff.mp hs')

theorem isSwapped_perm (hp : ordered.Perm swaps) (h : Handle) :
    isSwapped ordered h = isSwapped swaps h := hp.any_eq

theorem standIn_perm (hr : Replaceable dom swaps) (hp : ordered.Perm swaps) (h : Handle) :
    standIn ordered h = standIn swaps h := by
  rcases standIn_cases hr.oldInstances h with ⟨hs, heq⟩ | ⟨s, hs, rfl, heq⟩
  · rw [heq, standIn_of_not_mem ((isSwapped_perm hp h).trans hs)]
  · rw [heq, standIn_of_mem (hr.perm hp).oldInstances (hp.mem_iff.mpr hs)]

/-- Distinct elements come in the order of their places. -/
theorem pairwise_idxOf {l : List Handle} (hnd : l.Nodup) :
    l.Pairwise fun a b => l.idxOf a < l.idxOf b := by
  rw [List.pairwise_iff_getElem]
  intro i j hi hj hij
  rw [hnd.idxOf_getElem, hnd.idxOf_getElem]
  exact hij

/-- Swaps of siblings are made in the order of the siblings. -/
theorem siblings_ordered (hr : Replaceable dom swaps) (ho : IsOrderSwaps dom swaps ordered)
    (h : Handle) :
    (ordered.filter fun s => dom.parent s.oldInstance = some h).map Swap.oldInstance =
      (dom.getChildren h).filter (isSwapped swaps) := by
  have hnd := hr.wellFormed.forest.nodup h
  have hndo := (hr.perm ho.perm).oldInstances
  have hindex : ∀ s : Swap, dom.parent s.oldInstance = some h →
      s.siblingIndex dom = (dom.getChildren h).idxOf s.oldInstance + 1 := by
    intro s hs
    unfold Swap.siblingIndex
    rw [hs]
    exact if_pos (hr.wellFormed.parent_iff.mpr hs)
  have hdepth : ∀ s s' : Swap, dom.parent s.oldInstance = some h →
      dom.parent s'.oldInstance = some h → s.depth dom = s'.depth dom := by
    intro s s' hs hs'
    unfold Swap.depth
    rw [hs, hs']
  have hmem : ∀ c, c ∈ (ordered.filter fun s => dom.parent s.oldInstance = some h).map
      Swap.oldInstance ↔ c ∈ (dom.getChildren h).filter (isSwapped swaps) := by
    intro c
    rw [List.mem_map, List.mem_filter, isSwapped_iff, hr.wellFormed.parent_iff]
    constructor
    · rintro ⟨s, hs, rfl⟩
      obtain ⟨hs, hp⟩ := List.mem_filter.mp hs
      exact ⟨of_decide_eq_true hp, s, ho.perm.mem_iff.mp hs, rfl⟩
    · rintro ⟨hp, s, hs, rfl⟩
      exact ⟨s, List.mem_filter.mpr ⟨ho.perm.mem_iff.mpr hs, decide_eq_true hp⟩, rfl⟩
  have hnd₁ : ((ordered.filter fun s => dom.parent s.oldInstance = some h).map
      Swap.oldInstance).Nodup := hndo.sublist (List.filter_sublist.map _)
  have hanti : ∀ a b, (dom.getChildren h).idxOf a < (dom.getChildren h).idxOf b →
      (dom.getChildren h).idxOf b < (dom.getChildren h).idxOf a → a = b :=
    fun a b hab hba => absurd hba (Nat.lt_asymm hab)
  refine List.Perm.eq_of_pairwise (fun a b _ _ => hanti a b) ?_
    ((pairwise_idxOf hnd).sublist List.filter_sublist)
    ((List.perm_ext_iff_of_nodup hnd₁ (hnd.filter _)).mpr hmem)
  rw [List.pairwise_map]
  have hpair : ordered.Pairwise fun a b =>
      b.before dom a = false ∧ a.oldInstance ≠ b.oldInstance :=
    ho.sorted.and (List.pairwise_map.mp hndo)
  refine (hpair.filter _).imp_of_mem fun {a b} ha hb hab => ?_
  have hpa := of_decide_eq_true (List.mem_filter.mp ha).2
  have hpb := of_decide_eq_true (List.mem_filter.mp hb).2
  have hle : a.siblingIndex dom ≤ b.siblingIndex dom := by
    have hbefore := hab.1
    unfold Swap.before at hbefore
    rw [if_neg (not_not.mpr (hdepth b a hpb hpa)), decide_eq_false_iff_not] at hbefore
    omega
  rw [hindex a hpa, hindex b hpb] at hle
  have hne : (dom.getChildren h).idxOf a.oldInstance ≠ (dom.getChildren h).idxOf b.oldInstance :=
    fun heq => hab.2 ((List.idxOf_inj (hr.wellFormed.parent_iff.mpr hpa)).mp heq)
  omega

/-- Sorting the elements with a property to the end changes nothing exactly if they are there. -/
theorem filter_append_filter_iff {p : Handle → Bool} {l : List Handle} :
    l.filter (!p ·) ++ l.filter p = l ↔ l.Pairwise fun a b => p a = true → p b = true := by
  induction l with
  | nil => simp
  | cons a l ih =>
    rw [List.pairwise_cons, ← ih]
    cases ha : p a with
    | false => simp [ha]
    | true =>
      have hall : l.filter (!p ·) ++ a :: l.filter p = a :: l ↔ ∀ b ∈ l, p b = true := by
        constructor
        · intro heq b hb
          cases hn : l.filter (!p ·) with
          | nil =>
            have hnot := List.filter_eq_nil_iff.mp hn b hb
            simpa using hnot
          | cons c rest =>
            rw [hn, List.cons_append, List.cons.injEq] at heq
            have hc : c ∈ l.filter (!p ·) := hn ▸ List.mem_cons_self
            rw [heq.1, List.mem_filter, ha] at hc
            exact absurd hc.2 (by simp)
        · intro h
          have hn : l.filter (!p ·) = [] := List.filter_eq_nil_iff.mpr fun b hb => by simp [h b hb]
          rw [hn, List.filter_eq_self.mpr h]
          rfl
      simp only [List.filter_cons, ha, Bool.not_true, Bool.false_eq_true, if_false, if_true]
      rw [hall]
      refine ⟨fun h => ⟨fun b hb _ => h b hb, ?_⟩, fun h b hb => h.1 b hb trivial⟩
      have hn : l.filter (!p ·) = [] := List.filter_eq_nil_iff.mpr fun b hb => by simp [h b hb]
      rw [hn, List.filter_eq_self.mpr h]
      rfl

/-- If every step goes through, the children of a parent come back in their order exactly if behind
a swapped one all are swapped. -/
theorem children_swapped_iff [Engine V] {map : InstanceMap} {selection : List Handle}
    {outcomes : Swap → SwapOutcome} (hr : Replaceable dom swaps)
    (ho : IsOrderSwaps dom swaps ordered) (hs : ∀ swap, (outcomes swap).Succeeds)
    (ht : InTree dom swaps h) :
    ((swapInstances outcomes (.start dom map selection) ordered).dom.getChildren
        (standIn swaps h)).map (readAs swaps) = dom.getChildren h ↔
      (dom.getChildren h).Pairwise fun a b =>
        isSwapped swaps a = true → isSwapped swaps b = true := by
  have hro := hr.perm ho.perm
  have hto : InTree dom (ordered ++ []) h := by
    rw [List.append_nil]
    exact ⟨fun s hs => ht.notReplacement s (ho.perm.mem_iff.mp hs),
      fun s hs => ht.notContainer s (ho.perm.mem_iff.mp hs)⟩
  have hrun : Halfway dom (swapInstances outcomes (.start dom map selection) ordered).dom
      ([] ++ ordered) [] := (halfway_start hro).run hs hro
  have hkids := hrun.getChildren h hto
  rw [List.nil_append, standIn_perm hr ho.perm] at hkids
  have hread : ((dom.getChildren h).filter (!isSwapped ordered ·)).map (readAs swaps) =
      (dom.getChildren h).filter (!isSwapped swaps ·) := by
    have hsame : (dom.getChildren h).filter (!isSwapped ordered ·) =
        (dom.getChildren h).filter (!isSwapped swaps ·) :=
      List.filter_congr fun c _ => by rw [isSwapped_perm ho.perm]
    rw [hsame]
    refine List.map_congr_left (g := id) (fun c hc => ?_) |>.trans (List.map_id _)
    refine readAs_of_not_mem fun s hs => ?_
    rintro rfl
    exact ht.notContainer s hs (hr.wellFormed.parent_iff.mp (List.mem_filter.mp hc).1)
  have hold : ((ordered.filter fun s => dom.parent s.oldInstance = some h).map
      Swap.replacement).map (readAs swaps) = (dom.getChildren h).filter (isSwapped swaps) := by
    rw [← siblings_ordered hr ho h, List.map_map]
    refine List.map_congr_left fun s hs => ?_
    exact readAs_of_mem hr.replacements (ho.perm.mem_iff.mp (List.mem_filter.mp hs).1)
  rw [hkids, List.map_append, hread, hold]
  exact filter_append_filter_iff

end Loop

/-! ### Two siblings, one of them swapped -/

section Siblings

theorem mem_siblingDom {a b : Handle} :
    b ∈ siblingDom.getChildren a ↔ a = 0 ∧ (b = 1 ∨ b = 2) := by
  unfold Dom.getChildren siblingDom
  dsimp only
  split_ifs with h₁ h₂
  · simp [h₁]
  · simp [h₁, Instance.new]
  · simp [h₁, Instance.new]

theorem siblingDom_parent (h : Handle) :
    siblingDom.parent h = if h = 1 ∨ h = 2 then some 0 else none := by
  unfold Dom.parent siblingDom
  dsimp only
  split_ifs with h₁ h₂ h₂
  · exact absurd h₂ (by rw [h₁]; decide)
  · rfl
  · rfl
  · rfl

theorem siblingDom_wellFormed : siblingDom.WellFormed where
  forest :=
    { nodup := fun a => by
        unfold Dom.getChildren siblingDom
        dsimp only
        split_ifs <;> simp [Instance.new]
      unique := fun h h' => (mem_siblingDom.mp h).1.trans (mem_siblingDom.mp h').1.symm
      acyclic := ⟨fun a => if a = 0 then 0 else 1, fun a b h => by
        obtain ⟨rfl, rfl | rfl⟩ := mem_siblingDom.mp h <;> decide⟩ }
  parent_iff := by
    intro a b
    rw [mem_siblingDom, siblingDom_parent]
    split_ifs with hb
    · simp [hb, eq_comm]
    · simp [hb]
  below := by
    intro a b h
    rw [siblingDom_parent] at h
    split_ifs at h with hb
    rw [← Option.some.inj h]
    rcases hb with rfl | rfl <;> decide
  held := by
    intro a name target _ h
    have hnone : (siblingDom.instances a).properties name = none := by
      unfold siblingDom
      dsimp only
      split_ifs <;> rfl
    rw [hnone] at h
    cases h

theorem siblingSwap_replaceable : Replaceable siblingDom [siblingSwap] where
  wellFormed := siblingDom_wellFormed
  oldInstances := List.nodup_singleton _
  replacements := List.nodup_singleton _
  childless s hs := by
    rw [List.mem_singleton.mp hs]
    rfl
  notOld s hs s' hs' := by
    rw [List.mem_singleton.mp hs, List.mem_singleton.mp hs']
    decide
  apart s hs s' hs' c hc := by
    rw [List.mem_singleton.mp hs, siblingDom_parent] at hc
    cases hc

/-- The first of two siblings is swapped and comes to stand behind the second. -/
theorem not_children_swapped :
    letI := inertEngine
    ((swapInstances (fun _ => siblingOutcome true) (.start siblingDom siblingMap [])
        (orderSwaps siblingDom [siblingSwap])).dom.getChildren 0).map (readAs [siblingSwap]) ≠
      siblingDom.getChildren 0 := by
  decide +kernel

theorem children_swapped_sibling :
    letI := inertEngine
    ((swapInstances (fun _ => siblingOutcome true) (.start siblingDom siblingMap [])
        (orderSwaps siblingDom [siblingSwap])).dom.getChildren (standIn [siblingSwap] 0)).map
        (readAs [siblingSwap]) = siblingDom.getChildren 0 ↔
      (siblingDom.getChildren 0).Pairwise fun a b =>
        isSwapped [siblingSwap] a = true → isSwapped [siblingSwap] b = true := by
  let _ := inertEngine
  refine children_swapped_iff siblingSwap_replaceable (isOrderSwaps_orderSwaps _ _)
    (fun _ => ⟨fun _ => rfl, rfl, rfl⟩) ⟨fun s hs => ?_, fun s hs => ?_⟩
  · rw [List.mem_singleton.mp hs]
    decide
  · rw [List.mem_singleton.mp hs, siblingDom_parent]
    decide

end Siblings

end Roxo.Plugin
