import Roxo.Plugin.AddedTrees

/-!
# What reify does to the state

Every run of `reifyInstanceInner` has a log: for which id an instance has been created, and its
parent. `Grew` describes the state after the run by that log. The logs of two runs, one after the
other, are appended.
-/

namespace Roxo.Plugin

open AssocMap Forest

variable {V E : Type}

/-- An instance that has been created, for which id and with which parent. -/
structure Entry where
  id : String
  inst : Handle
  parent : Option Handle

/-- The instances in a log that have the parent, in the order in which they were attached. -/
def attached (log : List Entry) (parent : Handle) : List Handle :=
  (log.filter fun e => e.parent = some parent).map Entry.inst

@[simp] theorem attached_nil (p : Handle) : attached [] p = [] := rfl

theorem attached_append (l l' : List Entry) (p : Handle) :
    attached (l ++ l') p = attached l p ++ attached l' p := by
  simp [attached]

theorem attached_eq_nil {l : List Entry} {p : Handle} (h : ∀ e ∈ l, e.parent ≠ some p) :
    attached l p = [] := by
  simp only [attached, List.map_eq_nil_iff, List.filter_eq_nil_iff, decide_eq_true_eq]
  exact h

theorem mem_attached {l : List Entry} {p h : Handle} :
    h ∈ attached l p ↔ ∃ e ∈ l, e.parent = some p ∧ e.inst = h := by
  simp [attached, and_assoc]

variable [Engine V] [Decoder E V]

/-- The instance that is created for a virtual instance, before it has a parent and children. -/
def reified (v : VirtualInstance E) : Instance V :=
  { Instance.new V v.className with
    name := v.name
    properties := heldAfter v.className (fun _ => none) v.properties.entries }

/-- The references of an instance that has been created. -/
def refsOfEntry (added : Map String (VirtualInstance E)) (e : Entry) : List DeferredRef :=
  match added.lookup e.id with
  | some v => refsOf e.id e.inst v.properties.entries
  | none => []

variable (V) in
/-- What could not be assigned to an instance that has been created. -/
def updateOfEntry (added : Map String (VirtualInstance E)) (e : Entry) : Option (Update E) :=
  match added.lookup e.id with
  | some v =>
    let left := unassigned V v.className v.properties.entries
    if left.entries.isEmpty then none else some ⟨e.id, none, none, left, none⟩
  | none => none

/-- The state refers to instances that exist only. -/
structure Work.Ready (w : Work V E) : Prop where
  inverse : w.map.Inverse
  mapped : ∀ {id h}, w.map.fromIds.lookup id = some h → h < w.dom.next

/-- The instances in `log` have been created for virtual instances, and nothing else has happened:
`roots` are those whose virtual parent has not been created along with them, `top` is their parent,
and `missed` are the ids that come back as not added. -/
structure Grew (added : Map String (VirtualInstance E)) (top : String → Option Handle)
    (roots missed : List String) (w w' : Work V E) (log : List Entry) : Prop where
  created : w'.created = w.created ++ log.map fun e => (e.id, e.inst)
  next : w'.dom.next = w.dom.next + log.length
  handles : log.map Entry.inst = List.range' w.dom.next log.length
  old : ∀ h < w.dom.next, w'.dom.instances h =
    { w.dom.instances h with children := w.dom.getChildren h ++ attached log h }
  new : ∀ e ∈ log, ∃ v, added.lookup e.id = some v ∧ w'.dom.instances e.inst =
    { reified v with parent := e.parent, children := attached log e.inst }
  parents : ∀ e ∈ log, (e.id ∈ roots ∧ e.parent = top e.id) ∨
    ∃ e' ∈ log, e.id ∈ kids added e'.id ∧ e.parent = some e'.inst
  tops : ∀ i ∈ roots, ∀ p, top i = some p → p < w.dom.next
  older : ∀ e ∈ log, ∀ p, e.parent = some p → p < e.inst
  beyond : ∀ h, w'.dom.next ≤ h → w'.dom.instances h = w.dom.instances h
  inverse : w'.map.Inverse
  fromIds : ∀ e ∈ log, w'.map.fromIds.lookup e.id = some e.inst
  others : ∀ id, (∀ e ∈ log, e.id ≠ id) → w'.map.fromIds.lookup id = w.map.fromIds.lookup id
  deferredRefs : w'.deferredRefs = w.deferredRefs ++ log.flatMap (refsOfEntry added)
  removed : w'.unapplied.removed = w.unapplied.removed
  updated : w'.unapplied.updated = w.unapplied.updated ++ log.filterMap (updateOfEntry V added)
  unadded : ∀ id, w'.unapplied.added.lookup id =
    if id ∈ missed then added.lookup id else w.unapplied.added.lookup id

namespace Grew

variable {added : Map String (VirtualInstance E)} {top : String → Option Handle}
  {roots roots' missed missed' : List String} {w w' w'' : Work V E} {log log' : List Entry}

theorem inst_mem (hg : Grew added top roots missed w w' log) {e : Entry} (he : e ∈ log) :
    w.dom.next ≤ e.inst ∧ e.inst < w'.dom.next := by
  have hmem := List.mem_map_of_mem (f := Entry.inst) he
  rw [hg.handles, List.mem_range'_1] at hmem
  rw [hg.next]
  exact hmem

theorem exists_entry (hg : Grew added top roots missed w w' log) {h : Handle} (hle : w.dom.next ≤ h)
    (hlt : h < w'.dom.next) : ∃ e ∈ log, e.inst = h := by
  have hmem : h ∈ log.map Entry.inst := by
    rw [hg.handles, List.mem_range'_1]
    have := hg.next
    lia
  exact List.mem_map.mp hmem

theorem parent_lt (hg : Grew added top roots missed w w' log) {e : Entry} (he : e ∈ log) {p : Handle}
    (hp : e.parent = some p) : p < w'.dom.next := by
  rcases hg.parents e he with ⟨hroot, htop⟩ | ⟨e', he', -, hp'⟩
  · have := hg.tops _ hroot p (htop ▸ hp)
    have := hg.next
    lia
  · rw [hp, Option.some.injEq] at hp'
    rw [hp']
    exact (hg.inst_mem he').2

theorem ready (hg : Grew added top roots missed w w' log) (hr : w.Ready) : w'.Ready where
  inverse := hg.inverse
  mapped := by
    intro id h hid
    by_cases hlog : ∃ e ∈ log, e.id = id
    · obtain ⟨e, he, rfl⟩ := hlog
      rw [hg.fromIds e he, Option.some.injEq] at hid
      rw [← hid]
      exact (hg.inst_mem he).2
    · rw [hg.others id fun e he hid => hlog ⟨e, he, hid⟩] at hid
      have := hr.mapped hid
      have := hg.next
      lia

/-- Nothing has happened. -/
theorem refl (hr : w.Ready) : Grew added top [] [] w w [] where
  created := by simp
  next := rfl
  handles := rfl
  old h _ := by simp [Dom.getChildren]
  new := by simp
  parents := by simp
  tops := by simp
  older := by simp
  beyond _ _ := rfl
  inverse := hr.inverse
  fromIds := by simp
  others _ _ := rfl
  deferredRefs := by simp
  removed := rfl
  updated := by simp
  unadded := by simp

/-- Two runs, one after the other, on different ids. -/
theorem append (hg : Grew added top roots missed w w' log) (hg' : Grew added top roots' missed' w' w'' log')
    (hdis : ∀ e ∈ log, ∀ e' ∈ log', e.id ≠ e'.id)
    (htop : ∀ i ∈ roots', ∀ p, top i = some p → p < w.dom.next) :
    Grew added top (roots ++ roots') (missed ++ missed') w w'' (log ++ log') where
  created := by
    rw [hg'.created, hg.created, List.map_append, List.append_assoc]
  next := by
    rw [hg'.next, hg.next, List.length_append]
    lia
  handles := by
    rw [List.map_append, hg.handles, hg'.handles, hg.next, List.length_append,
      List.range'_append_1]
  old h hh := by
    have hlt : h < w'.dom.next := by
      have := hg.next
      lia
    rw [hg'.old h hlt, attached_append]
    simp only [Dom.getChildren]
    rw [hg.old h hh]
    simp only [List.append_assoc, Dom.getChildren]
  new := by
    intro e he
    rcases List.mem_append.mp he with he | he
    · obtain ⟨v, hv, heq⟩ := hg.new e he
      refine ⟨v, hv, ?_⟩
      rw [hg'.old _ (hg.inst_mem he).2, attached_append]
      simp only [Dom.getChildren]
      rw [heq]
    · obtain ⟨v, hv, heq⟩ := hg'.new e he
      refine ⟨v, hv, ?_⟩
      rw [heq, attached_append, attached_eq_nil (l := log), List.nil_append]
      -- the first run has ended before the parent is created
      intro e₁ he₁ hp
      have := hg.parent_lt he₁ hp
      have := (hg'.inst_mem he).1
      lia
  parents := by
    intro e he
    rcases List.mem_append.mp he with he | he
    · exact (hg.parents e he).imp (fun ⟨hroot, h⟩ => ⟨List.mem_append_left _ hroot, h⟩)
        fun ⟨e', he', h⟩ => ⟨e', List.mem_append_left _ he', h⟩
    · exact (hg'.parents e he).imp (fun ⟨hroot, h⟩ => ⟨List.mem_append_right _ hroot, h⟩)
        fun ⟨e', he', h⟩ => ⟨e', List.mem_append_right _ he', h⟩
  tops := by
    intro i hi
    rcases List.mem_append.mp hi with hi | hi
    · exact hg.tops i hi
    · exact htop i hi
  older := by
    intro e he
    rcases List.mem_append.mp he with he | he
    · exact hg.older e he
    · exact hg'.older e he
  beyond h hh := by
    rw [hg'.beyond h hh, hg.beyond]
    have := hg'.next
    lia
  inverse := hg'.inverse
  fromIds := by
    intro e he
    rcases List.mem_append.mp he with he | he
    · rw [hg'.others e.id fun e' he' h => hdis e he e' he' h.symm]
      exact hg.fromIds e he
    · exact hg'.fromIds e he
  others := by
    intro id hid
    rw [hg'.others id fun e he => hid e (List.mem_append_right _ he)]
    exact hg.others id fun e he => hid e (List.mem_append_left _ he)
  deferredRefs := by
    rw [hg'.deferredRefs, hg.deferredRefs, List.flatMap_append, List.append_assoc]
  removed := by rw [hg'.removed, hg.removed]
  updated := by
    rw [hg'.updated, hg.updated, List.filterMap_append, List.append_assoc]
  unadded := by
    intro id
    rw [hg'.unadded, hg.unadded]
    simp only [List.mem_append]
    split_ifs <;> grind

/-! ### The DOM -/

theorem parent_old (hg : Grew added top roots missed w w' log) {h : Handle} (hh : h < w.dom.next) :
    w'.dom.parent h = w.dom.parent h := by
  unfold Dom.parent
  rw [hg.old h hh]

theorem parent_new (hg : Grew added top roots missed w w' log) {e : Entry} (he : e ∈ log) :
    w'.dom.parent e.inst = e.parent := by
  obtain ⟨v, -, heq⟩ := hg.new e he
  unfold Dom.parent
  rw [heq]

theorem getChildren_old (hg : Grew added top roots missed w w' log) {h : Handle}
    (hh : h < w.dom.next) : w'.dom.getChildren h = w.dom.getChildren h ++ attached log h := by
  unfold Dom.getChildren
  rw [hg.old h hh]
  rfl

theorem getChildren_new (hg : Grew added top roots missed w w' log) {e : Entry} (he : e ∈ log) :
    w'.dom.getChildren e.inst = attached log e.inst := by
  obtain ⟨v, -, heq⟩ := hg.new e he
  unfold Dom.getChildren
  rw [heq]

theorem entry_unique (hg : Grew added top roots missed w w' log) {e e' : Entry} (he : e ∈ log)
    (he' : e' ∈ log) (h : e.inst = e'.inst) : e = e' := by
  have hnd : (log.map Entry.inst).Nodup := by
    rw [hg.handles]
    exact List.nodup_range'
  exact List.inj_on_of_nodup_map hnd he he' h

/-- Who has a parent: an old instance that had it, or a new one. -/
theorem parent_eq_some (hg : Grew added top roots missed w w' log) (hwf : w.dom.WellFormed)
    {a b : Handle} : w'.dom.parent b = some a ↔
      w.dom.parent b = some a ∨ ∃ e ∈ log, e.parent = some a ∧ e.inst = b := by
  have hge : ∀ e ∈ log, w.dom.parent e.inst ≠ some a := by
    intro e he hp
    exact absurd (hwf.below hp).2 (not_lt.mpr (hg.inst_mem he).1)
  rcases lt_or_ge b w.dom.next with hlt | hle
  · rw [hg.parent_old hlt]
    refine ⟨.inl, fun h => h.elim (fun h => h) ?_⟩
    rintro ⟨e, he, -, rfl⟩
    exact absurd hlt (not_lt.mpr (hg.inst_mem he).1)
  · rcases lt_or_ge b w'.dom.next with hlt' | hle'
    · obtain ⟨e, he, rfl⟩ := hg.exists_entry hle hlt'
      rw [hg.parent_new he]
      refine ⟨fun h => .inr ⟨e, he, h, rfl⟩, fun h => ?_⟩
      rcases h with h | ⟨e', he', hp, heq⟩
      · exact absurd h (hge e he)
      · rwa [← hg.entry_unique he' he heq]
    · have hsame : w'.dom.parent b = w.dom.parent b := by
        unfold Dom.parent
        rw [hg.beyond b hle']
      rw [hsame]
      refine ⟨.inl, fun h => h.elim (fun h => h) ?_⟩
      rintro ⟨e, he, -, rfl⟩
      exact absurd (hg.inst_mem he).2 (not_lt.mpr hle')

/-- The children of an instance: the old ones and those that have been attached. -/
theorem getChildren_eq (hg : Grew added top roots missed w w' log) (hwf : w.dom.WellFormed)
    (a : Handle) : w'.dom.getChildren a = w.dom.getChildren a ++ attached log a := by
  have hnil : w.dom.next ≤ a → w.dom.getChildren a = [] := by
    intro hle
    refine List.eq_nil_iff_forall_not_mem.mpr fun b hb => ?_
    exact absurd (hwf.below (hwf.parent_iff.mp hb)).1 (not_lt.mpr hle)
  rcases lt_or_ge a w.dom.next with hlt | hle
  · exact hg.getChildren_old hlt
  · rw [hnil hle, List.nil_append]
    rcases lt_or_ge a w'.dom.next with hlt' | hle'
    · obtain ⟨e, he, rfl⟩ := hg.exists_entry hle hlt'
      exact hg.getChildren_new he
    · have hsame : w'.dom.getChildren a = w.dom.getChildren a := by
        unfold Dom.getChildren
        rw [hg.beyond a hle']
      rw [hsame, hnil hle, attached_eq_nil]
      intro e he hp
      exact absurd (hg.parent_lt he hp) (not_lt.mpr hle')

/-- Growth keeps the DOM well formed. -/
theorem wellFormed (hg : Grew added top roots missed w w' log) (hwf : w.dom.WellFormed) :
    w'.dom.WellFormed := by
  have hnext := hg.next
  have hiff : ∀ {a b}, b ∈ w'.dom.getChildren a ↔ w'.dom.parent b = some a := by
    intro a b
    rw [hg.getChildren_eq hwf, List.mem_append, mem_attached, hg.parent_eq_some hwf,
      hwf.parent_iff]
  have hnd : (log.map Entry.inst).Nodup := by
    rw [hg.handles]
    exact List.nodup_range'
  refine { forest := { nodup := fun a => ?_, unique := fun h h' => ?_, acyclic := ?_ }
           parent_iff := hiff, below := ?_, held := ?_ }
  · rw [hg.getChildren_eq hwf, List.nodup_append]
    refine ⟨hwf.forest.nodup a, hnd.sublist (List.filter_sublist.map _), ?_⟩
    rintro b hb c hc rfl
    obtain ⟨e, he, -, rfl⟩ := mem_attached.mp hc
    exact absurd (hwf.below (hwf.parent_iff.mp hb)).2 (not_lt.mpr (hg.inst_mem he).1)
  · rw [hiff] at h h'
    rw [h, Option.some.injEq] at h'
    exact h'
  · obtain ⟨depth, hdepth⟩ := hwf.forest.acyclic
    obtain ⟨bound, hbound⟩ : ∃ bound, ∀ h < w.dom.next, depth h < bound := by
      induction w.dom.next with
      | zero => exact ⟨0, fun h hh => absurd hh (Nat.not_lt_zero h)⟩
      | succ n ih =>
        obtain ⟨bound, hbound⟩ := ih
        refine ⟨bound + depth n + 1, fun h hh => ?_⟩
        rcases Nat.lt_succ_iff_lt_or_eq.mp hh with hlt | rfl
        · have := hbound h hlt
          omega
        · omega
    -- new instances are deeper than all old ones, and than those created before them
    refine ⟨fun h => if h < w.dom.next then depth h else bound + h, fun a b hb => ?_⟩
    rw [hiff, hg.parent_eq_some hwf] at hb
    rcases hb with hb | ⟨e, he, hp, rfl⟩
    · have hlt := hwf.below hb
      simp only [hlt.1, hlt.2, if_true]
      exact hdepth a b (hwf.parent_iff.mpr hb)
    · have hge := (hg.inst_mem he).1
      have hlt := hg.older e he a hp
      simp only [if_neg (not_lt.mpr hge)]
      split_ifs with ha
      · have := hbound a ha
        lia
      · exact Nat.add_lt_add_left hlt bound
  · intro a b hp
    rcases (hg.parent_eq_some hwf).mp hp with h | ⟨e, he, hp', rfl⟩
    · have := hwf.below h
      lia
    · exact ⟨hg.parent_lt he hp', (hg.inst_mem he).2⟩
  · intro a name target ha hx
    rcases lt_or_ge a w.dom.next with hlt | hle
    · rw [hg.old a hlt] at hx
      have := hwf.held hlt hx
      lia
    · obtain ⟨e, he, rfl⟩ := hg.exists_entry hle ha
      obtain ⟨v, -, heq⟩ := hg.new e he
      rw [heq] at hx
      exact absurd (heldAfter_inst hx) (Option.some_ne_none _).symm

end Grew

/-! ## Runs of reify -/

section Runs

variable {added : Map String (VirtualInstance E)} {n : ℕ}

omit [Engine V] [Decoder E V] in
theorem addAllToPatch_eq (hn : Nested added) {id : String} (hid : id ∈ added)
    (hw : weight added id ≤ n) (patchSet : PatchSet E) :
    ∃ patchSet', addAllToPatch added n patchSet id = some patchSet' ∧
      patchSet'.removed = patchSet.removed ∧ patchSet'.updated = patchSet.updated ∧
      ∀ i, patchSet'.added.lookup i =
        if i ∈ subtree added n id then added.lookup i else patchSet.added.lookup i := by
  induction n generalizing id patchSet with
  | zero =>
    have := weight_pos hid
    omega
  | succ n ih =>
    obtain ⟨v, hv⟩ := exists_lookup hid
    have hloop : ∀ ids : List String, (∀ c ∈ ids, c ∈ kids added id) → ∀ patchSet : PatchSet E,
        ∃ patchSet', ids.foldlM (addAllToPatch added n) patchSet = some patchSet' ∧
          patchSet'.removed = patchSet.removed ∧ patchSet'.updated = patchSet.updated ∧
          ∀ i, patchSet'.added.lookup i =
            if i ∈ ids.flatMap (subtree added n) then added.lookup i
            else patchSet.added.lookup i := by
      intro ids
      induction ids with
      | nil => exact fun _ patchSet => ⟨patchSet, rfl, rfl, rfl, by simp⟩
      | cons c ids ihl =>
        intro hsub patchSet
        have hc := hsub c List.mem_cons_self
        have hlt := weight_lt hn hid hc
        obtain ⟨p₁, h₁, hr₁, hu₁, ha₁⟩ := ih (hn.present hc) (by omega) patchSet
        obtain ⟨p₂, h₂, hr₂, hu₂, ha₂⟩ := ihl (fun c hc => hsub c (List.mem_cons_of_mem _ hc)) p₁
        refine ⟨p₂, ?_, hr₂.trans hr₁, hu₂.trans hu₁, fun i => ?_⟩
        · rw [List.foldlM_cons, h₁]
          exact h₂
        · rw [ha₂, ha₁, List.flatMap_cons]
          simp only [List.mem_append]
          grind
    obtain ⟨p, hp, hr, hu, ha⟩ := hloop (kids added id) (fun _ hc => hc)
      { patchSet with added := patchSet.added.insert id v }
    refine ⟨p, ?_, hr, hu, fun i => ?_⟩
    · unfold addAllToPatch
      rw [hv]
      rw [kids_of_lookup hv] at hp
      exact hp
    · rw [ha]
      change (if _ then _ else (patchSet.added.insert id v).lookup i) = _
      rw [lookup_insert_eq]
      unfold subtree
      simp only [List.mem_cons]
      by_cases hi : i = id
      · subst hi
        simp [hv]
      · simp [hi]

/-- The state when the instance for a virtual instance has been created, without its children. -/
def Work.begin (w : Work V E) (id : String) (v : VirtualInstance E) : Work V E where
  dom :=
    { next := w.dom.next + 1
      instances := Function.update w.dom.instances w.dom.next (reified v) }
  map := w.map
  deferredRefs := w.deferredRefs ++ refsOf id w.dom.next v.properties.entries
  unapplied :=
    let left := unassigned V v.className v.properties.entries
    if left.entries.isEmpty then w.unapplied
    else { w.unapplied with updated := w.unapplied.updated ++ [⟨id, none, none, left, none⟩] }
  created := w.created ++ [(id, w.dom.next)]

/-- The state when an instance gets its parent. -/
def Work.finish (w : Work V E) (id : String) (inst : Handle) (parent : Option Handle) : Work V E :=
  let dom := w.dom.setParent inst parent
  { w with dom, map := w.map.insert dom id inst }

theorem reifyInstanceInner_succ {id : String} {v : VirtualInstance E}
    (hv : added.lookup id = some v) (hc : Engine.creatable V v.className = true)
    (parentInstance : Option Handle) (w : Work V E) :
    reifyInstanceInner added (n + 1) id parentInstance w =
      ((kids added id).foldlM (fun w' c => reifyInstanceInner added n c (some w.dom.next) w')
        (w.begin id v)).bind fun w' => some (w'.finish id w.dom.next parentInstance) := by
  have hclass : (((w.dom.create v.className).2.setName w.dom.next v.name).instances
      w.dom.next).className = v.className := by
    simp [Dom.create, Dom.setName, Dom.modify, Instance.new]
  have hassign := assignProperties_eq hclass w.map id w.deferredRefs v.properties
  have hdom : ((w.dom.create v.className).2.setName w.dom.next v.name).modify w.dom.next (fun i =>
      { i with properties := heldAfter v.className i.properties v.properties.entries }) =
      (w.begin id v).dom := by
    simp [Dom.create, Dom.setName, Dom.modify, Work.begin, reified, Instance.new]
  rw [hdom] at hassign
  conv_lhs => unfold reifyInstanceInner
  rw [hv, kids_of_lookup hv]
  simp only [Option.bind_eq_bind, Option.bind_some, hc, if_true]
  have hcreate : w.dom.create v.className = (w.dom.next, (w.dom.create v.className).2) := rfl
  rw [hcreate]
  simp only []
  rw [hassign]
  rfl

/-- The instance itself, with what has been created below it. -/
theorem Grew.node {missed : List String} {w w' : Work V E} {log : List Entry} {id : String}
    {v : VirtualInstance E} {parent : Option Handle} (hr : w.Ready) (hv : added.lookup id = some v)
    (hparent : ∀ p, parent = some p → p < w.dom.next)
    (hg : Grew added (fun _ => some w.dom.next) (kids added id) missed (w.begin id v) w' log)
    (hid : ∀ e ∈ log, e.id ≠ id) :
    Grew added (fun _ => parent) [id] missed w (w'.finish id w.dom.next parent)
      (⟨id, w.dom.next, parent⟩ :: log) := by
  have hnext : (w.begin id v).dom.next = w.dom.next + 1 := rfl
  have hle : ∀ e ∈ log, w.dom.next < e.inst := fun e he => (hg.inst_mem he).1
  -- everything below the instance has a parent that is new
  have habove : ∀ e ∈ log, ∀ p, e.parent = some p → w.dom.next ≤ p := by
    intro e he p hp
    rcases hg.parents e he with ⟨-, h⟩ | ⟨e', he', -, h⟩
    · rw [hp, Option.some.injEq] at h
      exact le_of_eq h.symm
    · rw [hp, Option.some.injEq] at h
      rw [h]
      exact le_of_lt (hle e' he')
  have hself : w'.dom.instances w.dom.next =
      { reified v with children := attached log w.dom.next } := by
    rw [hg.old _ (Nat.lt_succ_self _)]
    simp [Work.begin, Dom.getChildren, reified, Instance.new]
  have hnone : w'.dom.parent w.dom.next = none := by
    unfold Dom.parent
    rw [hself]
    rfl
  have hne : parent ≠ some w.dom.next := fun h => absurd (hparent _ h) (lt_irrefl _)
  have hinst := Dom.setParent_instances hnone hne
  have hcons : ∀ p, attached (⟨id, w.dom.next, parent⟩ :: log) p =
      (if parent = some p then [w.dom.next] else []) ++ attached log p := by
    intro p
    unfold attached
    rw [List.filter_cons]
    split_ifs <;> simp_all
  refine
    { created := ?_, next := ?_, handles := ?_, old := ?_, new := ?_, parents := ?_, tops := ?_
      older := ?_, beyond := ?_, inverse := hg.inverse.insert _ _ _, fromIds := ?_, others := ?_, deferredRefs := ?_
      removed := ?_, updated := ?_, unadded := ?_ }
  · change w'.created = _
    rw [hg.created]
    simp [Work.begin]
  · change (w'.dom.setParent _ _).next = _
    rw [Dom.setParent_next, hg.next, hnext, List.length_cons]
    lia
  · rw [List.map_cons, hg.handles, hnext, List.length_cons, List.range'_succ]
  · intro h hh
    have hhne : h ≠ w.dom.next := ne_of_lt hh
    change (w'.dom.setParent w.dom.next parent).instances h = _
    have hlog : attached log h = [] := by
      refine attached_eq_nil fun e he hp => ?_
      have := habove e he h hp
      lia
    have hold : w'.dom.instances h = w.dom.instances h := by
      rw [hg.old h (lt_trans hh (Nat.lt_succ_self _)), hlog]
      simp [Work.begin, Dom.getChildren, Function.update_of_ne hhne]
    have hchildren : w'.dom.getChildren h = w.dom.getChildren h :=
      congrArg Instance.children hold
    rw [hinst, if_neg hhne, hold, hchildren, hcons, hlog, List.append_nil]
    by_cases hp : parent = some h
    · rw [if_pos hp, if_pos hp]
    · rw [if_neg hp, if_neg hp, List.append_nil]
      rfl
  · intro e he
    change ∃ v, _ ∧ (w'.dom.setParent w.dom.next parent).instances e.inst = _
    have hpe : parent ≠ some e.inst := by
      intro hp
      have := hparent _ hp
      rcases List.mem_cons.mp he with rfl | he
      · exact lt_irrefl _ this
      · have := hle e he
        lia
    rw [hcons, if_neg hpe, List.nil_append]
    rcases List.mem_cons.mp he with rfl | he
    · refine ⟨v, hv, ?_⟩
      rw [hinst, if_pos rfl, hself]
    · obtain ⟨v', hv', heq⟩ := hg.new e he
      refine ⟨v', hv', ?_⟩
      rw [hinst, if_neg (ne_of_gt (hle e he)), if_neg hpe, heq]
  · intro e he
    rcases List.mem_cons.mp he with rfl | he
    · exact .inl ⟨List.mem_singleton_self _, rfl⟩
    · right
      rcases hg.parents e he with ⟨hkid, hp⟩ | ⟨e', he', h⟩
      · exact ⟨_, List.mem_cons_self, hkid, hp⟩
      · exact ⟨e', List.mem_cons_of_mem _ he', h⟩
  · exact fun i _ p hp => hparent p hp
  · intro e he p hp
    rcases List.mem_cons.mp he with rfl | he
    · exact hparent p hp
    · exact hg.older e he p hp
  · intro h hh
    change (w'.dom.setParent w.dom.next parent).next ≤ h at hh
    change (w'.dom.setParent w.dom.next parent).instances h = _
    have hgrown := hg.next
    rw [Dom.setParent_next] at hh
    have hhne : h ≠ w.dom.next := by lia
    have hp : parent ≠ some h := by
      intro hp
      have := hparent h hp
      lia
    rw [hinst, if_neg hhne, if_neg hp, hg.beyond h hh]
    exact Function.update_of_ne hhne _ _
  · intro e he
    change (w'.map.insert _ id w.dom.next).fromIds.lookup e.id = some e.inst
    rw [InstanceMap.insert_fromIds hg.inverse]
    rcases List.mem_cons.mp he with rfl | he
    · rw [if_pos rfl]
    · rw [if_neg (hid e he), hg.fromIds e he, if_neg]
      intro h
      exact absurd (Option.some.inj h) (ne_of_gt (hle e he))
  · intro i hi
    have hne' : i ≠ id := (hi _ List.mem_cons_self).symm
    have hrest := hg.others i fun e he => hi e (List.mem_cons_of_mem _ he)
    change (w'.map.insert _ id w.dom.next).fromIds.lookup i = w.map.fromIds.lookup i
    rw [InstanceMap.insert_fromIds hg.inverse, if_neg hne', hrest, if_neg]
    · rfl
    · intro h
      exact lt_irrefl _ (hr.mapped h)
  · change w'.deferredRefs = _
    rw [hg.deferredRefs, List.flatMap_cons, ← List.append_assoc]
    unfold refsOfEntry
    rw [hv]
    rfl
  · change w'.unapplied.removed = _
    rw [hg.removed]
    simp only [Work.begin]
    split_ifs <;> rfl
  · change w'.unapplied.updated = _
    rw [hg.updated, List.filterMap_cons]
    unfold updateOfEntry
    rw [hv]
    simp only [Work.begin]
    split_ifs
    · rfl
    · simp
  · intro i
    change w'.unapplied.added.lookup i = _
    rw [hg.unadded]
    simp only [Work.begin]
    split_ifs <;> rfl

/-- A class that cannot be created leaves everything below it not added. -/
theorem Grew.of_failed {w : Work V E} {patchSet : PatchSet E} {parent : Option Handle}
    {id : String} {missed : List String} (hr : w.Ready)
    (hparent : ∀ p, parent = some p → p < w.dom.next)
    (hremoved : patchSet.removed = w.unapplied.removed)
    (hupdated : patchSet.updated = w.unapplied.updated)
    (hadded : ∀ i, patchSet.added.lookup i =
      if i ∈ missed then added.lookup i else w.unapplied.added.lookup i) :
    Grew added (fun _ => parent) [id] missed w { w with unapplied := patchSet } [] where
  created := by simp
  next := rfl
  handles := rfl
  old h _ := by simp [Dom.getChildren]
  new := by simp
  parents := by simp
  tops _ _ p hp := hparent p hp
  older := by simp
  beyond _ _ := rfl
  inverse := hr.inverse
  fromIds := by simp
  others _ _ := rfl
  deferredRefs := by simp
  removed := hremoved
  updated := by
    rw [List.filterMap_nil, List.append_nil]
    exact hupdated
  unadded := hadded

/-- A run for every id of a list, one after the other. -/
theorem exists_foldlM {ids : List String} {step : Work V E → String → Option (Work V E)}
    {top : String → Option Handle} {grows missed : String → List String} {least : ℕ}
    (hstep : ∀ id ∈ ids, ∀ w : Work V E, w.Ready → least ≤ w.dom.next →
      ∃ w' log, step w id = some w' ∧ log.map Entry.id = grows id ∧
        Grew added top [id] (missed id) w w' log)
    (htop : ∀ i ∈ ids, ∀ p, top i = some p → p < least) (hnd : (ids.flatMap grows).Nodup)
    (w : Work V E) (hr : w.Ready) (hle : least ≤ w.dom.next) :
    ∃ w' log, ids.foldlM step w = some w' ∧ log.map Entry.id = ids.flatMap grows ∧
      Grew added top ids (ids.flatMap missed) w w' log := by
  induction ids generalizing w with
  | nil => exact ⟨w, [], rfl, rfl, .refl hr⟩
  | cons id ids ih =>
    rw [List.flatMap_cons, List.nodup_append] at hnd
    obtain ⟨w₁, log₁, h₁, hids₁, hg₁⟩ := hstep id List.mem_cons_self w hr hle
    have hle₁ : least ≤ w₁.dom.next := by
      rw [hg₁.next]
      exact le_trans hle (Nat.le_add_right _ _)
    obtain ⟨w₂, log₂, h₂, hids₂, hg₂⟩ := ih
      (fun i hi => hstep i (List.mem_cons_of_mem _ hi))
      (fun i hi => htop i (List.mem_cons_of_mem _ hi)) hnd.2.1 w₁ (hg₁.ready hr) hle₁
    refine ⟨w₂, log₁ ++ log₂, ?_, ?_, ?_⟩
    · rw [List.foldlM_cons, h₁]
      exact h₂
    · rw [List.map_append, hids₁, hids₂, List.flatMap_cons]
    · refine hg₁.append hg₂ (fun e he e' he' => ?_) fun i hi p hp => ?_
      · have hmem := List.mem_map_of_mem (f := Entry.id) he
        have hmem' := List.mem_map_of_mem (f := Entry.id) he'
        rw [hids₁] at hmem
        rw [hids₂] at hmem'
        exact hnd.2.2 _ hmem _ hmem'
      · exact lt_of_lt_of_le (htop i (List.mem_cons_of_mem _ hi) p hp) hle

/-- Reify goes through and creates an instance for every id that grows. -/
theorem exists_reifyInstanceInner (hn : Nested added) {id : String} (hid : id ∈ added)
    (hw : weight added id ≤ n) {parent : Option Handle} {w : Work V E} (hr : w.Ready)
    (hparent : ∀ p, parent = some p → p < w.dom.next) :
    ∃ w' log, reifyInstanceInner added n id parent w = some w' ∧
      log.map Entry.id = grown V added n id ∧
      Grew added (fun _ => parent) [id] (failed V added n id) w w' log := by
  induction n generalizing id parent w with
  | zero =>
    have := weight_pos hid
    omega
  | succ n ih =>
    obtain ⟨v, hv⟩ := exists_lookup hid
    by_cases hc : Creatable V added id
    · have hcreatable : Engine.creatable V v.className = true := by
        obtain ⟨v', hv', hcr⟩ := hc
        rw [hv, Option.some.injEq] at hv'
        rwa [hv']
      have hle : ∀ c ∈ kids added id, weight added c ≤ n := by
        intro c hc
        have := weight_lt hn hid hc
        omega
      have hnd : (grown V added (n + 1) id).Nodup := nodup_grown hn hid hw
      have hgrown : grown V added (n + 1) id =
          id :: (kids added id).flatMap (grown V added n) := by
        conv_lhs => unfold grown
        rw [if_pos hc]
      rw [hgrown, List.nodup_cons] at hnd
      have hready : (w.begin id v).Ready :=
        ⟨hr.inverse, fun hm => lt_trans (hr.mapped hm) (Nat.lt_succ_self _)⟩
      have hself : ∀ p, some w.dom.next = some p → p < w.dom.next + 1 := by
        intro p hp
        rw [← Option.some.inj hp]
        exact Nat.lt_succ_self _
      obtain ⟨w', log, hrun, hids, hg⟩ := exists_foldlM
        (fun c hc w' hr' hle' => ih (hn.present hc) (hle c hc) hr' fun p hp =>
          lt_of_lt_of_le (hself p hp) hle')
        (fun _ _ p hp => hself p hp) hnd.2 (w.begin id v) hready le_rfl
      refine ⟨w'.finish id w.dom.next parent, ⟨id, w.dom.next, parent⟩ :: log, ?_, ?_, ?_⟩
      · rw [reifyInstanceInner_succ hv hcreatable, hrun]
        rfl
      · rw [List.map_cons, hids, hgrown]
      · have hfailed : failed V added (n + 1) id =
            (kids added id).flatMap (failed V added n) := by
          conv_lhs => unfold failed
          rw [if_pos hc]
        rw [hfailed]
        refine hg.node hr hv hparent fun e he heq => hnd.1 ?_
        rw [← hids, ← heq]
        exact List.mem_map_of_mem he
    · have hcreatable : Engine.creatable V v.className = false := by
        rw [Bool.eq_false_iff]
        exact fun h => hc ⟨v, hv, h⟩
      obtain ⟨patchSet, hp, hremoved, hupdated, hadded⟩ :=
        addAllToPatch_eq hn hid hw w.unapplied
      refine ⟨{ w with unapplied := patchSet }, [], ?_, ?_, ?_⟩
      · unfold reifyInstanceInner
        rw [hv]
        simp only [Option.bind_eq_bind, Option.bind_some, hcreatable, Bool.false_eq_true, if_false,
          hp]
      · unfold grown
        rw [if_neg hc]
        rfl
      · refine .of_failed hr hparent hremoved hupdated fun i => ?_
        rw [hadded]
        unfold failed
        rw [if_neg hc]

end Runs

end Roxo.Plugin
