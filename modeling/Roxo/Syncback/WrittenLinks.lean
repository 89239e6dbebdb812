import Roxo.Syncback.CollectedLinks

/-!
# What is written

`link_referents` first gives ids to the targets that need one and then goes through the map of
links. Writing changes the attributes of one instance at a time and no id but those that are
given, so the outcome for an instance is told by its own links and by what the buffer still holds
of the instances before it (`linkLoop_spec`).
-/

namespace Roxo

open AssocMap WeakDom

/-! ## Attributes -/

section Attributes

variable {key key' : String} {value : Variant} {attributes : List (String × Variant)}
  {propList : List (String × String)}

theorem lookup_insertAttribute : (insertAttribute key value attributes).lookup key' =
    if key' = key then some value else attributes.lookup key' := by
  have hcons : ∀ (k : String) (v : Variant) (l : List (String × Variant)),
      ((k, v) :: l).lookup key' = if key' = k then some v else l.lookup key' := by
    intro k v l
    rw [List.lookup_cons]
    by_cases h : key' = k
    · rw [if_pos h, beq_iff_eq.mpr h]
    · rw [if_neg h, beq_eq_false_iff_ne.mpr h]
  induction attributes with
  | nil => exact hcons key value []
  | cons e attributes ih =>
    obtain ⟨k, v⟩ := e
    unfold insertAttribute
    by_cases hkey : key = k
    · subst hkey
      rw [if_pos rfl, hcons, hcons]
      split_ifs <;> rfl
    · rw [if_neg hkey]
      by_cases hlt : key < k
      · rw [if_pos hlt, hcons]
      · rw [if_neg hlt, hcons, hcons, ih]
        by_cases hk : key' = k
        · have hne : key' ≠ key := fun h => hkey (h.symm.trans hk)
          rw [if_pos hk, if_neg hne, if_pos hk]
        · rw [if_neg hk, if_neg hk]

theorem stripPrefix_append (pre s : String) : stripPrefix pre (pre ++ s) = some s := by
  unfold stripPrefix
  have happ : pre.toList.isPrefixOf? (pre ++ s).toList = some s.toList := by
    rw [List.isPrefixOf?_eq_some_iff_append_eq, String.toList_append]
  rw [happ]
  exact congrArg some String.ofList_toList

/-- The last entry of the list for a name. -/
def lastEntry (propName : String) (propList : List (String × String)) : Option String :=
  (propList.reverse.find? fun e => e.1 = propName).map Prod.snd

theorem lookup_filter_isNone (hkey : stripPrefix refPointerAttributePrefix key = none) :
    (attributes.filter fun entry =>
      (stripPrefix refPointerAttributePrefix entry.1).isNone).lookup key =
      attributes.lookup key := by
  induction attributes with
  | nil => rfl
  | cons e attributes ih =>
    obtain ⟨k, v⟩ := e
    by_cases hk : key = k
    · subst hk
      rw [List.filter_cons_of_pos (by rw [hkey]; rfl), List.lookup_cons, List.lookup_cons,
        beq_self_eq_true]
    · rw [List.lookup_cons, beq_eq_false_iff_ne.mpr hk, List.filter_cons]
      split_ifs
      · rw [List.lookup_cons, beq_eq_false_iff_ne.mpr hk]
        exact ih
      · exact ih

/-- A pointer attribute is the last entry that is written under its name, no other is left. -/
theorem lookup_linkAttributes (propName : String) :
    (linkAttributes attributes propList).lookup (refPointerAttributePrefix ++ propName) =
      (lastEntry propName propList).map .string := by
  unfold linkAttributes lastEntry
  induction propList using List.reverseRecOn with
  | nil =>
    rw [List.foldl_nil, List.lookup_eq_none_iff.mpr]
    · rfl
    · intro e he
      have hnone := (List.mem_filter.mp he).2
      by_contra heq
      rw [bne_iff_ne, not_not] at heq
      rw [← heq, stripPrefix_append] at hnone
      cases hnone
  | append_singleton propList e ih =>
    rw [List.foldl_concat, lookup_insertAttribute, ih, List.reverse_concat, List.find?_cons]
    by_cases hname : e.1 = propName
    · rw [if_pos (by rw [hname]), decide_eq_true hname]
      rfl
    · have hne : refPointerAttributePrefix ++ propName ≠ refPointerAttributePrefix ++ e.1 := by
        intro heq
        have hstrip := stripPrefix_append refPointerAttributePrefix propName
        rw [heq, stripPrefix_append] at hstrip
        exact hname (Option.some.inj hstrip)
      rw [if_neg hne, decide_eq_false hname]

/-- The other attributes stay. -/
theorem lookup_linkAttributes_of_none (hkey : stripPrefix refPointerAttributePrefix key = none) :
    (linkAttributes attributes propList).lookup key = attributes.lookup key := by
  unfold linkAttributes
  induction propList using List.reverseRecOn with
  | nil => exact lookup_filter_isNone hkey
  | append_singleton propList e ih =>
    have hne : key ≠ refPointerAttributePrefix ++ e.1 := by
      rintro rfl
      rw [stripPrefix_append] at hkey
      cases hkey
    rw [List.foldl_concat, lookup_insertAttribute, if_neg hne, ih]

end Attributes

/-! ## Instances -/

section Instances

variable {inst : Instance} {attributes : List (String × Variant)}
  {propList : List (String × String)}

theorem lookup_withAttributes :
    (inst.withAttributes attributes).properties.lookup "Attributes" =
      some (.attributes attributes) := AList.lookup_insert _

@[simp] theorem attributesProperty_withAttributes :
    attributesProperty (inst.withAttributes attributes) = .ok attributes := by
  unfold attributesProperty
  rw [lookup_withAttributes]

theorem getExistingId_of_attributes (h : attributesProperty inst = .ok attributes) :
    getExistingId inst = (attributes.lookup refIdAttributeName).bind attributeString := by
  unfold attributesProperty at h
  unfold getExistingId
  cases hprop : inst.properties.lookup "Attributes" with
  | none =>
    rw [hprop] at h
    rw [← Except.ok.inj h]
    rfl
  | some value =>
    rw [hprop] at h
    cases value with
    | attributes as => rw [← Except.ok.inj h]
    | value v => cases h

theorem getExistingId_withAttributes : getExistingId (inst.withAttributes attributes) =
    (attributes.lookup refIdAttributeName).bind attributeString :=
  getExistingId_of_attributes attributesProperty_withAttributes

/-- Writing the links of an instance leaves its id. -/
theorem getExistingId_linkAttributes (h : attributesProperty inst = .ok attributes) :
    getExistingId (inst.withAttributes (linkAttributes attributes propList)) =
      getExistingId inst := by
  have hkey : stripPrefix refPointerAttributePrefix refIdAttributeName = none := by decide
  rw [getExistingId_withAttributes, getExistingId_of_attributes h,
    lookup_linkAttributes_of_none hkey]

end Instances

variable {D : Type} [WeakDom D] [LawfulWeakDom D]

theorem getByRef_write_self {dom : D} {x : Ref} {inst : Instance} (h : getByRef dom x = some inst)
    (f : Instance → List (String × Variant)) :
    getByRef (write dom x fun i => i.withAttributes (f i)) x =
      some (inst.withAttributes (f inst)) := by
  rw [LawfulWeakDom.getByRef_write, if_pos rfl, h]
  rfl

theorem getByRef_write_of_ne {dom : D} {x y : Ref} (hne : y ≠ x) (f : Instance → Instance) :
    getByRef (write dom x f) y = getByRef dom y := by
  rw [LawfulWeakDom.getByRef_write, if_neg hne]

/-- If the instance is there, its attributes can be read. -/
def WellTyped (dom : D) (x : Ref) : Prop :=
  ∀ inst, getByRef dom x = some inst → ∃ attributes, attributesProperty inst = .ok attributes

/-! ## Ids -/

section Ids

variable [UniqueIds] {now : Ref → UniqueId} {dom dom' : D} {x : Ref} {inst : Instance}
  {order : List Ref}

/-- An instance with a new id, if its attributes can be read. -/
def giveId (now : Ref → UniqueId) (x : Ref) (inst : Instance) : Instance :=
  match attributesProperty inst with
  | .ok attributes =>
    inst.withAttributes
      (insertAttribute refIdAttributeName (.string (newId now x inst)) attributes)
  | .error _ => inst

theorem getExistingId_giveId {attributes : List (String × Variant)}
    (h : attributesProperty inst = .ok attributes) :
    getExistingId (giveId now x inst) = some (newId now x inst) := by
  unfold giveId
  rw [h]
  dsimp only
  rw [getExistingId_withAttributes, lookup_insertAttribute, if_pos rfl]
  rfl

/-- A pointer attribute is not touched. -/
theorem lookup_giveId {attributes : List (String × Variant)} (propName : String)
    (h : attributesProperty inst = .ok attributes) :
    ∃ attributes', attributesProperty (giveId now x inst) = .ok attributes' ∧
      attributes'.lookup (refPointerAttributePrefix ++ propName) =
        attributes.lookup (refPointerAttributePrefix ++ propName) := by
  have hne : refPointerAttributePrefix ++ propName ≠ refIdAttributeName := by
    intro heq
    have hstrip := stripPrefix_append refPointerAttributePrefix propName
    rw [heq] at hstrip
    exact absurd hstrip (by
      rw [show stripPrefix refPointerAttributePrefix refIdAttributeName = none by decide]
      nofun)
  unfold giveId
  rw [h]
  refine ⟨_, attributesProperty_withAttributes, ?_⟩
  rw [lookup_insertAttribute, if_neg hne]

theorem writeId_eq_ok (h : writeId now dom x = .ok dom') : WellTyped dom x ∧
    ∀ y, getByRef dom' y = (getByRef dom y).map (if y = x then giveId now x else id) := by
  unfold writeId at h
  cases hget : getByRef dom x with
  | none =>
    rw [hget] at h
    obtain rfl := Except.ok.inj h
    refine ⟨fun inst hinst => ?_, fun y => ?_⟩
    · rw [hget] at hinst
      cases hinst
    · split_ifs with hy
      · rw [hy, hget]
        rfl
      · rw [Option.map_id_fun, id_eq]
  | some inst =>
    rw [hget] at h
    obtain ⟨attributes, hattributes, h⟩ := Except.bind_eq_ok.mp h
    obtain rfl := Except.ok.inj h
    refine ⟨fun inst' hinst => ?_, fun y => ?_⟩
    · obtain rfl := Option.some.inj (hget.symm.trans hinst)
      exact ⟨attributes, hattributes⟩
    · split_ifs with hy
      · subst hy
        rw [getByRef_write_self hget, hget, Option.map_some]
        unfold giveId
        rw [hattributes]
      · rw [getByRef_write_of_ne hy, Option.map_id_fun, id_eq]

omit [LawfulWeakDom D] in
theorem writeId_of_wellTyped (h : WellTyped dom x) : ∃ dom', writeId now dom x = .ok dom' := by
  unfold writeId
  cases hget : getByRef dom x with
  | none => exact ⟨dom, rfl⟩
  | some inst =>
    obtain ⟨attributes, hattributes⟩ := h inst hget
    dsimp only
    rw [hattributes]
    exact ⟨_, rfl⟩

/-- The ids that are given, and that the rest of the DOM stays. -/
theorem writeIdAttributes_eq_ok (hnodup : order.Nodup)
    (h : writeIdAttributes now order dom = .ok dom') : (∀ y ∈ order, WellTyped dom y) ∧
    ∀ y, getByRef dom' y = (getByRef dom y).map (if y ∈ order then giveId now y else id) := by
  induction order generalizing dom with
  | nil =>
    obtain rfl := Except.ok.inj h
    refine ⟨nofun, fun y => ?_⟩
    rw [if_neg List.not_mem_nil, Option.map_id_fun, id_eq]
  | cons x order ih =>
    obtain ⟨hx, hnodup⟩ := List.nodup_cons.mp hnodup
    obtain ⟨dom₁, h₁, h⟩ := Except.bind_eq_ok.mp h
    obtain ⟨hwell, hget₁⟩ := writeId_eq_ok h₁
    obtain ⟨hwells, hget⟩ := ih hnodup h
    have hother : ∀ y, y ≠ x → getByRef dom₁ y = getByRef dom y := by
      intro y hy
      rw [hget₁, if_neg hy, Option.map_id_fun, id_eq]
    refine ⟨fun y hy => ?_, fun y => ?_⟩
    · rcases List.mem_cons.mp hy with rfl | hy
      · exact hwell
      · have hne : y ≠ x := fun heq => hx (heq ▸ hy)
        intro inst hinst
        exact hwells y hy inst ((hother y hne).trans hinst)
    · rw [hget]
      by_cases hyx : y = x
      · subst hyx
        rw [if_neg hx, if_pos List.mem_cons_self, Option.map_id_fun, id_eq, hget₁, if_pos rfl]
      · rw [hother y hyx]
        simp only [List.mem_cons, hyx, false_or]

theorem writeIdAttributes_of_wellTyped (hnodup : order.Nodup) (h : ∀ y ∈ order, WellTyped dom y) :
    ∃ dom', writeIdAttributes now order dom = .ok dom' := by
  induction order generalizing dom with
  | nil => exact ⟨dom, rfl⟩
  | cons x order ih =>
    obtain ⟨hx, hnodup⟩ := List.nodup_cons.mp hnodup
    obtain ⟨dom₁, h₁⟩ : ∃ dom₁, writeId now dom x = .ok dom₁ :=
      writeId_of_wellTyped (h x List.mem_cons_self)
    obtain ⟨-, hget₁⟩ := writeId_eq_ok h₁
    have hwells : ∀ y ∈ order, WellTyped dom₁ y := by
      intro y hy inst hinst
      have hne : y ≠ x := fun heq => hx (heq ▸ hy)
      rw [hget₁, if_neg hne, Option.map_id_fun, id_eq] at hinst
      exact h y (List.mem_cons_of_mem _ hy) inst hinst
    obtain ⟨dom', h'⟩ := ih hnodup hwells
    exact ⟨dom', Except.bind_eq_ok.mpr ⟨dom₁, h₁, h'⟩⟩

end Ids

/-! ## Links -/

section Links

variable {dom dom' : D} {x : Ref} {links : List RefLink} {propList : List (String × String)}
  {order : List (Ref × List RefLink)}

/-- What an instance with these links has to write. -/
def resolvedLinks (dom : D) (links : List RefLink) : List (String × String) :=
  links.filterMap fun link => (targetId dom link.value).map (link.name, ·)

/-- The targets that are there have an id. -/
def Identified (dom : D) (links : List RefLink) : Prop :=
  ∀ link ∈ links, (getByRef dom link.value).isSome → (targetId dom link.value).isSome

/-- What the buffer holds after some entries of the map. -/
def carried (dom : D) : List (Ref × List RefLink) → List (String × String) →
    List (String × String)
  | [], propList => propList
  | (instId, links) :: before, propList =>
    carried dom before
      (if (getByRef dom instId).isSome then [] else propList ++ resolvedLinks dom links)

/-- The same instances with the same ids. -/
structure IdsKept (dom dom' : D) : Prop where
  ids : ∀ y, targetId dom' y = targetId dom y
  present : ∀ y, (getByRef dom' y).isSome = (getByRef dom y).isSome

omit [LawfulWeakDom D] in
theorem IdsKept.resolvedLinks_eq (h : IdsKept dom dom') (links : List RefLink) :
    resolvedLinks dom' links = resolvedLinks dom links := by
  unfold resolvedLinks
  simp only [h.ids]

omit [LawfulWeakDom D] in
theorem IdsKept.carried_eq (h : IdsKept dom dom') (before : List (Ref × List RefLink))
    (propList : List (String × String)) :
    carried dom' before propList = carried dom before propList := by
  induction before generalizing propList with
  | nil => rfl
  | cons e before ih =>
    obtain ⟨instId, links⟩ := e
    unfold carried
    rw [h.present, h.resolvedLinks_eq, ih]

omit [LawfulWeakDom D] in
theorem IdsKept.identified (h : IdsKept dom dom') (hid : Identified dom links) :
    Identified dom' links := by
  intro link hlink hpresent
  rw [h.present] at hpresent
  rw [h.ids]
  exact hid link hlink hpresent

omit [LawfulWeakDom D] in
theorem gatherLinks_eq (hid : Identified dom links) :
    gatherLinks dom links propList = .ok (propList ++ resolvedLinks dom links) := by
  induction links generalizing propList with
  | nil => rw [resolvedLinks, List.filterMap_nil, List.append_nil]; rfl
  | cons link links ih =>
    have hrest : Identified dom links := fun l hl => hid l (List.mem_cons_of_mem _ hl)
    have hlink := hid link List.mem_cons_self
    unfold gatherLinks
    unfold resolvedLinks targetId at *
    rw [List.filterMap_cons]
    cases hget : getByRef dom link.value with
    | none => exact ih hrest
    | some inst =>
      rw [hget] at hlink
      obtain ⟨id, hexisting⟩ := Option.isSome_iff_exists.mp (hlink rfl)
      have hexisting' : getExistingId inst = some id := hexisting
      dsimp only
      rw [Option.bind_some, hexisting']
      change gatherLinks dom links (propList ++ [(link.name, id)]) = _
      rw [ih hrest, List.append_assoc]
      rfl

omit [LawfulWeakDom D] in
/-- A target without an id makes it panic. -/
theorem gatherLinks_panic (hid : ¬ Identified dom links) :
    gatherLinks dom links propList = .error .panic := by
  induction links generalizing propList with
  | nil => exact absurd (fun _ h => nomatch h) hid
  | cons link links ih =>
    unfold gatherLinks
    cases hget : getByRef dom link.value with
    | none =>
      apply ih
      intro hrest
      refine hid fun l hl => ?_
      rcases List.mem_cons.mp hl with rfl | hl
      · rw [hget]
        nofun
      · exact hrest l hl
    | some inst =>
      dsimp only
      cases hexisting : getExistingId inst with
      | none => rfl
      | some id =>
        apply ih
        intro hrest
        refine hid fun l hl => ?_
        rcases List.mem_cons.mp hl with rfl | hl
        · intro _
          unfold targetId
          rw [hget, Option.bind_some, hexisting]
          rfl
        · exact hrest l hl

/-- Writing the links of an instance keeps all ids. -/
theorem idsKept_write {inst : Instance} {attributes : List (String × Variant)}
    (hget : getByRef dom x = some inst) (hattributes : attributesProperty inst = .ok attributes) :
    IdsKept dom (write dom x fun i => i.withAttributes (linkAttributes attributes propList)) := by
  have hself := getByRef_write_self hget fun _ => linkAttributes attributes propList
  refine ⟨fun y => ?_, fun y => ?_⟩
  · unfold targetId
    by_cases hy : y = x
    · subst hy
      rw [hself, hget]
      exact getExistingId_linkAttributes hattributes
    · rw [getByRef_write_of_ne hy]
  · by_cases hy : y = x
    · subst hy
      rw [hself, hget]
      rfl
    · rw [getByRef_write_of_ne hy]

/-- What the loop over the map does if it comes to its end. -/
structure LinkLoopSpec (dom dom' : D) (order : List (Ref × List RefLink))
    (propList : List (String × String)) : Prop where
  idsKept : IdsKept dom dom'
  others : ∀ y, y ∉ order.map Prod.fst → getByRef dom' y = getByRef dom y
  linked : ∀ {before instId links after inst}, order = before ++ (instId, links) :: after →
    getByRef dom instId = some inst → ∃ attributes, attributesProperty inst = .ok attributes ∧
      getByRef dom' instId = some (inst.withAttributes
        (linkAttributes attributes (carried dom before propList ++ resolvedLinks dom links)))

theorem linkLoop_spec (hid : ∀ e ∈ order, Identified dom e.2)
    (htyped : ∀ e ∈ order, WellTyped dom e.1) (hnodup : (order.map Prod.fst).Nodup) :
    ∃ dom', linkLoop order dom propList = .ok dom' ∧ LinkLoopSpec dom dom' order propList := by
  induction order generalizing dom propList with
  | nil =>
    exact ⟨dom, rfl, ⟨⟨fun _ => rfl, fun _ => rfl⟩, fun _ _ => rfl, fun h => by simp at h⟩⟩
  | cons e order ih =>
    obtain ⟨instId, links⟩ := e
    obtain ⟨hfresh, hnodup⟩ := List.nodup_cons.mp hnodup
    have hids : ∀ e ∈ order, Identified dom e.2 := fun e he => hid e (List.mem_cons_of_mem _ he)
    have htypes : ∀ e ∈ order, WellTyped dom e.1 := fun e he =>
      htyped e (List.mem_cons_of_mem _ he)
    have hgather : gatherLinks dom links propList = .ok (propList ++ resolvedLinks dom links) :=
      gatherLinks_eq (hid _ List.mem_cons_self)
    unfold linkLoop
    rw [hgather]
    cases hget : getByRef dom instId with
    | none =>
      obtain ⟨dom', hloop, hspec⟩ := ih hids htypes hnodup
      refine ⟨dom', hloop, hspec.idsKept, fun y hy => ?_, ?_⟩
      · exact hspec.others y fun hmem => hy (List.mem_cons_of_mem _ hmem)
      · intro before instId' links' after inst heq hget'
        cases before with
        | nil =>
          obtain ⟨rfl, -⟩ := Prod.mk.inj (List.cons.inj heq).1
          rw [hget] at hget'
          cases hget'
        | cons e before =>
          obtain ⟨rfl, hrest⟩ := List.cons.inj heq
          unfold carried
          rw [hget]
          exact hspec.linked hrest hget'
    | some inst =>
      obtain ⟨attributes, hattributes⟩ := htyped _ List.mem_cons_self inst hget
      obtain ⟨dom₁, hdom₁⟩ : ∃ dom₁, dom₁ = write dom instId fun i => i.withAttributes
        (linkAttributes attributes (propList ++ resolvedLinks dom links)) := ⟨_, rfl⟩
      have hkept : IdsKept dom dom₁ := hdom₁ ▸ idsKept_write hget hattributes
      have hself : getByRef dom₁ instId = some (inst.withAttributes
          (linkAttributes attributes (propList ++ resolvedLinks dom links))) :=
        hdom₁ ▸ getByRef_write_self hget fun _ => _
      have hother : ∀ y, y ≠ instId → getByRef dom₁ y = getByRef dom y := fun y hy =>
        hdom₁ ▸ getByRef_write_of_ne hy _
      have hne : ∀ e ∈ order, e.1 ≠ instId := by
        intro e he heq
        have hmem : e.1 ∈ order.map Prod.fst := List.mem_map_of_mem he
        exact hfresh (heq ▸ hmem)
      have htail : ∃ dom', linkLoop order dom₁ [] = .ok dom' ∧
          LinkLoopSpec dom₁ dom' order [] := by
        refine ih (fun e he => hkept.identified (hids e he)) (fun e he i hi => ?_) hnodup
        exact htypes e he i ((hother _ (hne e he)).symm.trans hi)
      obtain ⟨dom', hloop, hspec⟩ := htail
      refine ⟨dom', ?_, ⟨fun y => ?_, fun y => ?_⟩, fun y hy => ?_, ?_⟩
      · change (attributesProperty inst >>= fun attributes => linkLoop order
          (write dom instId fun i => i.withAttributes
            (linkAttributes attributes (propList ++ resolvedLinks dom links))) []) = _
        rw [hattributes]
        change linkLoop order (write dom instId fun i => i.withAttributes
          (linkAttributes attributes (propList ++ resolvedLinks dom links))) [] = _
        rw [← hdom₁]
        exact hloop
      · rw [hspec.idsKept.ids, hkept.ids]
      · rw [hspec.idsKept.present, hkept.present]
      · rw [List.map_cons, List.mem_cons, not_or] at hy
        rw [hspec.others y hy.2, hother y hy.1]
      · intro before instId' links' after inst' heq hget'
        cases before with
        | nil =>
          obtain ⟨rfl, rfl⟩ := Prod.mk.inj (List.cons.inj heq).1
          obtain rfl := Option.some.inj (hget.symm.trans hget')
          refine ⟨attributes, hattributes, ?_⟩
          rw [hspec.others _ hfresh, hself]
          rfl
        | cons e before =>
          obtain ⟨rfl, hrest⟩ := List.cons.inj heq
          have hmem : (instId', links') ∈ order := by
            rw [hrest]
            exact List.mem_append_right _ List.mem_cons_self
          obtain ⟨attributes', hattributes', hlinked⟩ :=
            hspec.linked hrest ((hother _ (hne _ hmem)).trans hget')
          have hcarried : carried dom ((instId, links) :: before) propList =
              carried dom before [] := by
            show carried dom before (if (getByRef dom instId).isSome then [] else _) = _
            rw [hget]
            rfl
          refine ⟨attributes', hattributes', ?_⟩
          rw [hlinked, hkept.carried_eq, hkept.resolvedLinks_eq, hcarried]

/-- What the loop needs to come to its end. -/
theorem linkLoop_needs (h : linkLoop order dom propList = .ok dom')
    (hnodup : (order.map Prod.fst).Nodup) :
    ∀ e ∈ order, Identified dom e.2 ∧ WellTyped dom e.1 := by
  induction order generalizing dom propList with
  | nil => nofun
  | cons e order ih =>
    obtain ⟨instId, links⟩ := e
    obtain ⟨hfresh, hnodup⟩ := List.nodup_cons.mp hnodup
    unfold linkLoop at h
    obtain ⟨propList', hgather, h⟩ := Except.bind_eq_ok.mp h
    have hid : Identified dom links := by
      by_contra hid
      rw [gatherLinks_panic hid] at hgather
      cases hgather
    rw [List.forall_mem_cons]
    cases hget : getByRef dom instId with
    | none =>
      rw [hget] at h
      refine ⟨⟨hid, fun inst hinst => ?_⟩, ih h hnodup⟩
      rw [hget] at hinst
      cases hinst
    | some inst =>
      rw [hget] at h
      obtain ⟨attributes, hattributes, h⟩ := Except.bind_eq_ok.mp h
      have hkept : IdsKept dom (write dom instId fun i =>
          i.withAttributes (linkAttributes attributes propList')) := idsKept_write hget hattributes
      refine ⟨⟨hid, fun inst' hinst => ?_⟩, fun e he => ?_⟩
      · obtain rfl := Option.some.inj (hget.symm.trans hinst)
        exact ⟨attributes, hattributes⟩
      · have hne : e.1 ≠ instId := by
          intro heq
          have hmem : e.1 ∈ order.map Prod.fst := List.mem_map_of_mem he
          exact hfresh (heq ▸ hmem)
        obtain ⟨hids, htyped⟩ := ih h hnodup e he
        refine ⟨fun link hlink hpresent => ?_, fun i hi => ?_⟩
        · rw [← hkept.ids]
          exact hids link hlink (by rwa [hkept.present])
        · exact htyped i ((getByRef_write_of_ne hne _).trans hi)

end Links

end Roxo
