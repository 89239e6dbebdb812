import Roxo.Syncback.WrittenLinks

/-!
# Linking a pruned DOM

Between `collect_referents` and `link_referents` syncback removes properties and instances. The
list of properties is drained when the instance that has the links is written: if that instance
is gone, its links stay in the list and go to the next instance of the map that is still there.
An id is expected of every target, so the loop panics if the property that held it was removed. An
instance without links is not visited and keeps what it had. `linkReferents_linked_iff` says that
nothing else goes wrong.
-/

namespace Roxo

open AssocMap Forest WeakDom

variable {D : Type} [WeakDom D]

/-- A property of an instance points to another instance of the DOM. -/
structure LiveLink (dom : D) (instRef : Ref) (propName : String) (target : Ref) : Prop where
  below : Desc (kids dom) (rootRef dom) instRef
  property : ∃ inst, getByRef dom instRef = some inst ∧
    inst.properties.lookup propName = some (.ref target)
  live : (getByRef dom target).isSome

/-- The attribute that an instance has for a property. -/
def pointerAttribute (dom : D) (instRef : Ref) (propName : String) : Option Variant :=
  match getByRef dom instRef with
  | some inst =>
    match attributesProperty inst with
    | .ok attributes => attributes.lookup (refPointerAttributePrefix ++ propName)
    | .error _ => none
  | none => none

/-- The instances of the second DOM have an attribute for each link that was live in the first and
whose target is still there, with the id of the target, and for no other property. -/
structure Linked (dom dom' : D) : Prop where
  own : ∀ {instRef propName target}, LiveLink dom instRef propName target →
    (getByRef dom' instRef).isSome → (getByRef dom' target).isSome →
    ∃ id, targetId dom' target = some id ∧
      pointerAttribute dom' instRef propName = some (.string id)
  nothingElse : ∀ {instRef propName}, (pointerAttribute dom' instRef propName).isSome →
    ∃ target, LiveLink dom instRef propName target ∧ (getByRef dom' target).isSome

/-- What must be true of the DOM in which the links were collected and of what it has become. -/
structure LinkSafe [FiniteWeakDom D] (dom dom' : D) : Prop where
  /-- The attributes that an id is written to can be read. -/
  targetTyped : ∀ {target}, NeedsId dom (visits dom) target → WellTyped dom' target
  /-- The attributes that links are written to can be read. -/
  instTyped : ∀ {instRef propName target}, LiveLink dom instRef propName target →
    WellTyped dom' instRef
  /-- A target that is not given an id still has one. -/
  identified : ∀ {instRef propName target}, LiveLink dom instRef propName target →
    (getByRef dom' target).isSome → NeedsId dom (visits dom) target ∨
      (targetId dom' target).isSome
  /-- The links of an instance that is gone are links of every instance that has links. -/
  noLeak : ∀ {gone propName target}, LiveLink dom gone propName target →
    getByRef dom' gone = none → (getByRef dom' target).isSome →
    ∀ {instRef propName' target'}, LiveLink dom instRef propName' target' →
      (getByRef dom' instRef).isSome →
      ∃ target, LiveLink dom instRef propName target ∧ (getByRef dom' target).isSome
  /-- An instance that has an attribute for a property has links. -/
  noStale : ∀ {instRef propName}, (pointerAttribute dom' instRef propName).isSome →
    ∃ propName target, LiveLink dom instRef propName target

/-! ## The list of properties -/

section PropList

variable {propName id : String} {propList propList' : List (String × String)}

theorem lastEntry_append : lastEntry propName (propList ++ propList') =
    (lastEntry propName propList').or (lastEntry propName propList) := by
  unfold lastEntry
  rw [List.reverse_append, List.find?_append, Option.map_or]

theorem mem_of_lastEntry (h : lastEntry propName propList = some id) :
    (propName, id) ∈ propList := by
  obtain ⟨⟨name, id'⟩, hfind, rfl⟩ := Option.map_eq_some_iff.mp h
  have hname : name = propName := by simpa using List.find?_some hfind
  rw [← hname]
  exact List.mem_reverse.mp (List.mem_of_find?_eq_some hfind)

theorem lastEntry_isSome (h : (propName, id) ∈ propList) :
    (lastEntry propName propList).isSome := by
  unfold lastEntry
  rw [Option.isSome_map, List.find?_isSome]
  exact ⟨(propName, id), List.mem_reverse.mpr h, decide_eq_true rfl⟩

theorem mem_resolvedLinks {dom : D} {links : List RefLink} :
    (propName, id) ∈ resolvedLinks dom links ↔
      ∃ target, ⟨propName, target⟩ ∈ links ∧ targetId dom target = some id := by
  unfold resolvedLinks
  rw [List.mem_filterMap]
  constructor
  · rintro ⟨⟨name, target⟩, hmem, h⟩
    obtain ⟨id', hid, heq⟩ := Option.map_eq_some_iff.mp h
    obtain ⟨rfl, rfl⟩ := Prod.mk.inj heq
    exact ⟨target, hmem, hid⟩
  · rintro ⟨target, hmem, hid⟩
    refine ⟨_, hmem, ?_⟩
    rw [hid, Option.map_some]

/-- What is carried over comes from instances that are gone. -/
theorem mem_carried {dom : D} {before : List (Ref × List RefLink)}
    (h : (propName, id) ∈ carried dom before propList) : (propName, id) ∈ propList ∨
    ∃ gone links, (gone, links) ∈ before ∧ getByRef dom gone = none ∧
      (propName, id) ∈ resolvedLinks dom links := by
  induction before generalizing propList with
  | nil => exact Or.inl h
  | cons e before ih =>
    obtain ⟨gone, links⟩ := e
    unfold carried at h
    rcases ih h with h | ⟨other, links', hmem, hgone, hin⟩
    · split_ifs at h with hpresent
      · cases h
      · rcases List.mem_append.mp h with h | h
        · exact Or.inl h
        · have hgone : getByRef dom gone = none := by
            rwa [Bool.not_eq_true, Option.isSome_eq_false_iff, Option.isNone_iff_eq_none]
              at hpresent
          exact Or.inr ⟨gone, links, List.mem_cons_self, hgone, h⟩
    · exact Or.inr ⟨other, links', List.mem_cons_of_mem _ hmem, hgone, hin⟩

end PropList

/-! ## The map of links -/

section Entries

variable [LawfulWeakDom D] [FiniteWeakDom D] {dom : D} {instRef target : Ref} {propName : String}
  {linkOrder : List (Ref × List RefLink)}

omit [FiniteWeakDom D] in
theorem mem_instanceLinks : ⟨propName, target⟩ ∈ instanceLinks dom instRef ↔
    (∃ inst, getByRef dom instRef = some inst ∧
      inst.properties.lookup propName = some (.ref target)) ∧ (getByRef dom target).isSome := by
  unfold instanceLinks
  cases hget : getByRef dom instRef with
  | none => exact ⟨nofun, fun ⟨⟨_, h, _⟩, _⟩ => nomatch h⟩
  | some inst =>
    dsimp only
    rw [List.mem_filterMap]
    constructor
    · rintro ⟨⟨name, value⟩, hmem, h⟩
      unfold refLink at h
      dsimp only at h
      split at h
      · split_ifs at h
        split at h
        · rename_i hlive
          obtain ⟨rfl, rfl⟩ := RefLink.mk.inj (Option.some.inj h)
          exact ⟨⟨inst, rfl, mem_toList.mp hmem⟩, by rw [hlive]; rfl⟩
        · cases h
      · cases h
    · rintro ⟨⟨inst', heq, hprop⟩, hlive⟩
      obtain rfl := Option.some.inj heq
      refine ⟨(propName, .ref target), mem_toList.mpr hprop, ?_⟩
      obtain ⟨inst', htarget⟩ := Option.isSome_iff_exists.mp hlive
      have hsome : ¬ target.isNone := by
        intro hnone
        obtain rfl : target = Ref.none := by
          obtain ⟨id⟩ := target
          cases id with
          | none => rfl
          | some => cases hnone
        rw [LawfulWeakDom.getByRef_null] at htarget
        cases htarget
      unfold refLink
      dsimp only [Variant.ref]
      rw [if_neg hsome, htarget]

/-- The visits are the live links. -/
theorem mem_visits : (instRef, ⟨propName, target⟩) ∈ visits dom ↔
    LiveLink dom instRef propName target := by
  obtain ⟨root, hroot, -⟩ := LawfulWeakDom.root_spec dom
  unfold visits
  rw [List.mem_flatMap]
  constructor
  · rintro ⟨x, hx, hmem⟩
    obtain ⟨link, hlink, heq⟩ := List.mem_map.mp hmem
    obtain ⟨rfl, rfl⟩ := Prod.mk.inj heq
    obtain ⟨hprop, hlive⟩ := mem_instanceLinks.mp hlink
    exact ⟨(mem_walk hroot).mp hx, hprop, hlive⟩
  · rintro ⟨hbelow, hprop, hlive⟩
    exact ⟨instRef, (mem_walk hroot).mpr hbelow,
      List.mem_map_of_mem (mem_instanceLinks.mpr ⟨hprop, hlive⟩)⟩

/-- The entries of the collected map, in any order. -/
structure IsLinkOrder (dom : D) (linkOrder : List (Ref × List RefLink)) : Prop where
  nodup : (linkOrder.map Prod.fst).Nodup
  mem_iff : ∀ {instRef links}, (instRef, links) ∈ linkOrder → ∀ {propName target},
    ⟨propName, target⟩ ∈ links ↔ LiveLink dom instRef propName target
  ne_nil : ∀ {instRef links}, (instRef, links) ∈ linkOrder →
    ∃ propName target, LiveLink dom instRef propName target
  exists_entry : ∀ {instRef propName target}, LiveLink dom instRef propName target →
    ∃ links, (instRef, links) ∈ linkOrder

theorem isLinkOrder
    (h : linkOrder.Perm (toList (collectVisits dom (visits dom)).links.inner)) :
    IsLinkOrder dom linkOrder := by
  have hmem : ∀ {instRef links}, (instRef, links) ∈ linkOrder ↔
      (collectVisits dom (visits dom)).links.inner.lookup instRef = some links := by
    intro instRef links
    rw [h.mem_iff, mem_toList]
  have hget : ∀ {instRef links}, (instRef, links) ∈ linkOrder →
      (collectVisits dom (visits dom)).links.get instRef = links := by
    intro instRef links hin
    unfold MultiMap.get
    rw [hmem.mp hin, Option.getD_some]
  have hiff : ∀ {instRef links}, (instRef, links) ∈ linkOrder → ∀ {propName target},
      ⟨propName, target⟩ ∈ links ↔ LiveLink dom instRef propName target := by
    intro instRef links hin propName target
    rw [← hget hin, mem_links, mem_visits]
  refine ⟨?_, hiff, fun {instRef links} hin => ?_, fun {instRef propName target} hlive => ?_⟩
  · rw [(h.map Prod.fst).nodup_iff]
    exact nodup_keys_toList _
  · obtain ⟨⟨propName, target⟩, hlink⟩ := List.exists_mem_of_ne_nil links
      (MultiMap.ne_nil _ _ _ (hmem.mp hin))
    exact ⟨propName, target, (hiff hin).mp hlink⟩
  · have hlink : ⟨propName, target⟩ ∈ (collectVisits dom (visits dom)).links.get instRef :=
      mem_links.mpr (mem_visits.mpr hlive)
    unfold MultiMap.get at hlink
    cases hbucket : (collectVisits dom (visits dom)).links.inner.lookup instRef with
    | none =>
      rw [hbucket] at hlink
      cases hlink
    | some links => exact ⟨links, hmem.mpr hbucket⟩

end Entries

/-! ## Ids that are given -/

section Given

variable [UniqueIds] [LawfulWeakDom D] {now : Ref → UniqueId} {order : List Ref} {dom dom' : D}
  {x : Ref} {propName : String}

/-- The second DOM is the first after some instances have been given ids. -/
structure IdsGiven (now : Ref → UniqueId) (order : List Ref) (dom dom' : D) : Prop where
  typed : ∀ x ∈ order, WellTyped dom x
  getByRef_eq : ∀ x, getByRef dom' x =
    (getByRef dom x).map (if x ∈ order then giveId now x else id)

omit [LawfulWeakDom D] in
theorem IdsGiven.present (h : IdsGiven now order dom dom') (x : Ref) :
    (getByRef dom' x).isSome = (getByRef dom x).isSome := by
  rw [h.getByRef_eq, Option.isSome_map]

omit [LawfulWeakDom D] in
theorem IdsGiven.getByRef_of_not_mem (h : IdsGiven now order dom dom') (hx : x ∉ order) :
    getByRef dom' x = getByRef dom x := by
  rw [h.getByRef_eq, if_neg hx, Option.map_id_fun, id_eq]

omit [LawfulWeakDom D] in
theorem IdsGiven.targetId_of_not_mem (h : IdsGiven now order dom dom') (hx : x ∉ order) :
    targetId dom' x = targetId dom x := by
  unfold targetId
  rw [h.getByRef_of_not_mem hx]

omit [LawfulWeakDom D] in
theorem IdsGiven.targetId_of_mem {inst : Instance} (h : IdsGiven now order dom dom')
    (hx : x ∈ order) (hget : getByRef dom x = some inst) :
    targetId dom' x = some (newId now x inst) := by
  obtain ⟨attributes, hattributes⟩ := h.typed x hx inst hget
  unfold targetId
  rw [h.getByRef_eq, if_pos hx, hget]
  exact getExistingId_giveId hattributes

omit [LawfulWeakDom D] in
theorem IdsGiven.pointerAttribute_eq (h : IdsGiven now order dom dom') :
    pointerAttribute dom' x propName = pointerAttribute dom x propName := by
  unfold pointerAttribute
  by_cases hx : x ∈ order
  · rw [h.getByRef_eq, if_pos hx]
    cases hget : getByRef dom x with
    | none => rfl
    | some inst =>
      obtain ⟨attributes, hattributes⟩ := h.typed x hx inst hget
      obtain ⟨attributes', hattributes', hlookup⟩ :=
        lookup_giveId propName hattributes
      rw [Option.map_some]
      dsimp only
      rw [hattributes, hattributes']
      exact hlookup
  · rw [h.getByRef_of_not_mem hx]

omit [LawfulWeakDom D] in
theorem IdsGiven.wellTyped_iff (h : IdsGiven now order dom dom') :
    WellTyped dom' x ↔ WellTyped dom x := by
  by_cases hx : x ∈ order
  · refine iff_of_true (fun inst hinst => ?_) (h.typed x hx)
    rw [h.getByRef_eq, if_pos hx] at hinst
    obtain ⟨inst', hget, rfl⟩ := Option.map_eq_some_iff.mp hinst
    obtain ⟨attributes, hattributes⟩ := h.typed x hx inst' hget
    obtain ⟨attributes', hattributes', -⟩ := lookup_giveId "" hattributes
    exact ⟨attributes', hattributes'⟩
  · unfold WellTyped
    rw [h.getByRef_of_not_mem hx]

end Given

/-! ## The loop over the map -/

section Loop

variable [LawfulWeakDom D] {dom dom' : D} {before after order : List (Ref × List RefLink)}
  {instRef : Ref} {links : List RefLink} {propName : String}

omit [LawfulWeakDom D] in
/-- The attributes of an instance that has links come from the list of properties. -/
theorem LinkLoopSpec.pointerAttribute_eq (h : LinkLoopSpec dom dom' order [])
    (hsplit : order = before ++ (instRef, links) :: after)
    (hpresent : (getByRef dom instRef).isSome) : pointerAttribute dom' instRef propName =
      (lastEntry propName (carried dom before [] ++ resolvedLinks dom links)).map .string := by
  obtain ⟨inst, hget⟩ := Option.isSome_iff_exists.mp hpresent
  obtain ⟨attributes, -, hlinked⟩ := h.linked hsplit hget
  unfold pointerAttribute
  rw [hlinked]
  dsimp only
  rw [attributesProperty_withAttributes]
  exact lookup_linkAttributes propName

omit [LawfulWeakDom D] in
/-- The others keep theirs. -/
theorem LinkLoopSpec.pointerAttribute_of_not_mem (h : LinkLoopSpec dom dom' order [])
    (hmem : instRef ∉ order.map Prod.fst) :
    pointerAttribute dom' instRef propName = pointerAttribute dom instRef propName := by
  unfold pointerAttribute
  rw [h.others instRef hmem]

end Loop

/-! ## Linking -/

section Present

variable {dom : D} {instRef target target' : Ref} {propName : String}

/-- A property of an instance has one value. -/
theorem LiveLink.target_eq (h : LiveLink dom instRef propName target)
    (h' : LiveLink dom instRef propName target') : target = target' := by
  obtain ⟨inst, hget, hprop⟩ := h.property
  obtain ⟨inst', hget', hprop'⟩ := h'.property
  obtain rfl := Option.some.inj (hget.symm.trans hget')
  have hvalue := Option.some.inj (hprop.symm.trans hprop')
  injection hvalue with hvalue
  injection hvalue

theorem isSome_of_targetId {id : String} (h : targetId dom target = some id) :
    (getByRef dom target).isSome := by
  obtain ⟨inst, hget, -⟩ := Option.bind_eq_some_iff.mp h
  rw [hget]
  rfl

theorem isSome_of_pointerAttribute (h : (pointerAttribute dom instRef propName).isSome) :
    (getByRef dom instRef).isSome := by
  unfold pointerAttribute at h
  cases hget : getByRef dom instRef with
  | none =>
    rw [hget] at h
    cases h
  | some inst => rfl

end Present

section Linking

variable [UniqueIds] {now : Ref → UniqueId} {order : List Ref}
  {linkOrder : List (Ref × List RefLink)} {dom dom' dom₁ dom'' : D} {instRef target : Ref}
  {propName : String}

/-- What linking does if it comes to its end. -/
structure LinkRun (now : Ref → UniqueId) (order : List Ref)
    (linkOrder : List (Ref × List RefLink)) (dom dom₁ dom' : D) : Prop where
  given : IdsGiven now order dom dom₁
  loop : LinkLoopSpec dom₁ dom' linkOrder []

theorem LinkRun.present (h : LinkRun now order linkOrder dom dom₁ dom') (x : Ref) :
    (getByRef dom' x).isSome = (getByRef dom x).isSome := by
  rw [h.loop.idsKept.present, h.given.present]

/-- An instance without links keeps its attributes for properties. -/
theorem LinkRun.pointerAttribute_of_not_mem (h : LinkRun now order linkOrder dom dom₁ dom')
    (hmem : instRef ∉ linkOrder.map Prod.fst) :
    pointerAttribute dom' instRef propName = pointerAttribute dom instRef propName := by
  rw [h.loop.pointerAttribute_of_not_mem hmem, h.given.pointerAttribute_eq]

variable [LawfulWeakDom D]

theorem exists_linkRun (hnodup : order.Nodup) (hkeys : (linkOrder.map Prod.fst).Nodup)
    (htargets : ∀ x ∈ order, WellTyped dom x) (hinsts : ∀ e ∈ linkOrder, WellTyped dom e.1)
    (hids : ∀ dom₁, IdsGiven now order dom dom₁ → ∀ e ∈ linkOrder, Identified dom₁ e.2) :
    ∃ dom₁ dom', linkReferents now order linkOrder dom = .ok dom' ∧
      LinkRun now order linkOrder dom dom₁ dom' := by
  obtain ⟨dom₁, hwrite⟩ : ∃ dom₁, writeIdAttributes now order dom = .ok dom₁ :=
    writeIdAttributes_of_wellTyped hnodup htargets
  have hgiven : IdsGiven now order dom dom₁ :=
    ⟨htargets, (writeIdAttributes_eq_ok hnodup hwrite).2⟩
  obtain ⟨dom', hloop, hspec⟩ : ∃ dom', linkLoop linkOrder dom₁ [] = .ok dom' ∧
      LinkLoopSpec dom₁ dom' linkOrder [] :=
    linkLoop_spec (hids dom₁ hgiven) (fun e he => hgiven.wellTyped_iff.mpr (hinsts e he)) hkeys
  exact ⟨dom₁, dom', Except.bind_eq_ok.mpr ⟨dom₁, hwrite, hloop⟩, hgiven, hspec⟩

/-- What it needs to come to its end. -/
theorem linkRun_of_eq_ok (h : linkReferents now order linkOrder dom = .ok dom')
    (hnodup : order.Nodup) (hkeys : (linkOrder.map Prod.fst).Nodup) :
    ∃ dom₁, LinkRun now order linkOrder dom dom₁ dom' ∧
      ∀ e ∈ linkOrder, Identified dom₁ e.2 ∧ WellTyped dom e.1 := by
  obtain ⟨dom₁, hwrite, hloop⟩ := Except.bind_eq_ok.mp h
  have hgiven : IdsGiven now order dom dom₁ :=
    ⟨(writeIdAttributes_eq_ok hnodup hwrite).1, (writeIdAttributes_eq_ok hnodup hwrite).2⟩
  have hneeds := linkLoop_needs hloop hkeys
  obtain ⟨dom₂, hloop₂, hspec⟩ := linkLoop_spec (fun e he => (hneeds e he).1)
    (fun e he => (hneeds e he).2) hkeys
  obtain rfl := Except.ok.inj (hloop.symm.trans hloop₂)
  exact ⟨dom₁, ⟨hgiven, hspec⟩, fun e he =>
    ⟨(hneeds e he).1, hgiven.wellTyped_iff.mp (hneeds e he).2⟩⟩

variable [FiniteWeakDom D]

omit [UniqueIds] [LawfulWeakDom D] in
theorem mem_order (horder : order.Perm (collectVisits dom (visits dom)).needRewrite) :
    target ∈ order ↔ NeedsId dom (visits dom) target := by
  rw [horder.mem_iff, mem_needRewrite]

omit [UniqueIds] [LawfulWeakDom D] in
theorem nodup_order (horder : order.Perm (collectVisits dom (visits dom)).needRewrite) :
    order.Nodup := horder.nodup_iff.mpr nodup_needRewrite

omit [LawfulWeakDom D] in
/-- Every target that is still there has an id once ids are given. -/
theorem IdsGiven.identified (h : IdsGiven now order dom' dom₁)
    (horder : order.Perm (collectVisits dom (visits dom)).needRewrite)
    (hsafe : NeedsId dom (visits dom) target ∨ (targetId dom' target).isSome)
    (hpresent : (getByRef dom' target).isSome) : ∃ id, targetId dom₁ target = some id := by
  by_cases hmem : target ∈ order
  · obtain ⟨inst, hget⟩ := Option.isSome_iff_exists.mp hpresent
    exact ⟨_, h.targetId_of_mem hmem hget⟩
  · rw [h.targetId_of_not_mem hmem]
    rcases hsafe with hneeds | hid
    · exact absurd ((mem_order horder).mpr hneeds) hmem
    · exact Option.isSome_iff_exists.mp hid

omit [LawfulWeakDom D] [FiniteWeakDom D] in
/-- The links of an instance win over what is carried over. -/
theorem LinkRun.own (h : LinkRun now order linkOrder dom' dom₁ dom'')
    (hentries : IsLinkOrder dom linkOrder) {id : String}
    (hlive : LiveLink dom instRef propName target) (hinst : (getByRef dom' instRef).isSome)
    (hid : targetId dom₁ target = some id) :
    pointerAttribute dom'' instRef propName = some (.string id) := by
  obtain ⟨links, hentry⟩ := hentries.exists_entry hlive
  obtain ⟨before, after, hsplit⟩ := List.append_of_mem hentry
  have hmem : (propName, id) ∈ resolvedLinks dom₁ links :=
    mem_resolvedLinks.mpr ⟨target, (hentries.mem_iff hentry).mpr hlive, hid⟩
  obtain ⟨id', hlast⟩ := Option.isSome_iff_exists.mp (lastEntry_isSome hmem)
  have hsame : id' = id := by
    obtain ⟨target', hlink', hid'⟩ := mem_resolvedLinks.mp (mem_of_lastEntry hlast)
    obtain rfl := hlive.target_eq ((hentries.mem_iff hentry).mp hlink')
    exact Option.some.inj (hid'.symm.trans hid)
  rw [h.loop.pointerAttribute_eq hsplit (by rwa [h.given.present]), lastEntry_append, hlast, hsame]
  rfl

omit [LawfulWeakDom D] [FiniteWeakDom D] in
/-- What an instance with links has been given is a link of its own or of an instance that is
gone. -/
theorem LinkRun.source (h : LinkRun now order linkOrder dom' dom₁ dom'')
    (hentries : IsLinkOrder dom linkOrder) (hkey : instRef ∈ linkOrder.map Prod.fst)
    (hsome : (pointerAttribute dom'' instRef propName).isSome) :
    ∃ source target, LiveLink dom source propName target ∧ (getByRef dom' target).isSome ∧
      (source = instRef ∨ getByRef dom' source = none) := by
  obtain ⟨⟨instRef, links⟩, hentry, rfl⟩ := List.mem_map.mp hkey
  obtain ⟨before, after, hsplit⟩ := List.append_of_mem hentry
  have hinst : (getByRef dom₁ instRef).isSome := by
    rw [h.given.present, ← h.present]
    exact isSome_of_pointerAttribute hsome
  have htarget : ∀ {target id}, targetId dom₁ target = some id →
      (getByRef dom' target).isSome := by
    intro target id hid
    rw [← h.given.present]
    exact isSome_of_targetId hid
  rw [h.loop.pointerAttribute_eq hsplit hinst, Option.isSome_map] at hsome
  obtain ⟨id, hlast⟩ := Option.isSome_iff_exists.mp hsome
  rcases List.mem_append.mp (mem_of_lastEntry hlast) with hcarried | hown
  · rcases mem_carried hcarried with hnil | ⟨gone, links', hmem, hgone, hin⟩
    · cases hnil
    · obtain ⟨target, hlink, hid⟩ := mem_resolvedLinks.mp hin
      have hmem' : (gone, links') ∈ linkOrder := by
        rw [hsplit]
        exact List.mem_append_left _ hmem
      have hgone' : getByRef dom' gone = none := by
        rw [← Option.not_isSome_iff_eq_none, ← h.given.present, hgone]
        nofun
      exact ⟨gone, target, (hentries.mem_iff hmem').mp hlink, htarget hid, Or.inr hgone'⟩
  · obtain ⟨target, hlink, hid⟩ := mem_resolvedLinks.mp hown
    exact ⟨instRef, target, (hentries.mem_iff hentry).mp hlink, htarget hid, Or.inl rfl⟩

omit [UniqueIds] [LawfulWeakDom D] [FiniteWeakDom D] in
/-- The attributes of the keys can be read if those of all instances with links can. -/
theorem IsLinkOrder.wellTyped (hentries : IsLinkOrder dom linkOrder)
    (htyped : ∀ {instRef propName target}, LiveLink dom instRef propName target →
      WellTyped dom' instRef) : ∀ e ∈ linkOrder, WellTyped dom' e.1 := by
  rintro ⟨instRef, links⟩ he
  obtain ⟨propName, target, hlive⟩ := hentries.ne_nil he
  exact htyped hlive

/-- Under the condition the links are written as they should be. -/
theorem linked_of_linkSafe (hsafe : LinkSafe dom dom')
    (horder : order.Perm (collectVisits dom (visits dom)).needRewrite)
    (hentries : IsLinkOrder dom linkOrder) :
    ∃ dom'', linkReferents now order linkOrder dom' = .ok dom'' ∧ Linked dom dom'' := by
  have htargets : ∀ x ∈ order, WellTyped dom' x := fun x hx =>
    hsafe.targetTyped ((mem_order horder).mp hx)
  have hinsts := hentries.wellTyped hsafe.instTyped
  have hids : ∀ dom₁, IdsGiven now order dom' dom₁ → ∀ e ∈ linkOrder, Identified dom₁ e.2 := by
    rintro dom₁ hgiven ⟨instRef, links⟩ he ⟨propName, target⟩ hlink hpresent
    rw [hgiven.present] at hpresent
    have hlive := (hentries.mem_iff he).mp hlink
    obtain ⟨id, hid⟩ := hgiven.identified horder (hsafe.identified hlive hpresent) hpresent
    rw [hid]
    rfl
  obtain ⟨dom₁, dom'', hok, hrun⟩ :=
    exists_linkRun (nodup_order horder) hentries.nodup htargets hinsts hids
  refine ⟨dom'', hok, ?_, ?_⟩
  · intro instRef propName target hlive hinst htarget
    rw [hrun.present] at hinst htarget
    obtain ⟨id, hid⟩ := hrun.given.identified horder (hsafe.identified hlive htarget) htarget
    exact ⟨id, by rw [hrun.loop.idsKept.ids, hid], hrun.own hentries hlive hinst hid⟩
  · intro instRef propName hsome
    by_cases hkey : instRef ∈ linkOrder.map Prod.fst
    · have hinst := isSome_of_pointerAttribute hsome
      rw [hrun.present] at hinst
      obtain ⟨⟨instRef, links⟩, hentry, rfl⟩ := List.mem_map.mp hkey
      obtain ⟨propName', target', hlive⟩ := hentries.ne_nil hentry
      obtain ⟨source, target, hsource, hthere, rfl | hgone⟩ := hrun.source hentries hkey hsome
      · exact ⟨target, hsource, by rwa [hrun.present]⟩
      · obtain ⟨target, hlive', hthere'⟩ := hsafe.noLeak hsource hgone hthere hlive hinst
        exact ⟨target, hlive', by rwa [hrun.present]⟩
    · rw [hrun.pointerAttribute_of_not_mem hkey] at hsome
      obtain ⟨propName', target, hlive⟩ := hsafe.noStale hsome
      obtain ⟨links, hentry⟩ := hentries.exists_entry hlive
      exact absurd (List.mem_map_of_mem hentry) hkey

omit [LawfulWeakDom D] [FiniteWeakDom D] in
/-- If the instance that is gone comes right before another in the map, the other gets its
links. -/
theorem LinkRun.leak (h : LinkRun now order linkOrder dom' dom₁ dom'')
    (hentries : IsLinkOrder dom linkOrder) {gone : Ref} {links links' : List RefLink}
    {after : List (Ref × List RefLink)} {id : String}
    (hsplit : linkOrder = (gone, links) :: (instRef, links') :: after)
    (hlive : LiveLink dom gone propName target) (hgone : getByRef dom' gone = none)
    (hid : targetId dom₁ target = some id) (hinst : (getByRef dom' instRef).isSome) :
    (pointerAttribute dom'' instRef propName).isSome := by
  have hentry : (gone, links) ∈ linkOrder := by
    rw [hsplit]
    exact List.mem_cons_self
  have hmem : (propName, id) ∈ resolvedLinks dom₁ links :=
    mem_resolvedLinks.mpr ⟨target, (hentries.mem_iff hentry).mpr hlive, hid⟩
  have hgone' : (getByRef dom₁ gone).isSome = false := by
    rw [h.given.present, hgone]
    rfl
  have hcarried : carried dom₁ [(gone, links)] [] = resolvedLinks dom₁ links := by
    show (if (getByRef dom₁ gone).isSome then [] else [] ++ resolvedLinks dom₁ links) = _
    rw [hgone', if_neg nofun, List.nil_append]
  have hsplit' : linkOrder = [(gone, links)] ++ (instRef, links') :: after := hsplit
  rw [h.loop.pointerAttribute_eq hsplit' (by rwa [h.given.present]), hcarried, Option.isSome_map]
  exact lastEntry_isSome (List.mem_append_left _ hmem)

/-- What is true if linking does what it should in every order. -/
theorem linkSafe_of_linked {links : List (Ref × List RefLink)} (hentries : ∀ {linkOrder},
      linkOrder.Perm links → IsLinkOrder dom linkOrder)
    (horder : order.Perm (collectVisits dom (visits dom)).needRewrite)
    (hlinked : ∀ linkOrder, linkOrder.Perm links →
      ∃ dom'', linkReferents now order linkOrder dom' = .ok dom'' ∧ Linked dom dom'') :
    LinkSafe dom dom' := by
  obtain ⟨dom'', hok, hall⟩ := hlinked links (List.Perm.refl _)
  have hmap : IsLinkOrder dom links := hentries (List.Perm.refl _)
  obtain ⟨dom₁, hrun, hneeds⟩ := linkRun_of_eq_ok hok (nodup_order horder) hmap.nodup
  refine ⟨?_, ?_, ?_, ?_, ?_⟩
  · intro target hneed
    exact hrun.given.typed target ((mem_order horder).mpr hneed)
  · intro instRef propName target hlive
    obtain ⟨entry, hentry⟩ := hmap.exists_entry hlive
    exact (hneeds _ hentry).2
  · intro instRef propName target hlive hpresent
    by_cases hneed : NeedsId dom (visits dom) target
    · exact Or.inl hneed
    · obtain ⟨entry, hentry⟩ := hmap.exists_entry hlive
      have hid := (hneeds _ hentry).1 _ ((hmap.mem_iff hentry).mpr hlive)
        (by rwa [hrun.given.present])
      have hmem : target ∉ order := fun hmem => hneed ((mem_order horder).mp hmem)
      rw [hrun.given.targetId_of_not_mem hmem] at hid
      exact Or.inr hid
  · intro gone propName target hlive hgone hpresent instRef propName' target' hlive' hinst
    obtain ⟨goneLinks, hgoneEntry⟩ := hmap.exists_entry hlive
    obtain ⟨instLinks, hinstEntry⟩ := hmap.exists_entry hlive'
    have hne : (instRef, instLinks) ≠ (gone, goneLinks) := by
      intro heq
      rw [(Prod.mk.inj heq).1, hgone] at hinst
      cases hinst
    -- The order of the map in which the two come first.
    have hperm : ((gone, goneLinks) :: (instRef, instLinks) ::
        (links.erase (gone, goneLinks)).erase (instRef, instLinks)).Perm links := by
      have hmem := (List.mem_erase_of_ne hne).mpr hinstEntry
      exact ((List.perm_cons_erase hmem).symm.cons _).trans (List.perm_cons_erase hgoneEntry).symm
    obtain ⟨dom₃, hok₃, hall₃⟩ := hlinked _ hperm
    have hentries₃ := hentries hperm
    obtain ⟨dom₂, hrun₂, hneeds₂⟩ := linkRun_of_eq_ok hok₃ (nodup_order horder) hentries₃.nodup
    obtain ⟨id, hid⟩ := Option.isSome_iff_exists.mp ((hneeds₂ _ List.mem_cons_self).1 _
      ((hmap.mem_iff hgoneEntry).mpr hlive) (by rwa [hrun₂.given.present]))
    obtain ⟨target'', hlive'', hthere⟩ :=
      hall₃.nothingElse (hrun₂.leak hentries₃ rfl hlive hgone hid hinst)
    exact ⟨target'', hlive'', by rwa [hrun₂.present] at hthere⟩
  · intro instRef propName hsome
    by_contra hnone
    have hkey : instRef ∉ links.map Prod.fst := by
      intro hkey
      obtain ⟨⟨instRef, entry⟩, hentry, rfl⟩ := List.mem_map.mp hkey
      exact hnone (hmap.ne_nil hentry)
    rw [← hrun.pointerAttribute_of_not_mem hkey] at hsome
    obtain ⟨target, hlive, -⟩ := hall.nothingElse hsome
    exact hnone ⟨propName, target, hlive⟩

end Linking

/-- Links are written as they should be, in every order of the map and of the set, if and only if
the DOM has come through the pruning as `LinkSafe` says. -/
theorem linkReferents_linked_iff [UniqueIds] [LawfulWeakDom D] [FiniteWeakDom D]
    (now : Ref → UniqueId) (dom dom' : D) :
    ∃ links, collectReferents dom = some links ∧
      ((∀ order linkOrder, order.Perm links.needRewrite →
        linkOrder.Perm (toList links.propLinks.inner) →
        ∃ dom'', linkReferents now order linkOrder dom' = .ok dom'' ∧ Linked dom dom'') ↔
      LinkSafe dom dom') := by
  refine ⟨_, collectReferents_eq dom, fun h => ?_, fun h order linkOrder horder hlinks => ?_⟩
  · exact linkSafe_of_linked isLinkOrder (List.Perm.refl _) fun linkOrder hlinks =>
      h _ linkOrder (List.Perm.refl _) hlinks
  · exact linked_of_linkSafe h horder (isLinkOrder hlinks)

/-! ## A camera that is gone -/

section NoAttributes

variable [LawfulWeakDom D] [FiniteWeakDom D] {dom dom' : D}
  (h : ∀ x inst, getByRef dom x = some inst → inst.properties.lookup "Attributes" = none)

include h

omit [LawfulWeakDom D] [FiniteWeakDom D] in
theorem attributesProperty_of_no_attributes {x : Ref} {inst : Instance}
    (hget : getByRef dom x = some inst) : attributesProperty inst = .ok [] := by
  unfold attributesProperty
  rw [h x inst hget]

omit [LawfulWeakDom D] [FiniteWeakDom D] in
theorem targetId_of_no_attributes (x : Ref) : targetId dom x = none := by
  unfold targetId
  cases hget : getByRef dom x with
  | none => rfl
  | some inst => exact getExistingId_of_attributes (attributesProperty_of_no_attributes h hget)

/-- Without attributes it is safe to destroy instances that have no links. -/
theorem linkSafe_of_no_attributes
    (h' : ∀ x inst, getByRef dom' x = some inst → inst.properties.lookup "Attributes" = none)
    (hgone : ∀ x inst, getByRef dom x = some inst → getByRef dom' x = none →
      ∀ k r, inst.properties.lookup k ≠ some (.ref r)) : LinkSafe dom dom' := by
  have htyped : ∀ x, WellTyped dom' x := fun x inst hget =>
    ⟨[], attributesProperty_of_no_attributes h' hget⟩
  refine ⟨fun _ => htyped _, fun _ => htyped _, ?_, ?_, ?_⟩
  · intro instRef propName target hlive _
    obtain ⟨before, after, hsplit⟩ := List.append_of_mem (mem_visits.mpr hlive)
    refine Or.inl ⟨before, _, after, hsplit, rfl, fun id hsome => ?_⟩
    rw [targetId_of_no_attributes h] at hsome
    cases hsome
  · intro gone propName target hlive hnone
    obtain ⟨inst, hget, hprop⟩ := hlive.property
    exact absurd hprop (hgone gone inst hget hnone propName target)
  · intro instRef propName hsome
    unfold pointerAttribute at hsome
    cases hget : getByRef dom' instRef with
    | none =>
      rw [hget] at hsome
      cases hsome
    | some inst =>
      rw [hget] at hsome
      dsimp only at hsome
      rw [attributesProperty_of_no_attributes h' hget] at hsome
      cases hsome

end NoAttributes

/-- `n` as so many hexadecimal digits. -/
def hexDigits (width n : ℕ) : String :=
  let digits := Nat.toDigits 16 n
  String.ofList (List.replicate (width - digits.length) '0' ++ digits)

/-- The id as it is printed: the random part, the time and the index. -/
@[reducible] def UniqueIds.hex : UniqueIds where
  text id := hexDigits 16 id.random.toUInt64.toNat ++ hexDigits 8 id.time.toNat ++
    hexDigits 8 id.index.toNat

def workspaceRef : Ref := Ref.some MapDom.firstFree
def cameraRef : Ref := Ref.some (MapDom.firstFree + 1)
def partRef : Ref := Ref.some (MapDom.firstFree + 2)

/-- A place whose camera follows a part. -/
def cameraDom : MapDom where
  nodes := [⟨0, none, "DataModel", "DataModel", ∅⟩,
    ⟨MapDom.firstFree, some 0, "Workspace", "Workspace",
      (∅ : UstrMap Variant).insert "CurrentCamera" (.ref cameraRef)⟩,
    ⟨MapDom.firstFree + 1, some MapDom.firstFree, "Camera", "Camera",
      (∅ : UstrMap Variant).insert "CameraSubject" (.ref partRef)⟩,
    ⟨MapDom.firstFree + 2, some MapDom.firstFree, "Part", "Part", ∅⟩]
  root := 0
  next := MapDom.firstFree + 3
  sorted := by decide
  parents := by decide
  has_root := by decide
  bound := by decide

/-- What `UniqueId::now` returns. -/
def nowIds (referent : Ref) : UniqueId := ⟨UInt32.ofNat (referent.id.getD 0), 0, 0⟩

theorem destroy_partRef : (destroy cameraDom partRef).isSome := by
  decide +kernel

def partlessDom : MapDom := (destroy cameraDom partRef).get destroy_partRef

theorem linkSafe_partlessDom : LinkSafe cameraDom partlessDom := by
  have hattributes : ∀ n ∈ cameraDom.nodes, (n.properties.lookup "Attributes").isNone := by
    decide +kernel
  have hleft : ∀ n ∈ partlessDom.nodes, (n.properties.lookup "Attributes").isNone := by
    decide +kernel
  have hgone : ∀ n ∈ cameraDom.nodes, getByRef partlessDom (Ref.some n.id) = none →
      n.properties.entries.isEmpty := by
    decide +kernel
  refine linkSafe_of_no_attributes (fun x inst hget => ?_) (fun x inst hget => ?_)
    fun x inst hget hnone k r => ?_
  · obtain ⟨n, hn, -, rfl⟩ := (MapDom.lookupNode_eq_some cameraDom.sorted).mp hget
    exact Option.isNone_iff_eq_none.mp (hattributes n hn)
  · obtain ⟨n, hn, -, rfl⟩ := (MapDom.lookupNode_eq_some partlessDom.sorted).mp hget
    exact Option.isNone_iff_eq_none.mp (hleft n hn)
  · obtain ⟨n, hn, hid, rfl⟩ := (MapDom.lookupNode_eq_some cameraDom.sorted).mp hget
    have hempty := List.isEmpty_iff.mp (hgone n hn (hid ▸ hnone))
    intro hlookup
    have hmem := AList.mem_lookup_iff.mp hlookup
    change _ ∈ n.properties.entries at hmem
    rw [hempty] at hmem
    cases hmem

/-- The part is destroyed, so the link of the camera leads nowhere. -/
theorem linked_partlessDom : letI := UniqueIds.hex
    destroy cameraDom partRef = some partlessDom ∧
      ∃ links, collectReferents cameraDom = some links ∧ ∀ order linkOrder,
        order.Perm links.needRewrite → linkOrder.Perm (toList links.propLinks.inner) →
        ∃ dom'', linkReferents nowIds order linkOrder partlessDom = .ok dom'' ∧
          Linked cameraDom dom'' := by
  let _ := UniqueIds.hex
  obtain ⟨links, hlinks, hiff⟩ := linkReferents_linked_iff nowIds cameraDom partlessDom
  exact ⟨(Option.some_get destroy_partRef).symm, links, hlinks, hiff.mpr linkSafe_partlessDom⟩

/-- Once the camera is destroyed, the workspace may be given the property that the camera had. -/
theorem not_linked_camera : letI := UniqueIds.hex
    ¬ ∀ (dom dom' : MapDom) (x : Ref) (links : RefLinks) (order : List Ref)
      (linkOrder : List (Ref × List RefLink)), destroy dom x = some dom' →
      collectReferents dom = some links → order.Perm links.needRewrite →
      linkOrder.Perm (toList links.propLinks.inner) →
      ∃ dom'', linkReferents nowIds order linkOrder dom' = .ok dom'' ∧ Linked dom dom'' := by
  let _ := UniqueIds.hex
  intro hall
  obtain ⟨dom', hdestroy⟩ : ∃ dom', destroy cameraDom cameraRef = some dom' :=
    Option.isSome_iff_exists.mp (by decide +kernel)
  have hwritten : ((destroy cameraDom cameraRef).bind fun dom' =>
      (collectReferents cameraDom).bind fun links =>
      (linkReferents nowIds links.needRewrite (toList links.propLinks.inner) dom').toOption.map
        fun dom'' => (pointerAttribute dom'' workspaceRef "CameraSubject").isSome) =
      some true := by decide +kernel
  obtain ⟨links, hlinks⟩ : ∃ links, collectReferents cameraDom = some links :=
    ⟨_, collectReferents_eq cameraDom⟩
  obtain ⟨dom'', hok, hlinked⟩ := hall _ _ _ _ _ _ hdestroy hlinks (List.Perm.refl _)
    (List.Perm.refl _)
  rw [hdestroy, hlinks] at hwritten
  change ((linkReferents nowIds _ _ dom').toOption.map _) = _ at hwritten
  rw [hok] at hwritten
  obtain ⟨target, hlive, -⟩ := hlinked.nothingElse (Option.some.inj hwritten)
  obtain ⟨inst, hget, hprop⟩ := hlive.property
  have hworkspace : ((getByRef cameraDom workspaceRef).bind fun inst =>
      inst.properties.lookup "CameraSubject").isNone := by decide +kernel
  rw [hget, Option.bind_some, hprop] at hworkspace
  cases hworkspace

end Roxo
