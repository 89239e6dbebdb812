import Roxo.Snapshot.TreeInvariant
import Roxo.Syncback.Linking

/-!
# Ids of linked instances

Duplicate ids are looked for among the targets of links only. Of several targets with one id all
but one are given new ids, so no two targets share an id once links are written. An instance that
no link points to is not looked at: if it has the id of a target that keeps it, the id is not
unique. `linkReferents_unique_iff` says that nothing else goes wrong.
-/

namespace Roxo

open AssocMap Forest WeakDom

variable {D : Type} [WeakDom D]

/-- Some link points to the instance. -/
def IsTarget (dom : D) (target : Ref) : Prop :=
  ∃ instRef propName, LiveLink dom instRef propName target

/-- New ids are distinct from each other and from the ids that are there. -/
structure FreshUniqueIds [FiniteWeakDom D] [UniqueIds] (now : Ref → UniqueId) (dom : D) : Prop where
  distinct : ∀ {x y i j}, NeedsId dom (visits dom) x → NeedsId dom (visits dom) y →
    getByRef dom x = some i → getByRef dom y = some j → newId now x i = newId now y j → x = y
  fresh : ∀ {x i}, NeedsId dom (visits dom) x → getByRef dom x = some i →
    ∀ y, targetId dom y ≠ some (newId now x i)

/-- The tree has the ids that are in the attributes of its instances. -/
structure ReadsIds (tree : RojoTree D) : Prop where
  indexed : tree.Indexed
  carries_iff : ∀ id x, tree.Carries ⟨id⟩ x ↔ targetId tree.inner x = some id

/-- The targets of the links have ids that no other instance has, so that an id resolves. -/
def IdsResolve (dom dom' : D) : Prop :=
  ∀ target, IsTarget dom target → ∃ id, targetId dom' target = some id ∧
    (∀ x, targetId dom' x = some id → x = target) ∧
    ∀ tree : RojoTree D, tree.inner = dom' → ReadsIds tree → tree.getSpecifiedId ⟨id⟩ = some target

/-- What must be true of the DOM. -/
structure IdsSafe [FiniteWeakDom D] (dom : D) : Prop where
  /-- The attributes that are written to can be read. -/
  targetTyped : ∀ {target}, NeedsId dom (visits dom) target → WellTyped dom target
  instTyped : ∀ {instRef propName target}, LiveLink dom instRef propName target →
    WellTyped dom instRef
  /-- An instance that no link points to does not have the id of a target that keeps it. -/
  unshared : ∀ {target}, IsTarget dom target → ¬ NeedsId dom (visits dom) target →
    ∀ x, ¬ IsTarget dom x → targetId dom x ≠ targetId dom target

/-! ## Visits to instances with one id -/

section Visits

variable {dom : D} {seen : List (Ref × RefLink)} {target target' : Ref} {id : String}

/-- After a visit to a target with the id there is a last one. -/
theorem exists_lastTarget (hid : targetId dom target = some id)
    (h : ∃ visit ∈ seen, visit.2.value = target) :
    ∃ other, lastTarget dom id seen = some other ∧ ∃ visit ∈ seen, visit.2.value = other := by
  obtain ⟨visit, hmem, rfl⟩ := h
  have hsome : (seen.reverse.find? fun visit => targetId dom visit.2.value = some id).isSome := by
    rw [List.find?_isSome]
    exact ⟨visit, List.mem_reverse.mpr hmem, decide_eq_true hid⟩
  obtain ⟨last, hlast⟩ := Option.isSome_iff_exists.mp hsome
  refine ⟨last.2.value, ?_, last, List.mem_reverse.mp (List.mem_of_find?_eq_some hlast), rfl⟩
  unfold lastTarget
  rw [hlast, Option.map_some]

/-- Of two targets with one id, one is given a new id. -/
theorem needsId_or_needsId (hne : target ≠ target') (hid : targetId dom target = some id)
    (hid' : targetId dom target' = some id) (h : ∃ visit ∈ seen, visit.2.value = target)
    (h' : ∃ visit ∈ seen, visit.2.value = target') :
    NeedsId dom seen target ∨ NeedsId dom seen target' := by
  induction seen using List.reverseRecOn with
  | nil =>
    obtain ⟨visit, hmem, -⟩ := h
    cases hmem
  | append_singleton seen last ih =>
    have hcases : ∀ {t}, (∃ visit ∈ seen ++ [last], visit.2.value = t) →
        (∃ visit ∈ seen, visit.2.value = t) ∨ t = last.2.value := by
      rintro t ⟨visit, hmem, rfl⟩
      rcases List.mem_append.mp hmem with hmem | hmem
      · exact Or.inl ⟨visit, hmem, rfl⟩
      · rw [List.mem_singleton.mp hmem]
        exact Or.inr rfl
    -- The last visit finds the id at another target, or there was an earlier visit.
    have hlast : ∀ {t t'}, t ≠ t' → targetId dom t = some id → targetId dom t' = some id →
        (∃ visit ∈ seen, visit.2.value = t') → t = last.2.value →
        (∃ visit ∈ seen, visit.2.value = t) ∨ NeedsId dom (seen ++ [last]) t := by
      intro t t' hne ht ht' hseen heq
      obtain ⟨other, hother, hvisit⟩ := exists_lastTarget ht' hseen
      by_cases hsame : other = t
      · exact Or.inl (hsame ▸ hvisit)
      · refine Or.inr (needsId_concat last |>.mpr (Or.inr ⟨heq, fun id' hid' => ?_⟩))
        obtain rfl := Option.some.inj (ht.symm.trans hid')
        exact ⟨other, hother, hsame⟩
    have hboth : (∃ visit ∈ seen, visit.2.value = target) →
        (∃ visit ∈ seen, visit.2.value = target') →
        NeedsId dom (seen ++ [last]) target ∨ NeedsId dom (seen ++ [last]) target' := by
      intro hseen hseen'
      rw [needsId_concat, needsId_concat]
      exact (ih hseen hseen').imp Or.inl Or.inl
    rcases hcases h with hseen | heq <;> rcases hcases h' with hseen' | heq'
    · exact hboth hseen hseen'
    · rcases hlast hne.symm hid' hid hseen heq' with hagain | hneed
      · exact hboth hseen hagain
      · exact Or.inr hneed
    · rcases hlast hne hid hid' hseen' heq with hagain | hneed
      · exact hboth hagain hseen'
      · exact Or.inl hneed
    · exact absurd (heq.trans heq'.symm) hne

end Visits

/-! ## Ids after linking -/

section Linked

variable {now : Ref → UniqueId} {order : List Ref} {linkOrder : List (Ref × List RefLink)}
  {dom dom₁ dom' : D} {target x : Ref} {id : String}

/-- An id that resolves in the attributes resolves in the tree. -/
theorem ReadsIds.getSpecifiedId_eq {tree : RojoTree D} (h : ReadsIds tree)
    (hid : targetId tree.inner target = some id)
    (hunique : ∀ x, targetId tree.inner x = some id → x = target) :
    tree.getSpecifiedId ⟨id⟩ = some target := by
  rw [h.indexed.getSpecifiedId_iff]
  intro x
  rw [h.carries_iff]
  refine ⟨hunique x, ?_⟩
  rintro rfl
  exact hid

theorem IsTarget.present (h : IsTarget dom target) : ∃ inst, getByRef dom target = some inst := by
  obtain ⟨_, _, hlive⟩ := h
  exact Option.isSome_iff_exists.mp hlive.live

section

variable [UniqueIds]

theorem LinkRun.targetId_of_mem (h : LinkRun now order linkOrder dom dom₁ dom') {inst : Instance}
    (hx : x ∈ order) (hget : getByRef dom x = some inst) :
    targetId dom' x = some (newId now x inst) := by
  rw [h.loop.idsKept.ids, h.given.targetId_of_mem hx hget]

theorem LinkRun.targetId_of_not_mem (h : LinkRun now order linkOrder dom dom₁ dom')
    (hx : x ∉ order) : targetId dom' x = targetId dom x := by
  rw [h.loop.idsKept.ids, h.given.targetId_of_not_mem hx]

end

variable [LawfulWeakDom D] [FiniteWeakDom D]

theorem isTarget_iff : IsTarget dom target ↔ ∃ visit ∈ visits dom, visit.2.value = target := by
  constructor
  · rintro ⟨instRef, propName, hlive⟩
    exact ⟨_, mem_visits.mpr hlive, rfl⟩
  · rintro ⟨⟨instRef, propName, value⟩, hmem, rfl⟩
    exact ⟨instRef, propName, mem_visits.mp hmem⟩

theorem isTarget_of_needsId (h : NeedsId dom (visits dom) target) : IsTarget dom target := by
  obtain ⟨before, visit, after, hsplit, hvalue, -⟩ := h
  have hmem : visit ∈ visits dom := by
    rw [hsplit]
    exact List.mem_append_right _ List.mem_cons_self
  exact isTarget_iff.mpr ⟨visit, hmem, hvalue⟩

/-- A target without an id is given one. -/
theorem exists_targetId (htarget : IsTarget dom target)
    (hkeeps : ¬ NeedsId dom (visits dom) target) : ∃ id, targetId dom target = some id := by
  by_contra hnone
  obtain ⟨visit, hmem, hvalue⟩ := isTarget_iff.mp htarget
  obtain ⟨before, after, hsplit⟩ := List.append_of_mem hmem
  exact hkeeps ⟨before, visit, after, hsplit, hvalue, fun id hid => absurd ⟨id, hid⟩ hnone⟩

variable [UniqueIds]

/-- The id of a target is its own if no other instance has the id of a target that keeps it. -/
theorem LinkRun.unique (h : LinkRun now order linkOrder dom dom₁ dom')
    (horder : order.Perm (collectVisits dom (visits dom)).needRewrite)
    (hfresh : FreshUniqueIds now dom) (hsafe : IdsSafe dom) (htarget : IsTarget dom target) :
    ∃ id, targetId dom' target = some id ∧ ∀ x, targetId dom' x = some id → x = target := by
  obtain ⟨inst, hget⟩ := htarget.present
  by_cases hmem : target ∈ order
  · have hneed := (mem_order horder).mp hmem
    refine ⟨_, h.targetId_of_mem hmem hget, fun x hx => ?_⟩
    by_cases hxmem : x ∈ order
    · have hxneed := (mem_order horder).mp hxmem
      obtain ⟨xinst, hxget⟩ := (isTarget_of_needsId hxneed).present
      rw [h.targetId_of_mem hxmem hxget] at hx
      exact hfresh.distinct hxneed hneed hxget hget (Option.some.inj hx)
    · rw [h.targetId_of_not_mem hxmem] at hx
      exact absurd hx (hfresh.fresh hneed hget x)
  · have hkeeps : ¬ NeedsId dom (visits dom) target := fun hneed =>
      hmem ((mem_order horder).mpr hneed)
    obtain ⟨id, hid⟩ := exists_targetId htarget hkeeps
    refine ⟨id, by rw [h.targetId_of_not_mem hmem, hid], fun x hx => ?_⟩
    by_cases hxmem : x ∈ order
    · have hxneed := (mem_order horder).mp hxmem
      obtain ⟨xinst, hxget⟩ := (isTarget_of_needsId hxneed).present
      rw [h.targetId_of_mem hxmem hxget] at hx
      exact absurd (hid.trans hx.symm) (hfresh.fresh hxneed hxget target)
    · rw [h.targetId_of_not_mem hxmem] at hx
      by_cases hxtarget : IsTarget dom x
      · by_contra hne
        rcases needsId_or_needsId hne hx hid (isTarget_iff.mp hxtarget)
          (isTarget_iff.mp htarget) with hneed | hneed
        · exact hxmem ((mem_order horder).mpr hneed)
        · exact hkeeps hneed
      · exact absurd (hx.trans hid.symm) (hsafe.unshared htarget hkeeps x hxtarget)

theorem idsResolve_of_idsSafe (hfresh : FreshUniqueIds now dom) (hsafe : IdsSafe dom)
    (horder : order.Perm (collectVisits dom (visits dom)).needRewrite)
    (hentries : IsLinkOrder dom linkOrder) :
    ∃ dom', linkReferents now order linkOrder dom = .ok dom' ∧ IdsResolve dom dom' := by
  have htargets : ∀ x ∈ order, WellTyped dom x := fun x hx =>
    hsafe.targetTyped ((mem_order horder).mp hx)
  have hinsts := hentries.wellTyped hsafe.instTyped
  have hids : ∀ dom₁, IdsGiven now order dom dom₁ → ∀ e ∈ linkOrder, Identified dom₁ e.2 := by
    rintro dom₁ hgiven ⟨instRef, links⟩ he ⟨propName, target⟩ hlink hpresent
    have hlive := (hentries.mem_iff he).mp hlink
    have hkept : NeedsId dom (visits dom) target ∨ (targetId dom target).isSome := by
      by_cases hneed : NeedsId dom (visits dom) target
      · exact Or.inl hneed
      · exact Or.inr (Option.isSome_iff_exists.mpr (exists_targetId ⟨_, _, hlive⟩ hneed))
    obtain ⟨id, hid⟩ := hgiven.identified horder hkept hlive.live
    rw [hid]
    rfl
  obtain ⟨dom₁, dom', hok, hrun⟩ :=
    exists_linkRun (nodup_order horder) hentries.nodup htargets hinsts hids
  refine ⟨dom', hok, fun target htarget => ?_⟩
  obtain ⟨id, hid, hunique⟩ := hrun.unique horder hfresh hsafe htarget
  refine ⟨id, hid, hunique, ?_⟩
  rintro tree rfl hreads
  exact hreads.getSpecifiedId_eq hid hunique

theorem idsSafe_of_idsResolve
    (horder : order.Perm (collectVisits dom (visits dom)).needRewrite)
    (hentries : IsLinkOrder dom linkOrder)
    (hok : linkReferents now order linkOrder dom = .ok dom') (hresolve : IdsResolve dom dom') :
    IdsSafe dom := by
  obtain ⟨dom₁, hrun, hneeds⟩ := linkRun_of_eq_ok hok (nodup_order horder) hentries.nodup
  refine ⟨?_, ?_, ?_⟩
  · intro target hneed
    exact hrun.given.typed target ((mem_order horder).mpr hneed)
  · intro instRef propName target hlive
    obtain ⟨links, hentry⟩ := hentries.exists_entry hlive
    exact (hneeds _ hentry).2
  · intro target htarget hkeeps x hx hsame
    have hmem : target ∉ order := fun hmem => hkeeps ((mem_order horder).mp hmem)
    have hxmem : x ∉ order := fun hmem => hx (isTarget_of_needsId ((mem_order horder).mp hmem))
    obtain ⟨id, hid, hunique, -⟩ := hresolve target htarget
    have hxid : targetId dom' x = some id := by
      rw [← hid, hrun.targetId_of_not_mem hmem, hrun.targetId_of_not_mem hxmem, hsame]
    exact hx (hunique x hxid ▸ htarget)

end Linked

/-- If new ids are fresh, the ids of linked instances resolve, in every order of the map and of the
set, if and only if no instance without links to it has the id of a target that keeps it. -/
theorem linkReferents_unique_iff [UniqueIds] [LawfulWeakDom D] [FiniteWeakDom D]
    {now : Ref → UniqueId} {dom : D} (hfresh : FreshUniqueIds now dom) :
    ∃ links, collectReferents dom = some links ∧
      ((∀ order linkOrder, order.Perm links.needRewrite →
        linkOrder.Perm (toList links.propLinks.inner) →
        ∃ dom', linkReferents now order linkOrder dom = .ok dom' ∧ IdsResolve dom dom') ↔
      IdsSafe dom) := by
  refine ⟨_, collectReferents_eq dom, fun h => ?_, fun h order linkOrder horder hlinks => ?_⟩
  · obtain ⟨dom', hok, hresolve⟩ := h _ _ (List.Perm.refl _) (List.Perm.refl _)
    exact idsSafe_of_idsResolve (List.Perm.refl _) (isLinkOrder (List.Perm.refl _)) hok hresolve
  · exact idsResolve_of_idsSafe hfresh h horder (isLinkOrder hlinks)

/-! ## Two parts with one id -/

/-- The properties of an instance with an id. -/
def withId (id : String) : UstrMap Variant :=
  (∅ : UstrMap Variant).insert "Attributes" (.attributes [(refIdAttributeName, .string id)])

/-- A part that a value points to, and a copy of it. -/
def copiedDom : MapDom where
  nodes := [⟨0, none, "Model", "Model", ∅⟩,
    ⟨MapDom.firstFree, some 0, "Value", "ObjectValue",
      (∅ : UstrMap Variant).insert "Value" (.ref cameraRef)⟩,
    ⟨MapDom.firstFree + 1, some 0, "Part", "Part", withId "part"⟩,
    ⟨MapDom.firstFree + 2, some 0, "Part", "Part", withId "part"⟩]
  root := 0
  next := MapDom.firstFree + 3
  sorted := by decide
  parents := by decide
  has_root := by decide
  bound := by decide

/-- The same, and a value that points to the copy. -/
def bothLinkedDom : MapDom where
  nodes := copiedDom.nodes ++ [⟨MapDom.firstFree + 3, some 0, "Value", "ObjectValue",
    (∅ : UstrMap Variant).insert "Value" (.ref partRef)⟩]
  root := 0
  next := MapDom.firstFree + 4
  sorted := by decide
  parents := by decide
  has_root := by decide
  bound := by decide

theorem exists_node_of_targetId {dom : MapDom} {x : Ref} {id : String}
    (h : targetId dom x = some id) : ∃ n ∈ dom.nodes, x = Ref.some n.id := by
  obtain ⟨inst, hget, -⟩ := Option.bind_eq_some_iff.mp h
  obtain ⟨n, hn, rfl, -⟩ := (MapDom.lookupNode_eq_some dom.sorted).mp hget
  exact ⟨n, hn, rfl⟩

theorem needsId_bothLinkedDom {x : Ref} :
    NeedsId bothLinkedDom (visits bothLinkedDom) x ↔ x = partRef := by
  have hneeds : (collectVisits bothLinkedDom (visits bothLinkedDom)).needRewrite = [partRef] := by
    decide +kernel
  rw [← mem_needRewrite, hneeds, List.mem_singleton]

theorem freshUniqueIds_bothLinkedDom : letI := UniqueIds.hex
    FreshUniqueIds nowIds bothLinkedDom := by
  let _ := UniqueIds.hex
  have hother : ∀ m ∈ bothLinkedDom.nodes, ∀ n ∈ bothLinkedDom.nodes,
      targetId bothLinkedDom (Ref.some n.id) ≠
        some (newId nowIds partRef (MapDom.toInstance bothLinkedDom.nodes m)) := by
    decide +kernel
  constructor
  · intro x y _ _ hx hy _ _ _
    rw [needsId_bothLinkedDom.mp hx, needsId_bothLinkedDom.mp hy]
  · intro x i hx hget y hy
    obtain rfl := needsId_bothLinkedDom.mp hx
    obtain ⟨m, hm, -, rfl⟩ := (MapDom.lookupNode_eq_some bothLinkedDom.sorted).mp hget
    obtain ⟨n, hn, rfl⟩ := exists_node_of_targetId hy
    exact hother m hm n hn hy

theorem idsSafe_bothLinkedDom : IdsSafe bothLinkedDom := by
  have htyped : ∀ x, WellTyped bothLinkedDom x := by
    have hok : ∀ n ∈ bothLinkedDom.nodes,
        (attributesProperty (MapDom.toInstance bothLinkedDom.nodes n)).toOption.isSome := by
      decide +kernel
    intro x inst hget
    obtain ⟨n, hn, -, rfl⟩ := (MapDom.lookupNode_eq_some bothLinkedDom.sorted).mp hget
    have hn := hok n hn
    cases heq : attributesProperty (MapDom.toInstance bothLinkedDom.nodes n) with
    | ok attributes => exact ⟨attributes, rfl⟩
    | error e =>
      rw [heq] at hn
      cases hn
  have hlinked : ∀ n ∈ bothLinkedDom.nodes, (targetId bothLinkedDom (Ref.some n.id)).isSome →
      Ref.some n.id ∈ (visits bothLinkedDom).map fun visit => visit.2.value := by
    decide +kernel
  refine ⟨fun _ => htyped _, fun _ => htyped _, fun {target} htarget hkeeps x hx heq => ?_⟩
  obtain ⟨id, hid⟩ := exists_targetId htarget hkeeps
  rw [hid] at heq
  obtain ⟨n, hn, rfl⟩ := exists_node_of_targetId heq
  exact hx (isTarget_iff.mpr (List.mem_map.mp (hlinked n hn (heq ▸ rfl))))

/-- Of the two parts with one id the second is given a new one. -/
theorem unique_bothLinkedDom : letI := UniqueIds.hex
    FreshUniqueIds nowIds bothLinkedDom ∧
      ∃ links, collectReferents bothLinkedDom = some links ∧ links.needRewrite = [partRef] ∧
        ∀ order linkOrder,
          order.Perm links.needRewrite → linkOrder.Perm (toList links.propLinks.inner) →
          ∃ dom', linkReferents nowIds order linkOrder bothLinkedDom = .ok dom' ∧
            IdsResolve bothLinkedDom dom' := by
  let _ := UniqueIds.hex
  have hfresh := freshUniqueIds_bothLinkedDom
  obtain ⟨links, hlinks, hiff⟩ := linkReferents_unique_iff hfresh
  have hneeds : (collectReferents bothLinkedDom).map RefLinks.needRewrite = some [partRef] := by
    decide +kernel
  rw [hlinks] at hneeds
  exact ⟨hfresh, links, hlinks, Option.some.inj hneeds, hiff.mpr idsSafe_bothLinkedDom⟩

/-- The copy keeps the id of the part. -/
theorem not_unique_copiedDom : letI := UniqueIds.hex
    ¬ ∀ (dom : MapDom) (links : RefLinks) (order : List Ref)
      (linkOrder : List (Ref × List RefLink)), FreshUniqueIds nowIds dom →
      collectReferents dom = some links → order.Perm links.needRewrite →
      linkOrder.Perm (toList links.propLinks.inner) →
      ∃ dom', linkReferents nowIds order linkOrder dom = .ok dom' ∧ IdsResolve dom dom' := by
  let _ := UniqueIds.hex
  intro hall
  have hneeds : (collectVisits copiedDom (visits copiedDom)).needRewrite = [] := by decide +kernel
  have hnone : ∀ {x}, ¬ NeedsId copiedDom (visits copiedDom) x := by
    intro x hneed
    rw [← mem_needRewrite, hneeds] at hneed
    cases hneed
  have hfresh : FreshUniqueIds nowIds copiedDom :=
    ⟨fun hneed => absurd hneed hnone, fun hneed => absurd hneed hnone⟩
  obtain ⟨dom', hok, hresolve⟩ := hall _ _ _ _ hfresh (collectReferents_eq copiedDom)
    (List.Perm.refl _) (List.Perm.refl _)
  have hids : (linkReferents nowIds (collectVisits copiedDom (visits copiedDom)).needRewrite
      (toList (collectVisits copiedDom (visits copiedDom)).links.inner) copiedDom).toOption.map
        (fun dom' => (targetId dom' cameraRef, targetId dom' partRef)) =
      some (some "part", some "part") := by decide +kernel
  rw [hok] at hids
  obtain ⟨hid, hid'⟩ := Prod.mk.inj (Option.some.inj hids)
  have hvisit : ((visits copiedDom).map fun visit => visit.2.value) = [cameraRef] := by
    decide +kernel
  have htarget : IsTarget copiedDom cameraRef := by
    rw [isTarget_iff, ← List.mem_map, hvisit]
    exact List.mem_singleton_self _
  obtain ⟨id, hsome, hunique, -⟩ := hresolve cameraRef htarget
  rw [hid] at hsome
  rw [← Option.some.inj hsome] at hunique
  have hsame := hunique partRef hid'
  exact absurd hsame (by decide)

end Roxo
