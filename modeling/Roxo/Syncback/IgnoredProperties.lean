import Roxo.Snapshot.TreeInvariant
import Roxo.Syncback.Descendants
import Roxo.Syncback.PropertyFilter

/-!
# Ignored properties

Before the hashes are made, syncback takes the properties that the project ignores out of all
instances of both DOMs. A list of ignored properties is for a class and for those that inherit from
it. A class that the database does not know gets no filter at all, not even its own list
(`prefilter_iff`).
-/

namespace Roxo

open AssocMap Forest WeakDom

section Filter

variable [ReflectionDatabase]

/-- The loop of `get_property_filter`, from a class with what the classes before it have given. A
class that is not in the database ends it without a set. -/
def propertyFilterLoop (filter : List (String × List String)) (currentClassName : String)
    (set : List String) : Option (List String) :=
  let set := set ∪ (filter.lookup currentClassName).getD []
  match _hclass : ReflectionDatabase.classes currentClassName with
  | none => none
  | some data =>
    match _hsuper : data.superclass with
    | some superClass => propertyFilterLoop filter superClass set
    | none => some set
termination_by ReflectionDatabase.classRank currentClassName
decreasing_by exact ReflectionDatabase.superclass_lt _hclass _hsuper

/-- A set of properties that should not be written with syncback. -/
def getPropertyFilter (rules : Option SyncbackRules) (newInst : Instance) :
    Option (List String) := do
  let rules ← rules
  propertyFilterLoop rules.ignoreProperties newInst.className []

/-- Removes the properties of a filter one after the other. -/
def removeProperties (filter : List String) (inst : Instance) : Instance :=
  { inst with
    properties := filter.foldl (fun properties prop => properties.erase prop) inst.properties }

variable {D : Type} [WeakDom D]

/-- One pass of the loop over the new DOM. -/
def prefilterNewInst (rules : Option SyncbackRules) (newTree : D) (referent : Ref) :
    MayPanic D := do
  let newInst ← getByRef newTree referent
  match getPropertyFilter rules newInst with
  | some filter => some (write newTree referent (removeProperties filter))
  | none => some newTree

/-- One pass of the loop over the old DOM. -/
def prefilterOldInst (rules : Option SyncbackRules) (oldTree : RojoTree D) (referent : Ref) :
    MayPanic (RojoTree D) := do
  let inst ← oldTree.getInstance referent
  let oldInst ← inst
  match getPropertyFilter rules oldInst.inst with
  | some filter => (oldTree.getInstanceMut referent (removeProperties filter)).join
  | none => some oldTree

variable [FiniteWeakDom D]

/-- The properties that are blocked by the project are removed from the new DOM. -/
def prefilterNew (rules : Option SyncbackRules) (newTree : D) : MayPanic D := do
  let order ← descendants newTree (rootRef newTree)
  order.foldlM (prefilterNewInst rules) newTree

/-- The properties that are blocked by the project are removed from the old DOM. -/
def prefilterOld (rules : Option SyncbackRules) (oldTree : RojoTree D) :
    MayPanic (RojoTree D) := do
  let order ← descendants oldTree.inner oldTree.getRootId
  order.foldlM (prefilterOldInst rules) oldTree

/-! ## What is to be ignored -/

/-- The class is the other or inherits from it, as far as the database knows. -/
def Inherits : String → String → Prop :=
  Relation.ReflTransGen fun className superClass =>
    ∃ data, ReflectionDatabase.classes className = some data ∧ data.superclass = some superClass

/-- A list for the class or one of its superclasses has the property. -/
def Ignores (rules : Option SyncbackRules) (className propName : String) : Prop :=
  ∃ r, rules = some r ∧ ∃ superClass, Inherits className superClass ∧
    ∃ list, r.ignoreProperties.lookup superClass = some list ∧ propName ∈ list

/-- The database has the class and all its superclasses. -/
def ChainKnown (className : String) : Prop :=
  ∀ superClass, Inherits className superClass →
    (ReflectionDatabase.classes superClass).isSome

/-- Exactly the ignored properties are in the filter. No filter is one without properties. -/
def FilterExact (rules : Option SyncbackRules) (inst : Instance) : Prop :=
  ∀ propName, propName ∈ (getPropertyFilter rules inst).getD [] ↔
    Ignores rules inst.className propName

/-- Exactly the ignored properties have been removed from the instances below the root. -/
def RemovedExactly (rules : Option SyncbackRules) (dom dom' : D) : Prop :=
  ∀ referent inst, Desc (kids dom) (rootRef dom) referent → getByRef dom referent = some inst →
    ∃ inst', getByRef dom' referent = some inst' ∧ ∀ propName,
      (Ignores rules inst.className propName → inst'.properties.lookup propName = none) ∧
      (¬ Ignores rules inst.className propName →
        inst'.properties.lookup propName = inst.properties.lookup propName)

/-- `ignoreProperties` covers the whole class chain, in the filters and in both loops. -/
structure CoversChains (rules : Option SyncbackRules) (newTree : D) (oldTree : RojoTree D) :
    Prop where
  filters : ∀ dom ∈ [newTree, oldTree.inner], ∀ referent inst,
    Desc (kids dom) (rootRef dom) referent → getByRef dom referent = some inst →
      FilterExact rules inst
  new : ∃ newTree', prefilterNew rules newTree = some newTree' ∧
    RemovedExactly rules newTree newTree'
  old : ∃ oldTree', prefilterOld rules oldTree = some oldTree' ∧
    RemovedExactly rules oldTree.inner oldTree'.inner

/-! ## The filter of a class -/

section Class

variable {filter : List (String × List String)} {className superClass propName : String}
  {set : List String}

omit [FiniteWeakDom D] [WeakDom D] in
theorem Inherits.cases_iff : Inherits className superClass ↔ className = superClass ∨
    ∃ data parent, ReflectionDatabase.classes className = some data ∧
      data.superclass = some parent ∧ Inherits parent superClass := by
  unfold Inherits
  rw [Relation.ReflTransGen.cases_head_iff]
  constructor
  · rintro (rfl | ⟨parent, ⟨data, hdata, hparent⟩, h⟩)
    · exact .inl rfl
    · exact .inr ⟨data, parent, hdata, hparent, h⟩
  · rintro (rfl | ⟨data, parent, hdata, hparent, h⟩)
    · exact .inl rfl
    · exact .inr ⟨parent, ⟨data, hdata, hparent⟩, h⟩

/-- A list for the class or one of its superclasses has the property. -/
def ListedFor (filter : List (String × List String)) (className propName : String) : Prop :=
  ∃ superClass, Inherits className superClass ∧
    ∃ list, filter.lookup superClass = some list ∧ propName ∈ list

omit [ReflectionDatabase] in
theorem mem_getD_lookup : propName ∈ (filter.lookup className).getD [] ↔
    ∃ list, filter.lookup className = some list ∧ propName ∈ list := by
  cases filter.lookup className with
  | none => exact iff_of_false List.not_mem_nil (by rintro ⟨list, h, -⟩; cases h)
  | some list =>
    constructor
    · exact fun h => ⟨list, rfl, h⟩
    · rintro ⟨_, heq, h⟩
      rw [Option.some.inj heq]
      exact h

/-- What is listed for a class is its own list and what is listed for its superclass. -/
theorem listedFor_of_super {data : ClassDescriptor} {parent : String}
    (hdata : ReflectionDatabase.classes className = some data)
    (hparent : data.superclass = some parent) :
    ListedFor filter className propName ↔
      propName ∈ (filter.lookup className).getD [] ∨ ListedFor filter parent propName := by
  unfold ListedFor
  rw [mem_getD_lookup]
  constructor
  · rintro ⟨superClass, hsuper, hlist⟩
    rcases Inherits.cases_iff.mp hsuper with rfl | ⟨data', parent', hdata', hparent', h⟩
    · exact .inl hlist
    · obtain rfl := Option.some.inj (hdata.symm.trans hdata')
      obtain rfl := Option.some.inj (hparent.symm.trans hparent')
      exact .inr ⟨superClass, h, hlist⟩
  · rintro (hlist | ⟨superClass, hsuper, hlist⟩)
    · exact ⟨className, .refl, hlist⟩
    · exact ⟨superClass,
        Inherits.cases_iff.mpr (.inr ⟨data, parent, hdata, hparent, hsuper⟩), hlist⟩

/-- Above a class without a superclass there is only its own list. -/
theorem listedFor_of_top
    (htop : ∀ data, ReflectionDatabase.classes className = some data → data.superclass = none) :
    ListedFor filter className propName ↔ propName ∈ (filter.lookup className).getD [] := by
  unfold ListedFor
  rw [mem_getD_lookup]
  constructor
  · rintro ⟨superClass, hsuper, hlist⟩
    rcases Inherits.cases_iff.mp hsuper with rfl | ⟨data, parent, hdata, hparent, -⟩
    · exact hlist
    · rw [htop data hdata] at hparent
      cases hparent
  · exact fun hlist => ⟨className, .refl, hlist⟩

theorem chainKnown_of_super {data : ClassDescriptor} {parent : String}
    (hdata : ReflectionDatabase.classes className = some data)
    (hparent : data.superclass = some parent) : ChainKnown className ↔ ChainKnown parent := by
  constructor
  · exact fun h superClass hsuper =>
      h superClass (Inherits.cases_iff.mpr (.inr ⟨data, parent, hdata, hparent, hsuper⟩))
  · intro h superClass hsuper
    rcases Inherits.cases_iff.mp hsuper with rfl | ⟨data', parent', hdata', hparent', hsuper⟩
    · exact Option.isSome_iff_exists.mpr ⟨data, hdata⟩
    · obtain rfl := Option.some.inj (hdata.symm.trans hdata')
      obtain rfl := Option.some.inj (hparent.symm.trans hparent')
      exact h superClass hsuper

/-- One pass of the loop. -/
theorem propertyFilterLoop_eq : propertyFilterLoop filter className set =
    (ReflectionDatabase.classes className).bind fun data =>
      data.superclass.elim (some (set ∪ (filter.lookup className).getD [])) fun superClass =>
        propertyFilterLoop filter superClass (set ∪ (filter.lookup className).getD []) := by
  rw [propertyFilterLoop]
  split
  · rename_i hclass
    rw [hclass]
    rfl
  · rename_i data hclass
    rw [hclass, Option.bind_some]
    split
    · rename_i superClass hsuper
      rw [hsuper]
      rfl
    · rename_i hsuper
      rw [hsuper]
      rfl

/-- A class of which the database knows all superclasses gets everything that is listed for it. -/
theorem propertyFilterLoop_of_known (filter : List (String × List String)) (set : List String)
    (hknown : ChainKnown className) :
    ∃ l, propertyFilterLoop filter className set = some l ∧
      ∀ propName, propName ∈ l ↔ propName ∈ set ∨ ListedFor filter className propName := by
  induction hrank : ReflectionDatabase.classRank className using Nat.strong_induction_on
    generalizing className set with
  | _ rank ih =>
    obtain ⟨data, hdata⟩ := Option.isSome_iff_exists.mp (hknown className .refl)
    cases hparent : data.superclass with
    | none =>
      refine ⟨set ∪ (filter.lookup className).getD [], ?_, fun propName => ?_⟩
      · rw [propertyFilterLoop_eq, hdata, Option.bind_some, hparent]
        rfl
      · have htop : ∀ data', ReflectionDatabase.classes className = some data' →
            data'.superclass = none := by
          intro data' hdata'
          obtain rfl := Option.some.inj (hdata.symm.trans hdata')
          exact hparent
        rw [List.mem_union_iff, listedFor_of_top htop]
    | some parent =>
      have hlt : ReflectionDatabase.classRank parent < rank :=
        hrank ▸ ReflectionDatabase.superclass_lt hdata hparent
      obtain ⟨l, hl, hmem⟩ := ih _ hlt (set ∪ (filter.lookup className).getD [])
        ((chainKnown_of_super hdata hparent).mp hknown) rfl
      refine ⟨l, ?_, fun propName => ?_⟩
      · rw [propertyFilterLoop_eq, hdata, Option.bind_some, hparent]
        exact hl
      · rw [hmem, List.mem_union_iff, listedFor_of_super hdata hparent, or_assoc]

/-- A class that has an unknown superclass, or is unknown, gets nothing. -/
theorem propertyFilterLoop_of_unknown (hunknown : ¬ ChainKnown className) :
    propertyFilterLoop filter className set = none := by
  induction hrank : ReflectionDatabase.classRank className using Nat.strong_induction_on
    generalizing className set with
  | _ rank ih =>
    rw [propertyFilterLoop_eq]
    cases hdata : ReflectionDatabase.classes className with
    | none => rfl
    | some data =>
      cases hparent : data.superclass with
      | some parent =>
        rw [Option.bind_some, hparent]
        exact ih _ (hrank ▸ ReflectionDatabase.superclass_lt hdata hparent)
          (fun h => hunknown ((chainKnown_of_super hdata hparent).mpr h)) rfl
      | none =>
        refine absurd (fun superClass hsuper => ?_) hunknown
        rcases Inherits.cases_iff.mp hsuper with rfl | ⟨data', parent', hdata', hparent', -⟩
        · exact Option.isSome_iff_exists.mpr ⟨data, hdata⟩
        · obtain rfl := Option.some.inj (hdata.symm.trans hdata')
          rw [hparent] at hparent'
          cases hparent'

end Class

/-! ## The loops over the instances -/

omit [ReflectionDatabase] in
theorem lookup_removeProperties (l : List String) (inst : Instance) (propName : String) :
    (removeProperties l inst).properties.lookup propName =
      if propName ∈ l then none else inst.properties.lookup propName := by
  unfold removeProperties
  dsimp only
  induction l using List.reverseRecOn with
  | nil => rfl
  | append_singleton l prop ih =>
    rw [List.foldl_append, List.foldl_cons, List.foldl_nil, lookup_erase_eq, ih]
    by_cases hprop : propName = prop
    · rw [if_pos hprop, if_pos (List.mem_append_right _ (List.mem_singleton.mpr hprop))]
    · simp only [hprop, if_false, List.mem_append, List.mem_singleton, or_false]

/-- An instance without its ignored properties. -/
def filtered (rules : Option SyncbackRules) (inst : Instance) : Instance :=
  match getPropertyFilter rules inst with
  | some filter => removeProperties filter inst
  | none => inst

theorem lookup_filtered (rules : Option SyncbackRules) (inst : Instance) (propName : String) :
    (filtered rules inst).properties.lookup propName =
      if propName ∈ (getPropertyFilter rules inst).getD [] then none
      else inst.properties.lookup propName := by
  unfold filtered
  cases getPropertyFilter rules inst with
  | none => exact (if_neg List.not_mem_nil).symm
  | some filter => exact lookup_removeProperties filter inst propName

theorem filterExact_iff {rules : Option SyncbackRules} {inst : Instance} :
    FilterExact rules inst ↔
      ChainKnown inst.className ∨ ∀ propName, ¬ Ignores rules inst.className propName := by
  cases rules with
  | none =>
    have hnot : ∀ propName, ¬ Ignores none inst.className propName := by
      rintro propName ⟨r, hr, -⟩
      cases hr
    exact iff_of_true (fun propName => iff_of_false List.not_mem_nil (hnot propName)) (.inr hnot)
  | some rules =>
    have hlisted : ∀ propName, Ignores (some rules) inst.className propName ↔
        ListedFor rules.ignoreProperties inst.className propName := by
      intro propName
      constructor
      · rintro ⟨r, hr, h⟩
        rw [Option.some.inj hr]
        exact h
      · exact fun h => ⟨rules, rfl, h⟩
    unfold FilterExact getPropertyFilter
    simp only [hlisted, Option.bind_eq_bind, Option.bind_some]
    by_cases hknown : ChainKnown inst.className
    · obtain ⟨l, hl, hmem⟩ :=
        propertyFilterLoop_of_known rules.ignoreProperties [] hknown
      refine iff_of_true (fun propName => ?_) (.inl hknown)
      rw [hl, Option.getD_some, hmem]
      exact or_iff_right List.not_mem_nil
    · rw [propertyFilterLoop_of_unknown hknown, Option.getD_none]
      simp only [hknown, false_or, List.not_mem_nil, false_iff]

section Loops

variable {rules : Option SyncbackRules} {dom : D} {referent x : Ref} {inst : Instance}
  {order : List Ref}

/-- What the loop does to the instances of a list. -/
structure Filtered (rules : Option SyncbackRules) (order : List Ref) (dom dom' : D) : Prop where
  rootRef_eq : rootRef dom' = rootRef dom
  getByRef_eq : ∀ x, getByRef dom' x =
    if x ∈ order then (getByRef dom x).map (filtered rules) else getByRef dom x

variable [LawfulWeakDom D]

omit [FiniteWeakDom D] in
theorem exists_prefilterNewInst (rules : Option SyncbackRules)
    (hget : getByRef dom referent = some inst) :
    ∃ dom', prefilterNewInst rules dom referent = some dom' ∧
      Filtered rules [referent] dom dom' := by
  unfold prefilterNewInst
  rw [hget, Option.bind_eq_bind, Option.bind_some]
  cases hfilter : getPropertyFilter rules inst with
  | none =>
    refine ⟨dom, rfl, rfl, fun x => ?_⟩
    split_ifs with hx
    · rw [List.mem_singleton.mp hx, hget, Option.map_some, filtered, hfilter]
    · rfl
  | some filter =>
    refine ⟨_, rfl, LawfulWeakDom.rootRef_write dom referent _, fun x => ?_⟩
    rw [LawfulWeakDom.getByRef_write]
    simp only [List.mem_singleton]
    split_ifs with hx
    · rw [hx, hget, Option.map_some, Option.map_some, filtered, hfilter]
      rfl
    · rfl

omit [FiniteWeakDom D] in
/-- Every instance of the list is filtered once. -/
theorem exists_foldlM_prefilterNewInst (rules : Option SyncbackRules) (hnodup : order.Nodup)
    (hpresent : ∀ x ∈ order, ∃ inst, getByRef dom x = some inst) :
    ∃ dom', order.foldlM (prefilterNewInst rules) dom = some dom' ∧
      Filtered rules order dom dom' := by
  induction order generalizing dom with
  | nil => exact ⟨dom, rfl, rfl, fun x => (if_neg List.not_mem_nil).symm⟩
  | cons referent order ih =>
    obtain ⟨hfirst, hnodup⟩ := List.nodup_cons.mp hnodup
    obtain ⟨inst, hget⟩ := hpresent referent List.mem_cons_self
    obtain ⟨between, hbetween, hroot, hstep⟩ := exists_prefilterNewInst rules hget
    have hkept : ∀ x, x ≠ referent → getByRef between x = getByRef dom x := fun x hx => by
      rw [hstep, if_neg (mt List.mem_singleton.mp hx)]
    have hrest : ∀ x ∈ order, x ≠ referent := fun x hx heq => hfirst (heq ▸ hx)
    obtain ⟨dom', hdom', hroot', hloop⟩ := ih hnodup fun x hx => by
      rw [hkept x (hrest x hx)]
      exact hpresent x (List.mem_cons_of_mem _ hx)
    refine ⟨dom', ?_, hroot'.trans hroot, fun x => ?_⟩
    · rw [List.foldlM_cons, hbetween]
      exact hdom'
    · rw [hloop]
      by_cases hx : x = referent
      · rw [hx, if_neg hfirst, if_pos List.mem_cons_self, hstep,
          if_pos (List.mem_singleton.mpr rfl)]
      · simp only [hkept x hx, List.mem_cons, hx, false_or]

/-- The loop over the new DOM ends, with all instances below the root filtered. -/
theorem exists_prefilterNew (rules : Option SyncbackRules) (dom : D) :
    ∃ dom', prefilterNew rules dom = some dom' ∧
      Filtered rules (walk dom (rootRef dom)) dom dom' := by
  obtain ⟨root, hroot, -⟩ := LawfulWeakDom.root_spec dom
  unfold prefilterNew
  rw [descendants_eq hroot]
  exact exists_foldlM_prefilterNewInst rules (nodup_walk dom _) fun x hx =>
    present_of_desc hroot ((mem_walk hroot).mp hx)

omit [FiniteWeakDom D] [LawfulWeakDom D] in
theorem prefilterOldInst_eq {tree : RojoTree D} (hmem : referent ∈ tree.metadataMap) :
    prefilterOldInst rules tree referent =
      (prefilterNewInst rules tree.inner referent).map fun inner => { tree with inner } := by
  obtain ⟨metadata, hmetadata⟩ := Option.isSome_iff_exists.mp (AList.lookup_isSome.mpr hmem)
  unfold prefilterOldInst prefilterNewInst RojoTree.getInstance RojoTree.getInstanceMut
  cases hget : getByRef tree.inner referent with
  | none => rfl
  | some inst =>
    simp only [hmetadata, Option.bind_eq_bind, Option.bind_some]
    cases getPropertyFilter rules inst with
    | none => rfl
    | some filter => rfl

omit [FiniteWeakDom D] [LawfulWeakDom D] in
theorem foldlM_prefilterOldInst {tree : RojoTree D}
    (hmem : ∀ x ∈ order, x ∈ tree.metadataMap) :
    order.foldlM (prefilterOldInst rules) tree =
      (order.foldlM (prefilterNewInst rules) tree.inner).map fun inner => { tree with inner } := by
  induction order generalizing tree with
  | nil => rfl
  | cons referent order ih =>
    rw [List.foldlM_cons, List.foldlM_cons, prefilterOldInst_eq (hmem referent List.mem_cons_self)]
    cases prefilterNewInst rules tree.inner referent with
    | none => rfl
    | some inner =>
      have hrest : ∀ x ∈ order, x ∈ ({ tree with inner } : RojoTree D).metadataMap :=
        fun x hx => hmem x (List.mem_cons_of_mem _ hx)
      exact ih hrest

/-- The loop over the old DOM does the same. -/
theorem exists_prefilterOld (rules : Option SyncbackRules) {tree : RojoTree D}
    (hinv : RojoTree.Inv tree) : ∃ tree', prefilterOld rules tree = some tree' ∧
      Filtered rules (walk tree.inner (rootRef tree.inner)) tree.inner tree'.inner := by
  obtain ⟨root, hroot, -⟩ := LawfulWeakDom.root_spec tree.inner
  have hpresent : ∀ x ∈ walk tree.inner (rootRef tree.inner),
      ∃ inst, getByRef tree.inner x = some inst :=
    fun x hx => present_of_desc hroot ((mem_walk hroot).mp hx)
  obtain ⟨inner, hinner, hfiltered⟩ :=
    exists_foldlM_prefilterNewInst rules (nodup_walk tree.inner _) hpresent
  refine ⟨{ tree with inner }, ?_, hfiltered⟩
  unfold prefilterOld
  change (descendants tree.inner (rootRef tree.inner)).bind _ = _
  rw [descendants_eq hroot, Option.bind_some, foldlM_prefilterOldInst, hinner]
  · rfl
  · exact fun x hx => (hinv.keys x).mpr (Option.isSome_iff_exists.mpr (hpresent x hx))

/-- Exact filters remove exactly the ignored properties. -/
theorem removedExactly {dom' : D} (h : Filtered rules (walk dom (rootRef dom)) dom dom')
    (hexact : ∀ referent inst, Desc (kids dom) (rootRef dom) referent →
      getByRef dom referent = some inst → FilterExact rules inst) :
    RemovedExactly rules dom dom' := by
  intro referent inst hdesc hget
  obtain ⟨root, hroot, -⟩ := LawfulWeakDom.root_spec dom
  refine ⟨filtered rules inst, ?_, fun propName => ?_⟩
  · rw [h.getByRef_eq, if_pos ((mem_walk hroot).mpr hdesc), hget, Option.map_some]
  · rw [lookup_filtered]
    have hmem := hexact referent inst hdesc hget propName
    exact ⟨fun hignores => if_pos (hmem.mpr hignores), fun hkept => if_neg (mt hmem.mp hkept)⟩

/-- **Syncback ignores what is listed for the classes and superclasses of the instances, exactly if
the database knows all of these classes or nothing is listed for them.** -/
theorem prefilter_iff {newTree : D} {oldTree : RojoTree D} (hinv : RojoTree.Inv oldTree) :
    CoversChains rules newTree oldTree ↔ ∀ dom ∈ [newTree, oldTree.inner], ∀ referent inst,
      Desc (kids dom) (rootRef dom) referent → getByRef dom referent = some inst →
        ChainKnown inst.className ∨ ∀ propName, ¬ Ignores rules inst.className propName := by
  constructor
  · intro h dom hdom referent inst hdesc hget
    exact filterExact_iff.mp (h.filters dom hdom referent inst hdesc hget)
  · intro h
    have hfilters : ∀ dom ∈ [newTree, oldTree.inner], ∀ referent inst,
        Desc (kids dom) (rootRef dom) referent → getByRef dom referent = some inst →
          FilterExact rules inst :=
      fun dom hdom referent inst hdesc hget =>
        filterExact_iff.mpr (h dom hdom referent inst hdesc hget)
    obtain ⟨newTree', hnew, hnewFiltered⟩ := exists_prefilterNew rules newTree
    obtain ⟨oldTree', hold, holdFiltered⟩ := exists_prefilterOld rules hinv
    exact ⟨hfilters,
      ⟨newTree', hnew, removedExactly hnewFiltered (hfilters newTree List.mem_cons_self)⟩,
      ⟨oldTree', hold, removedExactly holdFiltered
        (hfilters oldTree.inner (List.mem_cons_of_mem _ List.mem_cons_self))⟩⟩

end Loops

end Filter

/-! ## A part, and an instance of a class that is too new -/

/-- The classes that the examples need of a database. -/
@[reducible] def ReflectionDatabase.parts : ReflectionDatabase where
  classes name :=
    if name = "Part" then some ⟨some "BasePart", fun _ => none, fun _ => none⟩
    else if name = "BasePart" then some ⟨none, fun _ => none, fun _ => none⟩
    else none
  enums _ := none
  classRank name := if name = "Part" then 1 else 0
  aliasRank _ := 0
  superclass_lt {name data superClass} h hsuper := by
    split_ifs at h with hpart
    · obtain rfl := Option.some.inj h
      obtain rfl := Option.some.inj hsuper
      rw [if_pos hpart]
      decide
    · obtain rfl := Option.some.inj h
      cases hsuper
  alias_lt {name data property descriptor aliasFor} h hproperty := by
    split_ifs at h
    all_goals
      obtain rfl := Option.some.inj h
      cases hproperty

/-- An instance of a class, with a color. -/
def coloredSnapshot (className : String) : InstanceSnapshot where
  snapshotId := Ref.none
  metadata := {}
  name := "Colored"
  className := className
  properties := extend ∅ [("Color", .bool true)]
  children := []

def coloredDom (className : String) : MapDom :=
  WeakDom.new (((InstanceBuilder.new className).withName "Colored").withProperties
    [("Color", .bool true)])

def ignoresColor : SyncbackRules where
  ignoreProperties := [("BasePart", ["Color"]), ("Widget", ["Color"])]

theorem className_coloredDom {className : String} {referent : Ref} {inst : Instance}
    (h : getByRef (coloredDom className) referent = some inst) : inst.className = className := by
  unfold coloredDom at h
  rw [LawfulWeakDom.getByRef_new] at h
  split_ifs at h
  rw [← Option.some.inj h]
  rfl

theorem exists_coloredTree (className : String) :
    ∃ tree : RojoTree MapDom, RojoTree.Inv tree ∧ tree.inner = coloredDom className := by
  obtain ⟨tree, htree, hinner⟩ : ∃ tree : RojoTree MapDom,
      RojoTree.new (coloredSnapshot className) = some tree ∧
        tree.inner = coloredDom className := ⟨_, rfl, rfl⟩
  exact ⟨tree, RojoTree.Inv.new htree, hinner⟩

theorem prefilter_part : letI := ReflectionDatabase.parts
    ∃ oldTree : RojoTree MapDom, oldTree.inner = coloredDom "Part" ∧
      Ignores (some ignoresColor) "Part" "Color" ∧
      CoversChains (some ignoresColor) (coloredDom "Part") oldTree := by
  let _ := ReflectionDatabase.parts
  have hpart : Inherits "Part" "BasePart" := .single ⟨_, rfl, rfl⟩
  have hknown : ChainKnown "Part" := by
    intro superClass hsuper
    rcases Inherits.cases_iff.mp hsuper with rfl | ⟨data, parent, hdata, hparent, hsuper⟩
    · rfl
    · cases hdata
      cases hparent
      rcases Inherits.cases_iff.mp hsuper with rfl | ⟨data, parent, hdata, hparent, -⟩
      · rfl
      · cases hdata
        cases hparent
  obtain ⟨oldTree, hinv, hinner⟩ := exists_coloredTree "Part"
  refine ⟨oldTree, hinner, ⟨_, rfl, "BasePart", hpart, ["Color"], rfl, List.mem_cons_self⟩,
    (prefilter_iff hinv).mpr fun dom hdom referent inst _ hget => .inl ?_⟩
  have hdom : dom = coloredDom "Part" := by
    rw [hinner] at hdom
    rcases List.mem_pair.mp hdom with h | h
    · exact h
    · exact h
  rw [hdom] at hget
  rw [className_coloredDom hget]
  exact hknown

/-- A class that the database does not have keeps its ignored property. -/
theorem not_prefilter_widget : letI := ReflectionDatabase.parts
    ¬ ∀ (rules : Option SyncbackRules) (newTree : MapDom) (oldTree : RojoTree MapDom),
      RojoTree.Inv oldTree → CoversChains rules newTree oldTree := by
  let _ := ReflectionDatabase.parts
  intro hall
  obtain ⟨oldTree, hinv, -⟩ := exists_coloredTree "Part"
  have hcovers := hall (some ignoresColor) (coloredDom "Widget") oldTree hinv
  obtain ⟨root, hroot, -⟩ := LawfulWeakDom.root_spec (coloredDom "Widget")
  have hexact := hcovers.filters _ List.mem_cons_self _ root .refl hroot
  have hclass := className_coloredDom hroot
  rcases filterExact_iff.mp hexact with hknown | hnothing
  · rw [hclass] at hknown
    exact absurd (hknown "Widget" .refl) (by decide)
  · rw [hclass] at hnothing
    exact hnothing "Color" ⟨_, rfl, "Widget", .refl, ["Color"], rfl, List.mem_cons_self⟩

end Roxo
