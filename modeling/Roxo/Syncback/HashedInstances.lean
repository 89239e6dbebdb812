import Mathlib.Data.List.Perm.Basic
import Roxo.Syncback.HashedValues

/-!
# What equal hashes say

Name, class, properties and the hashes of the children are fed to the hasher one after the other,
with nothing in between. Two instances that feed the same bytes agree exactly if their bytes are cut
at the same places.
-/

namespace Roxo

open AssocMap WeakDom

/-! ## Sorting -/

/-- Sorting by a key forgets the order if no two elements have the same one. -/
theorem mergeSort_eq_of_perm {α β : Type} [LE β] [DecidableLE β] [Std.IsLinearOrder β] {key : α → β}
    {l l' : List α} (hkey : ∀ a ∈ l, ∀ b ∈ l, key a = key b → a = b) (h : l.Perm l') :
    (l.mergeSort fun a b => key a ≤ key b) = l'.mergeSort fun a b => key a ≤ key b := by
  have htrans : ∀ a b c, decide (key a ≤ key b) = true → decide (key b ≤ key c) = true →
      decide (key a ≤ key c) = true := fun a b c hab hbc =>
    decide_eq_true (Std.le_trans (of_decide_eq_true hab) (of_decide_eq_true hbc))
  have htotal : ∀ a b, (decide (key a ≤ key b) || decide (key b ≤ key a)) = true := by
    intro a b
    rw [Bool.or_eq_true, decide_eq_true_iff, decide_eq_true_iff]
    exact Std.le_total
  refine List.Perm.eq_of_pairwise (fun a b ha hb hab hba => ?_)
    (List.pairwise_mergeSort htrans htotal l) (List.pairwise_mergeSort htrans htotal l')
    ((List.mergeSort_perm l _).trans (h.trans (List.mergeSort_perm l' _).symm))
  exact hkey a (List.mem_mergeSort.mp ha) b (h.mem_iff.mpr (List.mem_mergeSort.mp hb))
    (Std.le_antisymm (of_decide_eq_true hab) (of_decide_eq_true hba))

theorem sort_eq_of_perm {α : Type} [LE α] [DecidableLE α] [Std.IsLinearOrder α] {l l' : List α}
    (h : l.Perm l') : l.mergeSort (· ≤ ·) = l'.mergeSort (· ≤ ·) :=
  @mergeSort_eq_of_perm _ _ _ _ _ id _ _ (fun _ _ _ _ heq => heq) h

/-! ## Instances that are cut alike -/

section Content

variable [ReflectionDatabase] [FloatCmp] [Hashing]

/-- The instance has no property that a float is part of. -/
def Instance.NonFloat (x : Instance) : Prop :=
  ∀ name value, x.properties.lookup name = some value → value.nonFloat = true

/-- The filtered instances agree; `Same` says which of the children's subtrees do. -/
structure Agree (Same : Ref → Ref → Prop) (rules : Option SyncbackRules) (x y : Instance) :
    Prop where
  name : x.name = y.name
  className : x.className = y.className
  properties : ∃ p q, filterProperties rules x = some p ∧ filterProperties rules y = some q ∧
    List.Forall₂ (fun a b => a.1 = b.1 ∧ variantEq a.2 b.2 = some true) (sortProperties p)
      (sortProperties q)
  children : ∃ l, List.Forall₂ Same x.children l ∧ l.Perm y.children

/-- Names, classes and filtered properties are cut alike. -/
structure CutAlike (rules : Option SyncbackRules) (x y : Instance) : Prop where
  name : textLength x.name = textLength y.name
  className : textLength x.className = textLength y.className
  properties : ∃ p q, filterProperties rules x = some p ∧ filterProperties rules y = some q ∧
    EntriesCutAlike (sortProperties p) (sortProperties q)

/-! ## Properties -/

omit [Hashing] in
/-- A property that is kept is one of the instance, and does not have its default value. -/
theorem filterLoop_spec {rules : Option SyncbackRules} {className : String}
    {properties kept : List (String × Variant)}
    (h : filterLoop rules className properties = some kept) :
    ∀ e ∈ kept, e ∈ properties ∧ ∀ default, defaultProperty className e.1 = some default →
      variantEq e.2 default = some false := by
  induction properties generalizing kept with
  | nil =>
    cases h
    exact fun e he => absurd he List.not_mem_nil
  | cons property properties ih =>
    obtain ⟨name, value⟩ := property
    unfold filterLoop at h
    obtain ⟨rest, hrest, h⟩ := Option.bind_eq_some_iff.mp h
    have hkeep : ∀ e ∈ rest, e ∈ (name, value) :: properties ∧
        ∀ default, defaultProperty className e.1 = some default →
          variantEq e.2 default = some false :=
      fun e he => ⟨List.mem_cons_of_mem _ (ih hrest e he).1, (ih hrest e he).2⟩
    split_ifs at h with hskip
    · obtain rfl := Option.some.inj h
      exact hkeep
    · cases hd : defaultProperty className name with
      | none =>
        simp only [hd] at h
        obtain rfl := Option.some.inj h
        intro e he
        rcases List.mem_cons.mp he with rfl | he
        · refine ⟨List.mem_cons_self, fun default hdefault => ?_⟩
          rw [hd] at hdefault
          cases hdefault
        · exact hkeep e he
      | some default =>
        simp only [hd] at h
        obtain ⟨same, hsame, h⟩ := Option.bind_eq_some_iff.mp h
        cases same with
        | true =>
          obtain rfl := Option.some.inj h
          exact hkeep
        | false =>
          obtain rfl := Option.some.inj h
          intro e he
          rcases List.mem_cons.mp he with rfl | he
          · refine ⟨List.mem_cons_self, fun default' hdefault => ?_⟩
            rw [hd, Option.some.injEq] at hdefault
            exact hdefault ▸ hsame
          · exact hkeep e he

/-- A property that is kept is hashed as any value is. -/
theorem propertyBytes_eq {className name : String} {value : Variant} {bytes : List UInt8}
    (hv : value.nonFloat = true) (hd : ∀ default, defaultProperty className name = some default →
      variantEq value default = some false)
    (h : propertyBytes className name value = some bytes) : hashVariant value = some bytes := by
  unfold propertyBytes at h
  obtain ⟨isDefault, hdefault, h⟩ := Option.bind_eq_some_iff.mp h
  cases isDefault with
  | false => exact h
  | true =>
    unfold isDefaultValue at hdefault
    cases hp : defaultProperty className name with
    | none =>
      simp only [hp] at hdefault
      cases hdefault
    | some default =>
      simp only [hp] at hdefault
      have hsorted := (variantEq_iff (.inr hv)).mp hdefault
      have heq := (variantEq_iff (.inl hv)).mpr hsorted.symm
      rw [hd default hp] at heq
      cases heq

theorem hashProperties_eq {className : String} {properties : List (String × Variant)}
    {bytes : List UInt8} (hp : ∀ e ∈ properties, e.2.nonFloat = true ∧
      ∀ default, defaultProperty className e.1 = some default → variantEq e.2 default = some false)
    (h : hashProperties className properties = some bytes) :
    hashAttributes properties = some bytes := by
  induction properties generalizing bytes with
  | nil => exact h
  | cons property properties ih =>
    obtain ⟨name, value⟩ := property
    unfold hashProperties at h
    obtain ⟨b, hb, h⟩ := Option.bind_eq_some_iff.mp h
    obtain ⟨rest, hrest, h⟩ := Option.bind_eq_some_iff.mp h
    obtain ⟨hv, hd⟩ := hp _ List.mem_cons_self
    unfold hashAttributes
    rw [propertyBytes_eq hv hd hb, ih (fun e he => hp e (List.mem_cons_of_mem _ he)) hrest]
    exact h

omit [ReflectionDatabase] [Hashing] in
theorem forall₂_iff_sorted {p q : List (String × Variant)} (hp : attributesNonFloat p = true) :
    List.Forall₂ (fun a b => a.1 = b.1 ∧ variantEq a.2 b.2 = some true) p q ↔
      attributesSorted p = attributesSorted q := by
  induction p generalizing q with
  | nil =>
    cases q with
    | nil => simp
    | cons b q => simp [attributesSorted]
  | cons a p ih =>
    cases q with
    | nil => simp [attributesSorted]
    | cons b q =>
      obtain ⟨n, v⟩ := a
      obtain ⟨m, w⟩ := b
      simp only [attributesNonFloat, Bool.and_eq_true] at hp
      rw [List.forall₂_cons, ih hp.2, variantEq_iff (.inl hp.1)]
      simp [attributesSorted]

omit [FloatCmp] [Hashing] [ReflectionDatabase] in
theorem attributesNonFloat_iff {p : List (String × Variant)} :
    attributesNonFloat p = true ↔ ∀ e ∈ p, e.2.nonFloat = true := by
  induction p with
  | nil => simp [attributesNonFloat]
  | cons e p ih =>
    obtain ⟨n, v⟩ := e
    simp [attributesNonFloat, ih]

/-- What is known of the properties that are hashed. -/
structure Hashed (rules : Option SyncbackRules) (x : Instance) (p : List (String × Variant))
    (bytes : List UInt8) : Prop where
  filtered : filterProperties rules x = some p
  nonFloat : attributesNonFloat (sortProperties p) = true
  hashed : ∃ b, hashAttributes (sortProperties p) = some b ∧
    bytes = asBytes x.name ++ asBytes x.className ++ b

theorem hashed_of_hashInstFiltered {rules : Option SyncbackRules} {x : Instance}
    {bytes : List UInt8} (hx : x.NonFloat) (h : hashInstFiltered rules x = some bytes) :
    ∃ p, Hashed rules x p bytes := by
  unfold hashInstFiltered at h
  obtain ⟨p, hp, h⟩ := Option.bind_eq_some_iff.mp h
  unfold hashInstPrefilled at h
  obtain ⟨b, hb, h⟩ := Option.bind_eq_some_iff.mp h
  have hspec := filterLoop_spec hp
  have hmem : ∀ e ∈ sortProperties p, e ∈ p := fun e he => (List.mergeSort_perm _ _).mem_iff.mp he
  have hnonFloat : ∀ e ∈ sortProperties p, e.2.nonFloat = true :=
    fun e he => hx e.1 e.2 (mem_toList.mp (hspec e (hmem e he)).1)
  exact ⟨p, hp, attributesNonFloat_iff.mpr hnonFloat, b,
    hashProperties_eq (fun e he => ⟨hnonFloat e he, (hspec e (hmem e he)).2⟩) hb,
    (Option.some.inj h).symm⟩

/-! ## Children -/

omit [ReflectionDatabase] [FloatCmp] [Hashing] in
theorem childHashes_spec {map : Map Ref (List UInt8)} {children : List Ref}
    {hashes : List (List UInt8)} (h : childHashes map children = some hashes) :
    List.Forall₂ (fun child hash => map.lookup child = some hash) children hashes := by
  induction children generalizing hashes with
  | nil =>
    cases h
    exact .nil
  | cons child children ih =>
    unfold childHashes at h
    obtain ⟨hash, hhash, h⟩ := Option.bind_eq_some_iff.mp h
    obtain ⟨rest, hrest, h⟩ := Option.bind_eq_some_iff.mp h
    obtain rfl := Option.some.inj h
    exact .cons hhash (ih hrest)

omit [ReflectionDatabase] [FloatCmp] [Hashing] in
/-- Pieces of one length are told apart when they are put together. -/
theorem eq_of_flatten {n : ℕ} (hn : 0 < n) {a b : List (List UInt8)} (ha : ∀ x ∈ a, x.length = n)
    (hb : ∀ x ∈ b, x.length = n) (h : a.flatten = b.flatten) : a = b := by
  induction a generalizing b with
  | nil =>
    cases b with
    | nil => rfl
    | cons y b =>
      have hlen := congrArg List.length h
      rw [List.flatten_cons, List.length_append, hb y List.mem_cons_self] at hlen
      simp only [List.flatten_nil, List.length_nil] at hlen
      omega
  | cons x a ih =>
    cases b with
    | nil =>
      have hlen := congrArg List.length h
      rw [List.flatten_cons, List.length_append, ha x List.mem_cons_self] at hlen
      simp only [List.flatten_nil, List.length_nil] at hlen
      omega
    | cons y b =>
      rw [List.flatten_cons, List.flatten_cons] at h
      obtain ⟨hxy, hab⟩ := List.append_inj h
        ((ha x List.mem_cons_self).trans (hb y List.mem_cons_self).symm)
      rw [hxy, ih (fun z hz => ha z (List.mem_cons_of_mem _ hz))
        (fun z hz => hb z (List.mem_cons_of_mem _ hz)) hab]

/-- All hashes in the map have the length of a hash. -/
def HashLengths (map : Map Ref (List UInt8)) : Prop :=
  ∀ referent hash, map.lookup referent = some hash → hash.length = 32

theorem hashLoop_lengths {D : Type} [WeakDom D] {rules : Option SyncbackRules} {dom : D}
    {order : List Ref} {map map' : Map Ref (List UInt8)} (hm : HashLengths map)
    (h : hashLoop rules dom order map = some map') : HashLengths map' := by
  induction order generalizing map with
  | nil =>
    cases h
    exact hm
  | cons referent order ih =>
    unfold hashLoop at h
    obtain ⟨inst, -, h⟩ := Option.bind_eq_some_iff.mp h
    obtain ⟨input, -, h⟩ := Option.bind_eq_some_iff.mp h
    refine ih (fun r hash hlookup => ?_) h
    rw [lookup_insert_eq] at hlookup
    split_ifs at hlookup
    · rw [← Option.some.inj hlookup]
      exact Hashing.length_finalize _
    · exact hm r hash hlookup

theorem hashTree_lengths {D : Type} [WeakDom D] [FiniteWeakDom D] {rules : Option SyncbackRules}
    {dom : D} {rootRef : Ref} {map : Map Ref (List UInt8)}
    (h : hashTree rules dom rootRef = some map) : HashLengths map := by
  unfold hashTree at h
  obtain ⟨order, -, h⟩ := Option.bind_eq_some_iff.mp h
  exact hashLoop_lengths (fun r hash hlookup => by simp at hlookup) h

omit [ReflectionDatabase] [FloatCmp] [Hashing] in
theorem childHashes_lengths {map : Map Ref (List UInt8)} {children : List Ref}
    {hashes : List (List UInt8)} (hm : HashLengths map)
    (h : childHashes map children = some hashes) : ∀ hash ∈ hashes, hash.length = 32 := by
  have hspec := childHashes_spec h
  clear h
  induction hspec with
  | nil => nofun
  | cons hlookup _ ih =>
    intro hash hmem
    rcases List.mem_cons.mp hmem with rfl | hmem
    · exact hm _ _ hlookup
    · exact ih hash hmem

omit [ReflectionDatabase] [FloatCmp] [Hashing] in
/-- Children with the same hashes are matched with each other. -/
theorem exists_matched {map map' : Map Ref (List UInt8)} {Same : Ref → Ref → Prop}
    {l l' : List Ref} {hashes hashes' : List (List UInt8)}
    (hl : List.Forall₂ (fun child hash => map.lookup child = some hash) l hashes)
    (hl' : List.Forall₂ (fun child hash => map'.lookup child = some hash) l' hashes')
    (hperm : hashes.Perm hashes')
    (hsame : ∀ c ∈ l, ∀ c' ∈ l', map.lookup c = map'.lookup c' → Same c c') :
    ∃ m, List.Forall₂ Same l m ∧ m.Perm l' := by
  obtain ⟨m, hm, hml⟩ := List.perm_comp_forall₂ hperm hl'.flip
  refine ⟨m, ?_, hml⟩
  have hsame' : ∀ c ∈ l, ∀ c' ∈ m, map.lookup c = map'.lookup c' → Same c c' :=
    fun c hc c' hc' => hsame c hc c' (hml.mem_iff.mp hc')
  clear hsame hl' hperm hml
  induction hl generalizing m with
  | nil =>
    cases hm
    exact .nil
  | cons hc _ ih =>
    cases hm with
    | cons hc' hrest =>
      refine .cons (hsame' _ List.mem_cons_self _ List.mem_cons_self (hc.trans hc'.symm)) ?_
      exact ih _ hrest fun c hc c' hc' =>
        hsame' c (List.mem_cons_of_mem _ hc) c' (List.mem_cons_of_mem _ hc')

/-! ## Instances -/

section Trees

variable {D D' : Type} [WeakDom D] [FiniteWeakDom D] [WeakDom D'] [FiniteWeakDom D']
  {rules : Option SyncbackRules} {dom : D} {dom' : D'} {rootRef rootRef' : Ref}
  {map map' : Map Ref (List UInt8)} {x y : Instance} {bytes : List UInt8}

/-- Instances of two DOMs that feed the same bytes to the hasher agree exactly if they are cut alike.
That the hashes of the children tell their subtrees apart is an assumption. -/
theorem agree_iff_cutAlike {Same : Ref → Ref → Prop} (hmap : hashTree rules dom rootRef = some map)
    (hmap' : hashTree rules dom' rootRef' = some map') (hfx : x.NonFloat) (hfy : y.NonFloat)
    (hbytes : hashInput rules map x = some bytes) (hbytes' : hashInput rules map' y = some bytes)
    (hsame : ∀ c ∈ x.children, ∀ c' ∈ y.children, map.lookup c = map'.lookup c' → Same c c') :
    Agree Same rules x y ↔ CutAlike rules x y := by
  unfold hashInput at hbytes hbytes'
  obtain ⟨a, ha, hbytes⟩ := Option.bind_eq_some_iff.mp hbytes
  obtain ⟨hashes, hhashes, hbytes⟩ := Option.bind_eq_some_iff.mp hbytes
  obtain ⟨b, hb, hbytes'⟩ := Option.bind_eq_some_iff.mp hbytes'
  obtain ⟨hashes', hhashes', hbytes'⟩ := Option.bind_eq_some_iff.mp hbytes'
  have heq := Option.some.inj (hbytes.trans hbytes'.symm)
  obtain ⟨p, hp⟩ := hashed_of_hashInstFiltered hfx ha
  obtain ⟨q, hq⟩ := hashed_of_hashInstFiltered hfy hb
  constructor
  · rintro ⟨hname, hclass, ⟨p', q', hp', hq', hproperties⟩, -⟩
    obtain rfl := Option.some.inj (hp.filtered.symm.trans hp')
    obtain rfl := Option.some.inj (hq.filtered.symm.trans hq')
    exact ⟨by rw [hname], by rw [hclass], p, q, hp', hq',
      entriesCutAlike_of_sorted hp.nonFloat ((forall₂_iff_sorted hp.nonFloat).mp hproperties)⟩
  · rintro ⟨hname, hclass, ⟨p', q', hp', hq', hproperties⟩⟩
    obtain rfl := Option.some.inj (hp.filtered.symm.trans hp')
    obtain rfl := Option.some.inj (hq.filtered.symm.trans hq')
    obtain ⟨s, hs, rfl⟩ := hp.hashed
    obtain ⟨t, ht, rfl⟩ := hq.hashed
    obtain ⟨s', t', hs', ht', htold⟩ := hproperties.told
    obtain rfl := Option.some.inj (hs.symm.trans hs')
    obtain rfl := Option.some.inj (ht.symm.trans ht')
    have hall := ((told_text hname).append (told_text hclass)).append htold
    obtain ⟨hinst, hchildren⟩ := List.append_inj heq hall.length
    obtain ⟨⟨hname', hclass'⟩, hsorted⟩ := hall.eq hinst
    refine ⟨hname', hclass', ⟨p, q, hp', hq', (forall₂_iff_sorted hp.nonFloat).mpr hsorted⟩, ?_⟩
    have hlengths : ∀ {map : Map Ref (List UInt8)} {l : List Ref} {hashes : List (List UInt8)},
        HashLengths map → childHashes map l = some hashes →
          ∀ h ∈ hashes.mergeSort (· ≤ ·), h.length = 32 :=
      fun hm hh h hmem => childHashes_lengths hm hh h ((List.mergeSort_perm _ _).mem_iff.mp hmem)
    have hmerged := eq_of_flatten (by omega) (hlengths (hashTree_lengths hmap) hhashes)
      (hlengths (hashTree_lengths hmap') hhashes') hchildren
    have hperm : hashes.Perm hashes' :=
      (List.mergeSort_perm hashes _).symm.trans (hmerged ▸ List.mergeSort_perm hashes' _)
    exact exists_matched (childHashes_spec hhashes) (childHashes_spec hhashes') hperm
      hsame

end Trees

end Content

/-! ## Tags that run together -/

/-- A part with tags. -/
def taggedDom (tags : List String) : MapDom where
  nodes := [⟨0, none, "Model", "Model", ∅⟩,
    ⟨MapDom.firstFree, some 0, "Part", "Part",
      (∅ : UstrMap Variant).insert "Tags" (.value (.tags tags))⟩]
  root := 0
  next := MapDom.firstFree + 1
  sorted := by simp [MapDom.firstFree]
  parents := by simp [MapDom.firstFree]
  has_root := by simp
  bound := by simp [MapDom.firstFree]

def taggedPart (tags : List String) : Instance where
  referent := Ref.some MapDom.firstFree
  children := []
  parent := Ref.some 0
  name := "Part"
  className := "Part"
  properties := (∅ : UstrMap Variant).insert "Tags" (.value (.tags tags))

theorem taggedPart_nonFloat (tags : List String) : (taggedPart tags).NonFloat := by
  intro name value h
  unfold taggedPart at h
  rw [lookup_insert_eq] at h
  split_ifs at h
  · obtain rfl := Option.some.inj h
    rfl
  · simp at h

theorem filterProperties_tagged (tags : List String) : letI := ReflectionDatabase.empty
    letI := FloatCmp.exact
    filterProperties none (taggedPart tags) = some [("Tags", .value (.tags tags))] := by
  let _ := ReflectionDatabase.empty
  let _ := FloatCmp.exact
  have hlist : toList (taggedPart tags).properties = [("Tags", .value (.tags tags))] := rfl
  have hskip : skipsProperty none "Part" "Tags" (.value (.tags tags)) = false := by
    simp [skipsProperty, shouldPropertySerialize_empty]
  unfold filterProperties
  rw [hlist]
  unfold filterLoop
  show (if skipsProperty none "Part" "Tags" (.value (.tags tags)) then some []
    else some [("Tags", Variant.value (.tags tags))]) = _
  rw [hskip]
  rfl

theorem hashInput_tagged (map : Map Ref (List UInt8)) (tags : List String) :
    letI := ReflectionDatabase.empty
    letI := FloatCmp.exact
    letI := Hashing.truncated
    hashInput none map (taggedPart tags) =
      some (asBytes "Part" ++ asBytes "Part" ++ (asBytes "Tags" ++ tagsBytes tags)) := by
  let _ := ReflectionDatabase.empty
  let _ := FloatCmp.exact
  let _ := Hashing.truncated
  have hbytes : hashInstFiltered none (taggedPart tags) =
      some (asBytes "Part" ++ asBytes "Part" ++ (asBytes "Tags" ++ tagsBytes tags)) := by
    unfold hashInstFiltered
    rw [filterProperties_tagged]
    show hashInstPrefilled (taggedPart tags) [("Tags", .value (.tags tags))] = _
    have hsort : sortProperties [("Tags", Variant.value (.tags tags))] =
        [("Tags", Variant.value (.tags tags))] := List.mergeSort_singleton _
    unfold hashInstPrefilled
    rw [hsort]
    show some (asBytes "Part" ++ asBytes "Part" ++ (asBytes "Tags" ++ tagsBytes tags ++ [])) = _
    rw [List.append_nil]
  unfold hashInput
  rw [hbytes]
  show some (_ ++ (List.mergeSort ([] : List (List UInt8)) (· ≤ ·)).flatten) = _
  rw [List.mergeSort_nil, List.flatten_nil, List.append_nil]

theorem exists_hashTree_tagged (tags : List String) : letI := ReflectionDatabase.empty
    letI := FloatCmp.exact
    letI := Hashing.truncated
    ∃ map, hashTree none (taggedDom tags) (Ref.some MapDom.firstFree) = some map := by
  let _ := ReflectionDatabase.empty
  let _ := FloatCmp.exact
  let _ := Hashing.truncated
  have horder : descendants (taggedDom tags) (Ref.some MapDom.firstFree) =
    some [Ref.some MapDom.firstFree] := rfl
  unfold hashTree
  rw [horder]
  show ∃ map, hashLoop none (taggedDom tags) [Ref.some MapDom.firstFree] ∅ = some map
  have hget : getByRef (taggedDom tags) (Ref.some MapDom.firstFree) = some (taggedPart tags) := rfl
  unfold hashLoop
  rw [hget]
  show ∃ map, ((hashInput none ∅ (taggedPart tags)).bind fun input => _) = some map
  rw [hashInput_tagged]
  exact ⟨_, rfl⟩

/-- Tags in another order feed the same bytes, and the two parts agree. -/
theorem agree_reordered : letI := ReflectionDatabase.empty
    letI := FloatCmp.exact
    letI := Hashing.truncated
    taggedPart ["b", "a"] ≠ taggedPart ["a", "b"] ∧
      (Agree Eq none (taggedPart ["b", "a"]) (taggedPart ["a", "b"]) ↔
        CutAlike none (taggedPart ["b", "a"]) (taggedPart ["a", "b"])) ∧
      Agree Eq none (taggedPart ["b", "a"]) (taggedPart ["a", "b"]) := by
  let _ := ReflectionDatabase.empty
  let _ := FloatCmp.exact
  let _ := Hashing.truncated
  have hsorted : ["b", "a"].mergeSort (fun s t : String => s ≤ t) =
      ["a", "b"].mergeSort (fun s t : String => s ≤ t) :=
    sort_eq_of_perm (List.Perm.swap "a" "b" [])
  have hne : taggedPart ["b", "a"] ≠ taggedPart ["a", "b"] := by
    intro heq
    have htags := congrArg (fun part => part.properties.lookup "Tags") heq
    exact absurd htags (by decide +kernel)
  obtain ⟨map, hmap⟩ := exists_hashTree_tagged ["b", "a"]
  obtain ⟨map', hmap'⟩ := exists_hashTree_tagged ["a", "b"]
  have hbytes : hashInput none map' (taggedPart ["a", "b"]) =
      hashInput none map (taggedPart ["b", "a"]) := by
    have htags : tagsBytes ["b", "a"] = tagsBytes ["a", "b"] := by
      unfold tagsBytes
      rw [hsorted]
    rw [hashInput_tagged, hashInput_tagged, htags]
  have hiff : Agree Eq none (taggedPart ["b", "a"]) (taggedPart ["a", "b"]) ↔
      CutAlike none (taggedPart ["b", "a"]) (taggedPart ["a", "b"]) :=
    agree_iff_cutAlike hmap hmap' (taggedPart_nonFloat _) (taggedPart_nonFloat _)
      (hashInput_tagged map _) (hbytes.trans (hashInput_tagged map _)) nofun
  refine ⟨hne, hiff, hiff.mpr ⟨rfl, rfl, _, _, filterProperties_tagged _,
    filterProperties_tagged _, ?_⟩⟩
  unfold sortProperties
  rw [List.mergeSort_singleton, List.mergeSort_singleton]
  exact ⟨rfl, .tags (congrArg _ hsorted), trivial⟩

/-- The tags `ab` and the tags `a` and `b` feed the same bytes to the hasher. -/
theorem not_agree_tagged : letI := ReflectionDatabase.empty
    letI := FloatCmp.exact
    letI := Hashing.truncated
    ¬ ∀ (dom dom' : MapDom) (referent referent' : Ref) (map map' : Map Ref (List UInt8))
      (x y : Instance) (bytes : List UInt8) (Same : Ref → Ref → Prop),
      hashTree none dom referent = some map → hashTree none dom' referent' = some map' →
      getByRef dom referent = some x → getByRef dom' referent' = some y →
      x.NonFloat → y.NonFloat → hashInput none map x = some bytes →
      hashInput none map' y = some bytes →
      (∀ c ∈ x.children, ∀ c' ∈ y.children, map.lookup c = map'.lookup c' ↔ Same c c') →
      Agree Same none x y := by
  let _ := ReflectionDatabase.empty
  let _ := FloatCmp.exact
  let _ := Hashing.truncated
  intro hall
  obtain ⟨map, hmap⟩ := exists_hashTree_tagged ["ab"]
  obtain ⟨map', hmap'⟩ := exists_hashTree_tagged ["a", "b"]
  have hbytes : hashInput none map' (taggedPart ["a", "b"]) =
      hashInput none map (taggedPart ["ab"]) := by
    have htags : tagsBytes ["a", "b"] = tagsBytes ["ab"] := by
      unfold tagsBytes
      rw [List.mergeSort_of_pairwise (by decide +kernel), List.mergeSort_singleton]
      decide +kernel
    rw [hashInput_tagged, hashInput_tagged, htags]
  have hagree := hall (taggedDom ["ab"]) (taggedDom ["a", "b"]) _ _ map map' (taggedPart ["ab"])
    (taggedPart ["a", "b"]) _ Eq hmap hmap' rfl rfl (taggedPart_nonFloat _) (taggedPart_nonFloat _)
    (hashInput_tagged map _) (hbytes.trans (hashInput_tagged map _)) nofun
  obtain ⟨p, q, hp, hq, hproperties⟩ := hagree.properties
  rw [filterProperties_tagged] at hp hq
  obtain rfl := Option.some.inj hp
  obtain rfl := Option.some.inj hq
  unfold sortProperties at hproperties
  rw [List.mergeSort_singleton, List.mergeSort_singleton, List.forall₂_cons] at hproperties
  exact absurd hproperties.1.2 (by decide +kernel)

end Roxo
