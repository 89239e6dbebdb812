import Roxo.Syncback.HashedInstances
import Roxo.Syncback.OldChildren

/-!
# Hashes of isomorphic subtrees

Properties and the hashes of children are sorted before they are fed to the hasher, and references
are not fed to it at all. So the hashes of a subtree depend neither on the order of children and
properties nor on the ids of the instances (`hashTree_of_isomorphic`).
-/

namespace Roxo

open AssocMap Forest WeakDom

/-! ## Sorting -/

theorem sortProperties_eq_of_perm {p q : List (String × Variant)} (hkeys : (p.map Prod.fst).Nodup)
    (h : p.Perm q) : sortProperties p = sortProperties q :=
  mergeSort_eq_of_perm (fun _ ha _ hb heq => List.inj_on_of_nodup_map hkeys ha hb heq) h

section Content

variable [ReflectionDatabase] [FloatCmp] {rules : Option SyncbackRules} {className : String}

/-! ## Properties -/

/-- The value stands for an instance by its id. -/
def Variant.isIdentity : Variant → Bool
  | .ref _ | .value (.uniqueId _) => true
  | _ => false

omit [FloatCmp] in
theorem skipsProperty_of_isIdentity {name : String} {value : Variant} (h : value.isIdentity = true) :
    skipsProperty rules className name value = true := by
  unfold Variant.isIdentity at h
  split at h
  · rfl
  · rfl
  · cases h

/-- What the filter does with one property. -/
def filterEntry (rules : Option SyncbackRules) (className : String) (e : String × Variant) :
    MayPanic Bool :=
  if skipsProperty rules className e.1 e.2 then some false
  else
    match defaultProperty className e.1 with
    | some default => (variantEq e.2 default).map not
    | none => some true

theorem filterLoop_cons {e : String × Variant} {properties : List (String × Variant)} :
    filterLoop rules className (e :: properties) =
      (filterLoop rules className properties).bind fun kept =>
        (filterEntry rules className e).map fun keep => if keep then e :: kept else kept := by
  rw [filterLoop]
  refine congrArg _ (funext fun kept => ?_)
  unfold filterEntry
  split_ifs
  · rfl
  · cases defaultProperty className e.1 with
    | none => rfl
    | some default =>
      cases hsame : variantEq e.2 default with
      | none => simp only [hsame]; rfl
      | some same => cases same <;> simp only [hsame] <;> rfl

/-- The filter keeps what it keeps of the properties in any order. -/
theorem filterLoop_perm {l l' p : List (String × Variant)} (h : l.Perm l')
    (hp : filterLoop rules className l = some p) :
    ∃ q, filterLoop rules className l' = some q ∧ p.Perm q := by
  induction h generalizing p with
  | nil => exact ⟨p, hp, .refl p⟩
  | cons e _ ih =>
    rw [filterLoop_cons] at hp ⊢
    obtain ⟨kept, hkept, hp⟩ := Option.bind_eq_some_iff.mp hp
    obtain ⟨keep, hkeep, rfl⟩ := Option.map_eq_some_iff.mp hp
    obtain ⟨kept', hkept', hperm⟩ := ih hkept
    rw [hkept', hkeep]
    refine ⟨_, rfl, ?_⟩
    cases keep with
    | true => exact hperm.cons e
    | false => exact hperm
  | swap e f l =>
    rw [filterLoop_cons, filterLoop_cons] at hp ⊢
    obtain ⟨between, hbetween, hp⟩ := Option.bind_eq_some_iff.mp hp
    obtain ⟨kept, hkept, hbetween⟩ := Option.bind_eq_some_iff.mp hbetween
    obtain ⟨keepE, hkeepE, rfl⟩ := Option.map_eq_some_iff.mp hbetween
    obtain ⟨keepF, hkeepF, rfl⟩ := Option.map_eq_some_iff.mp hp
    rw [hkept, hkeepE, hkeepF]
    refine ⟨_, rfl, ?_⟩
    cases keepE <;> cases keepF
    · exact .refl _
    · exact .refl _
    · exact .refl _
    · exact .swap _ _ _
  | trans _ _ ih ih' =>
    obtain ⟨q, hq, hpq⟩ := ih hp
    obtain ⟨r, hr, hqr⟩ := ih' hq
    exact ⟨r, hr, hpq.trans hqr⟩

/-- Ids are not kept. -/
theorem filterLoop_filter (l : List (String × Variant)) :
    filterLoop rules className (l.filter fun e => !e.2.isIdentity) =
      filterLoop rules className l := by
  induction l with
  | nil => rfl
  | cons e l ih =>
    rw [List.filter_cons]
    split_ifs with h
    · rw [filterLoop_cons, filterLoop_cons, ih]
    · rw [ih, filterLoop_cons, filterEntry, if_pos (skipsProperty_of_isIdentity ?_)]
      · cases filterLoop rules className l <;> rfl
      · simpa using h

theorem filterLoop_sublist {l p : List (String × Variant)}
    (h : filterLoop rules className l = some p) : p.Sublist l := by
  induction l generalizing p with
  | nil =>
    rw [← Option.some.inj h]
  | cons e l ih =>
    rw [filterLoop_cons] at h
    obtain ⟨kept, hkept, h⟩ := Option.bind_eq_some_iff.mp h
    obtain ⟨keep, -, rfl⟩ := Option.map_eq_some_iff.mp h
    cases keep with
    | true => exact (ih hkept).cons_cons e
    | false => exact (ih hkept).cons e

/-- The values are the same, or both stand for instances by their ids. -/
def SameUpToIds (v w : Option Variant) : Prop :=
  v = w ∨ ∃ a b, v = some a ∧ w = some b ∧ a.isIdentity = true ∧ b.isIdentity = true

omit [ReflectionDatabase] [FloatCmp] in
theorem perm_filter_toList {m m' : Map String Variant}
    (h : ∀ key, SameUpToIds (m.lookup key) (m'.lookup key)) :
    ((toList m).filter fun e => !e.2.isIdentity).Perm
      ((toList m').filter fun e => !e.2.isIdentity) := by
  have hnodup : ∀ m : Map String Variant, ((toList m).filter fun e => !e.2.isIdentity).Nodup :=
    fun m => (nodup_keys_toList m).of_map.filter _
  refine (List.perm_ext_iff_of_nodup (hnodup m) (hnodup m')).mpr fun e => ?_
  rw [List.mem_filter, List.mem_filter]
  refine and_congr_left fun he => ?_
  rw [Bool.not_eq_true'] at he
  obtain ⟨key, value⟩ := e
  rw [mem_toList, mem_toList]
  rcases h key with heq | ⟨a, b, ha, hb, hida, hidb⟩
  · rw [heq]
  · constructor
    · intro hlookup
      rw [ha, Option.some.injEq] at hlookup
      rw [hlookup, he] at hida
      cases hida
    · intro hlookup
      rw [hb, Option.some.injEq] at hlookup
      rw [hlookup, he] at hidb
      cases hidb

variable [Hashing] {x y : Instance}

/-- Instances that are the same but for their children, the order of their properties, and ids. -/
structure SameContent (x y : Instance) : Prop where
  name : x.name = y.name
  className : x.className = y.className
  properties : ∀ key, SameUpToIds (x.properties.lookup key) (y.properties.lookup key)

theorem hashInstFiltered_eq (h : SameContent x y) (hsome : (hashInstFiltered rules x).isSome) :
    hashInstFiltered rules y = hashInstFiltered rules x := by
  obtain ⟨bytes, hbytes⟩ := Option.isSome_iff_exists.mp hsome
  obtain ⟨p, hp, -⟩ := Option.bind_eq_some_iff.mp hbytes
  have hp' : filterLoop rules x.className
      ((toList x.properties).filter fun e => !e.2.isIdentity) = some p :=
    (filterLoop_filter _).trans hp
  obtain ⟨q, hq, hperm⟩ := filterLoop_perm (perm_filter_toList h.properties) hp'
  rw [filterLoop_filter, h.className] at hq
  have hkeys : (p.map Prod.fst).Nodup :=
    (nodup_keys_toList x.properties).sublist ((filterLoop_sublist hp).map _)
  have hprefilled : hashInstPrefilled y q = hashInstPrefilled x p := by
    rw [hashInstPrefilled, hashInstPrefilled, h.name, h.className,
      sortProperties_eq_of_perm hkeys hperm]
  calc hashInstFiltered rules y
      = (filterProperties rules y).bind (hashInstPrefilled y) := rfl
    _ = hashInstPrefilled y q := by rw [filterProperties, hq]; rfl
    _ = (filterProperties rules x).bind (hashInstPrefilled x) := by rw [hprefilled, hp]; rfl
    _ = hashInstFiltered rules x := rfl

omit [ReflectionDatabase] [FloatCmp] [Hashing] in
theorem SameContent.symm (h : SameContent x y) : SameContent y x := by
  refine ⟨h.name.symm, h.className.symm, fun key => ?_⟩
  rcases h.properties key with heq | ⟨a, b, ha, hb, hida, hidb⟩
  · exact .inl heq.symm
  · exact .inr ⟨b, a, hb, ha, hidb, hida⟩

theorem hashInstFiltered_congr (h : SameContent x y) :
    hashInstFiltered rules x = hashInstFiltered rules y := by
  cases hx : hashInstFiltered rules x with
  | some bytes => rw [hashInstFiltered_eq h (by rw [hx]; rfl), hx]
  | none =>
    cases hy : hashInstFiltered rules y with
    | none => rfl
    | some bytes =>
      have heq := hashInstFiltered_eq h.symm (by rw [hy]; rfl)
      rw [hx, hy] at heq
      exact heq

/-! ## The loop over the instances -/

section Loop

variable {D : Type} [WeakDom D] {dom : D} {order : List Ref} {map map' : Map Ref (List UInt8)}

/-- Every child comes before its parent, or was hashed before the loop. -/
def ChildrenFirst (dom : D) (hashed : Ref → Prop) (order : List Ref) : Prop :=
  ∀ before r after, order = before ++ r :: after → ∀ c ∈ kids dom r, c ∈ before ∨ hashed c

omit [ReflectionDatabase] [FloatCmp] [Hashing] in
theorem ChildrenFirst.tail {hashed : Ref → Prop} {r : Ref}
    (h : ChildrenFirst dom hashed (r :: order)) :
    ChildrenFirst dom (fun c => c = r ∨ hashed c) order := by
  intro before s after heq c hc
  rcases h (r :: before) s after (by rw [heq]; rfl) c hc with hmem | hhashed
  · rcases List.mem_cons.mp hmem with rfl | hmem
    · exact .inr (.inl rfl)
    · exact .inl hmem
  · exact .inr (.inr hhashed)

omit [ReflectionDatabase] [FloatCmp] [Hashing] in
theorem childHashes_isSome_iff {children : List Ref} :
    (childHashes map children).isSome ↔ ∀ c ∈ children, (map.lookup c).isSome := by
  induction children with
  | nil => exact ⟨fun _ => nofun, fun _ => rfl⟩
  | cons c children ih =>
    rw [List.forall_mem_cons, ← ih, childHashes]
    cases map.lookup c with
    | none => exact ⟨fun h => (Bool.false_ne_true h).elim, fun h => (Bool.false_ne_true h.1).elim⟩
    | some hash =>
      cases childHashes map children with
      | none => exact ⟨fun h => (Bool.false_ne_true h).elim, fun h => (Bool.false_ne_true h.2).elim⟩
      | some hashes => exact ⟨fun _ => ⟨rfl, rfl⟩, fun _ => rfl⟩

omit [ReflectionDatabase] [FloatCmp] [Hashing] in
theorem childHashes_map {f : Ref → Ref} {children : List Ref}
    (h : ∀ c ∈ children, map.lookup c = map'.lookup (f c)) :
    childHashes map children = childHashes map' (children.map f) := by
  induction children with
  | nil => rfl
  | cons c children ih =>
    rw [List.map_cons, childHashes, childHashes, h c List.mem_cons_self,
      ih fun c hc => h c (List.mem_cons_of_mem _ hc)]

omit [ReflectionDatabase] [FloatCmp] [Hashing] in
/-- The children in another order have the same hashes in another order. -/
theorem childHashes_perm {l l' : List Ref} {hashes : List (List UInt8)} (h : l.Perm l')
    (hhashes : childHashes map l = some hashes) :
    ∃ hashes', childHashes map l' = some hashes' ∧ hashes.Perm hashes' := by
  induction h generalizing hashes with
  | nil => exact ⟨hashes, hhashes, .refl _⟩
  | cons c _ ih =>
    obtain ⟨hash, hhash, hhashes⟩ := Option.bind_eq_some_iff.mp hhashes
    obtain ⟨rest, hrest, hhashes⟩ := Option.bind_eq_some_iff.mp hhashes
    obtain ⟨rest', hrest', hperm⟩ := ih hrest
    refine ⟨hash :: rest', ?_, Option.some.inj hhashes ▸ hperm.cons hash⟩
    rw [childHashes, hhash, hrest']
    rfl
  | swap c d l =>
    obtain ⟨hashD, hd, hhashes⟩ := Option.bind_eq_some_iff.mp hhashes
    obtain ⟨rest, hrest, hhashes⟩ := Option.bind_eq_some_iff.mp hhashes
    obtain ⟨hashC, hc, hrest⟩ := Option.bind_eq_some_iff.mp hrest
    obtain ⟨rest', hrest', hrest⟩ := Option.bind_eq_some_iff.mp hrest
    refine ⟨hashC :: hashD :: rest', ?_, ?_⟩
    · rw [childHashes, childHashes, hc, hd, hrest']
      rfl
    · rw [← Option.some.inj hhashes, ← Option.some.inj hrest]
      exact .swap _ _ _
  | trans _ _ ih ih' =>
    obtain ⟨hashes₁, h₁, hperm₁⟩ := ih hhashes
    obtain ⟨hashes₂, h₂, hperm₂⟩ := ih' h₁
    exact ⟨hashes₂, h₂, hperm₁.trans hperm₂⟩

/-- What the loop leaves in the map: what was there, and for each instance the hash of what is fed
for it with the final map. -/
structure HashedBy (rules : Option SyncbackRules) (dom : D) (order : List Ref)
    (map map' : Map Ref (List UInt8)) : Prop where
  before : ∀ r, r ∉ order → map'.lookup r = map.lookup r
  hashed : ∀ r ∈ order, ∃ inst input, getByRef dom r = some inst ∧
    hashInput rules map' inst = some input ∧ map'.lookup r = some (Hashing.finalize input)

/-- The bytes fed for an instance, where the hashes of its children are known. -/
theorem hashInput_isSome_iff {inst : Instance} :
    (hashInput rules map inst).isSome ↔
      (hashInstFiltered rules inst).isSome ∧ (childHashes map inst.children).isSome := by
  unfold hashInput
  cases hashInstFiltered rules inst with
  | none => exact ⟨fun h => (Bool.false_ne_true h).elim, fun h => (Bool.false_ne_true h.1).elim⟩
  | some bytes =>
    cases childHashes map inst.children with
    | none => exact ⟨fun h => (Bool.false_ne_true h).elim, fun h => (Bool.false_ne_true h.2).elim⟩
    | some hashes => exact ⟨fun _ => ⟨rfl, rfl⟩, fun _ => rfl⟩

/-- The loop returns unless the data of an instance cannot be hashed: the children of an instance
are hashed before it. -/
theorem exists_hashLoop (hnodup : order.Nodup)
    (hfirst : ChildrenFirst dom (fun c => (map.lookup c).isSome) order)
    (hdata : ∀ r ∈ order, ∃ inst, getByRef dom r = some inst ∧
      (hashInstFiltered rules inst).isSome) :
    ∃ map', hashLoop rules dom order map = some map' := by
  induction order generalizing map with
  | nil => exact ⟨map, rfl⟩
  | cons r order ih =>
    obtain ⟨inst, hinst, hbytes⟩ := hdata r List.mem_cons_self
    have hchildren : (childHashes map inst.children).isSome := by
      refine childHashes_isSome_iff.mpr fun c hc => ?_
      rcases hfirst [] r order rfl c (by rwa [kids_eq hinst]) with hmem | hhashed
      · cases hmem
      · exact hhashed
    obtain ⟨input, hinput⟩ := Option.isSome_iff_exists.mp
      (hashInput_isSome_iff.mpr ⟨hbytes, hchildren⟩)
    have hlater : ChildrenFirst dom
        (fun c => ((map.insert r (Hashing.finalize input)).lookup c).isSome) order := by
      intro before s after heq c hc
      have hlookup := lookup_insert_eq map r c (Hashing.finalize input)
      rcases hfirst.tail before s after heq c hc with hmem | hself | hhashed
      · exact .inl hmem
      · rw [if_pos hself] at hlookup
        exact .inr (Option.isSome_iff_exists.mpr ⟨_, hlookup⟩)
      · refine .inr (Option.isSome_iff_ne_none.mpr fun hnone => ?_)
        rw [hlookup] at hnone
        split_ifs at hnone
        rw [hnone] at hhashed
        cases hhashed
    obtain ⟨map', hmap'⟩ := ih hnodup.of_cons hlater
      fun r hr => hdata r (List.mem_cons_of_mem _ hr)
    refine ⟨map', ?_⟩
    rw [hashLoop, hinst]
    change (hashInput rules map inst).bind _ = _
    rw [hinput]
    exact hmap'

theorem hashLoop_hashedBy (hnodup : order.Nodup)
    (hfirst : ChildrenFirst dom (fun c => c ∉ order) order)
    (h : hashLoop rules dom order map = some map') : HashedBy rules dom order map map' := by
  induction order generalizing map with
  | nil =>
    rw [← Option.some.inj h]
    exact ⟨fun _ _ => rfl, nofun⟩
  | cons r order ih =>
    obtain ⟨inst, hinst, h⟩ := Option.bind_eq_some_iff.mp h
    obtain ⟨input, hinput, h⟩ := Option.bind_eq_some_iff.mp h
    obtain ⟨hr, hnodup⟩ := List.nodup_cons.mp hnodup
    have hlater : ChildrenFirst dom (fun c => c ∉ order) order := by
      intro before s after heq c hc
      rcases hfirst.tail before s after heq c hc with hmem | rfl | hout
      · exact .inl hmem
      · exact .inr hr
      · exact .inr fun hmem => hout (List.mem_cons_of_mem _ hmem)
    obtain ⟨hbefore, hhashed⟩ := ih hnodup hlater h
    have hself : map'.lookup r = some (Hashing.finalize input) := by
      rw [hbefore r hr, lookup_insert_eq, if_pos rfl]
    refine ⟨fun s hs => ?_, fun s hs => ?_⟩
    · obtain ⟨hne, hs⟩ := not_or.mp (List.mem_cons.not.mp hs)
      rw [hbefore s hs, lookup_insert_eq, if_neg hne]
    · rcases List.mem_cons.mp hs with rfl | hs
      · refine ⟨inst, input, hinst, ?_, hself⟩
        have hchildren : childHashes map inst.children =
            childHashes map' (inst.children.map id) := by
          refine childHashes_map fun c hc => ?_
          rcases hfirst [] s order rfl c (by rwa [kids_eq hinst]) with hmem | hout
          · cases hmem
          · obtain ⟨hne, hc⟩ := not_or.mp (List.mem_cons.not.mp hout)
            rw [id_eq, hbefore c hc, lookup_insert_eq, if_neg hne]
        rw [List.map_id] at hchildren
        rw [← hinput, hashInput, hashInput, hchildren]
      · exact hhashed s hs

/-! ## Subtrees -/

variable [FiniteWeakDom D] [LawfulWeakDom D] {root : Ref}

omit [ReflectionDatabase] [FloatCmp] [Hashing] in
/-- The order of the loop: the children of an instance come before it. -/
theorem childrenFirst_walk {i : Instance} (hroot : getByRef dom root = some i)
    (hashed : Ref → Prop) : ChildrenFirst dom hashed (walk dom root).reverse := by
  intro before r after heq c hc
  have hwalk : walk dom root = after.reverse ++ r :: before.reverse := by
    rw [← List.reverse_reverse (walk dom root), heq, List.reverse_append, List.reverse_cons,
      List.append_assoc, List.singleton_append]
  exact .inl (List.mem_reverse.mp (mem_of_bfs_eq (walk_length_lt hroot) hwalk hc))

theorem hashTree_eq {i : Instance} (hroot : getByRef dom root = some i) :
    hashTree rules dom root = hashLoop rules dom (walk dom root).reverse ∅ := by
  unfold hashTree
  rw [descendants_eq hroot]
  rfl

/-- Hashing a subtree fails only if the data of an instance in it cannot be hashed. -/
theorem hashTree_isSome_iff {i : Instance} (hroot : getByRef dom root = some i) :
    (hashTree rules dom root).isSome ↔ ∀ r, Desc (kids dom) root r → ∃ inst,
      getByRef dom r = some inst ∧ (hashInstFiltered rules inst).isSome := by
  rw [hashTree_eq hroot]
  constructor
  · intro h r hr
    obtain ⟨map, hmap⟩ := Option.isSome_iff_exists.mp h
    obtain ⟨inst, input, hinst, hinput, -⟩ := (hashLoop_hashedBy
      (List.nodup_reverse.mpr (nodup_walk dom root)) (childrenFirst_walk hroot _) hmap).hashed r
        (List.mem_reverse.mpr ((mem_walk hroot).mpr hr))
    exact ⟨inst, hinst, (hashInput_isSome_iff.mp (by rw [hinput]; rfl)).1⟩
  · intro h
    obtain ⟨map, hmap⟩ := exists_hashLoop (List.nodup_reverse.mpr (nodup_walk dom root))
      (childrenFirst_walk hroot fun c => ((∅ : Map Ref (List UInt8)).lookup c).isSome)
      fun r hr => h r ((mem_walk hroot).mp (List.mem_reverse.mp hr))
    rw [hmap]
    rfl

/-- Every instance of the subtree gets a hash. -/
theorem hashTree_hashed {i : Instance} {map : Map Ref (List UInt8)} {r : Ref}
    (hroot : getByRef dom root = some i) (hmap : hashTree rules dom root = some map)
    (hr : Desc (kids dom) root r) : ∃ hash, map.lookup r = some hash := by
  rw [hashTree_eq hroot] at hmap
  obtain ⟨inst, input, -, -, hlookup⟩ := (hashLoop_hashedBy
    (List.nodup_reverse.mpr (nodup_walk dom root)) (childrenFirst_walk hroot _) hmap).hashed r
      (List.mem_reverse.mpr ((mem_walk hroot).mpr hr))
  exact ⟨_, hlookup⟩

variable {D' : Type} [WeakDom D'] [FiniteWeakDom D'] [LawfulWeakDom D'] {dom' : D'} {root' : Ref}

/-- A bijection between two subtrees that keeps names, classes, properties and the children in any
order. Properties may hold other ids. -/
structure Isomorphic (dom : D) (root : Ref) (dom' : D') (root' : Ref) (f : Ref → Ref) : Prop where
  bijOn : Set.BijOn f {r | Desc (kids dom) root r} {r | Desc (kids dom') root' r}
  content : ∀ r x y, Desc (kids dom) root r → getByRef dom r = some x →
    getByRef dom' (f r) = some y → SameContent x y
  children : ∀ r, Desc (kids dom) root r → ((kids dom r).map f).Perm (kids dom' (f r))

/-- One of the two subtrees can be hashed if the other can. -/
theorem Isomorphic.isSome_iff {f : Ref → Ref} {i j : Instance}
    (h : Isomorphic dom root dom' root' f) (hroot : getByRef dom root = some i)
    (hroot' : getByRef dom' root' = some j) :
    (hashTree rules dom root).isSome ↔ (hashTree rules dom' root').isSome := by
  rw [hashTree_isSome_iff hroot, hashTree_isSome_iff hroot']
  constructor
  · intro hdata r' hr'
    obtain ⟨r, hr, rfl⟩ := h.bijOn.surjOn hr'
    obtain ⟨x, hx, hsome⟩ := hdata r hr
    obtain ⟨y, hy⟩ := present_of_desc hroot' hr'
    refine ⟨y, hy, ?_⟩
    rwa [← hashInstFiltered_congr (h.content r x y hr hx hy)]
  · intro hdata r hr
    obtain ⟨y, hy, hsome⟩ := hdata (f r) (h.bijOn.mapsTo hr)
    obtain ⟨x, hx⟩ := present_of_desc hroot hr
    refine ⟨x, hx, ?_⟩
    rwa [hashInstFiltered_congr (h.content r x y hr hx hy)]

/-- Corresponding instances feed the same bytes if their children have the same hashes. -/
theorem hashInput_eq {f : Ref → Ref} {x y : Instance} {input input' : List UInt8}
    (hcontent : SameContent x y) (hchildren : (x.children.map f).Perm y.children)
    (hsame : ∀ c ∈ x.children, map.lookup c = map'.lookup (f c))
    (hx : hashInput rules map x = some input) (hy : hashInput rules map' y = some input') :
    input = input' := by
  obtain ⟨bytes, hbytes, hx⟩ := Option.bind_eq_some_iff.mp hx
  obtain ⟨hashes, hhashes, hx⟩ := Option.bind_eq_some_iff.mp hx
  obtain ⟨bytes', hbytes', hy⟩ := Option.bind_eq_some_iff.mp hy
  obtain ⟨hashes', hhashes', hy⟩ := Option.bind_eq_some_iff.mp hy
  rw [hashInstFiltered_congr hcontent, hbytes', Option.some.injEq] at hbytes
  rw [childHashes_map hsame] at hhashes
  obtain ⟨hashes'', hhashes'', hperm⟩ := childHashes_perm hchildren hhashes
  rw [hhashes', Option.some.injEq] at hhashes''
  rw [← Option.some.inj hx, ← Option.some.inj hy, hbytes, hhashes'', sort_eq_of_perm hperm]

/-- Corresponding instances of isomorphic subtrees have the same hash. -/
theorem Isomorphic.lookup_eq {f : Ref → Ref} {i j : Instance}
    (h : Isomorphic dom root dom' root' f) (hroot : getByRef dom root = some i)
    (hroot' : getByRef dom' root' = some j) (hmap : hashTree rules dom root = some map)
    (hmap' : hashTree rules dom' root' = some map') {r : Ref} (hr : Desc (kids dom) root r) :
    ∃ hash, map.lookup r = some hash ∧ map'.lookup (f r) = some hash := by
  rw [hashTree_eq hroot] at hmap
  rw [hashTree_eq hroot'] at hmap'
  have hhashed := (hashLoop_hashedBy (List.nodup_reverse.mpr (nodup_walk dom root))
    (childrenFirst_walk hroot _) hmap).hashed
  have hhashed' := (hashLoop_hashedBy (List.nodup_reverse.mpr (nodup_walk dom' root'))
    (childrenFirst_walk hroot' _) hmap').hashed
  -- by induction on how much of the order is done: the children are in what is done
  have hdone : ∀ before, before <+: (walk dom root).reverse → ∀ r ∈ before,
      ∃ hash, map.lookup r = some hash ∧ map'.lookup (f r) = some hash := by
    intro before
    induction before using List.reverseRecOn with
    | nil => exact fun _ => nofun
    | append_singleton before r ih =>
      rintro ⟨after, horder⟩ s hs
      have hprefix : before <+: (walk dom root).reverse :=
        ⟨r :: after, by rw [← horder, List.append_assoc, List.singleton_append]⟩
      rcases List.mem_append.mp hs with hs | hs
      · exact ih hprefix s hs
      · rw [List.mem_singleton.mp hs]
        have hmem : r ∈ (walk dom root).reverse := by
          rw [← horder]
          exact List.mem_append_left _ (List.mem_append_right _ List.mem_cons_self)
        have hr : Desc (kids dom) root r := (mem_walk hroot).mp (List.mem_reverse.mp hmem)
        have hr' : f r ∈ (walk dom' root').reverse :=
          List.mem_reverse.mpr ((mem_walk hroot').mpr (h.bijOn.mapsTo hr))
        obtain ⟨x, input, hx, hinput, hlookup⟩ := hhashed r hmem
        obtain ⟨y, input', hy, hinput', hlookup'⟩ := hhashed' (f r) hr'
        have hchildren : (x.children.map f).Perm y.children := by
          rw [← kids_eq hx, ← kids_eq hy]
          exact h.children r hr
        have hsame : ∀ c ∈ x.children, map.lookup c = map'.lookup (f c) := by
          intro c hc
          rw [← kids_eq hx] at hc
          rw [List.append_assoc, List.singleton_append] at horder
          rcases childrenFirst_walk hroot (fun _ => False) before r after horder.symm c hc with
            hdone | hfalse
          · obtain ⟨hash, hc, hc'⟩ := ih hprefix c hdone
            rw [hc, hc']
          · exact hfalse.elim
        refine ⟨_, hlookup, ?_⟩
        rw [hlookup', hashInput_eq (h.content r x y hr hx hy) hchildren hsame hinput hinput']
  exact hdone _ List.prefix_rfl r (List.mem_reverse.mpr ((mem_walk hroot).mpr hr))

/-- **The hashes of a subtree depend on neither order nor ids, and no child is hashed after its
parent.** Every instance gets a hash, unless the data of one cannot be hashed. -/
theorem hashTree_of_isomorphic (rules : Option SyncbackRules) (dom : D) (root : Ref) {i : Instance}
    (hroot : getByRef dom root = some i) :
    ((hashTree rules dom root).isSome ↔ ∀ r, Desc (kids dom) root r → ∃ inst,
      getByRef dom r = some inst ∧ (hashInstFiltered rules inst).isSome) ∧
    (∀ map, hashTree rules dom root = some map →
      ∀ r, Desc (kids dom) root r → ∃ hash, map.lookup r = some hash) ∧
    (∃ order, descendants dom root = some order ∧
      ∀ before r after, order.reverse = before ++ r :: after →
        (∀ c ∈ kids dom r, c ∈ before) ∧ ∀ map, hashLoop rules dom before ∅ = some map →
          childHashes map (kids dom r) ≠ none) ∧
    ∀ (dom' : D') (root' : Ref) (j : Instance) (f : Ref → Ref), getByRef dom' root' = some j →
      Isomorphic dom root dom' root' f →
      ((hashTree rules dom root).isSome ↔ (hashTree rules dom' root').isSome) ∧
      ∀ map map', hashTree rules dom root = some map → hashTree rules dom' root' = some map' →
        ∀ r, Desc (kids dom) root r →
          ∃ hash, map.lookup r = some hash ∧ map'.lookup (f r) = some hash := by
  refine ⟨hashTree_isSome_iff hroot, fun map hmap r hr => hashTree_hashed hroot hmap hr,
    ⟨_, descendants_eq hroot, fun before r after horder => ?_⟩,
    fun dom' root' j f hroot' h => ⟨h.isSome_iff hroot hroot',
      fun map map' hmap hmap' r hr => h.lookup_eq hroot hroot' hmap hmap' hr⟩⟩
  have hfirst : ∀ c ∈ kids dom r, c ∈ before := fun c hc =>
    (childrenFirst_walk hroot (fun _ => False) before r after horder c hc).elim id False.elim
  refine ⟨hfirst, fun map hmap => ?_⟩
  have hnodup : before.Nodup := by
    have := List.nodup_reverse.mpr (nodup_walk dom root)
    rw [horder] at this
    exact this.of_append_left
  have hbefore : ChildrenFirst dom (fun c => c ∉ before) before := by
    intro front s back heq c hc
    refine .inl ((childrenFirst_walk hroot (fun _ => False) front s (back ++ r :: after) ?_ c
      hc).elim id False.elim)
    rw [horder, heq, List.append_assoc, List.cons_append]
  rw [← Option.isSome_iff_ne_none, childHashes_isSome_iff]
  intro c hc
  obtain ⟨inst, input, -, -, hlookup⟩ :=
    (hashLoop_hashedBy hnodup hbefore hmap).hashed c (hfirst c hc)
  rw [hlookup]
  rfl

end Loop

end Content

/-! ## Two folders with the same children -/

/-- The children are exchanged. -/
def exchange (r : Ref) : Ref :=
  if r = Ref.some 100 then Ref.some 101 else if r = Ref.some 101 then Ref.some 100 else r

theorem isomorphic_exchanged : Isomorphic (folderOf ["A", "B"]) (rootRef (folderOf ["A", "B"]))
    (folderOf ["B", "A"]) (rootRef (folderOf ["B", "A"])) exchange := by
  have hmem : ∀ r, Desc (kids (folderOf ["A", "B"])) (rootRef (folderOf ["A", "B"])) r ↔
      r ∈ [Ref.some 0, Ref.some 100, Ref.some 101] := by
    intro r
    obtain ⟨i, hi, -⟩ := LawfulWeakDom.root_spec (folderOf ["A", "B"])
    rw [← mem_walk hi, show walk (folderOf ["A", "B"]) (rootRef (folderOf ["A", "B"])) =
      [Ref.some 0, Ref.some 100, Ref.some 101] by decide +kernel]
  have hmem' : ∀ r, Desc (kids (folderOf ["B", "A"])) (rootRef (folderOf ["B", "A"])) r ↔
      r ∈ [Ref.some 0, Ref.some 100, Ref.some 101] := by
    intro r
    obtain ⟨i, hi, -⟩ := LawfulWeakDom.root_spec (folderOf ["B", "A"])
    rw [← mem_walk hi, show walk (folderOf ["B", "A"]) (rootRef (folderOf ["B", "A"])) =
      [Ref.some 0, Ref.some 100, Ref.some 101] by decide +kernel]
  have hsame : ∀ r ∈ [Ref.some 0, Ref.some 100, Ref.some 101],
      (getByRef (folderOf ["A", "B"]) r).map (fun x => (x.name, x.className, x.properties)) =
        (getByRef (folderOf ["B", "A"]) (exchange r)).map
          (fun x => (x.name, x.className, x.properties)) := by
    intro r hr
    simp only [List.mem_cons, List.not_mem_nil, or_false] at hr
    rcases hr with rfl | rfl | rfl <;> rfl
  have hback : ∀ r, exchange (exchange r) = r := by
    intro r
    unfold exchange
    split_ifs <;> simp_all
  have hin : ∀ r ∈ [Ref.some 0, Ref.some 100, Ref.some 101],
      exchange r ∈ [Ref.some 0, Ref.some 100, Ref.some 101] := by decide
  refine ⟨⟨fun r hr => (hmem' _).mpr (hin r ((hmem r).mp hr)), fun r _ s _ heq => ?_,
    fun r hr => ⟨exchange r, (hmem _).mpr (hin r ((hmem' r).mp hr)), hback r⟩⟩, ?_, ?_⟩
  · rw [← hback r, ← hback s, heq]
  · intro r x y hr hx hy
    have heq := hsame r ((hmem r).mp hr)
    rw [hx, hy, Option.map_some, Option.map_some, Option.some.injEq, Prod.mk.injEq,
      Prod.mk.injEq] at heq
    obtain ⟨hname, hclass, hproperties⟩ := heq
    exact ⟨hname, hclass, fun key => .inl (by rw [hproperties])⟩
  · intro r hr
    have hperm : ∀ r ∈ [Ref.some 0, Ref.some 100, Ref.some 101],
        ((kids (folderOf ["A", "B"]) r).map exchange).Perm
          (kids (folderOf ["B", "A"]) (exchange r)) := by decide +kernel
    exact hperm r ((hmem r).mp hr)

/-- The two folders get the same hash, although their children stand in another order. -/
theorem hashTree_exchanged : letI := ReflectionDatabase.empty
    letI := FloatCmp.exact
    letI := Hashing.truncated
    ∃ map map' hash, hashTree none (folderOf ["A", "B"]) (rootRef (folderOf ["A", "B"])) =
        some map ∧
      hashTree none (folderOf ["B", "A"]) (rootRef (folderOf ["B", "A"])) = some map' ∧
      map.lookup (Ref.some 0) = some hash ∧ map'.lookup (Ref.some 0) = some hash := by
  let _ := ReflectionDatabase.empty
  let _ := FloatCmp.exact
  let _ := Hashing.truncated
  obtain ⟨i, hi, -⟩ := LawfulWeakDom.root_spec (folderOf ["A", "B"])
  obtain ⟨j, hj, -⟩ := LawfulWeakDom.root_spec (folderOf ["B", "A"])
  obtain ⟨-, -, -, hiso⟩ := @hashTree_of_isomorphic _ _ _ MapDom _ _ _ MapDom _ _ _
    none (folderOf ["A", "B"]) _ _ hi
  obtain ⟨hboth, hequal⟩ := hiso _ _ j exchange hj isomorphic_exchanged
  have hsome : (hashTree none (folderOf ["A", "B"]) (rootRef (folderOf ["A", "B"]))).isSome := by
    decide +kernel
  obtain ⟨map, hmap⟩ := Option.isSome_iff_exists.mp hsome
  obtain ⟨map', hmap'⟩ := Option.isSome_iff_exists.mp (hboth.mp hsome)
  obtain ⟨hash, hhash, hhash'⟩ := hequal map map' hmap hmap' (Ref.some 0) .refl
  exact ⟨map, map', hash, hmap, hmap', hhash, hhash'⟩

end Roxo
