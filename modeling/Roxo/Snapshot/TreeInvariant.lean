import Roxo.Snapshot.Tree

/-!
# The invariant of the tree

The metadata map has exactly the instances of the DOM as its keys, and each of the two indexes
holds exactly the pairs that the metadata gives. Both indexes are instances of one notion,
`IsIndex`, so each mutator is checked once for either.
-/

namespace Roxo

open AssocMap WeakDom Forest

/-! ## Indexes -/

section Index

variable {K : Type} [DecidableEq K] {keysOf : InstanceMetadata → List K}
  {metadata : Map Ref InstanceMetadata} {index : MultiMap K Ref} {id x : Ref} {k : K}
  {m old : InstanceMetadata} {keys : List K}

theorem mem_get_foldl_insert :
    x ∈ (keys.foldl (fun m k => m.insert k id) index).get k ↔
      x ∈ index.get k ∨ k ∈ keys ∧ x = id := by
  induction keys generalizing index with
  | nil => simp only [List.foldl_nil, List.not_mem_nil, false_and, or_false]
  | cons l keys ih =>
    rw [List.foldl_cons, ih, MultiMap.mem_get_insert, List.mem_cons, or_assoc, ← or_and_right]

theorem mem_get_foldl_remove :
    x ∈ (keys.foldl (fun m k => (m.remove k id).2) index).get k ↔
      x ∈ index.get k ∧ ¬ (k ∈ keys ∧ x = id) := by
  induction keys generalizing index with
  | nil => simp only [List.foldl_nil, List.not_mem_nil, false_and, not_false_eq_true, and_true]
  | cons l keys ih =>
    rw [List.foldl_cons, ih, MultiMap.mem_get_remove, List.mem_cons, and_assoc, or_and_right,
      not_or]

/-- The index holds an id under the keys that its metadata gives it, and under no others. -/
def IsIndex (keysOf : InstanceMetadata → List K) (metadata : Map Ref InstanceMetadata)
    (index : MultiMap K Ref) : Prop :=
  ∀ k x, x ∈ index.get k ↔ ∃ m, metadata.lookup x = some m ∧ k ∈ keysOf m

/-- New metadata for an id whose entries in the index are right. -/
theorem IsIndex.insert (h : IsIndex keysOf metadata index) {index' : MultiMap K Ref}
    (hother : ∀ k x, x ≠ id → (x ∈ index'.get k ↔ x ∈ index.get k))
    (hid : ∀ k, id ∈ index'.get k ↔ k ∈ keysOf m) :
    IsIndex keysOf (metadata.insert id m) index' := by
  intro k x
  rw [lookup_insert_eq]
  by_cases hx : x = id
  · subst hx
    rw [hid, if_pos rfl]
    simp only [Option.some.injEq, exists_eq_left']
  · rw [hother k x hx, if_neg hx, h k x]

theorem IsIndex.erase (h : IsIndex keysOf metadata index) (hm : metadata.lookup id = some m) :
    IsIndex keysOf (metadata.erase id)
      ((keysOf m).foldl (fun m k => (m.remove k id).2) index) := by
  intro k x
  rw [mem_get_foldl_remove, lookup_erase_eq, h k x]
  by_cases hx : x = id
  · subst hx
    simp only [hm, Option.some.injEq, exists_eq_left', and_true, and_not_self, if_true,
      reduceCtorEq, false_and, exists_false]
  · simp only [hx, and_false, not_false_eq_true, and_true, if_false]

/-- An id that had no metadata gets its entries. -/
theorem IsIndex.insertNew (h : IsIndex keysOf metadata index) (hm : metadata.lookup id = none) :
    IsIndex keysOf (metadata.insert id m)
      ((keysOf m).foldl (fun i k => i.insert k id) index) := by
  refine h.insert (fun k x hx => ?_) fun k => ?_
  · rw [mem_get_foldl_insert]
    simp only [hx, and_false, or_false]
  · rw [mem_get_foldl_insert, h k id, hm]
    simp only [reduceCtorEq, false_and, exists_false, and_true, false_or]

theorem IsIndex.mem_iff (h : IsIndex keysOf metadata index) (hm : metadata.lookup id = some m) :
    id ∈ index.get k ↔ k ∈ keysOf m := by
  rw [h k id, hm]
  simp only [Option.some.injEq, exists_eq_left']

/-- Moving an id from one list of keys to another. -/
theorem IsIndex.replace (h : IsIndex keysOf metadata index) (hid : metadata.lookup id = some old) :
    IsIndex keysOf (metadata.insert id m)
      ((keysOf m).foldl (fun i k => i.insert k id)
        ((keysOf old).foldl (fun i k => (i.remove k id).2) index)) := by
  refine h.insert (fun k x hx => ?_) fun k => ?_
  · rw [mem_get_foldl_insert, mem_get_foldl_remove]
    simp only [hx, and_false, not_false_eq_true, and_true, or_false]
  · rw [mem_get_foldl_insert, mem_get_foldl_remove, h.mem_iff hid]
    simp only [and_true, and_not_self, false_or]

/-- New metadata with the same keys. -/
theorem IsIndex.same (h : IsIndex keysOf metadata index) (hid : metadata.lookup id = some old)
    (hk : keysOf m = keysOf old) : IsIndex keysOf (metadata.insert id m) index :=
  h.insert (fun _ _ _ => Iff.rfl) fun k => by rw [h.mem_iff hid, hk]

end Index

/-- The keys of an instance in the index of user-specified ids. -/
def specifiedIds (m : InstanceMetadata) : List RojoRef := m.specifiedId.toList

theorem mem_specifiedIds {m : InstanceMetadata} {r : RojoRef} :
    r ∈ specifiedIds m ↔ m.specifiedId = some r := by
  unfold specifiedIds
  exact Option.mem_toList

namespace RojoTree

variable {D : Type} [WeakDom D] {tree tree' : RojoTree D} {id x y : Ref}

/-- The two indexes agree with the metadata. -/
structure Indexed (tree : RojoTree D) : Prop where
  paths : IsIndex InstanceMetadata.relevantPaths tree.metadataMap tree.pathToIds
  specifiedIds : IsIndex specifiedIds tree.metadataMap tree.specifiedIdToRefs

/-- **The representation invariant.** -/
structure Inv (tree : RojoTree D) : Prop extends Indexed tree where
  keys : ∀ x, x ∈ tree.metadataMap ↔ (getByRef tree.inner x).isSome

section

omit [WeakDom D]

theorem insertMetadata_eq (hid : tree.metadataMap.lookup id = none) (m : InstanceMetadata) :
    tree.insertMetadata id m =
      { tree with
        metadataMap := tree.metadataMap.insert id m
        pathToIds := m.relevantPaths.foldl (fun i path => i.insert path id) tree.pathToIds
        specifiedIdToRefs :=
          (specifiedIds m).foldl (fun i r => i.insert r id) tree.specifiedIdToRefs } := by
  unfold insertMetadata specifiedIds
  cases m.specifiedId with
  | none => rfl
  | some r =>
    unfold setSpecifiedId
    dsimp only
    rw [hid]
    rfl

theorem Indexed.insertMetadata (h : Indexed tree) (hid : tree.metadataMap.lookup id = none)
    (m : InstanceMetadata) : Indexed (tree.insertMetadata id m) := by
  rw [insertMetadata_eq hid]
  exact ⟨h.paths.insertNew hid, h.specifiedIds.insertNew hid⟩

theorem removeMetadata_eq {m : InstanceMetadata} (hid : tree.metadataMap.lookup id = some m) :
    tree.removeMetadata id = some
      { tree with
        metadataMap := tree.metadataMap.erase id
        pathToIds := m.relevantPaths.foldl (fun i path => (i.remove path id).2) tree.pathToIds
        specifiedIdToRefs :=
          (specifiedIds m).foldl (fun i r => (i.remove r id).2) tree.specifiedIdToRefs } := by
  unfold removeMetadata specifiedIds
  rw [hid]
  simp only [Option.bind_eq_bind, Option.bind_some]
  cases m.specifiedId <;> rfl

/-- Removing the metadata of an id touches nothing else. -/
theorem Indexed.removeMetadata (h : Indexed tree) (hid : id ∈ tree.metadataMap) :
    ∃ tree', tree.removeMetadata id = some tree' ∧ Indexed tree' ∧ tree'.inner = tree.inner ∧
      tree'.metadataMap = tree.metadataMap.erase id := by
  obtain ⟨m, hm⟩ := Option.isSome_iff_exists.mp (AList.lookup_isSome.mpr hid)
  exact ⟨_, removeMetadata_eq hm, ⟨h.paths.erase hm, h.specifiedIds.erase hm⟩, rfl, rfl⟩

/-- The metadata with another user-specified id. -/
def withSpecifiedId (m : InstanceMetadata) (r : RojoRef) : InstanceMetadata :=
  { m with specifiedId := some r }

theorem setSpecifiedId_eq {m : InstanceMetadata} (hid : tree.metadataMap.lookup id = some m)
    (r : RojoRef) :
    tree.setSpecifiedId id r =
      { tree with
        metadataMap := tree.metadataMap.insert id (withSpecifiedId m r)
        specifiedIdToRefs :=
          ((specifiedIds m).foldl (fun i r => (i.remove r id).2) tree.specifiedIdToRefs).insert
            r id } := by
  unfold setSpecifiedId specifiedIds
  rw [hid]
  dsimp only
  cases m.specifiedId <;> rfl

theorem Indexed.setSpecifiedId (h : Indexed tree) (hid : id ∈ tree.metadataMap) (r : RojoRef) :
    Indexed (tree.setSpecifiedId id r) := by
  obtain ⟨m, hm⟩ := Option.isSome_iff_exists.mp (AList.lookup_isSome.mpr hid)
  rw [setSpecifiedId_eq hm]
  refine ⟨h.paths.same hm rfl, h.specifiedIds.insert (fun k x hx => ?_) fun k => ?_⟩
  · rw [MultiMap.mem_get_insert, mem_get_foldl_remove]
    simp only [hx, and_false, not_false_eq_true, and_true, or_false]
  · rw [MultiMap.mem_get_insert, mem_get_foldl_remove, h.specifiedIds.mem_iff hm]
    simp only [and_true, and_not_self, false_or, mem_specifiedIds, withSpecifiedId,
      Option.some.injEq]
    exact eq_comm

theorem Indexed.updateMetadata (h : Indexed tree) (hid : id ∈ tree.metadataMap)
    (m : InstanceMetadata) : Indexed (tree.updateMetadata id m) := by
  obtain ⟨old, hold⟩ := Option.isSome_iff_exists.mp (AList.lookup_isSome.mpr hid)
  unfold RojoTree.updateMetadata
  rw [hold]
  constructor
  · by_cases hp : old.relevantPaths = m.relevantPaths
    · simp only [hp, ne_eq, not_true_eq_false, if_false]
      exact h.paths.same hold hp.symm
    · simp only [hp, ne_eq, not_false_eq_true, if_true]
      exact h.paths.replace hold
  · by_cases hr : old.specifiedId = m.specifiedId
    · simp only [hr, ne_eq, not_true_eq_false, if_false]
      exact h.specifiedIds.same hold (congrArg Option.toList hr.symm)
    · simp only [hr, ne_eq, not_false_eq_true, if_true]
      have hmem := fun k => h.specifiedIds.mem_iff (k := k) hold
      simp only [mem_specifiedIds] at hmem
      -- the new id goes in before the old one, which is another, goes out
      refine h.specifiedIds.insert (fun k x hx => ?_) fun k => ?_
      · cases hn : m.specifiedId <;> cases ho : old.specifiedId <;>
          simp only [MultiMap.mem_get_remove, MultiMap.mem_get_insert, hx, and_false, or_false,
            not_false_eq_true, and_true]
      · rw [mem_specifiedIds]
        cases hn : m.specifiedId <;> cases ho : old.specifiedId <;>
          simp only [MultiMap.mem_get_remove, MultiMap.mem_get_insert, hmem, ho, hn,
            Option.some.injEq, reduceCtorEq, and_true] at hr ⊢
        · grind
        · grind
        · grind

@[simp] theorem inner_updateMetadata (tree : RojoTree D) (id : Ref) (m : InstanceMetadata) :
    (tree.updateMetadata id m).inner = tree.inner := by
  unfold RojoTree.updateMetadata
  cases tree.metadataMap.lookup id <;> rfl

@[simp] theorem metadataMap_updateMetadata (tree : RojoTree D) (id : Ref) (m : InstanceMetadata) :
    (tree.updateMetadata id m).metadataMap = tree.metadataMap.insert id m := by
  unfold RojoTree.updateMetadata
  cases tree.metadataMap.lookup id <;> rfl

@[simp] theorem inner_setSpecifiedId (tree : RojoTree D) (id : Ref) (r : RojoRef) :
    (tree.setSpecifiedId id r).inner = tree.inner := by
  unfold RojoTree.setSpecifiedId
  cases tree.metadataMap.lookup id <;> rfl

@[simp] theorem inner_insertMetadata (tree : RojoTree D) (id : Ref) (m : InstanceMetadata) :
    (tree.insertMetadata id m).inner = tree.inner := by
  unfold RojoTree.insertMetadata
  cases m.specifiedId with
  | none => rfl
  | some r => exact inner_setSpecifiedId _ _ _

@[simp] theorem metadataMap_insertMetadata (hid : tree.metadataMap.lookup id = none)
    (m : InstanceMetadata) :
    (tree.insertMetadata id m).metadataMap = tree.metadataMap.insert id m := by
  rw [insertMetadata_eq hid]

end

/-! ## Reading the tree -/

section Reading

variable {i : Instance} {m : InstanceMetadata} {r : RojoRef}

theorem Inv.metadata_of_present (h : Inv tree) (hi : getByRef tree.inner id = some i) :
    ∃ m, tree.metadataMap.lookup id = some m := by
  have hmem := (h.keys id).mpr (Option.isSome_of_eq_some hi)
  exact Option.isSome_iff_exists.mp (AList.lookup_isSome.mpr hmem)

theorem Inv.metadata_of_absent (h : Inv tree) (hi : getByRef tree.inner id = none) :
    tree.metadataMap.lookup id = none := by
  rw [AList.lookup_eq_none, h.keys, hi]
  exact Bool.false_ne_true

theorem getInstance_eq (hi : getByRef tree.inner id = some i)
    (hm : tree.metadataMap.lookup id = some m) : tree.getInstance id = some (some ⟨i, m⟩) := by
  unfold getInstance
  rw [hi, hm]
  rfl

theorem getInstance_none (hi : getByRef tree.inner id = none) :
    tree.getInstance id = some none := by
  unfold getInstance
  rw [hi]

/-- `id` carries the user-specified id `r`. -/
def Carries (tree : RojoTree D) (r : RojoRef) (id : Ref) : Prop :=
  ∃ m, tree.metadataMap.lookup id = some m ∧ m.specifiedId = some r

omit [WeakDom D] in
theorem Indexed.mem_specifiedIdToRefs (h : Indexed tree) :
    id ∈ tree.specifiedIdToRefs.get r ↔ tree.Carries r id := by
  rw [h.specifiedIds r id]
  unfold Carries
  simp only [mem_specifiedIds]

omit [WeakDom D] in
/-- A user-specified id resolves to the only instance that carries it. -/
theorem Indexed.getSpecifiedId_iff (h : Indexed tree) :
    tree.getSpecifiedId r = some id ↔ ∀ x, tree.Carries r x ↔ x = id := by
  have hmem : ∀ x, x ∈ tree.specifiedIdToRefs.get r ↔ tree.Carries r x :=
    fun _ => h.mem_specifiedIdToRefs
  have hnodup := tree.specifiedIdToRefs.nodup_get r
  simp only [← hmem]
  unfold getSpecifiedId
  constructor
  · intro heq
    split at heq
    · rename_i referent hb
      rw [Option.some.inj heq] at hb
      simp only [hb, List.mem_singleton, implies_true]
    · cases heq
  · intro hx
    have hperm : (tree.specifiedIdToRefs.get r).Perm [id] :=
      (List.perm_ext_iff_of_nodup hnodup (List.nodup_singleton id)).mpr fun x => by
        rw [hx, List.mem_singleton]
    rw [List.perm_singleton.mp hperm]

end Reading

/-! ## What one operation does -/

section Operations

variable [LawfulWeakDom D] {i : Instance} {s : InstanceSnapshot} {p r : Ref}

/-- `tree'` is `tree` with an instance made of `s` as the new last child of `p`. -/
structure Inserted (tree : RojoTree D) (p : Ref) (s : InstanceSnapshot) (r : Ref)
    (tree' : RojoTree D) : Prop where
  inv : Inv tree'
  root : tree'.getRootId = tree.getRootId
  issued : ∀ x, Issued tree.inner x → Issued tree'.inner x
  fresh : ¬ Issued tree.inner r
  ne_null : r ≠ Ref.none
  new : ∃ properties, Stored (snapshotBuilder s).properties properties ∧
    getByRef tree'.inner r = some { (snapshotBuilder s).build r p with properties := properties }
  old : ∀ x, x ≠ r → getByRef tree'.inner x = (getByRef tree.inner x).map fun i =>
    if x = p then { i with children := i.children ++ [r] } else i
  metadata : ∀ x, tree'.metadataMap.lookup x =
    if x = r then some s.metadata else tree.metadataMap.lookup x

/-- The part of `insertInstance` before the children. -/
def insertOne (tree : RojoTree D) (parentRef : Ref) (s : InstanceSnapshot) :
    MayPanic (Ref × RojoTree D) := do
  let (referent, inner) ← WeakDom.insert tree.inner parentRef (snapshotBuilder s)
  some (referent, insertMetadata { tree with inner := inner } referent s.metadata)

omit [LawfulWeakDom D] in
theorem insertInstance_eq (tree : RojoTree D) (p : Ref) (s : InstanceSnapshot) :
    tree.insertInstance p s = (do
      let (referent, tree) ← tree.insertOne p s
      let tree ← tree.insertChildren referent s.children
      some (referent, tree)) := by
  cases s with
  | mk snapshotId metadata name className properties children =>
    rw [insertInstance]
    unfold insertOne
    cases WeakDom.insert tree.inner p
      (snapshotBuilder ⟨snapshotId, metadata, name, className, properties, children⟩) <;> rfl

theorem Inv.insertOne (h : Inv tree) (heq : tree.insertOne p s = some (r, tree')) :
    Inserted tree p s r tree' := by
  unfold RojoTree.insertOne at heq
  obtain ⟨⟨r', inner⟩, hins, heq⟩ := Option.bind_eq_some_iff.mp heq
  obtain ⟨rfl, rfl⟩ := Prod.mk.inj (Option.some.inj heq)
  obtain ⟨hnull, hfresh, hroot, hissued, ⟨properties, hstored, hnew⟩, hold⟩ :=
    LawfulWeakDom.insert_spec _ hins
  have habs : getByRef tree.inner r' = none := by
    cases hr : getByRef tree.inner r' with
    | none => rfl
    | some j => exact absurd (LawfulWeakDom.issued_of_present _ hr) hfresh
  have hlook : tree.metadataMap.lookup r' = none := h.metadata_of_absent habs
  have hindexed : Indexed { tree with inner := inner } := ⟨h.paths, h.specifiedIds⟩
  have hmap : (insertMetadata { tree with inner := inner } r' s.metadata).metadataMap =
      tree.metadataMap.insert r' s.metadata := by
    rw [metadataMap_insertMetadata]
    exact hlook
  have hinner : (insertMetadata { tree with inner := inner } r' s.metadata).inner = inner :=
    inner_insertMetadata _ _ _
  refine ⟨⟨hindexed.insertMetadata hlook _, fun x => ?_⟩, ?_, ?_, hfresh, hnull, ?_, ?_,
    fun x => ?_⟩
  · rw [hmap, hinner, AList.mem_insert, h.keys]
    by_cases hx : x = r'
    · simp only [hx, true_or, hnew, Option.isSome_some]
    · simp only [hx, false_or, hold x hx, Option.isSome_map]
  · unfold getRootId
    rwa [hinner]
  · rwa [hinner]
  · exact ⟨properties, hstored, by rwa [hinner]⟩
  · rwa [hinner]
  · rw [hmap, lookup_insert_eq]

theorem Inv.insertOne_isSome (h : Inv tree) (hp : getByRef tree.inner p = some i) :
    ∃ r tree', tree.insertOne p s = some (r, tree') ∧ Inserted tree p s r tree' := by
  obtain ⟨⟨r, inner⟩, hins⟩ := Option.isSome_iff_exists.mp
    (LawfulWeakDom.insert_isSome tree.inner (snapshotBuilder s) hp)
  have heq : tree.insertOne p s =
      some (r, insertMetadata { tree with inner := inner } r s.metadata) := by
    unfold RojoTree.insertOne
    rw [hins]
    rfl
  exact ⟨_, _, heq, h.insertOne heq⟩

/-- Inserting a snapshot with everything below it keeps the invariant. -/
theorem Inv.insertInstance (h : Inv tree) (heq : tree.insertInstance p s = some (r, tree')) :
    Inv tree' := by
  induction s using InstanceSnapshot.induct generalizing tree tree' p r with
  | snapshot s ih =>
    have hchildren : ∀ l, (∀ c ∈ l, c ∈ s.children) → ∀ {tree tree' : RojoTree D} {p}, Inv tree →
        tree.insertChildren p l = some tree' → Inv tree' := by
      intro l
      induction l with
      | nil =>
        intro _ tree tree' p h heq
        rw [insertChildren] at heq
        exact Option.some.inj heq ▸ h
      | cons c l ihl =>
        intro hl tree tree' p h heq
        rw [insertChildren] at heq
        obtain ⟨⟨r, tree₁⟩, h₁, heq⟩ := Option.bind_eq_some_iff.mp heq
        exact ihl (fun d hd => hl d (List.mem_cons_of_mem _ hd))
          (ih c (hl c List.mem_cons_self) h h₁) heq
    rw [insertInstance_eq] at heq
    obtain ⟨⟨r₁, tree₁⟩, h₁, heq⟩ := Option.bind_eq_some_iff.mp heq
    obtain ⟨tree₂, h₂, heq⟩ := Option.bind_eq_some_iff.mp heq
    obtain ⟨rfl, rfl⟩ := Prod.mk.inj (Option.some.inj heq)
    exact hchildren _ (fun _ hc => hc) (h.insertOne h₁).inv h₂

theorem Inv.insertChildren (h : Inv tree) {l : List InstanceSnapshot}
    (heq : tree.insertChildren p l = some tree') : Inv tree' := by
  induction l generalizing tree with
  | nil =>
    rw [RojoTree.insertChildren] at heq
    exact Option.some.inj heq ▸ h
  | cons c l ih =>
    rw [RojoTree.insertChildren] at heq
    obtain ⟨⟨r, tree₁⟩, h₁, heq⟩ := Option.bind_eq_some_iff.mp heq
    exact ih (h.insertInstance h₁) heq

/-- A tree that is only a root. -/
theorem inv_root (b : InstanceBuilder) (m : InstanceMetadata) :
    Inv (insertMetadata
      { inner := (WeakDom.new b : D)
        metadataMap := ∅
        pathToIds := MultiMap.new
        specifiedIdToRefs := MultiMap.new } (rootRef (WeakDom.new b : D)) m) := by
  have hindexed : Indexed
      { inner := (WeakDom.new b : D)
        metadataMap := ∅
        pathToIds := MultiMap.new
        specifiedIdToRefs := MultiMap.new } := by
    constructor <;> intro k x <;>
      simp only [MultiMap.get_new, List.not_mem_nil, AList.lookup_empty, reduceCtorEq, false_and,
        exists_false]
  refine ⟨hindexed.insertMetadata (AList.lookup_empty _) m, fun x => ?_⟩
  rw [metadataMap_insertMetadata (AList.lookup_empty _), inner_insertMetadata, AList.mem_insert,
    LawfulWeakDom.getByRef_new]
  by_cases hx : x = rootRef (WeakDom.new b : D)
  · simp only [hx, true_or, if_true, Option.isSome_some]
  · simp only [hx, false_or, if_false, Option.isSome_none, Bool.false_eq_true, iff_false]
    exact AList.notMem_empty x

theorem Inv.new (heq : RojoTree.new s = some tree) : Inv tree := by
  unfold RojoTree.new at heq
  dsimp only at heq
  exact (inv_root _ _).insertChildren heq

/-! ### Removal -/

/-- `tree'` is `tree` without `x` and everything below it. -/
structure Removed (tree : RojoTree D) (x : Ref) (tree' : RojoTree D) : Prop where
  inv : Inv tree'
  root : tree'.getRootId = tree.getRootId
  issued : ∀ y, Issued tree.inner y → Issued tree'.inner y
  gone : ∀ y, Desc (kids tree.inner) x y → getByRef tree'.inner y = none
  kept : ∀ y, ¬ Desc (kids tree.inner) x y → getByRef tree'.inner y =
    (getByRef tree.inner y).map fun i => { i with children := i.children.filter (· ≠ x) }
  metadata : ∀ y, ¬ Desc (kids tree.inner) x y →
    tree'.metadataMap.lookup y = tree.metadataMap.lookup y

omit [LawfulWeakDom D] in
/-- A queue loop that does not run out of rounds removes the metadata of the nodes that a
breadth-first traversal visits. -/
theorem removeLoop_eq {n : ℕ} {queue : List Ref}
    (hn : (bfs (kids tree.inner) n queue).length < n) :
    removeLoop n tree queue =
      (bfs (kids tree.inner) n queue).foldlM (fun t id => t.removeMetadata id) tree := by
  induction n generalizing tree queue with
  | zero => cases hn
  | succ n ih =>
    cases queue with
    | nil => rfl
    | cons id queue =>
      rw [removeLoop, bfs, List.foldlM_cons]
      cases hr : tree.removeMetadata id with
      | none => rfl
      | some tree₁ =>
        have hinner : tree₁.inner = tree.inner := by
          unfold removeMetadata at hr
          obtain ⟨m, -, hr⟩ := Option.bind_eq_some_iff.mp hr
          rw [← Option.some.inj hr]
        rw [bfs, List.length_cons] at hn
        simp only [Option.bind_eq_bind, Option.bind_some]
        rw [ih, hinner]
        rw [hinner]
        omega

omit [WeakDom D] [LawfulWeakDom D] in
/-- Removing the metadata of several ids, each once. -/
theorem Indexed.removeAll (h : Indexed tree) {ids : List Ref} (hnodup : ids.Nodup)
    (hmem : ∀ x ∈ ids, x ∈ tree.metadataMap) :
    ∃ tree', ids.foldlM (fun t id => t.removeMetadata id) tree = some tree' ∧ Indexed tree' ∧
      tree'.inner = tree.inner ∧
      ∀ x, tree'.metadataMap.lookup x = if x ∈ ids then none else tree.metadataMap.lookup x := by
  induction ids generalizing tree with
  | nil => exact ⟨tree, rfl, h, rfl, fun x => by rw [if_neg List.not_mem_nil]⟩
  | cons id ids ih =>
    obtain ⟨hid, hnodup⟩ := List.nodup_cons.mp hnodup
    obtain ⟨tree₁, h₁, hi₁, hinner₁, hmap₁⟩ := h.removeMetadata (hmem id List.mem_cons_self)
    have hmem₁ : ∀ x ∈ ids, x ∈ tree₁.metadataMap := by
      intro x hx
      rw [hmap₁, AList.mem_erase]
      exact ⟨fun he => hid (he ▸ hx), hmem x (List.mem_cons_of_mem _ hx)⟩
    obtain ⟨tree', h', hi', hinner', hmap'⟩ := ih hi₁ hnodup hmem₁
    refine ⟨tree', ?_, hi', hinner'.trans hinner₁, fun x => ?_⟩
    · rw [List.foldlM_cons, h₁]
      exact h'
    · rw [hmap', hmap₁, lookup_erase_eq]
      simp only [List.mem_cons]
      by_cases hx : x = id <;> simp only [hx, true_or, false_or, if_true, if_false, ite_self]

/-- Every descendant of an instance is an instance. -/
theorem present_of_desc {d : D} (hx : (getByRef d x).isSome) (h : Desc (kids d) x y) :
    (getByRef d y).isSome := by
  induction h with
  | refl => exact hx
  | tail _ hc _ =>
    obtain ⟨i, hi, -⟩ := LawfulWeakDom.child_present d hc
    exact Option.isSome_of_eq_some hi

/-- `remove` of an instance that is not the root succeeds. -/
theorem Inv.remove (h : Inv tree) (hx : getByRef tree.inner x = some i)
    (hroot : x ≠ tree.getRootId) : ∃ tree', tree.remove x = some tree' ∧ Removed tree x tree' := by
  have hf := LawfulWeakDom.forest tree.inner
  have hnodup := hf.nodup_bfs (n := tree.metadataMap.keys.length + 1) (antichain_singleton x)
  have hlen : (bfs (kids tree.inner) (tree.metadataMap.keys.length + 1) [x]).length <
      tree.metadataMap.keys.length + 1 := by
    refine hf.bfs_length_lt (antichain_singleton x) (fun a ha => ?_) (fun a _ b hb => ?_)
      (Nat.lt_succ_self _)
    · rw [List.mem_singleton.mp ha, ← AList.mem_keys, h.keys, hx]
      rfl
    · obtain ⟨j, hj, -⟩ := LawfulWeakDom.child_present _ hb
      rw [← AList.mem_keys, h.keys, hj]
      rfl
  have hdesc : ∀ y, y ∈ bfs (kids tree.inner) (tree.metadataMap.keys.length + 1) [x] ↔
      Desc (kids tree.inner) x y := by
    intro y
    rw [mem_bfs_iff hlen]
    simp only [List.mem_singleton, exists_eq_left]
  obtain ⟨tree₁, h₁, hi₁, hinner₁, hmap₁⟩ := h.toIndexed.removeAll hnodup fun y hy => by
    rw [h.keys]
    exact present_of_desc (Option.isSome_of_eq_some hx) ((hdesc y).mp hy)
  obtain ⟨inner, hd⟩ := Option.isSome_iff_exists.mp
    (LawfulWeakDom.destroy_isSome tree.inner hx hroot)
  obtain ⟨hroot', hissued, hgone, hkept⟩ := LawfulWeakDom.destroy_spec _ hd
  have hmap : ∀ y, ¬ Desc (kids tree.inner) x y →
      tree₁.metadataMap.lookup y = tree.metadataMap.lookup y := by
    intro y hy
    rw [hmap₁, if_neg (mt (hdesc y).mp hy)]
  refine ⟨{ tree₁ with inner := inner }, ?_, ⟨⟨hi₁.paths, hi₁.specifiedIds⟩, fun y => ?_⟩, hroot',
    hissued, hgone, hkept, hmap⟩
  · unfold RojoTree.remove
    rw [removeLoop_eq hlen, h₁]
    simp only [Option.bind_eq_bind, Option.bind_some]
    rw [hinner₁, hd]
    rfl
  · by_cases hy : Desc (kids tree.inner) x y
    · rw [hgone y hy, ← AList.lookup_isSome, hmap₁, if_pos ((hdesc y).mpr hy)]
      simp only [Option.isSome_none]
    · rw [hkept y hy, Option.isSome_map, ← h.keys, ← AList.lookup_isSome, hmap y hy,
        AList.lookup_isSome]

/-! ### Changes in place -/

/-- `tree'` is `tree` with one instance written to. -/
structure Written (tree : RojoTree D) (x : Ref) (f : Instance → Instance) (tree' : RojoTree D) :
    Prop where
  inv : Inv tree'
  root : tree'.getRootId = tree.getRootId
  issued : ∀ y, Issued tree.inner y → Issued tree'.inner y
  getByRef : ∀ y, getByRef tree'.inner y =
    if y = x then (getByRef tree.inner y).map (written f) else getByRef tree.inner y
  metadata : tree'.metadataMap = tree.metadataMap
  specified : tree'.specifiedIdToRefs = tree.specifiedIdToRefs

theorem Inv.getInstanceMut (h : Inv tree) (hx : getByRef tree.inner x = some i)
    (f : Instance → Instance) :
    ∃ tree', tree.getInstanceMut x f = some (some tree') ∧ Written tree x f tree' := by
  obtain ⟨m, hm⟩ := h.metadata_of_present hx
  refine ⟨{ tree with inner := write tree.inner x f }, ?_, ⟨⟨h.paths, h.specifiedIds⟩, fun y => ?_⟩,
    LawfulWeakDom.rootRef_write _ _ _, LawfulWeakDom.issued_write _ _ _,
    LawfulWeakDom.getByRef_write _ _ _, rfl, rfl⟩
  · unfold RojoTree.getInstanceMut
    rw [hx, hm]
    rfl
  · rw [h.keys, LawfulWeakDom.getByRef_write]
    split_ifs
    · rw [Option.isSome_map]
    · rfl

omit [LawfulWeakDom D] in
theorem Inv.updateMetadata (h : Inv tree) (hx : getByRef tree.inner x = some i)
    (m : InstanceMetadata) : Inv (tree.updateMetadata x m) := by
  have hmem : x ∈ tree.metadataMap := (h.keys x).mpr (Option.isSome_of_eq_some hx)
  refine ⟨h.toIndexed.updateMetadata hmem m, fun y => ?_⟩
  rw [inner_updateMetadata, metadataMap_updateMetadata, AList.mem_insert, h.keys]
  refine ⟨fun hy => hy.elim (fun hy => ?_) id, Or.inr⟩
  rw [hy, hx]
  rfl

omit [LawfulWeakDom D] in
theorem Inv.setSpecifiedId (h : Inv tree) (hx : getByRef tree.inner x = some i) (r : RojoRef) :
    Inv (tree.setSpecifiedId x r) := by
  have hmem : x ∈ tree.metadataMap := (h.keys x).mpr (Option.isSome_of_eq_some hx)
  obtain ⟨m, hm⟩ := h.metadata_of_present hx
  refine ⟨h.toIndexed.setSpecifiedId hmem r, fun y => ?_⟩
  rw [inner_setSpecifiedId, setSpecifiedId_eq hm, AList.mem_insert, h.keys]
  refine ⟨fun hy => hy.elim (fun hy => ?_) id, Or.inr⟩
  rw [hy, hx]
  rfl

end Operations

end RojoTree

end Roxo
