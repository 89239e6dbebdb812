import Roxo.Snapshot.WeakDom

/-!
# A DOM to run the model on

`MapDom` keeps its nodes in the order of their ids, parents before children, and counts up for new
ids. It meets the documented behaviour of the crate, so what is proved of every lawful DOM can be
evaluated on it.
-/

namespace Roxo

open AssocMap Forest WeakDom

namespace MapDom

structure Node where
  id : ℕ
  parent : Option ℕ
  name : String
  className : String
  properties : UstrMap Variant

end MapDom

/-- Nodes in the order of their ids. -/
structure MapDom where
  nodes : List MapDom.Node
  root : ℕ
  next : ℕ
  sorted : nodes.Pairwise fun a b => a.id < b.id
  parents : ∀ n ∈ nodes, ∀ p, n.parent = some p → p < n.id ∧ ∃ m ∈ nodes, m.id = p
  has_root : ∃ n ∈ nodes, n.id = root ∧ n.parent = none
  bound : ∀ n ∈ nodes, n.id < next

namespace MapDom

def childIds (nodes : List Node) (id : ℕ) : List Ref :=
  (nodes.filter fun n => n.parent = some id).map fun n => Ref.some n.id

def toInstance (nodes : List Node) (n : Node) : Instance where
  referent := Ref.some n.id
  children := childIds nodes n.id
  parent := ⟨n.parent⟩
  name := n.name
  className := n.className
  properties := n.properties

def lookupNode (nodes : List Node) (r : Ref) : Option Instance :=
  match r.id with
  | some id => (nodes.find? fun n => n.id = id).map (toInstance nodes)
  | none => none

def kidsOf (nodes : List Node) (r : Ref) : List Ref :=
  match lookupNode nodes r with
  | some i => i.children
  | none => []

section

variable {nodes : List Node} {n m : Node} {r : Ref} {i : Instance}

theorem id_of_some {a b : ℕ} (h : Ref.some a = Ref.some b) : a = b :=
  Option.some.inj (Ref.mk.inj h)

theorem eq_of_id (hs : nodes.Pairwise fun a b => a.id < b.id) (hn : n ∈ nodes) (hm : m ∈ nodes)
    (h : n.id = m.id) : n = m := by
  have hinj : (nodes.map Node.id).Nodup := by
    rw [List.Nodup, List.pairwise_map]
    exact hs.imp fun h => Nat.ne_of_lt h
  exact List.inj_on_of_nodup_map hinj hn hm h

theorem lookupNode_eq_some (hs : nodes.Pairwise fun a b => a.id < b.id) :
    lookupNode nodes r = some i ↔ ∃ n ∈ nodes, r = Ref.some n.id ∧ i = toInstance nodes n := by
  obtain ⟨rid⟩ := r
  unfold lookupNode
  cases rid with
  | none =>
    simp only [reduceCtorEq, false_iff, not_exists, not_and]
    rintro n - ⟨⟩
  | some k =>
    simp only [Option.map_eq_some_iff]
    constructor
    · rintro ⟨n, hn, rfl⟩
      have hk : n.id = k := by simpa using List.find?_some hn
      exact ⟨n, List.mem_of_find?_eq_some hn, by rw [← hk]; rfl, rfl⟩
    · rintro ⟨n, hn, hk, rfl⟩
      obtain rfl : k = n.id := by
        unfold Ref.some at hk
        simpa using hk
      cases hf : nodes.find? fun m => m.id = n.id with
      | none => exact absurd (List.find?_eq_none.mp hf n hn) (by simp)
      | some m =>
        have hm : m.id = n.id := by simpa using List.find?_some hf
        exact ⟨m, rfl, by rw [eq_of_id hs (List.mem_of_find?_eq_some hf) hn hm]⟩

/-- Who is a child of whom. -/
theorem mem_kidsOf (hs : nodes.Pairwise fun a b => a.id < b.id)
    (hp : ∀ n ∈ nodes, ∀ p, n.parent = some p → p < n.id ∧ ∃ m ∈ nodes, m.id = p) {a b : Ref} :
    b ∈ kidsOf nodes a ↔ ∃ n ∈ nodes, b = Ref.some n.id ∧ ∃ p, n.parent = some p ∧
      a = Ref.some p := by
  unfold kidsOf
  cases ha : lookupNode nodes a with
  | none =>
    simp only [List.not_mem_nil, false_iff]
    rintro ⟨n, hn, -, p, hnp, rfl⟩
    obtain ⟨-, m, hm, rfl⟩ := hp n hn p hnp
    rw [(lookupNode_eq_some hs).mpr ⟨m, hm, rfl, rfl⟩] at ha
    cases ha
  | some i =>
    obtain ⟨m, hm, rfl, rfl⟩ := (lookupNode_eq_some hs).mp ha
    simp only [toInstance, childIds, List.mem_map, List.mem_filter, decide_eq_true_eq]
    constructor
    · rintro ⟨n, ⟨hn, hnp⟩, rfl⟩
      exact ⟨n, hn, rfl, m.id, hnp, rfl⟩
    · rintro ⟨n, hn, rfl, p, hnp, heq⟩
      refine ⟨n, ⟨hn, ?_⟩, rfl⟩
      unfold Ref.some at heq
      rw [hnp]
      simpa [eq_comm] using heq

theorem isForest_kidsOf (hs : nodes.Pairwise fun a b => a.id < b.id)
    (hp : ∀ n ∈ nodes, ∀ p, n.parent = some p → p < n.id ∧ ∃ m ∈ nodes, m.id = p) :
    IsForest (kidsOf nodes) where
  nodup a := by
    unfold kidsOf
    cases hi : lookupNode nodes a with
    | none => exact List.nodup_nil
    | some i =>
      obtain ⟨n, -, -, rfl⟩ := (lookupNode_eq_some hs).mp hi
      refine List.Nodup.map_on (fun a ha b hb h => ?_) ((hs.imp fun h => ne_of_apply_ne Node.id
        (Nat.ne_of_lt h)).filter _)
      exact eq_of_id hs (List.mem_of_mem_filter ha) (List.mem_of_mem_filter hb) (id_of_some h)
  unique ha hb := by
    obtain ⟨n, hn, rfl, p, hnp, rfl⟩ := (mem_kidsOf hs hp).mp ha
    obtain ⟨m, hm, heq, q, hmq, rfl⟩ := (mem_kidsOf hs hp).mp hb
    obtain rfl := eq_of_id hs hn hm (id_of_some heq)
    rw [Option.some.inj (hnp.symm.trans hmq)]
  acyclic := by
    refine ⟨fun r => r.id.getD 0, fun a b hb => ?_⟩
    obtain ⟨n, hn, rfl, p, hnp, rfl⟩ := (mem_kidsOf hs hp).mp hb
    exact (hp n hn p hnp).1

end

/-- The ids that go when `x` is destroyed. -/
def doomed (nodes : List Node) (x : Ref) : List Ref :=
  bfs (kidsOf nodes) (nodes.length + 1) [x]

section

variable {nodes : List Node} {x y : Ref}
  (hs : nodes.Pairwise fun a b => a.id < b.id)
  (hp : ∀ n ∈ nodes, ∀ p, n.parent = some p → p < n.id ∧ ∃ m ∈ nodes, m.id = p)

include hs hp

theorem mem_doomed (hx : ∃ n ∈ nodes, x = Ref.some n.id) :
    y ∈ doomed nodes x ↔ Desc (kidsOf nodes) x y := by
  have hlen : (bfs (kidsOf nodes) (nodes.length + 1) [x]).length < nodes.length + 1 := by
    have hmem : ∀ a ∈ [x], a ∈ nodes.map fun n => Ref.some n.id := by
      intro a ha
      obtain ⟨n, hn, rfl⟩ := hx
      rw [List.mem_singleton.mp ha]
      exact List.mem_map_of_mem hn
    refine (isForest_kidsOf hs hp).bfs_length_lt (antichain_singleton x) hmem
      (fun a _ b hb => ?_) ?_
    · obtain ⟨n, hn, rfl, -⟩ := (mem_kidsOf hs hp).mp hb
      exact List.mem_map_of_mem hn
    · rw [List.length_map]
      exact Nat.lt_succ_self _
  unfold doomed
  rw [mem_bfs_iff hlen]
  simp only [List.mem_singleton, exists_eq_left]

end

/-- Ids below it count as handed out when a DOM is new. -/
def firstFree : ℕ := 100

def ofBuilder (b : InstanceBuilder) : MapDom where
  nodes := [⟨0, none, b.name, b.className, b.properties⟩]
  root := 0
  next := firstFree
  sorted := List.pairwise_singleton _ _
  parents n hn p hp := by
    rw [List.mem_singleton.mp hn] at hp
    cases hp
  has_root := ⟨_, List.mem_singleton.mpr rfl, rfl, rfl⟩
  bound n hn := by
    rw [List.mem_singleton.mp hn]
    exact Nat.zero_lt_succ _

/-- The DOM with a new last node. -/
def append (d : MapDom) (parent : ℕ) (hp : ∃ m ∈ d.nodes, m.id = parent) (b : InstanceBuilder) :
    MapDom where
  nodes := d.nodes ++ [⟨d.next, some parent, b.name, b.className, b.properties⟩]
  root := d.root
  next := d.next + 1
  sorted := by
    refine List.pairwise_append.mpr ⟨d.sorted, List.pairwise_singleton _ _, fun a ha c hc => ?_⟩
    rw [List.mem_singleton.mp hc]
    exact d.bound a ha
  parents n hn p hnp := by
    rcases List.mem_append.mp hn with hn | hn
    · obtain ⟨hlt, m, hm, rfl⟩ := d.parents n hn p hnp
      exact ⟨hlt, m, List.mem_append_left _ hm, rfl⟩
    · obtain rfl := List.mem_singleton.mp hn
      obtain ⟨m, hm, rfl⟩ := hp
      obtain rfl := Option.some.inj hnp
      exact ⟨d.bound m hm, m, List.mem_append_left _ hm, rfl⟩
  has_root := by
    obtain ⟨n, hn, hroot⟩ := d.has_root
    exact ⟨n, List.mem_append_left _ hn, hroot⟩
  bound n hn := by
    rcases List.mem_append.mp hn with hn | hn
    · exact Nat.lt_succ_of_lt (d.bound n hn)
    · rw [List.mem_singleton.mp hn]
      exact Nat.lt_succ_self _

/-- A new id takes the place of a `UniqueId` that a node has already. -/
def withOwnId (d : MapDom) (b : InstanceBuilder) : InstanceBuilder :=
  match b.properties.lookup "UniqueId" with
  | some (.value (.uniqueId id)) =>
    if ∃ n ∈ d.nodes, n.properties.lookup "UniqueId" = some (.value (.uniqueId id)) then
      { b with properties :=
          b.properties.insert "UniqueId" (.value (.uniqueId ⟨UInt32.ofNat d.next, 0, 0⟩)) }
    else b
  | _ => b

theorem parent_not_doomed (d : MapDom) {x : Ref} (hx : ∃ n ∈ d.nodes, x = Ref.some n.id)
    {n m : Node} (hn : n ∈ d.nodes) (hpar : n.parent = some m.id)
    (h : Ref.some n.id ∉ doomed d.nodes x) : Ref.some m.id ∉ doomed d.nodes x := by
  intro hd
  rw [mem_doomed d.sorted d.parents hx] at h hd
  exact h (hd.tail ((mem_kidsOf d.sorted d.parents).mpr ⟨n, hn, rfl, m.id, hpar, rfl⟩))

theorem root_not_doomed (d : MapDom) {x : Ref} (hx : ∃ n ∈ d.nodes, x = Ref.some n.id)
    (hne : x ≠ Ref.some d.root) : Ref.some d.root ∉ doomed d.nodes x := by
  intro hd
  rw [mem_doomed d.sorted d.parents hx] at hd
  rcases Relation.ReflTransGen.cases_tail hd with he | ⟨p, -, hp⟩
  · exact hne he.symm
  · obtain ⟨n, hn, heq, q, hq, -⟩ := (mem_kidsOf d.sorted d.parents).mp hp
    obtain ⟨m, hm, hroot, hnone⟩ := d.has_root
    obtain rfl := eq_of_id d.sorted hm hn (hroot.trans (id_of_some heq))
    rw [hnone] at hq
    cases hq

/-- The DOM without a node and everything below it. -/
def prune (d : MapDom) (x : Ref) (hx : ∃ n ∈ d.nodes, x = Ref.some n.id)
    (hne : x ≠ Ref.some d.root) : MapDom where
  nodes := d.nodes.filter fun n => Ref.some n.id ∉ doomed d.nodes x
  root := d.root
  next := d.next
  sorted := d.sorted.filter _
  parents n hn p hnp := by
    obtain ⟨hn, hdoom⟩ := List.mem_filter.mp hn
    obtain ⟨hlt, m, hm, rfl⟩ := d.parents n hn p hnp
    refine ⟨hlt, m, List.mem_filter.mpr ⟨hm, ?_⟩, rfl⟩
    exact decide_eq_true (parent_not_doomed d hx hn hnp (of_decide_eq_true hdoom))
  has_root := by
    obtain ⟨n, hn, hroot, hnone⟩ := d.has_root
    refine ⟨n, List.mem_filter.mpr ⟨hn, decide_eq_true ?_⟩, hroot, hnone⟩
    rw [hroot]
    exact d.root_not_doomed hx hne
  bound n hn := d.bound n (List.mem_of_mem_filter hn)

def overwrite (n : Node) (i : Instance) : Node :=
  { n with
    name := i.name
    className := i.className
    properties := i.properties }

/-- The DOM with another name, class and properties for one node. -/
def modify (d : MapDom) (x : Ref) (f : Instance → Instance) : MapDom where
  nodes := d.nodes.map fun n =>
    if Ref.some n.id = x then overwrite n (f (toInstance d.nodes n)) else n
  root := d.root
  next := d.next
  sorted := by
    rw [List.pairwise_map]
    refine d.sorted.imp fun {a b} h => ?_
    split_ifs <;> exact h
  parents n hn p hnp := by
    obtain ⟨m, hm, rfl⟩ := List.mem_map.mp hn
    have hid : ∀ k : Node, (if Ref.some k.id = x then overwrite k (f (toInstance d.nodes k))
        else k).id = k.id := fun k => by split_ifs <;> rfl
    have hpar : m.parent = some p := by
      split_ifs at hnp <;> exact hnp
    obtain ⟨hlt, q, hq, rfl⟩ := d.parents m hm p hpar
    rw [hid]
    exact ⟨hlt, _, List.mem_map_of_mem hq, hid q⟩
  has_root := by
    obtain ⟨n, hn, hroot, hnone⟩ := d.has_root
    refine ⟨_, List.mem_map_of_mem hn, ?_⟩
    split_ifs <;> exact ⟨hroot, hnone⟩
  bound n hn := by
    obtain ⟨m, hm, rfl⟩ := List.mem_map.mp hn
    split_ifs <;> exact d.bound m hm

instance : WeakDom MapDom where
  new := ofBuilder
  rootRef d := Ref.some d.root
  getByRef d r := lookupNode d.nodes r
  insert d p b :=
    match p.id with
    | some k =>
      if hk : ∃ m ∈ d.nodes, m.id = k then some (Ref.some d.next, d.append k hk (d.withOwnId b))
      else none
    | none => none
  destroy d x :=
    if hx : (∃ n ∈ d.nodes, x = Ref.some n.id) ∧ x ≠ Ref.some d.root then
      some (d.prune x hx.1 hx.2)
    else none
  write := modify
  Issued d r := ∃ k, r = Ref.some k ∧ k < d.next

/-! ## The laws -/

section

variable {nodes : List Node} {n : Node} {r : Ref} (hs : nodes.Pairwise fun a b => a.id < b.id)

include hs

theorem lookupNode_of_mem (hn : n ∈ nodes) :
    lookupNode nodes (Ref.some n.id) = some (toInstance nodes n) :=
  (lookupNode_eq_some hs).mpr ⟨n, hn, rfl, rfl⟩

theorem lookupNode_eq_none : lookupNode nodes r = none ↔ ∀ n ∈ nodes, r ≠ Ref.some n.id := by
  rw [Option.eq_none_iff_forall_ne_some]
  constructor
  · rintro h n hn rfl
    exact h _ (lookupNode_of_mem hs hn)
  · intro h i hi
    obtain ⟨n, hn, rfl, -⟩ := (lookupNode_eq_some hs).mp hi
    exact h n hn rfl

end

theorem mem_kids (d : MapDom) {a b : Ref} :
    b ∈ kids d a ↔ ∃ n ∈ d.nodes, b = Ref.some n.id ∧ ∃ p, n.parent = some p ∧ a = Ref.some p :=
  mem_kidsOf d.sorted d.parents

theorem getByRef_append (d : MapDom) {k : ℕ} (hk : ∃ m ∈ d.nodes, m.id = k) (b : InstanceBuilder)
    {x : Ref} (hx : x ≠ Ref.some d.next) :
    getByRef (d.append k hk b) x = (getByRef d x).map fun i =>
      if x = Ref.some k then { i with children := i.children ++ [Ref.some d.next] } else i := by
  change lookupNode (d.append k hk b).nodes x = (lookupNode d.nodes x).map _
  cases hi : lookupNode d.nodes x with
  | none =>
    refine (lookupNode_eq_none (d.append k hk b).sorted).mpr fun n hn => ?_
    rcases List.mem_append.mp hn with hn | hn
    · exact (lookupNode_eq_none d.sorted).mp hi n hn
    · rw [List.mem_singleton.mp hn]
      exact hx
  | some i =>
    obtain ⟨n, hn, rfl, rfl⟩ := (lookupNode_eq_some d.sorted).mp hi
    have hmem : n ∈ (d.append k hk b).nodes := List.mem_append_left _ hn
    rw [lookupNode_of_mem (d.append k hk b).sorted hmem, Option.map_some]
    congr 1
    have hchildren : childIds (d.append k hk b).nodes n.id =
        childIds d.nodes n.id ++ if n.id = k then [Ref.some d.next] else [] := by
      unfold childIds append
      rw [List.filter_append, List.map_append]
      congr 1
      by_cases h : n.id = k
      · simp [h]
      · simp [h, Ne.symm h]
    split_ifs with h
    · rw [if_pos (id_of_some h)] at hchildren
      unfold toInstance
      rw [hchildren]
    · rw [if_neg fun hid => h (congrArg Ref.some hid), List.append_nil] at hchildren
      unfold toInstance
      rw [hchildren]

theorem getByRef_prune (d : MapDom) {x y : Ref} (hx : ∃ n ∈ d.nodes, x = Ref.some n.id)
    (hne : x ≠ Ref.some d.root) (hy : ¬ Desc (kids d) x y) :
    getByRef (d.prune x hx hne) y = (getByRef d y).map fun i =>
      { i with children := i.children.filter (· ≠ x) } := by
  change lookupNode (d.prune x hx hne).nodes y = (lookupNode d.nodes y).map _
  cases hi : lookupNode d.nodes y with
  | none =>
    exact (lookupNode_eq_none (d.prune x hx hne).sorted).mpr fun n hn =>
      (lookupNode_eq_none d.sorted).mp hi n (List.mem_of_mem_filter hn)
  | some i =>
    obtain ⟨n, hn, rfl, rfl⟩ := (lookupNode_eq_some d.sorted).mp hi
    have hmem : n ∈ (d.prune x hx hne).nodes := by
      refine List.mem_filter.mpr ⟨hn, decide_eq_true fun h => hy ?_⟩
      exact (mem_doomed d.sorted d.parents hx).mp h
    rw [lookupNode_of_mem (d.prune x hx hne).sorted hmem, Option.map_some]
    congr 1
    have hchildren : childIds (d.prune x hx hne).nodes n.id =
        (childIds d.nodes n.id).filter (· ≠ x) := by
      unfold childIds prune
      rw [List.filter_map, List.filter_filter, List.filter_filter]
      congr 1
      refine List.filter_congr fun c hc => ?_
      by_cases hp : c.parent = some n.id
      · have hkid : Ref.some c.id ∈ kids d (Ref.some n.id) :=
          d.mem_kids.mpr ⟨c, hc, rfl, n.id, hp, rfl⟩
        have hd : Ref.some c.id ∈ doomed d.nodes x ↔ Ref.some c.id = x := by
          rw [mem_doomed d.sorted d.parents hx]
          constructor
          · intro h
            by_contra hcx
            exact hy ((isForest_kidsOf d.sorted d.parents).desc_parent h (Ne.symm hcx) hkid)
          · intro h
            rw [h]
        simp [hp, hd]
      · simp [hp]
    unfold toInstance
    rw [hchildren]

theorem getByRef_modify (d : MapDom) (x y : Ref) (f : Instance → Instance) :
    getByRef (d.modify x f) y =
      if y = x then (getByRef d y).map (written f) else getByRef d y := by
  change lookupNode (d.modify x f).nodes y =
    if y = x then (lookupNode d.nodes y).map (written f) else lookupNode d.nodes y
  have hid : ∀ k : Node, (if Ref.some k.id = x then overwrite k (f (toInstance d.nodes k))
      else k).id = k.id := fun k => by split_ifs <;> rfl
  have hpar : ∀ k : Node, (if Ref.some k.id = x then overwrite k (f (toInstance d.nodes k))
      else k).parent = k.parent := fun k => by split_ifs <;> rfl
  have hchildren : ∀ id, childIds (d.modify x f).nodes id = childIds d.nodes id := by
    intro id
    unfold childIds modify
    simp only [List.filter_map, List.map_map, Function.comp_def, hid, hpar]
  cases hi : lookupNode d.nodes y with
  | none =>
    have hnone : lookupNode (d.modify x f).nodes y = none := by
      refine (lookupNode_eq_none (d.modify x f).sorted).mpr fun n hn => ?_
      obtain ⟨m, hm, rfl⟩ := List.mem_map.mp hn
      rw [hid]
      exact (lookupNode_eq_none d.sorted).mp hi m hm
    rw [hnone]
    split_ifs <;> rfl
  | some i =>
    obtain ⟨n, hn, rfl, rfl⟩ := (lookupNode_eq_some d.sorted).mp hi
    have hmem := lookupNode_of_mem (d.modify x f).sorted (List.mem_map_of_mem hn)
    rw [hid] at hmem
    rw [hmem]
    split_ifs
    · simp only [toInstance, overwrite, written, hchildren, Option.map_some]
    · simp only [toInstance, hchildren]

theorem stored_withOwnId (d : MapDom) (b : InstanceBuilder) :
    Stored b.properties (d.withOwnId b).properties := by
  intro k
  unfold withOwnId
  split
  · rename_i id hid
    split_ifs
    · by_cases hk : k = "UniqueId"
      · subst hk
        exact .inr ⟨rfl, id, _, hid, AList.lookup_insert _⟩
      · exact .inl (AList.lookup_insert_ne hk)
    · exact .inl rfl
  · exact .inl rfl

theorem build_withOwnId (d : MapDom) (b : InstanceBuilder) (r p : Ref) :
    (d.withOwnId b).build r p =
      { b.build r p with properties := (d.withOwnId b).properties } := by
  unfold withOwnId
  split
  · split_ifs <;> rfl
  · rfl

instance : LawfulWeakDom MapDom where
  getByRef_null _ := rfl
  referent_eq d x i hi := by
    obtain ⟨n, -, rfl, rfl⟩ := (lookupNode_eq_some d.sorted).mp hi
    rfl
  root_spec d := by
    obtain ⟨n, hn, hroot, hnone⟩ := d.has_root
    refine ⟨_, (lookupNode_eq_some d.sorted).mpr ⟨n, hn, congrArg Ref.some hroot.symm, rfl⟩, ?_⟩
    exact congrArg Ref.mk hnone
  child_present d p c hc := by
    obtain ⟨n, hn, rfl, q, hq, rfl⟩ := d.mem_kids.mp hc
    exact ⟨_, lookupNode_of_mem d.sorted hn, congrArg Ref.mk hq⟩
  mem_kids_of_parent d c i hi hne := by
    obtain ⟨n, hn, rfl, rfl⟩ := (lookupNode_eq_some d.sorted).mp hi
    obtain ⟨q, hq⟩ := Option.ne_none_iff_exists'.mp fun h => hne (congrArg Ref.mk h)
    exact d.mem_kids.mpr ⟨n, hn, rfl, q, hq, congrArg Ref.mk hq⟩
  forest d := isForest_kidsOf d.sorted d.parents
  issued_of_present d x i hi := by
    obtain ⟨n, hn, rfl, -⟩ := (lookupNode_eq_some d.sorted).mp hi
    exact ⟨n.id, rfl, d.bound n hn⟩
  getByRef_new b x := by
    split_ifs with h
    · rw [h]
      rfl
    · refine (lookupNode_eq_none (ofBuilder b).sorted).mpr fun n hn hx => h ?_
      rw [hx, List.mem_singleton.mp hn]
      rfl
  insert_isSome d p i b hi := by
    obtain ⟨n, hn, rfl, -⟩ := (lookupNode_eq_some d.sorted).mp hi
    have hk : ∃ m ∈ d.nodes, m.id = n.id := ⟨n, hn, rfl⟩
    simp only [WeakDom.insert, Ref.some, hk, ↓reduceDIte, Option.isSome_some]
  insert_spec d p b r d' h := by
    obtain ⟨pid⟩ := p
    cases pid with
    | none => cases h
    | some k =>
      simp only [WeakDom.insert] at h
      split_ifs at h with hk
      cases h
      refine ⟨Option.some_ne_none _ ∘ congrArg Ref.id, ?_, rfl, ?_, ?_,
        fun x hx => d.getByRef_append hk _ hx⟩
      · rintro ⟨k, hk, hlt⟩
        exact Nat.lt_irrefl _ (id_of_some hk ▸ hlt)
      · rintro x ⟨k, rfl, hlt⟩
        exact ⟨k, rfl, Nat.lt_succ_of_lt hlt⟩
      · refine ⟨(d.withOwnId b).properties, d.stored_withOwnId b, ?_⟩
        rw [← d.build_withOwnId b]
        generalize d.withOwnId b = b
        have hnew := List.mem_append_right d.nodes (List.mem_singleton.mpr
          (rfl : (⟨d.next, some k, b.name, b.className, b.properties⟩ : Node) = _))
        refine (lookupNode_of_mem (d.append k hk b).sorted hnew).trans (congrArg some ?_)
        have hleaf : childIds (d.append k hk b).nodes d.next = [] := by
          unfold childIds
          rw [List.filter_eq_nil_iff.mpr, List.map_nil]
          intro n hn hpar
          obtain ⟨hlt, -⟩ := (d.append k hk b).parents n hn _ (of_decide_eq_true hpar)
          exact absurd ((d.append k hk b).bound n hn) (Nat.not_lt.mpr hlt)
        unfold toInstance InstanceBuilder.build
        rw [hleaf]
  destroy_isSome d x i hi hne := by
    obtain ⟨n, hn, rfl, -⟩ := (lookupNode_eq_some d.sorted).mp hi
    simp only [destroy]
    rw [dif_pos ⟨⟨n, hn, rfl⟩, hne⟩]
    rfl
  destroy_spec d x d' h := by
    simp only [destroy] at h
    split_ifs at h with hx
    obtain rfl := Option.some.inj h
    refine ⟨rfl, fun _ => id, fun y hy => ?_, fun y hy => d.getByRef_prune hx.1 hx.2 hy⟩
    refine (lookupNode_eq_none (d.prune x hx.1 hx.2).sorted).mpr fun n hn hyn => ?_
    have hdoom := of_decide_eq_true (List.mem_filter.mp hn).2
    rw [← hyn, mem_doomed d.sorted d.parents hx.1] at hdoom
    exact hdoom hy
  rootRef_write _ _ _ := rfl
  issued_write _ _ _ _ := id
  getByRef_write d x f y := d.getByRef_modify x y f

end MapDom

end Roxo
