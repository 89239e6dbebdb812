import Roxo.Snapshot.MapDom

/-!
# The instances below an instance

The queue loops of syncback visit every instance of a subtree once, parents before their children.
A DOM holds finitely many instances, so the loops end.
-/

namespace Roxo

open Forest WeakDom

/-- The instances of a DOM can be listed: the crate keeps them in a map by their ids. -/
class FiniteWeakDom (D : Type) [WeakDom D] where
  refs : D → List Ref
  mem_refs : ∀ (d : D) {x i}, getByRef d x = some i → x ∈ refs d

instance : FiniteWeakDom MapDom where
  refs d := d.nodes.map fun n => Ref.some n.id
  mem_refs d {x i} h := by
    obtain ⟨n, hn, rfl, -⟩ := (MapDom.lookupNode_eq_some d.sorted).mp h
    exact List.mem_map.mpr ⟨n, hn, rfl⟩

variable {D : Type} [WeakDom D]

/-- The loop of `descendants`, with its fuel. -/
def descendantsLoop (dom : D) : ℕ → List Ref → MayPanic (List Ref)
  | _, [] => some []
  | 0, _ :: _ => none
  | n + 1, referent :: queue => do
    let inst ← getByRef dom referent
    let ordered ← descendantsLoop dom n (queue ++ inst.children)
    some (referent :: ordered)

/-- The fuel of the queue loops over a DOM. -/
def domFuel [FiniteWeakDom D] (dom : D) : ℕ := (FiniteWeakDom.refs dom).length + 1

/-- The instances of a subtree, parents before their children. -/
def descendants [FiniteWeakDom D] (dom : D) (rootRef : Ref) : MayPanic (List Ref) :=
  descendantsLoop dom (domFuel dom) [rootRef]

/-- The instances of a subtree in the order of the queue. -/
def walk [FiniteWeakDom D] (dom : D) (root : Ref) : List Ref :=
  bfs (kids dom) (domFuel dom) [root]

section Walk

variable [LawfulWeakDom D] {dom : D} {a b c root : Ref} {queue : List Ref}

theorem present_of_desc {i : Instance} (ha : getByRef dom a = some i)
    (h : Desc (kids dom) a b) : ∃ j, getByRef dom b = some j := by
  rcases Relation.ReflTransGen.cases_tail h with rfl | ⟨p, -, hp⟩
  · exact ⟨i, ha⟩
  · obtain ⟨j, hj, -⟩ := LawfulWeakDom.child_present dom hp
    exact ⟨j, hj⟩

theorem descendantsLoop_eq {n : ℕ} (hq : ∀ a ∈ queue, ∃ i, getByRef dom a = some i)
    (hn : (bfs (kids dom) n queue).length < n) :
    descendantsLoop dom n queue = some (bfs (kids dom) n queue) := by
  induction n generalizing queue with
  | zero => cases hn
  | succ n ih =>
    cases queue with
    | nil => rfl
    | cons a queue =>
      obtain ⟨i, hi⟩ := hq a List.mem_cons_self
      have hkids : kids dom a = i.children := kids_eq hi
      unfold bfs at hn ⊢
      have hn' : (bfs (kids dom) n (queue ++ kids dom a)).length < n := by
        rw [List.length_cons] at hn
        omega
      have hq' : ∀ b ∈ queue ++ kids dom a, ∃ j, getByRef dom b = some j := by
        intro b hb
        rcases List.mem_append.mp hb with hb | hb
        · exact hq b (List.mem_cons_of_mem _ hb)
        · exact present_of_desc hi (Desc.of_mem hb)
      unfold descendantsLoop
      rw [hi]
      change (descendantsLoop dom n (queue ++ i.children)).bind _ = _
      rw [← hkids, ih hq' hn']
      rfl

variable [FiniteWeakDom D]

theorem walk_length_lt {i : Instance} (hroot : getByRef dom root = some i) :
    (walk dom root).length < domFuel dom := by
  have hf := LawfulWeakDom.forest dom
  have hqueue : ∀ a ∈ [root], a ∈ FiniteWeakDom.refs dom := by
    intro a ha
    rw [List.mem_singleton.mp ha]
    exact FiniteWeakDom.mem_refs dom hroot
  have hkids : ∀ a ∈ FiniteWeakDom.refs dom, ∀ b ∈ kids dom a, b ∈ FiniteWeakDom.refs dom := by
    intro a _ b hb
    obtain ⟨j, hj, -⟩ := LawfulWeakDom.child_present dom hb
    exact FiniteWeakDom.mem_refs dom hj
  exact hf.bfs_length_lt (antichain_singleton root) hqueue hkids (Nat.lt_succ_self _)

/-- The loop ends, with the instances of the subtree. -/
theorem descendants_eq {i : Instance} (hroot : getByRef dom root = some i) :
    descendants dom root = some (walk dom root) := by
  apply descendantsLoop_eq
  · intro a ha
    rw [List.mem_singleton.mp ha]
    exact ⟨i, hroot⟩
  · exact walk_length_lt hroot

theorem mem_walk {i : Instance} (hroot : getByRef dom root = some i) :
    a ∈ walk dom root ↔ Desc (kids dom) root a := by
  unfold walk
  rw [mem_bfs_iff (walk_length_lt hroot)]
  simp only [List.mem_singleton, exists_eq_left]

theorem nodup_walk (dom : D) (root : Ref) : (walk dom root).Nodup :=
  (LawfulWeakDom.forest dom).nodup_bfs (antichain_singleton root)

end Walk

end Roxo
