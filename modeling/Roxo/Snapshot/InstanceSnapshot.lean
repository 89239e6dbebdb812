import Roxo.Snapshot.WeakDom

/-!
# Snapshots

A lightweight description of what an instance and everything below it should look like.
-/

namespace Roxo

structure InstanceSnapshot where
  /-- A temporary id applied to the snapshot that's used for `Ref` properties. -/
  snapshotId : Ref
  metadata : InstanceMetadata
  name : String
  className : String
  properties : UstrMap Variant
  children : List InstanceSnapshot

namespace InstanceSnapshot

def new : InstanceSnapshot where
  snapshotId := Ref.none
  metadata := {}
  name := "DEFAULT"
  className := "DEFAULT"
  properties := ∅
  children := []

/-- A property of all snapshots follows from its passing from children to their parent. -/
theorem induct {motive : InstanceSnapshot → Prop}
    (snapshot : ∀ s, (∀ c ∈ s.children, motive c) → motive s) (s : InstanceSnapshot) :
    motive s :=
  @InstanceSnapshot.rec motive (fun children => ∀ c ∈ children, motive c)
    (fun _ _ _ _ _ _ ih => snapshot _ ih) (fun _ h => nomatch h)
    (fun _ _ hc ih _ h => (List.mem_cons.mp h).elim (fun h => h ▸ hc) (ih _)) s

mutual

/-- The snapshot and everything below it, parents first. -/
def nodes : InstanceSnapshot → List InstanceSnapshot
  | ⟨snapshotId, metadata, name, className, properties, children⟩ =>
    ⟨snapshotId, metadata, name, className, properties, children⟩ :: childNodes children

def childNodes : List InstanceSnapshot → List InstanceSnapshot
  | [] => []
  | s :: children => nodes s ++ childNodes children

end

theorem nodes_eq (s : InstanceSnapshot) : s.nodes = s :: s.children.flatMap nodes := by
  have hc : ∀ l, childNodes l = l.flatMap nodes := by
    intro l
    induction l with
    | nil => rfl
    | cons s l ih => rw [childNodes, ih, List.flatMap_cons]
  cases s with
  | mk snapshotId metadata name className properties children => rw [nodes, hc]

theorem self_mem_nodes (s : InstanceSnapshot) : s ∈ s.nodes := by
  rw [nodes_eq]
  exact List.mem_cons_self

theorem mem_nodes_of_child {s c n : InstanceSnapshot} (hc : c ∈ s.children) (hn : n ∈ c.nodes) :
    n ∈ s.nodes := by
  rw [nodes_eq]
  exact List.mem_cons_of_mem _ (List.mem_flatMap.mpr ⟨c, hc, hn⟩)

/-- The nodes below a node are nodes. -/
theorem mem_nodes_trans {s c n : InstanceSnapshot} (hc : c ∈ s.nodes) (hn : n ∈ c.nodes) :
    n ∈ s.nodes := by
  induction s using induct with
  | snapshot s ih =>
    rw [nodes_eq] at hc
    rcases List.mem_cons.mp hc with rfl | hc
    · exact hn
    · obtain ⟨d, hd, hc⟩ := List.mem_flatMap.mp hc
      exact mem_nodes_of_child hd (ih d hd hc)

end InstanceSnapshot

end Roxo
