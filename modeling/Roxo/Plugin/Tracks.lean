import Roxo.Plugin.InitialSync
import Roxo.Plugin.Reparent
import Roxo.Plugin.TrackedMap
import Roxo.Server.Interface
import Roxo.Snapshot.Replay

/-!
# Following a replica

`Tracks` says that the DOM and the map of the plugin hold a replica of the server's tree, instance
by instance. Removals and updates of a live patch do to them what they do to the replica.
-/

namespace Roxo.Plugin

open AssocMap Forest Replica

variable {V E : Type}

/-- How ids and values are written into messages. A property that is removed has no value. -/
structure Wire (E : Type) where
  text : Ref → String
  encode : Option Variant → EncodedValue E
  text_injective : Function.Injective text

namespace Wire

variable (wire : Wire E)

/-- An instance as the plugin gets it. -/
def virtual (i : Interface.Instance) : VirtualInstance E where
  id := wire.text i.id
  parent := some (wire.text i.parent)
  name := i.name
  className := i.className
  properties := mapVal (fun _ value => wire.encode (some value)) i.properties
  metadata := i.metadata.map fun metadata => ⟨some metadata.ignoreUnknownInstances⟩
  children := i.children.map wire.text

def update (u : Interface.InstanceUpdate) : Update E where
  id := wire.text u.id
  changedName := u.changedName
  changedClassName := u.changedClassName
  changedProperties := mapVal (fun _ value => wire.encode value) u.changedProperties
  changedMetadata := u.changedMetadata.map fun metadata => ⟨some metadata.ignoreUnknownInstances⟩

/-- A message as the patch that the plugin applies. -/
def patch (message : Interface.SubscribeMessage) : PatchSet E where
  removed := message.removed.map fun r => .id (wire.text r)
  added := extend ∅ ((toList message.added).map fun e => (wire.text e.1, wire.virtual e.2))
  updated := message.updated.map wire.update

/-- A recorded update as the plugin gets it. -/
def applied (u : AppliedPatchUpdate) : Update E := wire.update (.fromPatchUpdate u)

end Wire

/-- What an instance shows of an entry. -/
structure ShowsEntry (wire : Wire E) (dom : Dom V) (map : InstanceMap) (movable : Prop)
    (e : ReplicaInstance) (held : String → Option (LuaValue V)) (inst : Handle) : Prop where
  lt : inst < dom.next
  name : (dom.instances inst).name = e.name
  className : (dom.instances inst).className = e.className
  accessible : (dom.instances inst).accessible = true
  unlocked : movable → (dom.instances inst).locked = false
  properties : (dom.instances inst).properties = held
  parent : dom.parent inst = map.fromIds.lookup (wire.text e.parent)

/-- The ids of the map are those of the replica, and their instances show it. All of them but the
root can be moved. -/
structure Tracks (wire : Wire E) (root : Ref) (replica : Store Ref ReplicaInstance)
    (held : Ref → String → Option (LuaValue V)) (dom : Dom V) (map : InstanceMap) : Prop where
  wellFormed : dom.WellFormed
  inverse : map.Inverse
  ids : ∀ {id inst}, map.fromIds.lookup id = some inst → ∃ r e, wire.text r = id ∧ replica r = some e
  mapped : ∀ {r e}, replica r = some e →
    ∃ inst, map.fromIds.lookup (wire.text r) = some inst ∧ ShowsEntry wire dom map (r ≠ root) e (held r) inst

namespace Tracks

variable {wire : Wire E} {replica : Store Ref ReplicaInstance}
  {held : Ref → String → Option (LuaValue V)} {dom : Dom V} {map : InstanceMap} {root x y : Ref}
  {e : ReplicaInstance} {inst inst' : Handle}

theorem fits (ht : Tracks wire root replica held dom map)
    (hm : map.fromIds.lookup (wire.text x) = some inst) (he : replica x = some e) :
    ShowsEntry wire dom map (x ≠ root) e (held x) inst := by
  obtain ⟨inst', hm', hf⟩ := ht.mapped he
  rw [hm, Option.some.injEq] at hm'
  rwa [hm']

theorem exists_entry (ht : Tracks wire root replica held dom map)
    (hm : map.fromIds.lookup (wire.text x) = some inst) : ∃ e, replica x = some e := by
  obtain ⟨r, e, hr, he⟩ := ht.ids hm
  rw [wire.text_injective hr] at he
  exact ⟨e, he⟩

/-! ## Removals -/

/-- Mapped instances are below each other as the entries of the replica are. -/
theorem desc_iff (ht : Tracks wire root replica held dom map)
    (hx : map.fromIds.lookup (wire.text x) = some inst)
    (hy : map.fromIds.lookup (wire.text y) = some inst') :
    Desc dom.getChildren inst inst' ↔ Replica.Below ReplicaInstance.parent replica x y := by
  constructor
  · intro hd
    induction hd generalizing y with
    | refl =>
      rw [wire.text_injective (ht.inverse.eq_of_fromIds hy hx)]
      exact .refl
    | @tail p c _ hpc ih =>
      obtain ⟨e, he⟩ := ht.exists_entry hy
      have hparent := (ht.fits hy he).parent
      rw [ht.wellFormed.parent_iff.mp hpc] at hparent
      exact (ih hparent.symm).tail ⟨e, he, rfl⟩
  · intro hb
    induction hb generalizing inst' with
    | refl =>
      rw [hx, Option.some.injEq] at hy
      exact hy ▸ .refl
    | @tail a b hab hstep ih =>
      obtain ⟨e, he, rfl⟩ := hstep
      obtain ⟨p, hp⟩ : ∃ p, map.fromIds.lookup (wire.text e.parent) = some p := by
        rcases Relation.ReflTransGen.cases_tail hab with heq | ⟨-, -, e', he', -⟩
        · exact ⟨inst, heq ▸ hx⟩
        · obtain ⟨p, hp, -⟩ := ht.mapped he'
          exact ⟨p, hp⟩
      refine (ih hp).tail (ht.wellFormed.parent_iff.mpr ?_)
      rw [(ht.fits hy he).parent, hp]

theorem foldl_removeInstance_fromIds {map : InstanceMap} (hi : map.Inverse) (l : List Handle) :
    (l.foldl InstanceMap.removeInstance map).Inverse ∧ ∀ id inst,
      (l.foldl InstanceMap.removeInstance map).fromIds.lookup id = some inst ↔
        map.fromIds.lookup id = some inst ∧ inst ∉ l := by
  induction l generalizing map with
  | nil => simpa using hi
  | cons a l ih =>
    obtain ⟨hinv, hiff⟩ := ih (hi.removeInstance a)
    refine ⟨hinv, fun id inst => ?_⟩
    rw [List.foldl_cons, hiff, InstanceMap.removeInstance_fromIds hi, List.mem_cons, not_or]
    by_cases ha : map.fromIds.lookup id = some a
    · rw [if_pos ha, ha]
      refine iff_of_false (fun h => absurd h.1.symm (Option.some_ne_none inst)) fun h => ?_
      exact h.2.1 (Option.some.inj h.1).symm
    · rw [if_neg ha]
      refine ⟨fun h => ⟨h.1, fun heq => ha (heq ▸ h.1), h.2⟩, fun h => ⟨h.1, h.2.2⟩⟩

/-- What is left in the map without a subtree is what was mapped and is not below it. -/
theorem lookup_destroyed (ht : Tracks wire root replica held dom map)
    (hx : map.fromIds.lookup (wire.text x) = some inst) (y : Ref) (h : Handle) :
    ((dom.getDescendants inst).foldl InstanceMap.removeInstance
        (map.removeId (wire.text x))).fromIds.lookup (wire.text y) = some h ↔
      map.fromIds.lookup (wire.text y) = some h ∧
        ¬ Replica.Below ReplicaInstance.parent replica x y := by
  rw [(foldl_removeInstance_fromIds (ht.inverse.removeId (wire.text x)) _).2,
    InstanceMap.removeId_fromIds]
  by_cases hyx : wire.text y = wire.text x
  · rw [if_pos hyx, wire.text_injective hyx]
    simp [Relation.ReflTransGen.refl, Replica.Below]
  · rw [if_neg hyx]
    refine and_congr_right fun hy => not_congr ?_
    rw [← ht.desc_iff hx hy]
    refine ⟨desc_of_mem_getDescendants, fun hd => InstanceMap.mem_getDescendants ht.wellFormed hd ?_⟩
    rintro rfl
    exact hyx (ht.inverse.eq_of_fromIds hy hx)

/-- Removing a subtree. -/
theorem exists_destroyId (ht : Tracks wire root replica held dom map)
    (hx : map.fromIds.lookup (wire.text x) = some inst) (hroot : x ≠ root) :
    ∃ dom' map', map.destroyId dom (wire.text x) = .ok (dom', map') ∧
      Tracks wire root (remove ReplicaInstance.parent replica x) held dom' map' := by
  classical
  obtain ⟨e, he⟩ := ht.exists_entry hx
  have hfree := (ht.fits hx he).unlocked hroot
  have hpruned := (Pruned.refl dom).remove ht.wellFormed inst
  have hid := (ht.inverse _ _).mp hx
  obtain ⟨hinv, hiff⟩ := foldl_removeInstance_fromIds (ht.inverse.removeId (wire.text x))
    (dom.getDescendants inst)
  have hmapped := ht.lookup_destroyed hx
  have hstays : ∀ {y h}, map.fromIds.lookup (wire.text y) = some h → y ≠ x →
      (dom.setParent inst none).parent h = dom.parent h := by
    intro y h hy hyx
    rw [hpruned.parent, List.nil_append, if_neg]
    intro hmem
    rw [List.mem_singleton.mp hmem] at hy
    exact hyx (wire.text_injective (ht.inverse.eq_of_fromIds hy hx))
  refine ⟨dom.setParent inst none, (dom.getDescendants inst).foldl InstanceMap.removeInstance
    (map.removeId (wire.text x)), ?_, ?_⟩
  · unfold InstanceMap.destroyId InstanceMap.destroyInstance
    rw [hx]
    simp [hfree, hid]
  · refine { wellFormed := hpruned.wellFormed ht.wellFormed, inverse := hinv
             ids := fun {id h} hm => ?_, mapped := fun {y ey} hy => ?_ }
    · have hold : map.fromIds.lookup id = some h := by
        have hm' := ((hiff id h).mp hm).1
        rw [InstanceMap.removeId_fromIds] at hm'
        split_ifs at hm'
        exact hm'
      obtain ⟨r, er, rfl, hr⟩ := ht.ids hold
      refine ⟨r, er, rfl, ?_⟩
      unfold remove
      rw [if_neg ((hmapped r h).mp hm).2, hr]
    · unfold remove at hy
      split_ifs at hy with hbelow
      obtain ⟨h, hm, hf⟩ := ht.mapped hy
      have hyx : y ≠ x := fun heq => hbelow (heq ▸ .refl)
      have hinst := hpruned.instances h
      refine ⟨h, (hmapped y h).mpr ⟨hm, hbelow⟩, ?_⟩
      have hparent' := hstays hm hyx
      refine { lt := hpruned.next ▸ hf.lt, name := ?_, className := ?_, accessible := ?_, unlocked := ?_
               properties := ?_, parent := ?_ }
      · rw [hinst]; exact hf.name
      · rw [hinst]; exact hf.className
      · rw [hinst]; exact hf.accessible
      · rw [hinst]; exact hf.unlocked
      · rw [hinst]; exact hf.properties
      · rw [hparent', hf.parent]
        -- the parent is not below either
        refine Option.ext fun p => ?_
        rw [hmapped]
        exact ⟨fun hp => ⟨hp, fun hb => hbelow (hb.tail ⟨ey, hy, rfl⟩)⟩, And.left⟩

/-- Removing subtrees that are not below each other, one after the other. -/
theorem exists_foldl_applyRemoved {removed : List Ref} (ht : Tracks wire root replica held dom map)
    (hpresent : ∀ r ∈ removed, r ≠ root ∧ ∃ e, replica r = some e)
    (hnd : removed.Nodup) (hapart : ∀ r ∈ removed, ∀ r' ∈ removed,
      Replica.Below ReplicaInstance.parent replica r r' → r = r') :
    ∃ dom' map', (removed.map fun r => Removed.id (wire.text r)).foldl applyRemoved
        (.start dom map : Work V E) = .start dom' map' ∧
      Tracks wire root (removed.foldl (remove ReplicaInstance.parent) replica) held dom' map' := by
  induction removed generalizing replica dom map with
  | nil => exact ⟨dom, map, rfl, ht⟩
  | cons x removed ih =>
    obtain ⟨hx, hnd⟩ := List.nodup_cons.mp hnd
    obtain ⟨hroot, e, he⟩ := hpresent x List.mem_cons_self
    obtain ⟨inst, hm, -⟩ := ht.mapped he
    obtain ⟨dom₁, map₁, hdestroy, ht₁⟩ := ht.exists_destroyId hm hroot
    have hnot : ∀ y ∈ removed, ¬ Replica.Below ReplicaInstance.parent replica x y := fun y hy hb =>
      hx (hapart x List.mem_cons_self y (List.mem_cons_of_mem _ hy) hb ▸ hy)
    have hkept : ∀ y, ¬ Replica.Below ReplicaInstance.parent replica x y →
        remove ReplicaInstance.parent replica x y = replica y := by
      intro y hb
      unfold remove
      rw [if_neg hb]
    obtain ⟨dom₂, map₂, hrun, ht₂⟩ := ih ht₁
      (fun y hy => by
        obtain ⟨hy', ey, hey⟩ := hpresent y (List.mem_cons_of_mem _ hy)
        exact ⟨hy', ey, (hkept y (hnot y hy)).trans hey⟩) hnd
      fun y hy y' hy' hb => hapart y (List.mem_cons_of_mem _ hy) y' (List.mem_cons_of_mem _ hy')
        hb.of_remove
    refine ⟨dom₂, map₂, ?_, ht₂⟩
    rw [List.map_cons, List.foldl_cons, ← hrun]
    congr 1
    unfold applyRemoved Work.start
    simp only [hdestroy]

end Tracks

end Roxo.Plugin
