import Roxo.Plugin.Tracks

/-!
# Live additions

A message about additions lists the instances of whole subtrees of the server's tree. Applying them
grafts the subtrees onto the replica that the plugin holds.
-/

namespace Roxo.Plugin

open AssocMap Forest Replica

variable {V E : Type} {D : Type} [WeakDom D]

/-- The virtual instances of a patch are the created instances of the tree, whole subtrees of it. -/
structure Sends (wire : Wire E) (tree : RojoTree D) (created : Ref → Prop)
    (added : Map String (VirtualInstance E)) : Prop where
  sent : ∀ {r}, created r → ∃ i m, WeakDom.getByRef tree.inner r = some i ∧
    added.lookup (wire.text r) = some (wire.virtual (.fromRojoInstance ⟨i, m⟩))
  ids : ∀ {id}, id ∈ added → ∃ r, created r ∧ wire.text r = id
  children : ∀ {r c}, created r → c ∈ WeakDom.kids tree.inner r → created c
  below : ∀ {r i}, created r → WeakDom.getByRef tree.inner r = some i → i.parent ≠ Ref.none

namespace Sends

variable {wire : Wire E} {tree : RojoTree D} {created : Ref → Prop}
  {added : Map String (VirtualInstance E)} (hs : Sends wire tree created added)

include hs

theorem mem_kids {p c : String} : c ∈ kids added p ↔
    ∃ r s, created r ∧ wire.text r = p ∧ s ∈ WeakDom.kids tree.inner r ∧ wire.text s = c := by
  by_cases hp : p ∈ added
  · obtain ⟨r, hr, rfl⟩ := hs.ids hp
    obtain ⟨i, m, hi, hlookup⟩ := hs.sent hr
    have hkids : kids added (wire.text r) = (WeakDom.kids tree.inner r).map wire.text := by
      rw [kids_of_lookup hlookup, WeakDom.kids_eq hi]
      rfl
    rw [hkids, List.mem_map]
    constructor
    · rintro ⟨s, hs', rfl⟩
      exact ⟨r, s, hr, rfl, hs', rfl⟩
    · rintro ⟨r', s, -, heq, hs', rfl⟩
      exact ⟨s, wire.text_injective heq ▸ hs', rfl⟩
  · have hnone := AList.lookup_eq_none.mpr hp
    unfold kids
    rw [hnone]
    refine iff_of_false List.not_mem_nil ?_
    rintro ⟨r, s, hr, rfl, -, -⟩
    obtain ⟨i, m, -, hlookup⟩ := hs.sent hr
    rw [hlookup] at hnone
    cases hnone

theorem mem_added {r : Ref} : wire.text r ∈ added ↔ created r := by
  constructor
  · intro h
    obtain ⟨r', hr', heq⟩ := hs.ids h
    rwa [← wire.text_injective heq]
  · intro hr
    obtain ⟨i, m, -, hlookup⟩ := hs.sent hr
    exact AList.lookup_isSome.mp (by rw [hlookup]; rfl)

/-- What is listed under an id is the instance of the id. -/
theorem virtual_of_lookup {r : Ref} {v : VirtualInstance E}
    (hv : added.lookup (wire.text r) = some v) : created r ∧ ∃ i m,
      WeakDom.getByRef tree.inner r = some i ∧ v = wire.virtual (.fromRojoInstance ⟨i, m⟩) := by
  have hr := hs.mem_added.mp (AList.lookup_isSome.mp (by rw [hv]; rfl))
  obtain ⟨i, m, hi, hlookup⟩ := hs.sent hr
  rw [hv, Option.some.injEq] at hlookup
  exact ⟨hr, i, m, hi, hlookup⟩

theorem exists_ref {id : String} {v : VirtualInstance E} (hv : added.lookup id = some v) :
    ∃ r i m, created r ∧ wire.text r = id ∧ WeakDom.getByRef tree.inner r = some i ∧
      v = wire.virtual (.fromRojoInstance ⟨i, m⟩) := by
  obtain ⟨r, hr, rfl⟩ := hs.ids (AList.lookup_isSome.mp (by rw [hv]; rfl))
  obtain ⟨-, i, m, hi, hv⟩ := hs.virtual_of_lookup hv
  exact ⟨r, i, m, hr, rfl, hi, hv⟩

theorem nested [LawfulWeakDom D] : Nested added where
  forest :=
    { nodup := fun p => by
        by_cases hp : p ∈ added
        · obtain ⟨r, hr, rfl⟩ := hs.ids hp
          obtain ⟨i, m, hi, hlookup⟩ := hs.sent hr
          rw [kids_of_lookup hlookup]
          show (i.children.map wire.text).Nodup
          rw [← WeakDom.kids_eq hi]
          exact ((LawfulWeakDom.forest tree.inner).nodup r).map wire.text_injective
        · unfold kids
          rw [AList.lookup_eq_none.mpr hp]
          exact List.nodup_nil
      unique := fun h h' => by
        obtain ⟨r, s, -, rfl, hrs, rfl⟩ := hs.mem_kids.mp h
        obtain ⟨r', s', -, rfl, hrs', heq⟩ := hs.mem_kids.mp h'
        rw [wire.text_injective heq] at hrs'
        rw [(LawfulWeakDom.forest tree.inner).unique hrs hrs']
      acyclic := by
        obtain ⟨depth, hdepth⟩ := (LawfulWeakDom.forest tree.inner).acyclic
        refine ⟨Function.extend wire.text depth fun _ => 0, fun p c h => ?_⟩
        obtain ⟨r, s, -, rfl, hrs, rfl⟩ := hs.mem_kids.mp h
        rw [wire.text_injective.extend_apply, wire.text_injective.extend_apply]
        exact hdepth r s hrs }
  present := fun h => by
    obtain ⟨r, s, hr, rfl, hrs, rfl⟩ := hs.mem_kids.mp h
    exact hs.mem_added.mpr (hs.children hr hrs)

/-- The created instances form trees below instances of the map. -/
theorem rooted [LawfulWeakDom D] {map : InstanceMap} (hparents : ∀ {r i}, created r →
      WeakDom.getByRef tree.inner r = some i →
      created i.parent ∨ ∃ inst, map.fromIds.lookup (wire.text i.parent) = some inst) :
    Rooted added map where
  nested := hs.nested
  parent_of_mem := by
    intro p c v h hv
    obtain ⟨r, s, -, rfl, hrs, rfl⟩ := hs.mem_kids.mp h
    obtain ⟨-, i, m, hi, rfl⟩ := hs.virtual_of_lookup hv
    obtain ⟨j, hj, rfl⟩ := LawfulWeakDom.child_present tree.inner hrs
    rw [hi, Option.some.injEq] at hj
    rw [← hj]
    rfl
  mem_of_parent := by
    intro p c v hv hp hpa
    obtain ⟨s, i, m, hs', rfl, hi, rfl⟩ := hs.exists_ref hv
    obtain rfl : wire.text i.parent = p := Option.some.inj hp
    refine hs.mem_kids.mpr ⟨i.parent, s, hs.mem_added.mp hpa, rfl, ?_, rfl⟩
    exact LawfulWeakDom.mem_kids_of_parent tree.inner hi (hs.below hs' hi)
  mapped := by
    intro c v hv
    obtain ⟨s, i, m, hs', rfl, hi, rfl⟩ := hs.exists_ref hv
    refine ⟨wire.text i.parent, rfl, fun hnot => ?_⟩
    exact (hparents hs' hi).resolve_left fun h => hnot (hs.mem_added.mpr h)

end Sends

open Classical in
/-- The replica with the created instances of the tree. -/
noncomputable def grafted (tree : RojoTree D) (created : Ref → Prop)
    (replica : Store Ref ReplicaInstance) : Store Ref ReplicaInstance := fun r =>
  if created r then replicaOf tree r else replica r

variable [Engine V] [Decoder E V]

/-- What the plugin holds once instances have been created. -/
structure HeldAfterAdditions (wire : Wire E) (tree : RojoTree D) (created : Ref → Prop)
    (replica : Store Ref ReplicaInstance) (held held' : Ref → String → Option (LuaValue V)) :
    Prop where
  new : ∀ {r i}, created r → WeakDom.getByRef tree.inner r = some i → ∃ m,
    held' r = heldAfter i.className (fun _ => none)
      (wire.virtual (.fromRojoInstance ⟨i, m⟩)).properties.entries
  old : ∀ {r e}, replica r = some e → held' r = held r

/-- Additions that can all be created. -/
theorem Tracks.exists_foldlM_applyAdded [LawfulWeakDom D] {wire : Wire E}
    {replica : Store Ref ReplicaInstance} {held : Ref → String → Option (LuaValue V)} {dom : Dom V}
    {map : InstanceMap} {root : Ref} {tree : RojoTree D} {created : Ref → Prop}
    {added : Map String (VirtualInstance E)} (ht : Tracks wire root replica held dom map)
    (hs : Sends wire tree created added)
    (hparents : ∀ {r i}, created r → WeakDom.getByRef tree.inner r = some i →
      created i.parent ∨ ∃ e, replica i.parent = some e)
    (hfresh : ∀ {r}, created r → replica r = none)
    (hold : ∀ {r e}, replica r = some e → ¬ created e.parent)
    (ho : ∀ {id v}, added.lookup id = some v → Obliging V v) {order : List String}
    (horder : order.Perm added.keys) :
    ∃ w held', order.foldlM (applyAdded added) (.start dom map : Work V E) = some w ∧
      w.deferredRefs = [] ∧ Tracks wire root (grafted tree created replica) held' w.dom w.map ∧
      HeldAfterAdditions wire tree created replica held held' := by
  have hlt : ∀ {id inst}, map.fromIds.lookup id = some inst → inst < dom.next := fun hm => by
    obtain ⟨r, e, rfl, he⟩ := ht.ids hm
    exact (ht.fits hm he).lt
  have hmapped : ∀ {r e}, replica r = some e →
      ∃ inst, map.fromIds.lookup (wire.text r) = some inst := fun he => by
    obtain ⟨inst, hm, -⟩ := ht.mapped he
    exact ⟨inst, hm⟩
  have hunmapped : ∀ {r}, created r → map.fromIds.lookup (wire.text r) = none := by
    intro r hr
    rw [Option.eq_none_iff_forall_ne_some]
    intro inst hm
    obtain ⟨e, he⟩ := ht.exists_entry hm
    rw [hfresh hr] at he
    cases he
  have hrooted : Rooted added map := hs.rooted fun hr hi =>
    (hparents hr hi).imp_right fun ⟨_, he⟩ => hmapped he
  obtain ⟨w, roots, log, hrun, hg, htop, hlog⟩ := exists_additions
    ⟨ht.wellFormed, ht.inverse, hlt⟩ hrooted ho
    (fun id hid => by
      obtain ⟨r, hr, rfl⟩ := hs.ids hid
      exact hunmapped hr) horder
  have hnew : ∀ {r}, created r → ∃ entry ∈ log, entry.id = wire.text r := fun hr => by
    obtain ⟨entry, hentry, hid⟩ := List.mem_map.mp ((hlog _).mpr (hs.mem_added.mpr hr))
    exact ⟨entry, hentry, hid⟩
  have hsame : ∀ {r}, ¬ created r →
      w.map.fromIds.lookup (wire.text r) = map.fromIds.lookup (wire.text r) := by
    intro r hr
    refine hg.others _ fun entry hentry hid => hr (hs.mem_added.mp ?_)
    rw [← hid, ← hlog]
    exact List.mem_map_of_mem hentry
  have hcreated : ∀ {r}, created r → ∃ entry i m, entry ∈ log ∧ entry.id = wire.text r ∧
      w.map.fromIds.lookup (wire.text r) = some entry.inst ∧
      WeakDom.getByRef tree.inner r = some i ∧
      added.lookup (wire.text r) = some (wire.virtual (.fromRojoInstance ⟨i, m⟩)) ∧
      w.dom.instances entry.inst = { reified (wire.virtual (.fromRojoInstance ⟨i, m⟩)) with
        parent := entry.parent, children := attached log entry.inst } := by
    intro r hr
    obtain ⟨entry, hentry, hid⟩ := hnew hr
    obtain ⟨i, m, hi, hlookup⟩ := hs.sent hr
    obtain ⟨v, hv, hinst⟩ := hg.new entry hentry
    rw [hid, hlookup, Option.some.injEq] at hv
    subst hv
    exact ⟨entry, i, m, hentry, hid, hid ▸ hg.fromIds entry hentry, hi, hlookup, hinst⟩
  -- where an instance has been attached
  have hparent : ∀ {r i} {entry : Entry}, created r → WeakDom.getByRef tree.inner r = some i →
      entry ∈ log → entry.id = wire.text r →
      entry.parent = w.map.fromIds.lookup (wire.text i.parent) := by
    intro r i entry hr hi hentry hid
    obtain ⟨i', m, hi', hlookup⟩ := hs.sent hr
    rw [hi, Option.some.injEq] at hi'
    subst hi'
    have hkid : r ∈ WeakDom.kids tree.inner i.parent :=
      LawfulWeakDom.mem_kids_of_parent tree.inner hi (hs.below hr hi)
    rcases hg.parents entry hentry with ⟨hroot, htopmost⟩ | ⟨entry', hentry', hmem, hp⟩
    · have hnot : ¬ created i.parent := fun hcreated =>
        (htop _ hroot).2 _ (hs.mem_kids.mpr ⟨i.parent, r, hcreated, rfl, hkid, hid.symm⟩)
      rw [htopmost, hsame hnot, topParent, hid, hlookup]
      rfl
    · obtain ⟨p, s, -, htext, hps, hs'⟩ := hs.mem_kids.mp hmem
      rw [wire.text_injective (hs'.trans hid)] at hps
      rw [hp, ← (LawfulWeakDom.forest tree.inner).unique hps hkid, htext,
        hg.fromIds entry' hentry']
  refine ⟨w, fun r => (w.map.fromIds.lookup (wire.text r)).elim (fun _ => none) fun inst =>
    (w.dom.instances inst).properties, hrun,
    (Grew.nothing_left (fun hv => (ho hv).assignable) hg).1, ?_, fun {r i} hr hi => ?_,
    fun {r e} he => ?_⟩
  · refine { wellFormed := hg.wellFormed ht.wellFormed, inverse := hg.inverse
             ids := fun {id inst} hm => ?_, mapped := fun {r e} he => ?_ }
    · by_cases hid : id ∈ added
      · obtain ⟨r, hr, rfl⟩ := hs.ids hid
        obtain ⟨entry, i, m, -, -, -, hi, -⟩ := hcreated hr
        refine ⟨r, ReplicaInstance.of i, rfl, ?_⟩
        unfold grafted replicaOf
        rw [if_pos hr, hi]
        rfl
      · have hm' : map.fromIds.lookup id = some inst := by
          rw [← hm]
          refine (hg.others _ fun entry hentry heq => hid ?_).symm
          rw [← heq, ← hlog]
          exact List.mem_map_of_mem hentry
        obtain ⟨r, e, rfl, he⟩ := ht.ids hm'
        refine ⟨r, e, rfl, ?_⟩
        unfold grafted
        rw [if_neg fun hr => hid (hs.mem_added.mpr hr), he]
    · unfold grafted at he
      split_ifs at he with hr
      · obtain ⟨entry, i, m, hentry, hid, hm, hi, -, hinst⟩ := hcreated hr
        unfold replicaOf at he
        rw [hi, Option.map_some, Option.some.injEq] at he
        subst he
        refine ⟨entry.inst, hm, ?_⟩
        rw [hm]
        exact
          { lt := (hg.inst_mem hentry).2
            name := by
              rw [hinst]
              rfl
            className := by
              rw [hinst]
              rfl
            accessible := by
              rw [hinst]
              rfl
            unlocked := fun _ => by
              rw [hinst]
              rfl
            properties := rfl
            parent := (hg.parent_new hentry).trans (hparent hr hi hentry hid) }
      · obtain ⟨inst, hm, hf⟩ := ht.mapped he
        have hm' := (hsame hr).trans hm
        have hinst := hg.old inst hf.lt
        refine ⟨inst, hm', ?_⟩
        rw [hm']
        exact
          { lt := by
              have hlt := hf.lt
              have hnext := hg.next
              change w.dom.next = dom.next + log.length at hnext
              lia
            name := by
              rw [hinst]
              exact hf.name
            className := by
              rw [hinst]
              exact hf.className
            accessible := by
              rw [hinst]
              exact hf.accessible
            unlocked := by
              rw [hinst]
              exact hf.unlocked
            properties := rfl
            parent := by rw [hg.parent_old hf.lt, hsame (hold he)]; exact hf.parent }
  · obtain ⟨entry, i', m, -, -, hm, hi', -, hinst⟩ := hcreated hr
    rw [hi, Option.some.injEq] at hi'
    subst hi'
    refine ⟨m, ?_⟩
    rw [hm, Option.elim_some, hinst]
    rfl
  · obtain ⟨inst, hm, hf⟩ := ht.mapped he
    have hr : ¬ created r := fun hr => by
      rw [hfresh hr] at he
      cases he
    rw [hsame hr, hm, Option.elim_some, hg.old inst hf.lt]
    exact hf.properties

end Roxo.Plugin
