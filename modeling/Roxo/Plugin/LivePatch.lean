import Roxo.Plugin.Grafts
import Roxo.Plugin.LiveUpdates
import Roxo.Server.SentInstances
import Roxo.Snapshot.Outcome

/-!
# Live patches

A plugin that mirrors the server's tree applies the message about a patch. It mirrors the new tree
exactly if no update of a class leaves out a property that a new instance does not have by itself:
the plugin builds the new instance from the update alone.
-/

namespace Roxo

theorem Creates.parents {p : Ref} {l : List InstanceSnapshot} {ids : List Ref}
    {created : List Creation} (h : Creates p l ids created) :
    ∀ c ∈ created, c.parent = p ∨ ∃ d ∈ created, c.parent = d.id := by
  induction h with
  | nil => exact fun _ hc => nomatch hc
  | cons _ _ _ ih₁ ih₂ =>
    intro c hc
    rcases List.mem_cons.mp hc with rfl | hc
    · exact .inl rfl
    · rcases List.mem_append.mp hc with hc | hc
      · rcases ih₁ c hc with hp | ⟨d, hd, hp⟩
        · exact .inr ⟨_, List.mem_cons_self, hp⟩
        · exact .inr ⟨d, List.mem_cons_of_mem _ (List.mem_append_left _ hd), hp⟩
      · rcases ih₂ c hc with hp | ⟨d, hd, hp⟩
        · exact .inl hp
        · exact .inr ⟨d, List.mem_cons_of_mem _ (List.mem_append_right _ hd), hp⟩

/-- A created instance is below the instance that it was added to, or below another created one. -/
theorem CreatesAll.parents {additions : List PatchAdd} {tops : List Ref} {created : List Creation}
    (h : CreatesAll additions tops created) : ∀ c ∈ created,
      (∃ a ∈ additions, c.parent = a.parentId) ∨ ∃ d ∈ created, c.parent = d.id := by
  induction h with
  | nil => exact fun _ hc => nomatch hc
  | cons _ h₁ _ ih =>
    intro c hc
    rcases List.mem_cons.mp hc with rfl | hc
    · exact .inl ⟨_, List.mem_cons_self, rfl⟩
    · rcases List.mem_append.mp hc with hc | hc
      · rcases h₁.parents c hc with hp | ⟨d, hd, hp⟩
        · exact .inr ⟨_, List.mem_cons_self, hp⟩
        · exact .inr ⟨d, List.mem_cons_of_mem _ (List.mem_append_left _ hd), hp⟩
      · rcases ih c hc with ⟨a, ha, hp⟩ | ⟨d, hd, hp⟩
        · exact .inl ⟨a, List.mem_cons_of_mem _ ha, hp⟩
        · exact .inr ⟨d, List.mem_cons_of_mem _ (List.mem_append_right _ hd), hp⟩

end Roxo

namespace Roxo.Plugin

open AssocMap Forest Replica

variable {V E : Type} [Engine V] [Decoder E V]

variable (V) in
/-- Instances of the class that hold this read a value that is `trueEquals` to the virtual one. -/
def Reads (className : String) (held : String → Option (LuaValue V)) (propertyName : String)
    (virtualValue : EncodedValue E) : Prop :=
  ∀ (dom : Dom V) (map : InstanceMap) (inst : Handle), (dom.instances inst).className = className →
    (dom.instances inst).properties = held → HasValue dom map inst propertyName virtualValue

/-- The plugin mirrors the replica: ids, names, classes, parents and the properties that are sent. -/
structure Mirrors (wire : Wire E) (root : Ref) (replica : Store Ref ReplicaInstance) (dom : Dom V)
    (map : InstanceMap) : Prop where
  tracks : ∃ held, Tracks wire root replica held dom map
  values : ∀ {r e inst k v}, replica r = some e → map.fromIds.lookup (wire.text r) = some inst →
    e.properties k = some v → Interface.propertyFilter (some v) = true →
    HasValue dom map inst k (wire.encode (some v))

theorem Reads.iff_hasValue {className : String} {held : String → Option (LuaValue V)}
    {propertyName : String} {value : E} {dom : Dom V} {map : InstanceMap} {inst : Handle}
    (hclass : (dom.instances inst).className = className)
    (hheld : (dom.instances inst).properties = held) :
    Reads V className held propertyName (.other value : EncodedValue E) ↔
      HasValue dom map inst propertyName (.other value : EncodedValue E) := by
  refine ⟨fun h => h dom map inst hclass hheld, fun h dom' map' inst' hclass' hheld' => ?_⟩
  intro x decoded hx hdecoded
  refine h x decoded ?_ hdecoded
  unfold Dom.getProperty at hx ⊢
  rw [hclass', hheld'] at hx
  rw [hclass, hheld]
  exact hx

/-- Writing some of the properties of a virtual instance leaves its values in these, and in those
that had theirs before. -/
theorem reads_of_assigned {v : VirtualInstance E} (ho : Obliging V v)
    {held : String → Option (LuaValue V)} {changed : List (Σ _ : String, EncodedValue E)}
    (hsub : ∀ e ∈ changed, e ∈ v.properties.entries) {e : Σ _ : String, EncodedValue E}
    (he : e ∈ v.properties.entries) (hbefore : e ∈ changed ∨ Reads V v.className held e.1 e.2) :
    Reads V v.className (heldAfter v.className held changed) e.1 e.2 := by
  intro dom map inst hclass hheld
  refine hasValue_of_assigned ho hclass hsub hheld he (hbefore.imp_right fun hr => ?_)
  refine ⟨dom.modify inst fun i => { i with properties := held }, map, ?_, ?_, hr _ _ _ ?_ ?_⟩
  all_goals rw [Dom.modify_self]
  all_goals exact hclass

/-- What an instance that mirrors an entry holds reads as the properties of the entry. -/
theorem Mirrors.reads {wire : Wire E} {root : Ref} {replica : Store Ref ReplicaInstance}
    {held : Ref → String → Option (LuaValue V)} {dom : Dom V} {map : InstanceMap}
    (hm : Mirrors wire root replica dom map) (ht : Tracks wire root replica held dom map) {r : Ref}
    {e : ReplicaInstance} {k : String} {v : Variant} (he : replica r = some e)
    (hv : e.properties k = some v) (hsent : Interface.propertyFilter (some v) = true)
    (hother : ∃ value, wire.encode (some v) = .other value) :
    Reads V e.className (held r) k (wire.encode (some v)) := by
  obtain ⟨inst, hmap, hf⟩ := ht.mapped he
  obtain ⟨value, henc⟩ := hother
  have hvalue := hm.values he hmap hv hsent
  rw [henc] at hvalue ⊢
  exact (Reads.iff_hasValue hf.className hf.properties).mpr hvalue

/-- Whether a replica that the plugin tracks is mirrored is a matter of what its instances hold. -/
theorem Tracks.mirrors_iff {wire : Wire E} {root : Ref} {replica : Store Ref ReplicaInstance}
    {held : Ref → String → Option (LuaValue V)} {dom : Dom V} {map : InstanceMap}
    (ht : Tracks wire root replica held dom map)
    (hother : ∀ {r e k v}, replica r = some e → e.properties k = some v →
      Interface.propertyFilter (some v) = true → ∃ value, wire.encode (some v) = .other value) :
    Mirrors wire root replica dom map ↔ ∀ {r e k v}, replica r = some e → e.properties k = some v →
      Interface.propertyFilter (some v) = true →
      Reads V e.className (held r) k (wire.encode (some v)) := by
  refine ⟨fun hm {_ _ _ _} he hv hsent => hm.reads ht he hv hsent (hother he hv hsent),
    fun hall => ⟨⟨held, ht⟩, fun {r e inst k v} he hmap hv hsent => ?_⟩⟩
  have hf := ht.fits hmap he
  exact hall he hv hsent dom map inst hf.className hf.properties

/-! ## Messages about a tree -/

section Server

open WeakDom (getByRef)

variable {D : Type} [WeakDom D] [LawfulWeakDom D] {wire : Wire E} {tree tree' : RojoTree D}
  {patch : Roxo.PatchSet} {record : AppliedPatchSet} {message : Interface.SubscribeMessage}
  {tops : List Ref} {created : List Creation}

/-- No property of the tree is a reference. -/
def NoRefs (tree : RojoTree D) : Prop :=
  ∀ {x i k r}, getByRef tree.inner x = some i → i.properties.lookup k ≠ some (Variant.ref r)

/-- The patch removes no property. -/
def NoRemovals (patch : Roxo.PatchSet) : Prop :=
  ∀ u ∈ patch.updatedInstances, ∀ k, u.changedProperties.lookup k ≠ some none

omit [Engine V] [Decoder E V] in
/-- Without references nothing is lost in the record of a patch. -/
theorem replay_of_noRefs (h : RojoTree.Inv tree) (hok : PatchOk tree patch)
    (ha : Applied tree patch tops created tree' record) (hrefs : NoRefs tree') :
    replay (replicaOf tree) (replicaOf tree') record = replicaOf tree' := by
  refine (replay_eq_iff h hok ha).mpr fun u hu i hi k => ?_
  obtain ⟨m, hm⟩ := h.metadata_of_present hi
  obtain ⟨properties, hi', hprops, -⟩ := ha.updated u hu i m hi hm
  have hnoRef : ∀ r, properties.lookup k ≠ some (Variant.ref r) := fun r => hrefs hi'
  rw [← hprops k]
  have hresolved : resolved tree' (pointersOf (updatedInstance (createdIds created) u i).properties) k =
      none := by
    rw [Option.eq_none_iff_forall_ne_some]
    intro v hv
    have hsome := hprops k
    rw [hv, Option.some_or] at hsome
    obtain ⟨target, -, hpointee⟩ := (resolved_eq_some_iff (nodup_pointersOf _)).mp hv
    obtain ⟨y, -, rfl⟩ := Option.map_eq_some_iff.mp hpointee
    exact hnoRef y hsome
  have hvalue := hprops k
  rw [hresolved, Option.none_or] at hvalue
  rw [hvalue]
  rw [hvalue] at hnoRef
  change (updatedProperties ∅ u.changedProperties i.properties).lookup k =
    (updatedProperties (createdIds created) u.changedProperties i.properties).lookup k
  change ∀ r, (updatedProperties (createdIds created) u.changedProperties i.properties).lookup k ≠
    some (Variant.ref r) at hnoRef
  rw [lookup_updatedProperties] at hnoRef ⊢
  rw [lookup_updatedProperties]
  cases hentry : u.changedProperties.lookup k with
  | none => rfl
  | some entry =>
    rw [hentry] at hnoRef
    rw [Option.elim_some] at hnoRef
    rw [Option.elim_some, Option.elim_some]
    cases entry with
    | none => rfl
    | some v =>
      by_cases hv : ∃ r, v = Variant.ref r
      · obtain ⟨r, rfl⟩ := hv
        unfold changedValue at hnoRef ⊢
        dsimp only at hnoRef ⊢
        split_ifs with hnull
        · rfl
        · rw [if_neg hnull] at hnoRef
          exact absurd rfl (hnoRef _)
      · have hnot : ∀ r, v ≠ Variant.ref r := fun r heq => hv ⟨r, heq⟩
        rw [changedValue_of_not_ref hnot, changedValue_of_not_ref hnot]

omit [WeakDom D] [LawfulWeakDom D] [Engine V] [Decoder E V] in
/-- What a message lists under an id. -/
theorem lookup_patch_added (wire : Wire E) (message : Interface.SubscribeMessage) (r : Ref) :
    (wire.patch message).added.lookup (wire.text r) =
      (message.added.lookup r).map wire.virtual := by
  have hkeys : (((toList message.added).map fun e => (wire.text e.1, wire.virtual e.2)).map
      Prod.fst).Nodup := by
    rw [List.map_map]
    have hnd := (nodup_keys_toList message.added).map wire.text_injective
    rwa [List.map_map] at hnd
  refine Option.ext fun v => ?_
  unfold Wire.patch
  rw [lookup_extend_empty hkeys, List.mem_map, Option.map_eq_some_iff]
  constructor
  · rintro ⟨⟨r', i⟩, hmem, heq⟩
    obtain ⟨htext, rfl⟩ := Prod.mk.inj heq
    rw [← wire.text_injective htext]
    exact ⟨i, mem_toList.mp hmem, rfl⟩
  · rintro ⟨i, hi, rfl⟩
    exact ⟨(r, i), mem_toList.mpr hi, rfl⟩

omit [WeakDom D] [LawfulWeakDom D] [Engine V] [Decoder E V] in
theorem exists_ref_of_mem_patch_added {id : String} (h : id ∈ (wire.patch message).added) :
    ∃ r, r ∈ message.added ∧ wire.text r = id := by
  obtain ⟨v, hv⟩ := exists_lookup h
  rcases mem_of_lookup_extend hv with hmem | hempty
  · obtain ⟨⟨r, i⟩, hri, heq⟩ := List.mem_map.mp hmem
    obtain ⟨rfl, -⟩ := Prod.mk.inj heq
    exact ⟨r, AList.lookup_isSome.mp (Option.isSome_of_eq_some (mem_toList.mp hri)), rfl⟩
  · rw [AList.lookup_empty] at hempty
    cases hempty

/-- The instances of created ids. -/
def IsCreated (created : List Creation) (r : Ref) : Prop := r ∈ created.map Creation.id

omit [Engine V] [Decoder E V] in
/-- A message lists the created instances. -/
theorem sends (hok : PatchOk tree patch)
    (ha : Applied tree patch tops created tree' record)
    (hm : Interface.SubscribeMessage.fromPatchUpdate tree' record = some message) :
    Sends wire tree' (IsCreated created) (wire.patch message).added := by
  obtain ⟨-, -, hadded⟩ := Interface.lookup_fromPatchUpdate ha.inv hm
  have hrecord : record.added = created.map Creation.id := by rw [ha.recorded]
  refine
    { sent := fun {r} hr => ?_, ids := fun {id} hid => ?_
      children := fun {r c} hr hc => mem_created_of_desc ha hr (.of_mem hc)
      below := fun {r i} hr hi => ?_ }
  · obtain ⟨x, hx, hlookup⟩ := (hadded r).1 ⟨r, hrecord ▸ hr, .refl⟩
    refine ⟨x.inst, x.metadata, hx, ?_⟩
    rw [lookup_patch_added, hlookup]
    rfl
  · obtain ⟨r, hr, rfl⟩ := exists_ref_of_mem_patch_added hid
    refine ⟨r, ?_, rfl⟩
    by_contra hnot
    have hnone := (hadded r).2 fun top htop hd => hnot (mem_created_of_desc ha (hrecord ▸ htop) hd)
    rw [← AList.lookup_isSome, hnone] at hr
    cases hr
  · obtain ⟨c, hc, rfl⟩ := List.mem_map.mp hr
    obtain ⟨properties, hi', -⟩ := ha.made c hc
    rw [hi, Option.some.injEq] at hi'
    rw [hi']
    show c.parent ≠ Ref.none
    rcases ha.creates.parents c hc with ⟨a, hmem, hp⟩ | ⟨d, hd, hp⟩
    · rw [hp]
      exact ne_null_of_present (hok.parents a hmem).1
    · rw [hp]
      exact ha.ne_null d hd

/-- The replica once the subtrees that the patch removes are gone. -/
noncomputable def afterRemoved (tree : RojoTree D) (patch : Roxo.PatchSet) :
    Store Ref ReplicaInstance :=
  patch.removedInstances.foldl (remove ReplicaInstance.parent) (replicaOf tree)

omit [Engine V] [Decoder E V] in
theorem afterRemoved_eq_some {r : Ref} {e : ReplicaInstance} (hok : PatchOk tree patch) :
    afterRemoved tree patch r = some e ↔
      ¬ Roxo.Below tree patch.removedInstances r ∧ replicaOf tree r = some e := by
  classical
  unfold afterRemoved
  rw [foldl_remove, if_congr (below_removed_iff hok) rfl rfl]
  split_ifs with hb
  · exact iff_of_false not_false fun h => h.1 hb
  · exact (and_iff_right hb).symm

omit [Engine V] [Decoder E V] in
theorem foldl_graft_eq (ha : Applied tree patch tops created tree' record)
    (replica : Store Ref ReplicaInstance) :
    record.added.foldl (graft ReplicaInstance.parent (replicaOf tree')) replica =
      grafted tree' (IsCreated created) replica := by
  classical
  have hrecord : record.added = created.map Creation.id := by rw [ha.recorded]
  funext y
  rw [foldl_graft, hrecord]
  exact if_congr (below_created_iff ha) rfl rfl

/-- What is sent of the properties of the new tree can be written. -/
def AllOblige (V : Type) {E : Type} [Engine V] [Decoder E V] (wire : Wire E) (tree : RojoTree D) :
    Prop :=
  ∀ {r i} m, getByRef tree.inner r = some i → Obliging V (wire.virtual (.fromRojoInstance ⟨i, m⟩))

omit [WeakDom D] [LawfulWeakDom D] [Engine V] [Decoder E V] in
theorem mem_virtual_entries {i : Roxo.Instance} {m : Roxo.InstanceMetadata} {k : String} {v : Variant}
    (hv : i.properties.lookup k = some v) (hsent : Interface.propertyFilter (some v) = true) :
    (⟨k, wire.encode (some v)⟩ : Σ _ : String, EncodedValue E) ∈
      (wire.virtual (.fromRojoInstance ⟨i, m⟩)).properties.entries := by
  refine AList.mem_lookup_iff.mp ?_
  show (mapVal (fun _ value => wire.encode (some value)) (retain (fun _ value =>
    Interface.propertyFilter (some value)) i.properties)).lookup k = some (wire.encode (some v))
  rw [lookup_mapVal, lookup_retain, hv, Option.filter_some, if_pos hsent, Option.map_some]

omit [WeakDom D] [LawfulWeakDom D] [Engine V] [Decoder E V] in
/-- The entries of an update are the changes that are sent. -/
theorem mem_applied_entries {u : AppliedPatchUpdate} {entry : Σ _ : String, EncodedValue E} :
    entry ∈ (wire.applied u).changedProperties.entries ↔ ∃ value,
      u.changedProperties.lookup entry.1 = some value ∧ Interface.propertyFilter value = true ∧
      wire.encode value = entry.2 := by
  obtain ⟨k, x⟩ := entry
  rw [← AList.mem_lookup_iff]
  show (mapVal (fun _ value => wire.encode value) (retain (fun _ value =>
    Interface.propertyFilter value) u.changedProperties)).lookup k = some x ↔ _
  rw [lookup_mapVal, lookup_retain, Option.map_eq_some_iff]
  simp only [Option.filter_eq_some_iff, and_assoc]

omit [Engine V] [Decoder E V] in
/-- An updated instance is the old one with the recorded changes. -/
theorem exists_updated (h : RojoTree.Inv tree) (hok : PatchOk tree patch)
    (ha : Applied tree patch tops created tree' record) (hrefs : NoRefs tree') {u : PatchUpdate}
    (hu : u ∈ patch.updatedInstances) {i : Roxo.Instance} (hi : getByRef tree.inner u.id = some i) :
    ∃ i', getByRef tree'.inner u.id = some i' ∧
      ReplicaInstance.of i' = (ReplicaInstance.of i).update (recordUpdate u) := by
  have hreplay := congrFun (replay_of_noRefs h hok ha hrefs) u.id
  rw [replay_updated hok ha hu hi] at hreplay
  obtain ⟨i', hi', heq⟩ := Option.map_eq_some_iff.mp hreplay.symm
  refine ⟨i', hi', heq.trans ?_⟩
  unfold ReplicaInstance.update ReplicaInstance.of
  simp only [lookup_recordUpdate_getD]
  rfl

omit [WeakDom D] [LawfulWeakDom D] [Engine V] [Decoder E V] in
/-- What an update lists is among the properties of the updated instance. -/
theorem applied_subset (hremovals : NoRemovals patch) {u : PatchUpdate}
    (hu : u ∈ patch.updatedInstances) {i i' : Roxo.Instance} {m : Roxo.InstanceMetadata}
    (heq : ReplicaInstance.of i' = (ReplicaInstance.of i).update (recordUpdate u)) :
    ∀ entry ∈ (wire.applied (recordUpdate u)).changedProperties.entries,
      entry ∈ (wire.virtual (.fromRojoInstance ⟨i', m⟩)).properties.entries := by
  rintro ⟨k, x⟩ hentry
  obtain ⟨value, hvalue, hsent, rfl⟩ := mem_applied_entries.mp hentry
  obtain ⟨v, rfl⟩ : ∃ v, value = some v := by
    refine Option.ne_none_iff_exists'.mp ?_
    rintro rfl
    rw [lookup_recordUpdate] at hvalue
    cases hentry : u.changedProperties.lookup k with
    | none =>
      rw [hentry] at hvalue
      cases hvalue
    | some entry =>
      rw [hentry, Option.elim_some] at hvalue
      cases entry with
      | none => exact hremovals u hu k hentry
      | some v =>
        unfold recordedValue at hvalue
        split at hvalue
        · split_ifs at hvalue
          cases hvalue
        · cases hvalue
  have hv : i'.properties.lookup k = some v := by
    refine (congrFun (congrArg ReplicaInstance.properties heq) k).trans ?_
    show ((recordUpdate u).changedProperties.lookup k).getD _ = some v
    rw [hvalue]
    rfl
  exact mem_virtual_entries hv hsent

/-- Applying the message tracks the new tree. -/
theorem exists_applyPatch (h : RojoTree.Inv tree) (hok : PatchOk tree patch)
    (ha : Applied tree patch tops created tree' record) (hrefs : NoRefs tree')
    (hremovals : NoRemovals patch)
    (hm : Interface.SubscribeMessage.fromPatchUpdate tree' record = some message)
    {held : Ref → String → Option (LuaValue V)} {dom : Dom V} {map : InstanceMap}
    (ht : Tracks wire tree.getRootId (replicaOf tree) held dom map) (ho : AllOblige V wire tree')
    {order : List String} (horder : order.Perm (wire.patch message).added.keys) :
    ∃ w held₁ held', applyPatch dom map (wire.patch message) order = some w ∧
      Tracks wire tree.getRootId (replicaOf tree') held' w.dom w.map ∧
      HeldAfterAdditions wire tree' (IsCreated created) (afterRemoved tree patch) held held₁ ∧
      HeldAfterUpdates wire record.updated
        (grafted tree' (IsCreated created) (afterRemoved tree patch)) held₁ held' := by
  classical
  obtain ⟨hremoved, hupdated, -⟩ := Interface.lookup_fromPatchUpdate ha.inv hm
  have hs : Sends wire tree' (IsCreated created) (wire.patch message).added := sends hok ha hm
  have hreplay := replay_of_noRefs h hok ha hrefs
  have hrecord := ha.recorded
  -- the removals
  have hremovable : ∀ r ∈ patch.removedInstances,
      r ≠ tree.getRootId ∧ ∃ e, replicaOf tree r = some e := by
    intro r hr
    obtain ⟨i, hi⟩ := Option.isSome_iff_exists.mp (hok.removable.present r hr)
    exact ⟨hok.removable.not_root r hr, ReplicaInstance.of i, replicaOf_of_present hi⟩
  obtain ⟨dom₁, map₁, hrun₁, ht₁⟩ := ht.exists_foldl_applyRemoved (E := E) hremovable
    hok.removable.nodup fun r hr r' hr' hb => hok.removable.incomparable r hr r' hr'
      ((below_replicaOf (ne_null_of_present (hok.removable.present r hr))).mp hb)
  change Tracks wire tree.getRootId (afterRemoved tree patch) held dom₁ map₁ at ht₁
  have hold : ∀ {r i}, getByRef tree.inner r = some i →
      ¬ Roxo.Below tree patch.removedInstances r →
      afterRemoved tree patch r = some (ReplicaInstance.of i) := fun hi hb =>
    (afterRemoved_eq_some hok).mpr ⟨hb, replicaOf_of_present hi⟩
  have hfreshTree : ∀ {r}, IsCreated created r → getByRef tree.inner r = none := by
    intro r hr
    obtain ⟨c, hc, rfl⟩ := List.mem_map.mp hr
    rw [Option.eq_none_iff_forall_ne_some]
    exact fun i hi => ha.fresh c hc (LawfulWeakDom.issued_of_present _ hi)
  have hfresh : ∀ {r}, IsCreated created r → afterRemoved tree patch r = none := by
    intro r hr
    rw [Option.eq_none_iff_forall_ne_some]
    intro e he
    have hsome := ((afterRemoved_eq_some hok).mp he).2
    unfold replicaOf at hsome
    rw [hfreshTree hr] at hsome
    cases hsome
  -- the additions
  have hparents : ∀ {r i}, IsCreated created r → getByRef tree'.inner r = some i →
      IsCreated created i.parent ∨ ∃ e, afterRemoved tree patch i.parent = some e := by
    intro r i hr hi
    obtain ⟨c, hc, rfl⟩ := List.mem_map.mp hr
    obtain ⟨properties, hi', -⟩ := ha.made c hc
    rw [hi, Option.some.injEq] at hi'
    rw [hi']
    show IsCreated created c.parent ∨ ∃ e, afterRemoved tree patch c.parent = some e
    rcases ha.creates.parents c hc with ⟨a, hmem, hp⟩ | ⟨d, hd, hp⟩
    · obtain ⟨j, hj⟩ := Option.isSome_iff_exists.mp (hok.parents a hmem).1
      exact .inr ⟨_, hp ▸ hold hj (hok.parents a hmem).2⟩
    · exact .inl (hp ▸ List.mem_map_of_mem hd)
  have hnotAbove : ∀ {r e}, afterRemoved tree patch r = some e → ¬ IsCreated created e.parent := by
    intro r e he hcreated
    have hsome := ((afterRemoved_eq_some hok).mp he).2
    obtain ⟨i, hi, rfl⟩ := Option.map_eq_some_iff.mp hsome
    have hne : i.parent ≠ Ref.none := by
      obtain ⟨c, hc, hid⟩ := List.mem_map.mp hcreated
      rw [← show c.id = i.parent from hid]
      exact ha.ne_null c hc
    have hkid := LawfulWeakDom.mem_kids_of_parent tree.inner hi hne
    unfold WeakDom.kids at hkid
    rw [show getByRef tree.inner i.parent = none from hfreshTree hcreated] at hkid
    cases hkid
  obtain ⟨w₂, held₁, hrun₂, hrefs₂, ht₂, hheld₁⟩ := ht₁.exists_foldlM_applyAdded hs hparents hfresh
    hnotAbove (fun hv => by
      obtain ⟨r, i, m, -, -, hi, rfl⟩ := hs.exists_ref hv
      exact ho m hi) horder
  -- the updates
  have hnd : (record.updated.map AppliedPatchUpdate.id).Nodup := by
    rw [hrecord, List.map_map]
    exact hok.nodup
  have hw : ∀ u ∈ record.updated, ∃ e,
      grafted tree' (IsCreated created) (afterRemoved tree patch) u.id = some e ∧
      Writable V (wire.applied u) (u.changedClassName.getD e.className) := by
    intro u hu
    rw [hrecord] at hu
    obtain ⟨pu, hpu, rfl⟩ := List.mem_map.mp hu
    obtain ⟨i, hi⟩ := Option.isSome_iff_exists.mp (hok.updated pu hpu).1
    obtain ⟨m, -⟩ := h.metadata_of_present hi
    obtain ⟨i', hi', heq⟩ := exists_updated h hok ha hrefs hpu hi
    have hnew : ¬ IsCreated created pu.id := fun hcreated => by
      rw [hfreshTree hcreated] at hi
      cases hi
    have hob := ho m hi'
    have hclass : i'.className = (recordUpdate pu).changedClassName.getD i.className :=
      congrArg ReplicaInstance.className heq
    refine ⟨ReplicaInstance.of i, ?_, ?_⟩
    · exact (if_neg hnew).trans (hold hi (hok.updated pu hpu).2)
    · change Writable V (wire.applied (recordUpdate pu))
        ((recordUpdate pu).changedClassName.getD i.className)
      rw [← hclass]
      have hsub : ∀ entry ∈ (wire.applied (recordUpdate pu)).changedProperties.entries,
          entry ∈ (wire.virtual (.fromRojoInstance ⟨i', m⟩)).properties.entries :=
        applied_subset hremovals hpu heq
      exact
        { creatable := hob.creatable
          assignable :=
            { other := fun entry hentry => hob.assignable.other entry (hsub entry hentry)
              assigned := fun entry hentry => hob.assignable.assigned entry (hsub entry hentry) } }
  obtain ⟨w₃, held', hrun₃, hrefs₃, ht₃, hheld'⟩ := ht₂.exists_foldlM_applyUpdated hnd hw
  refine ⟨w₃, held₁, held', ?_, ?_, hheld₁, hheld'⟩
  · have hdeferred : w₃.deferredRefs = [] := hrefs₃.trans hrefs₂
    have hrun : applyPatch dom map (wire.patch message) order = some (applyDeferredRefs w₃) := by
      unfold applyPatch
      have hlist₁ : (wire.patch message).removed =
          patch.removedInstances.map fun r => .id (wire.text r) := by
        unfold Wire.patch
        rw [hremoved, hrecord]
      have hlist₂ : (wire.patch message).updated = record.updated.map wire.applied := by
        unfold Wire.patch
        rw [hupdated, List.map_map]
        rfl
      rw [hlist₁, hlist₂, hrun₁]
      dsimp only
      rw [hrun₂]
      dsimp only [Option.bind_eq_bind, Option.bind_some]
      rw [hrun₃]
      rfl
    rw [hrun]
    unfold applyDeferredRefs
    rw [hdeferred]
    rfl
  · rw [← foldl_graft_eq ha] at ht₃
    rw [← hreplay]
    unfold replay
    rw [show record.removed = patch.removedInstances from hrecord ▸ rfl]
    exact ht₃

/-- The properties that an update of the class leaves alone read as their values on the new
instance. -/
def Restored (V : Type) {E : Type} [Engine V] [Decoder E V] (wire : Wire E) (tree : RojoTree D)
    (u : AppliedPatchUpdate) : Prop :=
  ∀ newClass, u.changedClassName = some newClass → ∀ i k v, getByRef tree.inner u.id = some i →
    i.properties.lookup k = some v → Interface.propertyFilter (some v) = true →
    u.changedProperties.lookup k = none →
    Reads V newClass (heldAfter newClass (fun _ => none) (wire.applied u).changedProperties.entries) k
      (wire.encode (some v))

omit [WeakDom D] [LawfulWeakDom D] in
/-- What an updated instance reads: what the update lists, and what is left of the old values. -/
theorem reads_of_updated {i i' : Roxo.Instance} {m : Roxo.InstanceMetadata} {u : AppliedPatchUpdate}
    (ho : Obliging V (wire.virtual (.fromRojoInstance ⟨i', m⟩)))
    (heq : ReplicaInstance.of i' = (ReplicaInstance.of i).update u)
    (hsub : ∀ entry ∈ (wire.applied u).changedProperties.entries,
      entry ∈ (wire.virtual (.fromRojoInstance ⟨i', m⟩)).properties.entries)
    {held : String → Option (LuaValue V)} {k : String} {v : Variant}
    (hv : i'.properties.lookup k = some v) (hsent : Interface.propertyFilter (some v) = true)
    (hkept : u.changedClassName = none → u.changedProperties.lookup k = none →
      Reads V i.className held k (wire.encode (some v)))
    (hrestored : ∀ newClass, u.changedClassName = some newClass →
      u.changedProperties.lookup k = none → Reads V newClass
        (heldAfter newClass (fun _ => none) (wire.applied u).changedProperties.entries) k
        (wire.encode (some v))) :
    Reads V i'.className (heldUpdate i.className (wire.applied u) held) k (wire.encode (some v)) := by
  have hmem : (⟨k, wire.encode (some v)⟩ : Σ _ : String, EncodedValue E) ∈
      (wire.virtual (.fromRojoInstance ⟨i', m⟩)).properties.entries := mem_virtual_entries hv hsent
  have hclass : i'.className = u.changedClassName.getD i.className :=
    congrArg ReplicaInstance.className heq
  have hvalue : (u.changedProperties.lookup k).getD (i.properties.lookup k) = some v :=
    (congrFun (congrArg ReplicaInstance.properties heq) k).symm.trans hv
  -- the entry, if the update lists the property
  have hlisted : ∀ value, u.changedProperties.lookup k = some value →
      (⟨k, wire.encode (some v)⟩ : Σ _ : String, EncodedValue E) ∈
        (wire.applied u).changedProperties.entries := by
    intro value hlookup
    rw [hlookup, Option.getD_some] at hvalue
    subst hvalue
    exact mem_applied_entries.mpr ⟨_, hlookup, hsent, rfl⟩
  unfold heldUpdate
  rw [show (wire.applied u).changedClassName = u.changedClassName from rfl]
  cases hchanged : u.changedClassName with
  | none =>
    rw [hchanged] at hclass
    change i'.className = i.className at hclass
    dsimp only
    rw [← hclass]
    refine reads_of_assigned ho hsub hmem ?_
    cases hlookup : u.changedProperties.lookup k with
    | some value => exact .inl (hlisted value hlookup)
    | none =>
      have hreads := hkept hchanged hlookup
      rw [← hclass] at hreads
      exact .inr hreads
  | some newClass =>
    rw [hchanged] at hclass
    change i'.className = newClass at hclass
    dsimp only
    cases hlookup : u.changedProperties.lookup k with
    | some value =>
      rw [← hclass]
      exact reads_of_assigned ho hsub hmem (.inl (hlisted value hlookup))
    | none =>
      rw [hclass]
      exact hrestored newClass hchanged hlookup

/-- **A live patch keeps the plugin a mirror of the tree exactly if no change of a class loses a
property**, where nothing is a reference and no property is removed. -/
theorem exists_applyPatch_mirrors_iff (h : RojoTree.Inv tree) (hok : PatchOk tree patch)
    (ha : Applied tree patch tops created tree' record) (hrefs : NoRefs tree')
    (hremovals : NoRemovals patch)
    (hm : Interface.SubscribeMessage.fromPatchUpdate tree' record = some message)
    {dom : Dom V} {map : InstanceMap} (hmirrors : Mirrors wire tree.getRootId (replicaOf tree) dom map)
    (ho : AllOblige V wire tree') {order : List String}
    (horder : order.Perm (wire.patch message).added.keys) :
    ∃ w, applyPatch dom map (wire.patch message) order = some w ∧
      (Mirrors wire tree'.getRootId (replicaOf tree') w.dom w.map ↔
        ∀ u ∈ record.updated, Restored V wire tree' u) := by
  classical
  obtain ⟨held, ht⟩ := hmirrors.tracks
  obtain ⟨w, held₁, held', hrun, ht', hadded, hupdated⟩ :=
    exists_applyPatch h hok ha hrefs hremovals hm ht ho horder
  have hother : ∀ {r i k v}, getByRef tree'.inner r = some i → i.properties.lookup k = some v →
      Interface.propertyFilter (some v) = true → ∃ value, wire.encode (some v) = .other value := by
    intro r i k v hi hv hsent
    obtain ⟨m, -⟩ := ha.inv.metadata_of_present hi
    exact (ho m hi).assignable.other _ (mem_virtual_entries hv hsent)
  -- old instances that are not removed
  have hold : ∀ {r i}, getByRef tree.inner r = some i → ¬ Roxo.Below tree patch.removedInstances r →
      held₁ r = held r ∧
        grafted tree' (IsCreated created) (afterRemoved tree patch) r = some (ReplicaInstance.of i) := by
    intro r i hi hb
    have hafter := (afterRemoved_eq_some hok).mpr ⟨hb, replicaOf_of_present hi⟩
    refine ⟨hadded.old hafter, (if_neg ?_).trans hafter⟩
    intro hcreated
    obtain ⟨c, hc, rfl⟩ := List.mem_map.mp hcreated
    exact ha.fresh c hc (LawfulWeakDom.issued_of_present _ hi)
  have hids : record.updated = patch.updatedInstances.map recordUpdate := by rw [ha.recorded]
  have hheld : ∀ {u i}, u ∈ patch.updatedInstances → getByRef tree.inner u.id = some i →
      held' u.id = heldUpdate i.className (wire.applied (recordUpdate u)) (held u.id) := by
    intro u i hu hi
    obtain ⟨hsame, hgrafted⟩ := hold hi (hok.updated u hu).2
    rw [← hsame]
    exact hupdated.updated (recordUpdate u) (hids ▸ List.mem_map_of_mem hu) _ hgrafted
  refine ⟨w, hrun, ?_⟩
  rw [ha.root, ht'.mirrors_iff fun {r e k v} he hv hsent => by
    obtain ⟨i, hi, rfl⟩ := Option.map_eq_some_iff.mp he
    exact hother hi hv hsent]
  constructor
  · intro hall u hu newClass hclass i' k v hi' hv hsent hlookup
    rw [hids] at hu
    obtain ⟨pu, hpu, rfl⟩ := List.mem_map.mp hu
    obtain ⟨i, hi⟩ := Option.isSome_iff_exists.mp (hok.updated pu hpu).1
    obtain ⟨i'', hi'', heq⟩ := exists_updated h hok ha hrefs hpu hi
    obtain rfl := Option.some.inj (hi'.symm.trans hi'')
    have hreads := hall (replicaOf_of_present hi') hv hsent
    have hname : (ReplicaInstance.of i').className = newClass := by
      rw [heq]
      show (recordUpdate pu).changedClassName.getD i.className = newClass
      rw [hclass]
      rfl
    rw [hname, show held' (recordUpdate pu).id = _ from hheld hpu hi] at hreads
    unfold heldUpdate at hreads
    rw [show (wire.applied (recordUpdate pu)).changedClassName = some newClass from hclass] at hreads
    exact hreads
  · intro hrestored r e k v he hv hsent
    obtain ⟨i', hi', rfl⟩ := Option.map_eq_some_iff.mp he
    obtain ⟨m, -⟩ := ha.inv.metadata_of_present hi'
    have hob := ho m hi'
    by_cases hcreated : r ∈ created.map Creation.id
    · have hnot : r ∉ record.updated.map AppliedPatchUpdate.id := by
        rw [hids, List.map_map]
        intro hmem
        obtain ⟨u, hu, rfl⟩ := List.mem_map.mp hmem
        obtain ⟨i, hi⟩ := Option.isSome_iff_exists.mp (hok.updated u hu).1
        obtain ⟨c, hc, hid⟩ := List.mem_map.mp hcreated
        exact ha.fresh c hc (hid ▸ LawfulWeakDom.issued_of_present _ hi)
      obtain ⟨m', hnew⟩ := hadded.new hcreated hi'
      rw [hupdated.others r hnot, hnew]
      exact reads_of_assigned (ho m' hi') (fun _ hentry => hentry) (mem_virtual_entries hv hsent)
        (.inl (mem_virtual_entries hv hsent))
    · obtain ⟨i, hi⟩ : ∃ i, getByRef tree.inner r = some i := by
        refine Option.ne_none_iff_exists'.mp fun hnone => ?_
        rw [ha.absent r hnone hcreated] at hi'
        cases hi'
      have hb : ¬ Roxo.Below tree patch.removedInstances r := fun hb => by
        rw [ha.gone r hb] at hi'
        cases hi'
      by_cases hu : r ∈ patch.updatedInstances.map PatchUpdate.id
      · obtain ⟨u, hmem, rfl⟩ := List.mem_map.mp hu
        obtain ⟨i'', hi'', heq⟩ := exists_updated h hok ha hrefs hmem hi
        obtain rfl := Option.some.inj (hi'.symm.trans hi'')
        rw [hheld hmem hi]
        refine reads_of_updated hob heq (applied_subset hremovals hmem heq) hv hsent
          (fun hclass hlookup => ?_) fun newClass hclass hlookup => ?_
        · refine hmirrors.reads ht (replicaOf_of_present hi) ?_ hsent (hother hi' hv hsent)
          have hvalue := congrFun (congrArg ReplicaInstance.properties heq) k
          change _ = ((recordUpdate u).changedProperties.lookup k).getD _ at hvalue
          rw [hlookup, Option.getD_none] at hvalue
          exact hvalue.symm.trans hv
        · exact hrestored (recordUpdate u) (hids ▸ List.mem_map_of_mem hmem) newClass hclass i' k v hi' hv
            hsent hlookup
      · obtain ⟨hsame, -⟩ := ha.kept r i hi hb hu
        rw [hi', Option.some.injEq] at hsame
        have hnot : r ∉ record.updated.map AppliedPatchUpdate.id := by
          rw [hids, List.map_map]
          exact hu
        rw [hupdated.others r hnot, (hold hi hb).1]
        subst hsame
        have hvalue : (ReplicaInstance.of i).properties k = some v := hv
        have hreads := hmirrors.reads ht (replicaOf_of_present hi) hvalue hsent (hother hi' hv hsent)
        exact hreads

/-- **A live patch keeps the plugin a mirror of the server's tree exactly if no change of a class
loses a property**, where nothing is a reference, no property is removed and all can be written. -/
theorem mirrors_applyPatch_iff [FloatCmp] (h : RojoTree.Inv tree) {snapshot : Option InstanceSnapshot}
    {id : Ref} (hp : computePatchSet snapshot tree id = some patch)
    (heq : applyPatchSet tree patch = some (tree', record)) (hrefs : NoRefs tree')
    (hremovals : NoRemovals patch) {dom : Dom V} {map : InstanceMap}
    (hmirrors : Mirrors wire tree.getRootId (replicaOf tree) dom map) (ho : AllOblige V wire tree') :
    ∃ message, Interface.SubscribeMessage.fromPatchUpdate tree' record = some message ∧
      ∀ order, order.Perm (wire.patch message).added.keys →
        ∃ w, applyPatch dom map (wire.patch message) order = some w ∧
          (Mirrors wire tree'.getRootId (replicaOf tree') w.dom w.map ↔
            ∀ u ∈ record.updated, Restored V wire tree' u) := by
  have hok := h.patchOk hp heq
  obtain ⟨tops, created, ha⟩ := h.applied hok heq
  have hpresent : ∀ x ∈ record.added, Present tree' x := by
    intro x hx
    rw [ha.recorded] at hx
    obtain ⟨c, hc, rfl⟩ := List.mem_map.mp hx
    obtain ⟨properties, hi, -⟩ := ha.made c hc
    exact Option.isSome_of_eq_some hi
  obtain ⟨message, hm⟩ := Option.isSome_iff_exists.mp
    ((fromPatchUpdate_isSome ha.inv).mpr hpresent)
  exact ⟨message, hm, fun order horder =>
    exists_applyPatch_mirrors_iff h hok ha hrefs hremovals hm hmirrors ho horder⟩

end Server

/-! ### A script that becomes a module -/

section Script

open WeakDom (getByRef)

/-- An engine in which every class can be created and every property is text, empty at first. -/
@[reducible] def textEngine : Engine String where
  creatable _ := true
  isValueBase _ := false
  findCanonicalPropertyDescriptor _ propertyName := some ⟨propertyName, .readWrite⟩
  write _ _ value := some value
  writesInstance _ _ := false
  read _ _ held := some (held.getD (.other ""))
  nil := ""
  isNil _ := false
  trueEquals a b := a == b

@[reducible] def textDecoder : Decoder String String where
  decode text := some text

/-- Ids as that many letters, and text as it is. -/
def textWire : Wire String where
  text r := String.ofList (List.replicate (r.id.elim 0 (· + 1)) 'r')
  encode value :=
    match value with
    | some (.string text) => .other text
    | _ => .other ""
  text_injective := by
    intro a b h
    have hlength := congrArg List.length (String.ofList_injective h)
    rw [List.length_replicate, List.length_replicate] at hlength
    cases a with
    | mk a =>
      cases b with
      | mk b => cases a <;> cases b <;> simp_all

theorem textWire_encode (value : Option Variant) : ∃ text, textWire.encode value = .other text := by
  unfold textWire
  dsimp only
  split
  · exact ⟨_, rfl⟩
  · exact ⟨_, rfl⟩

/-- Every property can be written there. -/
theorem obliging_text (i : Roxo.InstanceWithMeta) : letI := textEngine; letI := textDecoder
    Obliging String (textWire.virtual (.fromRojoInstance i)) := by
  let _ := textEngine
  let _ := textDecoder
  refine
    { creatable := rfl
      assignable :=
        { other := fun e he => ?_
          assigned := fun e he value hvalue => Option.some_ne_none _ }
      readBack := ?_ }
  · have hlookup := AList.mem_lookup_iff.mpr he
    change (mapVal (fun _ value => textWire.encode (some value)) _).lookup e.1 = some e.2 at hlookup
    rw [lookup_mapVal] at hlookup
    obtain ⟨v, -, hv⟩ := Option.map_eq_some_iff.mp hlookup
    obtain ⟨text, htext⟩ := textWire_encode (some v)
    exact ⟨text, hv ▸ htext⟩
  · rintro e he e' he' value decoded d written x hvalue hdecoded hd ⟨value', hvalue', hassigned⟩ hread
    obtain rfl := Option.some.inj hd
    obtain ⟨hname, rfl⟩ := Prod.mk.inj (Option.some.inj (Option.some.inj hassigned))
    obtain rfl := Option.some.inj hdecoded
    obtain rfl := Option.some.inj hread
    have hsame : e'.2 = e.2 := by
      have hlookup := AList.mem_lookup_iff.mpr he
      have hlookup' := AList.mem_lookup_iff.mpr he'
      rw [show e'.1 = e.1 from hname] at hlookup'
      exact Option.some.inj (hlookup'.symm.trans hlookup)
    rw [hvalue, hvalue'] at hsame
    cases hsame
    exact beq_self_eq_true _

/-- A script or a module with a source. -/
def mainSnapshot (className : String) : InstanceSnapshot :=
  { InstanceSnapshot.new with
    name := "Main"
    className := className
    properties := (∅ : UstrMap Variant).insert "Source" (.string "return nil") }

def mainTree : RojoTree MapDom :=
  (RojoTree.new { InstanceSnapshot.new with
    name := "game"
    className := "DataModel"
    children := [mainSnapshot "Script"] }).get rfl

def mainId : Ref := Ref.some MapDom.firstFree

/-- The script becomes a module with the same source. -/
def modulePatch : Roxo.PatchSet :=
  letI := FloatCmp.exact
  (computePatchSet (some (mainSnapshot "ModuleScript")) mainTree mainId).get rfl

def moduleTree : RojoTree MapDom := ((applyPatchSet mainTree modulePatch).get rfl).1

def moduleRecord : AppliedPatchSet := ((applyPatchSet mainTree modulePatch).get rfl).2

theorem modulePatch_updated : modulePatch.updatedInstances.map
    (fun u => (u.id, u.changedClassName, u.changedProperties.entries)) =
      [(mainId, some "ModuleScript", [])] := by
  decide +kernel

/-- What a node of a `MapDom` says about the instance. -/
def shown (n : MapDom.Node) : (Ref × Ref) × (String × String) × List (Σ _ : String, Variant) :=
  ((Ref.some n.id, ⟨n.parent⟩), (n.name, n.className), n.properties.entries)

theorem mem_shown {d : MapDom} {x : Ref} {i : Roxo.Instance} (hi : getByRef d x = some i) :
    ((x, i.parent), (i.name, i.className), i.properties.entries) ∈ d.nodes.map shown := by
  obtain ⟨n, hn, rfl, rfl⟩ := (MapDom.lookupNode_eq_some d.sorted).mp hi
  exact List.mem_map.mpr ⟨n, hn, rfl⟩

theorem mainTree_nodes : mainTree.inner.nodes.map shown =
    [((Ref.some 0, Ref.none), ("game", "DataModel"), []),
      ((mainId, Ref.some 0), ("Main", "Script"), [⟨"Source", .string "return nil"⟩])] := by
  decide +kernel

theorem moduleTree_nodes : moduleTree.inner.nodes.map shown =
    [((Ref.some 0, Ref.none), ("game", "DataModel"), []),
      ((mainId, Ref.some 0), ("Main", "ModuleScript"), [⟨"Source", .string "return nil"⟩])] := by
  decide +kernel

theorem noRefs_moduleTree : NoRefs moduleTree := by
  intro x i k r hi hr
  have hmem := mem_shown hi
  have hentry : (⟨k, .ref r⟩ : Σ _ : String, Variant) ∈ i.properties.entries :=
    AList.mem_lookup_iff.mp hr
  rw [moduleTree_nodes] at hmem
  simp only [List.mem_cons, List.not_mem_nil, or_false, Prod.mk.injEq] at hmem
  rcases hmem with ⟨-, -, heq⟩ | ⟨-, -, heq⟩
  · rw [heq] at hentry
    cases hentry
  · rw [heq] at hentry
    cases List.mem_singleton.mp hentry

theorem noRemovals_modulePatch : NoRemovals modulePatch := by
  intro u hu k hk
  have hmem := List.mem_map_of_mem (f := fun u : PatchUpdate =>
    (u.id, u.changedClassName, u.changedProperties.entries)) hu
  rw [modulePatch_updated] at hmem
  have hentries : u.changedProperties.entries = [] :=
    congrArg (fun e => e.2.2) (List.mem_singleton.mp hmem)
  have hentry := AList.mem_lookup_iff.mp hk
  rw [hentries] at hentry
  cases hentry

def mainSource : String → Option (LuaValue String) := fun propertyName =>
  if propertyName = "Source" then some (.other "return nil") else none

/-- The data model with the script. -/
def mainDom : Dom String where
  next := 2
  instances inst :=
    if inst = 0 then { Instance.new String "DataModel" with name := "game", children := [1] }
    else if inst = 1 then { Instance.new String "Script" with
      name := "Main", parent := some 0, properties := mainSource }
    else Instance.new String "Folder"

def mainMap : InstanceMap :=
  letI := textEngine
  (InstanceMap.new.insert mainDom (textWire.text (Ref.some 0)) 0).insert mainDom
    (textWire.text mainId) 1

theorem mainMap_inverse : mainMap.Inverse :=
  let _ := textEngine
  (InstanceMap.new_inverse.insert _ _ _).insert _ _ _

theorem mainMap_fromIds (id : String) : mainMap.fromIds.lookup id =
    if id = textWire.text mainId then some 1
    else if id = textWire.text (Ref.some 0) then some 0 else none := by
  let _ := textEngine
  have hempty : (InstanceMap.new.fromIds.lookup id) = none := AList.lookup_empty id
  unfold mainMap
  rw [InstanceMap.insert_fromIds (InstanceMap.new_inverse.insert _ _ _),
    InstanceMap.insert_fromIds InstanceMap.new_inverse, hempty]
  split_ifs <;> simp_all

theorem mem_mainDom {a b : Handle} : b ∈ mainDom.getChildren a ↔ a = 0 ∧ b = 1 := by
  unfold Dom.getChildren mainDom
  dsimp only
  split_ifs <;> simp_all [Instance.new]

theorem mainDom_parent {a b : Handle} : mainDom.parent b = some a ↔ a = 0 ∧ b = 1 := by
  unfold Dom.parent mainDom
  dsimp only
  split_ifs <;> simp_all [Instance.new, eq_comm]

theorem mainDom_wellFormed : mainDom.WellFormed where
  forest :=
    { nodup := fun a => by
        unfold Dom.getChildren mainDom
        dsimp only
        split_ifs <;> simp [Instance.new]
      unique := fun h h' => (mem_mainDom.mp h).1.trans (mem_mainDom.mp h').1.symm
      acyclic := ⟨fun a => a, fun a b h => by
        obtain ⟨rfl, rfl⟩ := mem_mainDom.mp h
        exact Nat.zero_lt_one⟩ }
  parent_iff := mem_mainDom.trans mainDom_parent.symm
  below h := by
    obtain ⟨rfl, rfl⟩ := mainDom_parent.mp h
    decide
  held := by
    intro a propertyName target _ h
    unfold mainDom mainSource at h
    dsimp only at h
    split_ifs at h <;> simp_all [Instance.new]

theorem mainTree_cases {x : Ref} {i : Roxo.Instance} (hi : getByRef mainTree.inner x = some i) :
    x = Ref.some 0 ∧ i.parent = Ref.none ∧ i.name = "game" ∧ i.className = "DataModel" ∧
        i.properties.entries = [] ∨
      x = mainId ∧ i.parent = Ref.some 0 ∧ i.name = "Main" ∧ i.className = "Script" ∧
        i.properties.entries = [⟨"Source", .string "return nil"⟩] := by
  have hmem := mem_shown hi
  rw [mainTree_nodes] at hmem
  simpa only [List.mem_cons, List.not_mem_nil, or_false, Prod.mk.injEq, and_assoc] using hmem

theorem replicaOf_mainTree_isSome : (replicaOf mainTree (Ref.some 0)).isSome = true ∧
    (replicaOf mainTree mainId).isSome = true := by
  unfold replicaOf
  rw [Option.isSome_map, Option.isSome_map]
  exact ⟨rfl, rfl⟩

theorem tracks_main :
    Tracks textWire mainTree.getRootId (replicaOf mainTree)
      (fun r => if r = mainId then mainSource else fun _ => none) mainDom mainMap where
  wellFormed := mainDom_wellFormed
  inverse := mainMap_inverse
  ids := by
    intro id inst hm
    rw [mainMap_fromIds] at hm
    obtain ⟨e₀, he₀⟩ := Option.isSome_iff_exists.mp replicaOf_mainTree_isSome.1
    obtain ⟨e₁, he₁⟩ := Option.isSome_iff_exists.mp replicaOf_mainTree_isSome.2
    split_ifs at hm with h₁ h₀
    · exact ⟨mainId, e₁, h₁.symm, he₁⟩
    · exact ⟨Ref.some 0, e₀, h₀.symm, he₀⟩
  mapped := by
    intro r e he
    obtain ⟨i, hi, rfl⟩ := Option.map_eq_some_iff.mp he
    have hne : textWire.text (Ref.some 0) ≠ textWire.text mainId :=
      fun h => absurd (textWire.text_injective h) (by decide)
    have hnone : textWire.text Ref.none ≠ textWire.text mainId ∧
        textWire.text Ref.none ≠ textWire.text (Ref.some 0) :=
      ⟨fun h => absurd (textWire.text_injective h) (by decide),
        fun h => absurd (textWire.text_injective h) (by decide)⟩
    rcases mainTree_cases hi with ⟨rfl, hp, hn, hc, -⟩ | ⟨rfl, hp, hn, hc, -⟩
    · refine ⟨0, by rw [mainMap_fromIds, if_neg hne, if_pos rfl], ?_⟩
      exact
        { lt := by decide, name := hn.symm, className := hc.symm, accessible := rfl
          unlocked := fun _ => rfl
          properties := by
            rw [if_neg (by decide)]
            rfl
          parent := by
            show none = _
            rw [show (ReplicaInstance.of i).parent = Ref.none from hp, mainMap_fromIds,
              if_neg hnone.1, if_neg hnone.2] }
    · refine ⟨1, by rw [mainMap_fromIds, if_pos rfl], ?_⟩
      exact
        { lt := by decide, name := hn.symm, className := hc.symm, accessible := rfl
          unlocked := fun _ => rfl
          properties := by
            rw [if_pos rfl]
            rfl
          parent := by
            show some 0 = _
            rw [show (ReplicaInstance.of i).parent = Ref.some 0 from hp, mainMap_fromIds,
              if_neg hne, if_pos rfl] }

theorem mirrors_main : letI := textEngine; letI := textDecoder
    Mirrors textWire mainTree.getRootId (replicaOf mainTree) mainDom mainMap := by
  let _ := textEngine
  let _ := textDecoder
  refine (tracks_main.mirrors_iff fun _ _ _ => textWire_encode _).mpr ?_
  intro r e k v he hv hsent dom map inst hclass hheld x decoded hx hdecoded
  obtain ⟨i, hi, rfl⟩ := Option.map_eq_some_iff.mp he
  have hentry : (⟨k, v⟩ : Σ _ : String, Variant) ∈ i.properties.entries := AList.mem_lookup_iff.mp hv
  rcases mainTree_cases hi with ⟨-, -, -, -, heq⟩ | ⟨rfl, -, -, -, heq⟩
  · rw [heq] at hentry
    cases hentry
  · rw [heq] at hentry
    cases List.mem_singleton.mp hentry
    obtain rfl := Option.some.inj hdecoded
    obtain rfl := Option.some.inj hx
    rw [hheld]
    rfl

theorem inv_mainTree : RojoTree.Inv mainTree := RojoTree.Inv.new (Option.some_get _).symm

theorem computePatchSet_main : letI := FloatCmp.exact
    computePatchSet (some (mainSnapshot "ModuleScript")) mainTree mainId = some modulePatch :=
  (Option.some_get _).symm

theorem applyPatchSet_main : applyPatchSet mainTree modulePatch = some (moduleTree, moduleRecord) := by
  have hsome : (applyPatchSet mainTree modulePatch).isSome := rfl
  exact (Option.some_get hsome).symm

theorem moduleRecord_updated : moduleRecord.updated.map
    (fun u => (u.id, u.changedClassName, u.changedProperties.entries)) =
      [(mainId, some "ModuleScript", [])] := by
  decide +kernel

theorem moduleTree_source : (getByRef moduleTree.inner mainId).bind
    (fun i => i.properties.lookup "Source") = some (.string "return nil") := by
  decide +kernel

/-- The message about the module does not say what its source is. -/
theorem not_restored_module : letI := textEngine; letI := textDecoder
    ¬ ∀ u ∈ moduleRecord.updated, Restored String textWire moduleTree u := by
  let _ := textEngine
  let _ := textDecoder
  intro hall
  have hmem : (mainId, some "ModuleScript", []) ∈ moduleRecord.updated.map
      fun u => (u.id, u.changedClassName, u.changedProperties.entries) := by
    rw [moduleRecord_updated]
    exact List.mem_cons_self
  obtain ⟨u, hu, heq⟩ := List.mem_map.mp hmem
  obtain ⟨hid, heq⟩ := Prod.mk.inj heq
  obtain ⟨hclass, hentries⟩ := Prod.mk.inj heq
  obtain ⟨i, hi, hv⟩ := Option.bind_eq_some_iff.mp moduleTree_source
  have hunlisted : ∀ k, u.changedProperties.lookup k = none := by
    intro k
    rw [Option.eq_none_iff_forall_ne_some]
    intro value hvalue
    have hentry := AList.mem_lookup_iff.mp hvalue
    rw [hentries] at hentry
    cases hentry
  have hreads := hall u hu "ModuleScript" hclass i "Source" _ (hid ▸ hi) hv rfl (hunlisted _)
  have hnothing : (textWire.applied u).changedProperties.entries = [] := by
    rw [List.eq_nil_iff_forall_not_mem]
    intro entry hentry
    obtain ⟨value, hvalue, -⟩ := mem_applied_entries.mp hentry
    rw [hunlisted] at hvalue
    cases hvalue
  rw [hnothing] at hreads
  -- a new module has an empty source
  have hsame := hreads ⟨1, fun _ => Instance.new String "ModuleScript"⟩ InstanceMap.new 0 rfl rfl
    (.other "") (.other "return nil") rfl rfl
  exact absurd hsame (by decide)

/-- A script that becomes a module loses its source in Studio. -/
theorem not_mirrors_module : letI := FloatCmp.exact; letI := textEngine; letI := textDecoder
    ¬ ∀ (tree tree' : RojoTree MapDom) (snapshot : Option InstanceSnapshot) (id : Ref)
      (patch : Roxo.PatchSet) (record : AppliedPatchSet) (message : Interface.SubscribeMessage)
      (dom : Dom String) (map : InstanceMap) (order : List String), RojoTree.Inv tree →
      computePatchSet snapshot tree id = some patch →
      applyPatchSet tree patch = some (tree', record) → NoRefs tree' → NoRemovals patch →
      Interface.SubscribeMessage.fromPatchUpdate tree' record = some message →
      Mirrors textWire tree.getRootId (replicaOf tree) dom map → AllOblige String textWire tree' →
      order.Perm (textWire.patch message).added.keys →
      ∃ w, applyPatch dom map (textWire.patch message) order = some w ∧
        Mirrors textWire tree'.getRootId (replicaOf tree') w.dom w.map := by
  let _ := FloatCmp.exact
  let _ := textEngine
  let _ := textDecoder
  intro hall
  obtain ⟨message, hm⟩ : ∃ message,
      Interface.SubscribeMessage.fromPatchUpdate moduleTree moduleRecord = some message :=
    Option.isSome_iff_exists.mp (by decide +kernel)
  have hok := inv_mainTree.patchOk computePatchSet_main applyPatchSet_main
  obtain ⟨tops, created, ha⟩ := inv_mainTree.applied hok applyPatchSet_main
  have hoblige : AllOblige String textWire moduleTree := fun m _ => obliging_text ⟨_, m⟩
  obtain ⟨w, hrun, hmirrors⟩ := hall mainTree moduleTree _ mainId modulePatch moduleRecord message
    mainDom mainMap _ inv_mainTree computePatchSet_main applyPatchSet_main noRefs_moduleTree
    noRemovals_modulePatch hm mirrors_main hoblige (.refl _)
  obtain ⟨w', hrun', hiff⟩ := exists_applyPatch_mirrors_iff inv_mainTree hok ha noRefs_moduleTree
    noRemovals_modulePatch hm mirrors_main hoblige (.refl _)
  obtain rfl := Option.some.inj (hrun.symm.trans hrun')
  exact not_restored_module (hiff.mp hmirrors)

theorem mirrors_applyPatch_iff_module : letI := textEngine; letI := textDecoder
    ∃ message, Interface.SubscribeMessage.fromPatchUpdate moduleTree moduleRecord = some message ∧
      ∀ order, order.Perm (textWire.patch message).added.keys →
        ∃ w, applyPatch mainDom mainMap (textWire.patch message) order = some w ∧
          (Mirrors textWire moduleTree.getRootId (replicaOf moduleTree) w.dom w.map ↔
            ∀ u ∈ moduleRecord.updated, Restored String textWire moduleTree u) := by
  let _ := FloatCmp.exact
  let _ := textEngine
  let _ := textDecoder
  exact mirrors_applyPatch_iff inv_mainTree computePatchSet_main applyPatchSet_main noRefs_moduleTree
    noRemovals_modulePatch mirrors_main fun m _ => obliging_text ⟨_, m⟩

end Script

end Roxo.Plugin
