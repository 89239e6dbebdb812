import Roxo.Library.ReplicaLog
import Roxo.Server.SentInstances
import Roxo.Server.ServeSession

/-!
# Replicas of what is sent

A client that keeps a replica of the tree knows what the server sends of it: no children, which
the parents say already, and no shared strings. `SubscribeMessage.play` is the effect of a message
on a replica, and `Origin.step` says that an applied patch is a step of the sent tree whose record
is what is recorded of the patch.
-/

namespace Roxo

open AssocMap WeakDom RojoTree Forest Replica

/-! ## Messages -/

namespace ReplicaInstance

/-- What is sent of an instance. -/
def sent (e : ReplicaInstance) : ReplicaInstance :=
  { e with
    properties := fun k => (e.properties k).filter fun v => Interface.propertyFilter (some v) }

end ReplicaInstance

namespace Interface

def Instance.replica (inst : Interface.Instance) : ReplicaInstance where
  name := inst.name
  className := inst.className
  parent := inst.parent
  properties k := inst.properties.lookup k

/-- Sets the listed name, class and property values; `none` removes a property. -/
def InstanceUpdate.update (u : InstanceUpdate) (e : ReplicaInstance) : ReplicaInstance :=
  { e with
    name := u.changedName.getD e.name
    className := u.changedClassName.getD e.className
    properties := fun k => (u.changedProperties.lookup k).getD (e.properties k) }

/-- The effect of a message: the removed subtrees go, the listed instances come, and the updated
ones change. -/
noncomputable def SubscribeMessage.play (replica : Store Ref ReplicaInstance)
    (message : SubscribeMessage) : Store Ref ReplicaInstance :=
  message.updated.foldl (change InstanceUpdate.id InstanceUpdate.update) fun y =>
    ((message.added.lookup y).map Instance.replica).or
      (message.removed.foldl (remove ReplicaInstance.parent) replica y)

end Interface

open Interface

/-- The replica that a client has of a tree when it is up to date. -/
def sentOf {D : Type} [WeakDom D] (tree : RojoTree D) : Store Ref ReplicaInstance := fun x =>
  (replicaOf tree x).map ReplicaInstance.sent

/-- What is recorded of a patch, as far as it is sent. -/
def AppliedPatchSet.sentRecord (applied : AppliedPatchSet) : Record Ref InstanceUpdate where
  removed := applied.removed
  added := applied.added
  updated := applied.updated.map .fromPatchUpdate

theorem overwrites_update : Overwrites ReplicaInstance.parent InstanceUpdate.update where
  parent_eq _ _ := rfl
  idem u e := by
    unfold InstanceUpdate.update
    cases u.changedName <;> cases u.changedClassName <;>
      simp only [Option.getD_none, Option.getD_some, ReplicaInstance.mk.injEq, true_and] <;>
      exact funext fun k => by cases u.changedProperties.lookup k <;> rfl
  absorb u v e := by
    unfold InstanceUpdate.update
    cases u.changedName <;> cases u.changedClassName <;>
      simp only [Option.getD_none, Option.getD_some, ReplicaInstance.mk.injEq, true_and] <;>
      exact funext fun k => by cases u.changedProperties.lookup k <;> rfl

section

variable {D : Type} [WeakDom D] {tree tree' : RojoTree D} {x y : Ref}

theorem sentOf_of_present {i : Instance} (hi : getByRef tree.inner x = some i) :
    sentOf tree x = some (ReplicaInstance.of i).sent := by
  unfold sentOf
  rw [replicaOf_of_present hi, Option.map_some]

theorem isSome_sentOf : (sentOf tree x).isSome = true ↔ Present tree x := by
  unfold sentOf replicaOf Present
  rw [Option.isSome_map, Option.isSome_map]

theorem sentOf_eq_none : sentOf tree x = none ↔ ¬ Present tree x := by
  rw [← isSome_sentOf, Option.not_isSome_iff_eq_none]

/-- The sent instance as the client has it. -/
theorem replica_fromRojoInstance (source : InstanceWithMeta) :
    (Instance.fromRojoInstance source).replica = (ReplicaInstance.of source.inst).sent := by
  unfold Instance.replica Instance.fromRojoInstance ReplicaInstance.of ReplicaInstance.sent
  simp only [lookup_retain]

/-- What is sent does not change who is below whom. -/
theorem below_sentOf : Replica.Below ReplicaInstance.parent (sentOf tree) x y ↔
    Replica.Below ReplicaInstance.parent (replicaOf tree) x y := by
  have hstep : ∀ a b, (∃ e, sentOf tree b = some e ∧ e.parent = a) ↔
      ∃ e, replicaOf tree b = some e ∧ e.parent = a := by
    intro a b
    unfold sentOf
    constructor
    · rintro ⟨e, he, rfl⟩
      obtain ⟨e₀, he₀, rfl⟩ := Option.map_eq_some_iff.mp he
      exact ⟨e₀, he₀, rfl⟩
    · rintro ⟨e, he, rfl⟩
      exact ⟨e.sent, by rw [he, Option.map_some], rfl⟩
  unfold Replica.Below
  simp only [hstep]

variable [LawfulWeakDom D]

theorem desc_iff_below_sentOf (hx : x ≠ Ref.none) :
    Replica.Below ReplicaInstance.parent (sentOf tree) x y ↔ Desc (kids tree.inner) x y :=
  below_sentOf.trans (below_replicaOf hx)

theorem closed_sentOf : Closed ReplicaInstance.parent Ref.none (sentOf tree) where
  absent := by
    unfold sentOf replicaOf
    rw [LawfulWeakDom.getByRef_null]
    rfl
  parents y e he hne := by
    unfold sentOf replicaOf at he
    obtain ⟨e₀, he₀, rfl⟩ := Option.map_eq_some_iff.mp he
    obtain ⟨i, hi, rfl⟩ := Option.map_eq_some_iff.mp he₀
    have hkid := LawfulWeakDom.mem_kids_of_parent tree.inner hi hne
    rw [isSome_sentOf]
    unfold Present
    unfold kids at hkid
    split at hkid
    · rename_i j hj
      exact Option.isSome_of_eq_some hj
    · exact absurd hkid List.not_mem_nil

theorem used_sentOf {e : ReplicaInstance} (he : sentOf tree x = some e) : Issued tree.inner x := by
  obtain ⟨i, hi⟩ := Option.isSome_iff_exists.mp
    (isSome_sentOf.mp (Option.isSome_of_eq_some he))
  exact LawfulWeakDom.issued_of_present _ hi

/-- A message plays the record that it was made of, with the tree of the time at which it was
made as the source. -/
theorem play_fromPatchUpdate (h : RojoTree.Inv tree) {applied : AppliedPatchSet}
    {message : SubscribeMessage} (hm : SubscribeMessage.fromPatchUpdate tree applied = some message)
    (replica : Store Ref ReplicaInstance) :
    message.play replica =
      applied.sentRecord.play ReplicaInstance.parent InstanceUpdate.id InstanceUpdate.update
        replica (sentOf tree) := by
  classical
  have hpresent := (fromPatchUpdate_isSome h).mp (Option.isSome_of_eq_some hm)
  obtain ⟨hremoved, hupdated, hadded⟩ := lookup_fromPatchUpdate h hm
  have hbelow : ∀ y, (∃ top ∈ applied.added,
      Replica.Below ReplicaInstance.parent (sentOf tree) top y) ↔
      ∃ top ∈ applied.added, Desc (kids tree.inner) top y := fun y =>
    exists_congr fun top => and_congr_right fun htop =>
      desc_iff_below_sentOf (ne_null_of_present (hpresent top htop))
  unfold SubscribeMessage.play Record.play AppliedPatchSet.sentRecord
  rw [hupdated, hremoved]
  congr 1
  funext y
  rw [foldl_graft, if_congr (hbelow y) rfl rfl]
  split_ifs with hy
  · obtain ⟨source, hsource, hlookup⟩ := (hadded y).1 hy
    rw [hlookup, sentOf_of_present hsource, Option.map_some, replica_fromRojoInstance,
      Option.some_or]
  · rw [(hadded y).2 fun top htop hd => hy ⟨top, htop, hd⟩, Option.map_none, Option.none_or]

omit [LawfulWeakDom D] in
theorem present_of_mem_kids {x y : Ref} (hy : y ∈ kids tree.inner x) : Present tree x := by
  unfold Present
  cases hx : getByRef tree.inner x with
  | some i => rfl
  | none =>
    unfold kids at hy
    rw [hx] at hy
    cases hy

/-- The instance is in the map in the form in which it is sent. -/
def IsSent (tree : RojoTree D) (instances : Map Ref Interface.Instance) (y : Ref) : Prop :=
  ∃ source, getByRef tree.inner y = some source.inst ∧
    instances.lookup y = some (.fromRojoInstance source)

omit [LawfulWeakDom D] in
/-- A loop whose rounds send subtrees sends all of them and nothing else. -/
theorem foldlM_isSent
    {step : Map Ref Interface.Instance → Ref → MayPanic (Map Ref Interface.Instance)}
    (hstep : ∀ start id next, step start id = some next → ∀ y,
      (Present tree id ∧ Desc (kids tree.inner) id y → IsSent tree next y) ∧
        (¬ (Present tree id ∧ Desc (kids tree.inner) id y) → next.lookup y = start.lookup y))
    {l : List Ref} {start instances : Map Ref Interface.Instance}
    (hrun : l.foldlM step start = some instances) (y : Ref) :
    ((∃ id ∈ l, Present tree id ∧ Desc (kids tree.inner) id y) → IsSent tree instances y) ∧
      ((∀ id ∈ l, ¬ (Present tree id ∧ Desc (kids tree.inner) id y)) →
        instances.lookup y = start.lookup y) := by
  induction l generalizing start with
  | nil =>
    obtain rfl := Option.some.inj hrun
    refine ⟨?_, fun _ => rfl⟩
    rintro ⟨id, hid, -⟩
    exact absurd hid List.not_mem_nil
  | cons id l ih =>
    rw [List.foldlM_cons] at hrun
    obtain ⟨next, hnext, hrun⟩ := Option.bind_eq_some_iff.mp hrun
    obtain ⟨hbelow, hother⟩ := ih hrun
    obtain ⟨hsent, hkeep⟩ := hstep start id next hnext y
    by_cases hl : ∃ id' ∈ l, Present tree id' ∧ Desc (kids tree.inner) id' y
    · refine ⟨fun _ => hbelow hl, fun hnone => ?_⟩
      obtain ⟨id', hid', hd⟩ := hl
      exact absurd hd (hnone id' (List.mem_cons_of_mem _ hid'))
    · have hsame := hother fun id' hid' hd => hl ⟨id', hid', hd⟩
      refine ⟨?_, fun hnone => hsame.trans (hkeep (hnone id List.mem_cons_self))⟩
      rintro ⟨id', hid', hd⟩
      rcases List.mem_cons.mp hid' with rfl | hid'
      · obtain ⟨source, hsource, hlookup⟩ := hsent hd
        exact ⟨source, hsource, hsame.trans hlookup⟩
      · exact absurd ⟨id', hid', hd⟩ hl

/-- The replica that a read of the whole tree gives. -/
theorem lookup_readInstances (h : RojoTree.Inv tree) {requestedIds : List Ref}
    {instances : Map Ref Interface.Instance}
    (hread : readInstances tree requestedIds = some instances)
    (hall : ∀ y, Present tree y → ∃ id ∈ requestedIds, Desc (kids tree.inner) id y) :
    (fun y => (instances.lookup y).map Instance.replica) = sentOf tree := by
  unfold readInstances at hread
  have hloop : ∀ y,
      ((∃ id ∈ requestedIds, Present tree id ∧ Desc (kids tree.inner) id y) →
        IsSent tree instances y) ∧
      ((∀ id ∈ requestedIds, ¬ (Present tree id ∧ Desc (kids tree.inner) id y)) →
        instances.lookup y = (∅ : Map Ref Interface.Instance).lookup y) := by
    refine foldlM_isSent (fun start id next hnext y => ?_) hread
    cases hi : getByRef tree.inner id with
    | none =>
      have habsent : ¬ Present tree id := by
        unfold Present
        rw [hi]
        exact Bool.false_ne_true
      rw [getInstance_none hi] at hnext
      obtain rfl := Option.some.inj hnext
      exact ⟨fun hy => absurd hy.1 habsent, fun _ => rfl⟩
    | some i =>
      obtain ⟨m, hm⟩ := h.metadata_of_present hi
      rw [getInstance_eq hi hm] at hnext
      obtain ⟨hself, hkeep⟩ := lookup_sendInstance h hnext y
      exact ⟨fun hy => hself hy.2,
        fun hy => hkeep fun hd => hy ⟨Option.isSome_of_eq_some hi, hd⟩⟩
  funext y
  obtain ⟨hsome, hnone⟩ := hloop y
  by_cases hy : Present tree y
  · obtain ⟨id, hid, hd⟩ := hall y hy
    have hpresent : Present tree id := by
      rcases Relation.ReflTransGen.cases_head hd with rfl | ⟨z, hz, -⟩
      · exact hy
      · exact present_of_mem_kids hz
    obtain ⟨source, hsource, hlookup⟩ := hsome ⟨id, hid, hpresent, hd⟩
    rw [hlookup, sentOf_of_present hsource, Option.map_some, replica_fromRojoInstance]
  · rw [sentOf_eq_none.mpr hy, hnone, AList.lookup_empty, Option.map_none]
    rintro id - ⟨hpresent, hd⟩
    rcases Relation.ReflTransGen.cases_tail hd with rfl | ⟨z, -, hz⟩
    · exact hy hpresent
    · obtain ⟨j, hj, -⟩ := LawfulWeakDom.child_present tree.inner hz
      exact hy (Option.isSome_of_eq_some hj)

/-! ## Applied patches -/

omit [LawfulWeakDom D] in
/-- The sent updates of an instance, if every value is sent. -/
theorem sent_touch {updated : List AppliedPatchUpdate} (hsent : ∀ u ∈ updated, ∀ k v,
      u.changedProperties.lookup k = some v → propertyFilter v = true) (e : ReplicaInstance) :
    (touch AppliedPatchUpdate.id ReplicaInstance.update updated y e).sent =
      touch InstanceUpdate.id InstanceUpdate.update (updated.map .fromPatchUpdate) y e.sent := by
  induction updated generalizing e with
  | nil => rfl
  | cons u updated ih =>
    obtain ⟨hu, hsent⟩ := List.forall_mem_cons.mp hsent
    have hone : (ReplicaInstance.update u e).sent =
        (InstanceUpdate.fromPatchUpdate u).update e.sent := by
      unfold ReplicaInstance.update ReplicaInstance.sent InstanceUpdate.update
        InstanceUpdate.fromPatchUpdate
      simp only [ReplicaInstance.mk.injEq, true_and]
      funext k
      rw [lookup_retain]
      cases hk : u.changedProperties.lookup k with
      | none => rfl
      | some v =>
        cases v with
        | none => rfl
        | some v =>
          have hfilter := hu k (some v) hk
          rw [Option.filter_some, hfilter, if_pos rfl, Option.getD_some, Option.getD_some,
            Option.filter_some, hfilter, if_pos rfl]
    rw [List.map_cons, touch_cons, touch_cons _ (updated.map _), ih hsent]
    refine congrArg _ ?_
    show (if y = u.id then ReplicaInstance.update u e else e).sent =
      if y = u.id then (InstanceUpdate.fromPatchUpdate u).update e.sent else e.sent
    split_ifs
    · exact hone
    · rfl

omit [LawfulWeakDom D] in
/-- A record that replays faithfully is also sent faithfully. -/
theorem play_sentRecord {applied : AppliedPatchSet}
    (hreplay : replay (replicaOf tree) (replicaOf tree') applied = replicaOf tree')
    (hsent : ∀ u ∈ applied.updated, ∀ k v,
      u.changedProperties.lookup k = some v → propertyFilter v = true) :
    applied.sentRecord.play ReplicaInstance.parent InstanceUpdate.id InstanceUpdate.update
      (sentOf tree) (sentOf tree') = sentOf tree' := by
  classical
  funext y
  have hy := congrFun hreplay y
  unfold replay at hy
  rw [foldl_change_eq, foldl_graft, foldl_remove] at hy
  rw [Record.play_apply]
  unfold AppliedPatchSet.sentRecord
  simp only [below_sentOf]
  show _ = (replicaOf tree' y).map ReplicaInstance.sent
  rw [← hy, Option.map_map]
  unfold sentOf
  split_ifs
  · rw [Option.map_map]
    exact congrArg (Option.map · _) (funext fun e => (sent_touch hsent e).symm)
  · rfl
  · rw [Option.map_map]
    exact congrArg (Option.map · _) (funext fun e => (sent_touch hsent e).symm)

/-- What is removed was there. -/
theorem removed_present {patch : PatchSet} {applied : AppliedPatchSet} (h : RojoTree.Inv tree)
    (heq : applyPatchSet tree patch = some (tree', applied)) :
    ∀ x ∈ patch.removedInstances, Present tree x := by
  unfold applyPatchSet at heq
  obtain ⟨⟨context₁, tree₁⟩, h₁, -⟩ := Option.bind_eq_some_iff.mp heq
  have hloop : ∀ (l : List Ref) (context : PatchApplyContext) (tree : RojoTree D),
      RojoTree.Inv tree → l.foldlM (fun state removedId =>
        applyRemoveInstance state.1 state.2 removedId) (context, tree) = some (context₁, tree₁) →
      ∀ x ∈ l, Present tree x := by
    intro l
    induction l with
    | nil => exact fun _ _ _ _ x hx => absurd hx List.not_mem_nil
    | cons z l ih =>
      intro context tree h hrun x hx
      rw [List.foldlM_cons] at hrun
      obtain ⟨⟨context₂, tree₂⟩, h₂, hrun⟩ := Option.bind_eq_some_iff.mp hrun
      obtain ⟨tree₃, hr, h₂⟩ := Option.bind_eq_some_iff.mp h₂
      obtain ⟨rfl, rfl⟩ := Prod.mk.inj (Option.some.inj h₂)
      obtain ⟨i, hi⟩ := h.present_of_remove hr
      obtain ⟨-, hrem⟩ := removed_of_remove h hr
      rcases List.mem_cons.mp hx with rfl | hx
      · exact Option.isSome_of_eq_some hi
      · exact (hrem.present.mp (ih _ _ hrem.inv hrun x hx)).1
  exact hloop _ _ _ h h₁

/-- A patch without additions records none. -/
theorem added_eq_nil {patch : PatchSet} {applied : AppliedPatchSet} (h : RojoTree.Inv tree)
    (hadded : patch.addedInstances = []) (hmeta : ∀ u ∈ patch.updatedInstances,
      u.changedMetadata = none)
    (heq : applyPatchSet tree patch = some (tree', applied)) : applied.added = [] := by
  unfold applyPatchSet at heq
  rw [hadded] at heq
  obtain ⟨⟨context₁, tree₁⟩, h₁, heq₁⟩ := Option.bind_eq_some_iff.mp heq
  obtain ⟨⟨context₂, tree₂⟩, h₂, heq₂⟩ := Option.bind_eq_some_iff.mp heq₁
  obtain ⟨⟨context₃, tree₃⟩, h₃, heq₃⟩ := Option.bind_eq_some_iff.mp heq₂
  obtain ⟨rfl, rfl⟩ := Prod.mk.inj (Option.some.inj h₂)
  obtain ⟨hleft, hcontext⟩ := applyRemovals_left h h₁
  obtain ⟨updated, hup⟩ := applyUpdates_updates hleft.inv
    (fun u hu hne => absurd (hmeta u hu) hne) h₃
  obtain ⟨-, happlied⟩ := finalizePatchApplication_kept hup.inv heq₃
  rw [happlied, hup.applied, hcontext, foldl_recordRemoved]
  rfl

variable [FloatCmp]

/-- **An applied patch is a step of the sent tree.** -/
theorem Origin.step {patch : PatchSet} {applied : AppliedPatchSet} (h : RojoTree.Inv tree)
    (horigin : Origin tree patch) (heq : applyPatchSet tree patch = some (tree', applied))
    (hplay : applied.sentRecord.play ReplicaInstance.parent InstanceUpdate.id InstanceUpdate.update
      (sentOf tree) (sentOf tree') = sentOf tree') :
    Replica.Step ReplicaInstance.parent Ref.none InstanceUpdate.id InstanceUpdate.update
      (Issued tree.inner) (Issued tree'.inner) (sentOf tree) (sentOf tree')
      applied.sentRecord := by
  have hleaves := Origin.leaves h horigin heq
  have hadded : ∀ x ∈ applied.added, Present tree' x := fun x hx =>
    (hleaves.present x).mpr (Or.inr hx)
  -- what is below an added instance is added too, and only instances of before are updated
  have hdata : (∀ x ∈ applied.added, ∀ y, Desc (kids tree'.inner) x y → y ∈ applied.added) ∧
      ∀ u ∈ applied.updated, u.id ∉ applied.added := by
    cases horigin with
    | computed hp =>
      have hok := h.patchOk hp heq
      obtain ⟨tops, created, ha⟩ := h.applied hok heq
      rw [ha.recorded]
      refine ⟨fun x hx y hxy => mem_created_of_desc ha hx hxy, fun u hu hmem => ?_⟩
      obtain ⟨u₀, hu₀, rfl⟩ := List.mem_map.mp hu
      obtain ⟨c, hc, hid⟩ := List.mem_map.mp hmem
      obtain ⟨i, hi⟩ := Option.isSome_iff_exists.mp (hok.updated u₀ hu₀).1
      refine ha.fresh c hc ?_
      rw [hid]
      exact LawfulWeakDom.issued_of_present _ hi
    | missing id =>
      rw [added_eq_nil h rfl (fun u hu => absurd hu List.not_mem_nil) heq]
      exact ⟨fun _ hx => absurd hx List.not_mem_nil, fun _ _ => List.not_mem_nil⟩
    | write hupdates =>
      rw [added_eq_nil h rfl hupdates heq]
      exact ⟨fun _ hx => absurd hx List.not_mem_nil, fun _ _ => List.not_mem_nil⟩
  have hissued : ∀ x, Present tree x → Issued tree.inner x := fun x hx => by
    obtain ⟨i, hi⟩ := Option.isSome_iff_exists.mp hx
    exact LawfulWeakDom.issued_of_present _ hi
  refine
    { closed := closed_sentOf
      play := hplay
      grows := hleaves.issued
      used := fun x e he => used_sentOf he
      fresh := hleaves.fresh
      added := fun x hx => isSome_sentOf.mpr (hadded x hx)
      new := fun x hx hx' => ?_
      below := fun x hx y hxy => ?_
      removed := fun x hx => ?_
      updated := fun u hu => ?_ }
  · exact ((hleaves.present x).mp (isSome_sentOf.mp hx')).resolve_left
      fun hold => sentOf_eq_none.mp hx hold.1
  · exact hdata.1 x hx y ((desc_iff_below_sentOf (ne_null_of_present (hadded x hx))).mp hxy)
  · change x ∈ applied.removed at hx
    rw [hleaves.removed] at hx
    have hpresent := removed_present h heq x hx
    refine ⟨ne_null_of_present hpresent, hissued x hpresent, sentOf_eq_none.mpr fun hx' => ?_⟩
    rcases (hleaves.present x).mp hx' with ⟨-, hnot⟩ | hnew
    · exact hnot ⟨x, hx, .refl⟩
    · exact hleaves.fresh x hnew (hissued x hpresent)
  · obtain ⟨u₀, hu₀, rfl⟩ := List.mem_map.mp hu
    rcases (hleaves.present u₀.id).mp (hleaves.updated u₀ hu₀) with ⟨hold, -⟩ | hnew
    · exact hissued _ hold
    · exact absurd hnew (hdata.2 u₀ hu₀)

end

end Roxo
