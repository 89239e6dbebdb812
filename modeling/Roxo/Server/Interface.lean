import Roxo.Snapshot.Presence

/-!
# What is sent about the tree

The instances of the tree in the form in which the API sends them, the message that a subscriber
gets about a patch (`SubscribeMessage.fromPatchUpdate`), and the check whether a patch changes the
sourcemap. A patch is recorded at one time and looked up in the tree of a later time; both panic
exactly if an instance that they look up is no longer there (`deliverable_iff`).
-/

namespace Roxo

open AssocMap WeakDom RojoTree Forest

namespace RojoTree

variable {D : Type} [WeakDom D]

/-- The queue loop of `RojoDescendants`. It visits an instance once, so there are at most as many
rounds as instances. -/
def descendantsLoop : ℕ → RojoTree D → List Ref → MayPanic (List InstanceWithMeta)
  | _, _, [] => some []
  | 0, _, _ :: _ => none
  | fuel + 1, tree, id :: queue => do
    let inst ← getByRef tree.inner id
    let metadata ← tree.getMetadata inst.referent
    let rest ← descendantsLoop fuel tree (queue ++ inst.children)
    some (⟨inst, metadata⟩ :: rest)

/-- An instance and everything below it. -/
def descendants (tree : RojoTree D) (id : Ref) : MayPanic (List InstanceWithMeta) :=
  descendantsLoop (tree.metadataMap.keys.length + 1) tree [id]

end RojoTree

/-! ## The data of the API -/

namespace Interface

structure InstanceMetadata where
  ignoreUnknownInstances : Bool

def InstanceMetadata.fromRojoMetadata (metadata : Roxo.InstanceMetadata) : InstanceMetadata :=
  ⟨metadata.ignoreUnknownInstances⟩

/-- Shared strings are not sent. -/
def propertyFilter : Option Variant → Bool
  | some (.value (.sharedString _)) => false
  | _ => true

structure Instance where
  id : Ref
  parent : Ref
  name : String
  className : String
  properties : UstrMap Variant
  children : List Ref
  metadata : Option InstanceMetadata

def Instance.fromRojoInstance (source : InstanceWithMeta) : Instance where
  id := source.inst.referent
  parent := source.inst.parent
  name := source.inst.name
  className := source.inst.className
  properties := retain (fun _ value => propertyFilter (some value)) source.inst.properties
  children := source.inst.children
  metadata := some (.fromRojoMetadata source.metadata)

structure InstanceUpdate where
  id : Ref
  changedName : Option String
  changedClassName : Option String
  changedProperties : UstrMap (Option Variant)
  changedMetadata : Option InstanceMetadata

def InstanceUpdate.fromPatchUpdate (update : AppliedPatchUpdate) : InstanceUpdate where
  id := update.id
  changedName := update.changedName
  changedClassName := update.changedClassName
  changedProperties := retain (fun _ value => propertyFilter value) update.changedProperties
  changedMetadata := update.changedMetadata.map .fromRojoMetadata

structure SubscribeMessage where
  removed : List Ref
  added : Map Ref Instance
  updated : List InstanceUpdate

variable {D : Type} [WeakDom D]

/-- Adds an instance and everything below it to what is sent. -/
def sendInstance (tree : RojoTree D) (added : Map Ref Instance) (id : Ref) :
    MayPanic (Map Ref Instance) := do
  let inst ← (tree.getInstance id).join
  let added := added.insert id (.fromRojoInstance inst)
  let descendants ← tree.descendants id
  some (descendants.foldl
    (fun added inst => added.insert inst.inst.referent (.fromRojoInstance inst)) added)

/-- A recorded patch as a message about the tree as it is now. -/
def SubscribeMessage.fromPatchUpdate (tree : RojoTree D) (patch : AppliedPatchSet) :
    MayPanic SubscribeMessage := do
  let added ← patch.added.foldlM (sendInstance tree) ∅
  some { removed := patch.removed, added, updated := patch.updated.map .fromPatchUpdate }

/-- The instances that `/api/read` returns for some ids. -/
def readInstances (tree : RojoTree D) (requestedIds : List Ref) : MayPanic (Map Ref Instance) :=
  requestedIds.foldlM (fun instances id => do
    match ← tree.getInstance id with
    | some _ => sendInstance tree instances id
    | none => some instances) ∅

end Interface

/-! ## The sourcemap -/

section Sourcemap

variable {D : Type} [WeakDom D]

/-- An update that the sourcemap shows. -/
def AppliedPatchUpdate.changesNode (updated : AppliedPatchUpdate) : Bool :=
  updated.changedClassName.isSome || updated.changedName.isSome || updated.changedMetadata.isSome

/-- Whether an instance that is expected to exist passes the filter. -/
def filterInstance (tree : RojoTree D) (filter : InstanceWithMeta → Bool) (id : Ref) :
    MayPanic Bool := do
  let inst ← (tree.getInstance id).join
  some (filter inst)

/-- The closure of `patch_set_affects_sourcemap`. -/
def setAffectsSourcemap (tree : RojoTree D) (filter : InstanceWithMeta → Bool)
    (set : AppliedPatchSet) : MayPanic Bool :=
  if !set.removed.isEmpty then some true
  else do
    let added ← set.added.anyM (filterInstance tree filter)
    if added then some true
    else
      set.updated.anyM fun updated =>
        if updated.changesNode then filterInstance tree filter updated.id else some false

def patchSetAffectsSourcemap (tree : RojoTree D) (patchSet : List AppliedPatchSet)
    (filter : InstanceWithMeta → Bool) : MayPanic Bool :=
  patchSet.anyM (setAffectsSourcemap tree filter)

end Sourcemap

/-! ## When the lookups succeed -/

section Lookup

variable {D : Type} [WeakDom D] {tree : RojoTree D} {x : Ref}

open Interface

theorem getInstance_isSome (h : Inv tree) :
    (tree.getInstance x).join.isSome = true ↔ Present tree x := by
  unfold Present
  cases hi : getByRef tree.inner x with
  | none =>
    rw [getInstance_none hi]
    rfl
  | some i =>
    obtain ⟨m, hm⟩ := h.metadata_of_present hi
    rw [getInstance_eq hi hm]
    rfl

/-- A queue loop over instances that are there returns if it does not run out of rounds. -/
theorem descendantsLoop_isSome [LawfulWeakDom D] (h : Inv tree) {n : ℕ} {queue : List Ref}
    (hqueue : ∀ y ∈ queue, Present tree y)
    (hn : (bfs (kids tree.inner) n queue).length < n) :
    (descendantsLoop n tree queue).isSome = true := by
  induction n generalizing queue with
  | zero => cases hn
  | succ n ih =>
    cases queue with
    | nil => rfl
    | cons id queue =>
      obtain ⟨i, hi⟩ := Option.isSome_iff_exists.mp (hqueue id List.mem_cons_self)
      obtain ⟨m, hm⟩ := h.metadata_of_present hi
      have hkids := kids_eq hi
      rw [bfs, List.length_cons, hkids] at hn
      have hpresent : ∀ y ∈ queue ++ i.children, Present tree y := by
        intro y hy
        rcases List.mem_append.mp hy with hy | hy
        · exact hqueue y (List.mem_cons_of_mem _ hy)
        · obtain ⟨j, hj, -⟩ := LawfulWeakDom.child_present tree.inner (hkids ▸ hy)
          exact Option.isSome_of_eq_some hj
      have hrest := ih hpresent (by omega)
      obtain ⟨rest, hrest⟩ := Option.isSome_iff_exists.mp hrest
      unfold descendantsLoop getMetadata
      simp only [hi, hrest, Option.bind_eq_bind, Option.bind_some]
      rw [LawfulWeakDom.referent_eq _ hi, hm]
      rfl

variable [LawfulWeakDom D]

theorem descendants_isSome (h : Inv tree) (hx : Present tree x) :
    (tree.descendants x).isSome = true := by
  have hf := LawfulWeakDom.forest tree.inner
  refine descendantsLoop_isSome h (fun y hy => List.mem_singleton.mp hy ▸ hx) ?_
  refine hf.bfs_length_lt (antichain_singleton x) (fun a ha => ?_) (fun a _ b hb => ?_)
    (Nat.lt_succ_self _)
  · rw [List.mem_singleton.mp ha, ← AList.mem_keys, h.keys]
    exact hx
  · obtain ⟨j, hj, -⟩ := LawfulWeakDom.child_present _ hb
    rw [← AList.mem_keys, h.keys, hj]
    rfl

theorem sendInstance_isSome (h : Inv tree) {added : Map Ref Interface.Instance} :
    (sendInstance tree added x).isSome = true ↔ Present tree x := by
  rw [← getInstance_isSome h]
  unfold sendInstance
  cases hi : (tree.getInstance x).join with
  | none => rfl
  | some inst =>
    obtain ⟨l, hl⟩ := Option.isSome_iff_exists.mp
      (descendants_isSome h ((getInstance_isSome h).mp (by rw [hi]; rfl)))
    simp only [hl, Option.bind_eq_bind, Option.bind_some, Option.isSome_some]

theorem fromPatchUpdate_isSome (h : Inv tree) {patch : AppliedPatchSet} :
    (SubscribeMessage.fromPatchUpdate tree patch).isSome = true ↔
      ∀ x ∈ patch.added, Present tree x := by
  have hloop : ∀ (l : List Ref) (added : Map Ref Interface.Instance),
      (l.foldlM (sendInstance tree) added).isSome = true ↔ ∀ x ∈ l, Present tree x := by
    intro l
    induction l with
    | nil => exact fun _ => iff_of_true rfl fun _ hx => absurd hx List.not_mem_nil
    | cons x l ih =>
      intro added
      rw [List.foldlM_cons, List.forall_mem_cons, ← sendInstance_isSome h]
      cases sendInstance tree added x with
      | none => simp
      | some added' => simpa using ih added'
  rw [← hloop patch.added ∅]
  unfold SubscribeMessage.fromPatchUpdate
  cases patch.added.foldlM (sendInstance tree) ∅ <;> rfl

/-- An instance that delivering a recorded patch looks up: an added one, or one with a change that
the sourcemap shows, which is looked up unless something was removed. -/
def Needed (set : AppliedPatchSet) (x : Ref) : Prop :=
  x ∈ set.added ∨ set.removed = [] ∧ ∃ u ∈ set.updated, u.changesNode = true ∧ u.id = x

omit [LawfulWeakDom D] in
/-- What a patch records is there right after it. -/
theorem Leaves.needed {patch : PatchSet} {applied : AppliedPatchSet}
    {tree' : RojoTree D} (h : Leaves tree patch tree' applied) (hx : Needed applied x) : Present tree' x := by
  rcases hx with hx | ⟨-, u, hu, -, rfl⟩
  · exact (h.present x).mpr (Or.inr hx)
  · exact h.updated u hu

/-- A recorded patch can be turned into a message and checked against any filter. -/
def Deliverable (tree : RojoTree D) (set : AppliedPatchSet) : Prop :=
  (SubscribeMessage.fromPatchUpdate tree set).isSome = true ∧
    ∀ filter, (setAffectsSourcemap tree filter set).isSome = true

omit [WeakDom D] [LawfulWeakDom D] in
/-- A search that may panic does not if none of its tests does. -/
theorem anyM_isSome {α : Type} {p : α → Option Bool} {l : List α}
    (h : ∀ a ∈ l, (p a).isSome = true) : (l.anyM p).isSome = true := by
  induction l with
  | nil => rfl
  | cons a l ih =>
    obtain ⟨b, hb⟩ := Option.isSome_iff_exists.mp (h a List.mem_cons_self)
    rw [List.anyM_cons, hb]
    cases b with
    | true => rfl
    | false => exact ih fun c hc => h c (List.mem_cons_of_mem _ hc)

omit [WeakDom D] [LawfulWeakDom D] in
/-- A search that can find nothing makes all of its tests. -/
theorem anyM_eq_some {α : Type} {p : α → Option Bool} {l : List α} {b : Bool}
    (hp : ∀ a, p a ≠ some true) (h : l.anyM p = some b) :
    b = false ∧ ∀ a ∈ l, (p a).isSome = true := by
  induction l with
  | nil => exact ⟨(Option.some.inj h).symm, fun a ha => absurd ha List.not_mem_nil⟩
  | cons a l ih =>
    rw [List.anyM_cons] at h
    cases hpa : p a with
    | none =>
      rw [hpa] at h
      cases h
    | some c =>
      cases c with
      | true => exact absurd hpa (hp a)
      | false =>
        rw [hpa] at h
        obtain ⟨hb, hall⟩ := ih h
        refine ⟨hb, fun c hc => ?_⟩
        rcases List.mem_cons.mp hc with rfl | hc
        · rw [hpa]
          rfl
        · exact hall c hc

omit [LawfulWeakDom D] in
theorem filterInstance_isSome (h : Inv tree) (filter : InstanceWithMeta → Bool) :
    (filterInstance tree filter x).isSome = true ↔ Present tree x := by
  rw [← getInstance_isSome h]
  unfold filterInstance
  cases (tree.getInstance x).join <;> rfl

omit [LawfulWeakDom D] in
theorem filterInstance_ne_true : filterInstance tree (fun _ => false) x ≠ some true := by
  unfold filterInstance
  cases (tree.getInstance x).join with
  | none => exact nofun
  | some inst => exact fun h => Bool.false_ne_true (Option.some.inj h)

omit [LawfulWeakDom D] in
theorem setAffectsSourcemap_isSome (h : Inv tree) {set : AppliedPatchSet}
    (hneeded : ∀ x, Needed set x → Present tree x) (filter : InstanceWithMeta → Bool) :
    (setAffectsSourcemap tree filter set).isSome = true := by
  unfold setAffectsSourcemap
  by_cases hnil : set.removed = []
  · rw [hnil]
    obtain ⟨added, hadded⟩ := Option.isSome_iff_exists.mp (anyM_isSome
      fun x (hx : x ∈ set.added) => (filterInstance_isSome h filter).mpr (hneeded x (Or.inl hx)))
    simp only [List.isEmpty_nil, Bool.not_true, Bool.false_eq_true, if_false, hadded,
      Option.bind_eq_bind, Option.bind_some]
    cases added with
    | true => rfl
    | false =>
      refine anyM_isSome fun u hu => ?_
      by_cases hchanges : u.changesNode = true
      · rw [if_pos hchanges, filterInstance_isSome h]
        exact hneeded u.id (Or.inr ⟨hnil, u, hu, hchanges, rfl⟩)
      · rw [if_neg hchanges]
        rfl
  · rw [if_pos (by simpa using hnil)]
    rfl

omit [LawfulWeakDom D] in
/-- With a filter that nothing passes, the check looks up every update that it shows. -/
theorem present_of_setAffectsSourcemap (h : Inv tree) {set : AppliedPatchSet}
    (hnil : set.removed = [])
    (hall : (setAffectsSourcemap tree (fun _ => false) set).isSome = true)
    {u : AppliedPatchUpdate} (hu : u ∈ set.updated) (hchanges : u.changesNode = true) :
    Present tree u.id := by
  unfold setAffectsSourcemap at hall
  rw [hnil] at hall
  simp only [List.isEmpty_nil, Bool.not_true, Bool.false_eq_true, if_false,
    Option.bind_eq_bind] at hall
  cases hadded : set.added.anyM (filterInstance tree fun _ => false) with
  | none =>
    rw [hadded] at hall
    cases hall
  | some added =>
    obtain ⟨rfl, -⟩ := anyM_eq_some (fun _ => filterInstance_ne_true) hadded
    rw [hadded] at hall
    obtain ⟨b, hb⟩ := Option.isSome_iff_exists.mp hall
    obtain ⟨-, htests⟩ := anyM_eq_some (fun v => by
      split_ifs
      · exact filterInstance_ne_true
      · exact fun h => Bool.false_ne_true (Option.some.inj h)) hb
    have htest := htests u hu
    rw [if_pos hchanges] at htest
    exact (filterInstance_isSome h _).mp htest

/-- **A recorded patch can be delivered if and only if the instances that it needs are there.** -/
theorem deliverable_iff (h : Inv tree) {set : AppliedPatchSet} :
    Deliverable tree set ↔ ∀ x, Needed set x → Present tree x := by
  constructor
  · rintro ⟨hmessage, hsourcemap⟩ x (hx | ⟨hnil, u, hu, hchanges, rfl⟩)
    · exact (fromPatchUpdate_isSome h).mp hmessage x hx
    · exact present_of_setAffectsSourcemap h hnil (hsourcemap _) hu hchanges
  · intro hneeded
    exact ⟨(fromPatchUpdate_isSome h).mpr fun x hx => hneeded x (Or.inl hx),
      setAffectsSourcemap_isSome h hneeded⟩

end Lookup

end Roxo
