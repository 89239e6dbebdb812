import Roxo.Server.Interface
import Roxo.Server.MessageQueue
import Roxo.Snapshot.Replay

/-!
# A serve session

The tree and the message queue of a session are locked one after the other: patches are applied
to the tree in one step and their records are pushed in a later one, and `/api/read` reads the
cursor in one step and copies the tree in a later one. `ServeSession` is the state that these
steps work on, for any number of them under way.

A read loses no update (`readSound_of_run`): every message below the cursor that it returns is
reflected in the copy. A message can be delivered at any later time as long as no patch removes
an instance that it needs (`allDeliverable_of_spares`).
-/

namespace Roxo

open AssocMap WeakDom RojoTree Transition MessageQueue

variable {D : Type} [WeakDom D] [FloatCmp]

/-- The patches that the server applies: one that was computed on the tree, the removal of an
instance whose path is gone, and the updates of `/api/write`, which name any ids but change no
metadata. -/
inductive Origin (tree : RojoTree D) : PatchSet → Prop
  | computed {snapshot : Option InstanceSnapshot} {id : Ref} {patch : PatchSet} :
      computePatchSet snapshot tree id = some patch → Origin tree patch
  | missing (id : Ref) : Origin tree { PatchSet.new with removedInstances := [id] }
  | write {updates : List PatchUpdate} : (∀ u ∈ updates, u.changedMetadata = none) →
      Origin tree { PatchSet.new with updatedInstances := updates }

/-- A patch that was applied: the tree before, the patch and what was recorded. -/
structure Application (D : Type) where
  tree : RojoTree D
  patch : PatchSet
  applied : AppliedPatchSet

/-- The patches of a batch are applied one after the other. -/
inductive ApplyAll : RojoTree D → List (Application D) → RojoTree D → Prop
  | nil (tree : RojoTree D) : ApplyAll tree [] tree
  | cons {tree tree₁ tree' : RojoTree D} {patch : PatchSet} {applied : AppliedPatchSet}
      {rest : List (Application D)} : Origin tree patch →
      applyPatchSet tree patch = some (tree₁, applied) → ApplyAll tree₁ rest tree' →
      ApplyAll tree (⟨tree, patch, applied⟩ :: rest) tree'

theorem ApplyAll.append {tree tree₁ tree' : RojoTree D} {batch batch' : List (Application D)}
    (h : ApplyAll tree batch tree₁) (h' : ApplyAll tree₁ batch' tree') :
    ApplyAll tree (batch ++ batch') tree' := by
  induction h with
  | nil tree => exact h'
  | cons horigin happly _ ih => exact .cons horigin happly (ih h')

section

variable [LawfulWeakDom D] {tree tree' : RojoTree D}

theorem Origin.leaves {patch : PatchSet} {applied : AppliedPatchSet} (h : RojoTree.Inv tree)
    (horigin : Origin tree patch) (heq : applyPatchSet tree patch = some (tree', applied)) :
    Leaves tree patch tree' applied := by
  refine applyPatchSet_leaves h ?_ heq
  cases horigin with
  | computed hp => exact (h.patchOk hp heq).metadataOk
  | missing id => exact fun _ hu => absurd hu List.not_mem_nil
  | write hupdates => exact fun u hu hm => absurd (hupdates u hu) hm

/-- A batch keeps what it does not remove, and what its own patches record. -/
theorem ApplyAll.supplied {batch : List (Application D)} (h : ApplyAll tree batch tree')
    (hinv : RojoTree.Inv tree) (needed : Ref → Prop) (hneeded : ∀ x, needed x → Present tree x)
    (hspared : ∀ a ∈ batch, ∀ x, Below a.tree a.patch.removedInstances x → ¬ needed x)
    (hbatch : batch.Pairwise fun a b =>
      ∀ x, Below b.tree b.patch.removedInstances x → ¬ Needed a.applied x) :
    RojoTree.Inv tree' ∧ (∀ x, needed x → Present tree' x) ∧
      ∀ a ∈ batch, ∀ x, Needed a.applied x → Present tree' x := by
  induction h generalizing needed with
  | nil tree => exact ⟨hinv, hneeded, fun _ ha => absurd ha List.not_mem_nil⟩
  | @cons tree tree₁ tree' patch applied rest horigin happly _ ih =>
    have hleaves := Origin.leaves hinv horigin happly
    obtain ⟨hfirst, hrest⟩ := List.pairwise_cons.mp hbatch
    obtain ⟨hinv', hall, hrecorded⟩ := ih hleaves.inv (fun x => needed x ∨ Needed applied x)
      (fun x hx => hx.elim
        (fun hx => (hleaves.present x).mpr (Or.inl ⟨hneeded x hx, fun hbelow =>
          hspared _ List.mem_cons_self x hbelow hx⟩))
        hleaves.needed)
      (fun a ha x hbelow hx => hx.elim (hspared a (List.mem_cons_of_mem _ ha) x hbelow)
        (hfirst a ha x hbelow)) hrest
    refine ⟨hinv', fun x hx => hall x (Or.inl hx), fun a ha x hx => ?_⟩
    rcases List.mem_cons.mp ha with rfl | ha
    · exact hall x (Or.inr hx)
    · exact hrecorded a ha x hx

end

/-- A record in the queue. The number of the application that it records is not part of what is
sent. -/
structure QueuedPatch where
  application : Nat
  patch : AppliedPatchSet

/-- The records of a batch that are not empty; `n` patches were applied before. -/
def recordsFrom (n : Nat) (batch : List (Application D)) : List QueuedPatch :=
  (batch.zipIdx n).filterMap fun (application, i) =>
    if application.applied.isEmpty then none else some ⟨i, application.applied⟩

/-- What a served `/api/read` was asked for and returned, with the tree that it copied and the
number of patches applied to it. -/
structure ServedRead (D : Type) where
  messageCursor : UInt32
  requestedIds : List Ref
  instances : Map Ref Interface.Instance
  tree : RojoTree D
  reflected : Nat

structure ServeSession (D : Type) where
  tree : RojoTree D
  queue : MessageQueue QueuedPatch
  /-- Every patch applied so far. -/
  history : List (Application D)
  /-- The batches that are applied but not pushed. -/
  pending : List (List QueuedPatch)
  /-- The cursors of the reads that have not yet copied the tree. -/
  reading : List UInt32
  reads : List (ServedRead D)

inductive SessionEvent (D : Type) where
  | apply (batch : List (Application D))
  | push (batch : List QueuedPatch) (now : Nat)
  | readCursor
  | readTree (cursor : UInt32) (requestedIds : List Ref)

namespace ServeSession

def new (tree : RojoTree D) : ServeSession D := ⟨tree, MessageQueue.new, [], [], [], []⟩

inductive Act : ServeSession D → SessionEvent D → ServeSession D → Prop
  /-- Lock the tree, apply patches, unlock. -/
  | apply (s : ServeSession D) (batch : List (Application D)) (tree : RojoTree D) :
      ApplyAll s.tree batch tree →
      Act s (.apply batch)
        { s with
          tree
          history := s.history ++ batch
          pending := recordsFrom s.history.length batch :: s.pending }
  | push (s : ServeSession D) (before after : List (List QueuedPatch)) (batch : List QueuedPatch)
      (now : Nat) : s.pending = before ++ batch :: after →
      Act s (.push batch now)
        { s with queue := s.queue.pushMessages batch now, pending := before ++ after }
  | readCursor (s : ServeSession D) :
      Act s .readCursor { s with reading := s.queue.cursor :: s.reading }
  | readTree (s : ServeSession D) (cursor : UInt32) (requestedIds : List Ref)
      (instances : Map Ref Interface.Instance) : cursor ∈ s.reading →
      Interface.readInstances s.tree requestedIds = some instances →
      Act s (.readTree cursor requestedIds)
        { s with
          reading := s.reading.erase cursor
          reads := ⟨cursor, requestedIds, instances, s.tree, s.history.length⟩ :: s.reads }

variable {s t : ServeSession D} {e : SessionEvent D} {initial tree tree' : RojoTree D}

omit [WeakDom D] [FloatCmp] in
theorem mem_recordsFrom {n : Nat} {batch : List (Application D)} {m : QueuedPatch} :
    m ∈ recordsFrom n batch ↔ ∃ i a, batch[i]? = some a ∧ m = ⟨n + i, a.applied⟩ ∧
      a.applied.isEmpty = false := by
  unfold recordsFrom
  rw [List.mem_filterMap]
  constructor
  · rintro ⟨⟨a, i⟩, hmem, h⟩
    obtain ⟨hle, ha⟩ := List.mem_zipIdx_iff_le_and_getElem?_sub.mp hmem
    dsimp only at h
    split_ifs at h with hempty
    refine ⟨i - n, a, ha, ?_, by simpa using hempty⟩
    rw [← Option.some.inj h, Nat.add_sub_cancel' hle]
  · rintro ⟨i, a, ha, rfl, hempty⟩
    refine ⟨⟨a, n + i⟩, List.mem_zipIdx_iff_le_and_getElem?_sub.mpr ⟨Nat.le_add_right n i, ?_⟩, ?_⟩
    · rw [Nat.add_sub_cancel_left]
      exact ha
    · dsimp only
      rw [hempty]
      rfl

/-! ### Reads -/

/-- What a read returned is what was asked for of the tree after the first `reflected` patches.
Every message below its cursor records one of them; a later patch that changed something is
recorded at or above the cursor, or will be when its batch is pushed. -/
structure ReadSound (initial : RojoTree D) (s : ServeSession D) (r : ServedRead D) : Prop where
  copy : ApplyAll initial (s.history.take r.reflected) r.tree
  served : Interface.readInstances r.tree r.requestedIds = some r.instances
  below : ∀ (i : Nat) m, s.queue.messages[i]? = some m → i < r.messageCursor.toNat →
    m.application < r.reflected
  later : ∀ (n : Nat) a, s.history[n]? = some a → a.applied.isEmpty = false → r.reflected ≤ n →
    (∃ i, r.messageCursor.toNat ≤ i ∧ s.queue.messages[i]? = some ⟨n, a.applied⟩) ∨
      ∃ batch ∈ s.pending, ⟨n, a.applied⟩ ∈ batch

/-- What a read remembers stays true. -/
structure ReadInv (initial : RojoTree D) (s : ServeSession D) (r : ServedRead D) : Prop where
  reflected_le : r.reflected ≤ s.history.length
  copy : ApplyAll initial (s.history.take r.reflected) r.tree
  served : Interface.readInstances r.tree r.requestedIds = some r.instances
  cursor_le : r.messageCursor.toNat ≤ s.queue.messages.length
  below : ∀ (i : Nat) m, s.queue.messages[i]? = some m → i < r.messageCursor.toNat →
    m.application < r.reflected

/-- The invariant: a message records a patch that is in the tree, and no record is lost. -/
structure Inv (initial : RojoTree D) (s : ServeSession D) : Prop where
  tree : ApplyAll initial s.history s.tree
  numbered : ∀ m ∈ s.queue.messages, m.application < s.history.length
  pendingNumbered : ∀ batch ∈ s.pending, ∀ m ∈ batch, m.application < s.history.length
  kept : ∀ (n : Nat) a, s.history[n]? = some a → a.applied.isEmpty = false →
    ⟨n, a.applied⟩ ∈ s.queue.messages ∨ ∃ batch ∈ s.pending, ⟨n, a.applied⟩ ∈ batch
  reading : ∀ cursor ∈ s.reading, cursor.toNat ≤ s.queue.messages.length
  reads : ∀ r ∈ s.reads, ReadInv initial s r

theorem inv_new : Inv initial (new initial) where
  tree := .nil initial
  numbered _ h := (List.not_mem_nil h).elim
  pendingNumbered _ h := (List.not_mem_nil h).elim
  kept _ _ h := nomatch h
  reading _ h := (List.not_mem_nil h).elim
  reads _ h := (List.not_mem_nil h).elim

theorem Inv.apply (h : Inv initial s) {batch : List (Application D)}
    (happly : ApplyAll s.tree batch tree) :
    Inv initial
      { s with
        tree
        history := s.history ++ batch
        pending := recordsFrom s.history.length batch :: s.pending } := by
  have hlength : s.history.length ≤ (s.history ++ batch).length := by
    rw [List.length_append]
    omega
  refine
    { tree := h.tree.append happly
      numbered := fun m hm => (h.numbered m hm).trans_le hlength
      pendingNumbered := fun records hrecords m hm => ?_
      kept := fun n a ha hempty => ?_
      reading := h.reading
      reads := fun r hr => ?_ }
  · rcases List.mem_cons.mp hrecords with rfl | hrecords
    · obtain ⟨i, a, ha, rfl, -⟩ := mem_recordsFrom.mp hm
      obtain ⟨hi, -⟩ := List.getElem?_eq_some_iff.mp ha
      show s.history.length + i < (s.history ++ batch).length
      rw [List.length_append]
      omega
    · exact (h.pendingNumbered records hrecords m hm).trans_le hlength
  · by_cases hn : n < s.history.length
    · rw [List.getElem?_append_left hn] at ha
      rcases h.kept n a ha hempty with hm | ⟨records, hrecords, hm⟩
      · exact Or.inl hm
      · exact Or.inr ⟨records, List.mem_cons_of_mem _ hrecords, hm⟩
    · rw [List.getElem?_append_right (Nat.le_of_not_lt hn)] at ha
      refine Or.inr ⟨_, List.mem_cons_self, mem_recordsFrom.mpr ⟨_, a, ha, ?_, hempty⟩⟩
      rw [Nat.add_sub_cancel' (Nat.le_of_not_lt hn)]
  · have hread := h.reads r hr
    refine ⟨hread.reflected_le.trans hlength, ?_, hread.served, hread.cursor_le, hread.below⟩
    show ApplyAll initial ((s.history ++ batch).take r.reflected) r.tree
    rw [List.take_append_of_le_length hread.reflected_le]
    exact hread.copy

theorem Inv.push (h : Inv initial s) {before after : List (List QueuedPatch)}
    {batch : List QueuedPatch} {now : Nat} (hpending : s.pending = before ++ batch :: after) :
    Inv initial
      { s with queue := s.queue.pushMessages batch now, pending := before ++ after } := by
  have hlength : s.queue.messages.length ≤ (s.queue.messages ++ batch).length := by
    rw [List.length_append]
    omega
  have hmem : ∀ records, records ∈ s.pending ↔ records = batch ∨ records ∈ before ++ after := by
    intro records
    rw [hpending]
    simp only [List.mem_append, List.mem_cons]
    exact or_left_comm
  refine
    { tree := h.tree
      numbered := fun m hm => ?_
      pendingNumbered := fun records hrecords => h.pendingNumbered records
        ((hmem records).mpr (Or.inr hrecords))
      kept := fun n a ha hempty => ?_
      reading := fun cursor hcursor => (h.reading cursor hcursor).trans hlength
      reads := fun r hr => ?_ }
  · rcases List.mem_append.mp hm with hm | hm
    · exact h.numbered m hm
    · exact h.pendingNumbered batch ((hmem batch).mpr (Or.inl rfl)) m hm
  · rcases h.kept n a ha hempty with hm | ⟨records, hrecords, hm⟩
    · exact Or.inl (List.mem_append_left _ hm)
    · rcases (hmem records).mp hrecords with rfl | hrecords
      · exact Or.inl (List.mem_append_right _ hm)
      · exact Or.inr ⟨records, hrecords, hm⟩
  · have hread := h.reads r hr
    refine ⟨hread.reflected_le, hread.copy, hread.served, hread.cursor_le.trans hlength,
      fun i m hm hi => ?_⟩
    -- the messages below the cursor are old ones
    refine hread.below i m ?_ hi
    rw [← hm]
    exact (List.getElem?_append_left (hi.trans_le hread.cursor_le)).symm

theorem Inv.readTree (h : Inv initial s) {cursor : UInt32} {requestedIds : List Ref}
    {instances : Map Ref Interface.Instance} (hcursor : cursor ∈ s.reading)
    (hinstances : Interface.readInstances s.tree requestedIds = some instances) :
    Inv initial
      { s with
        reading := s.reading.erase cursor
        reads := ⟨cursor, requestedIds, instances, s.tree, s.history.length⟩ :: s.reads } := by
  refine
    { tree := h.tree
      numbered := h.numbered
      pendingNumbered := h.pendingNumbered
      kept := h.kept
      reading := fun c hc => h.reading c (List.mem_of_mem_erase hc)
      reads := fun r hr => ?_ }
  rcases List.mem_cons.mp hr with rfl | hr
  · refine ⟨Nat.le_refl _, ?_, hinstances, h.reading cursor hcursor, fun i m hm _ => ?_⟩
    · show ApplyAll initial (s.history.take s.history.length) s.tree
      rw [List.take_length]
      exact h.tree
    · exact h.numbered m (List.mem_of_getElem? hm)
  · have hread := h.reads r hr
    exact ⟨hread.reflected_le, hread.copy, hread.served, hread.cursor_le, hread.below⟩

theorem Inv.act (h : Inv initial s) (hst : Act s e t) : Inv initial t := by
  cases hst with
  | apply batch tree happly => exact h.apply happly
  | push before after batch now hpending => exact h.push hpending
  | readCursor =>
    refine { h with
      reading := fun cursor hcursor => ?_
      reads := fun r hr =>
        ⟨(h.reads r hr).reflected_le, (h.reads r hr).copy, (h.reads r hr).served,
          (h.reads r hr).cursor_le, (h.reads r hr).below⟩ }
    rcases List.mem_cons.mp hcursor with rfl | hcursor
    · exact toNat_cursor_le s.queue.messages
    · exact h.reading cursor hcursor
  | readTree cursor requestedIds instances hcursor hinstances =>
    exact h.readTree hcursor hinstances

theorem Inv.readSound (h : Inv initial s) {r : ServedRead D} (hr : r ∈ s.reads) :
    ReadSound initial s r := by
  have hread := h.reads r hr
  refine ⟨hread.copy, hread.served, hread.below, fun n a ha hempty hn => ?_⟩
  rcases h.kept n a ha hempty with hm | hm
  · obtain ⟨i, hi⟩ := List.mem_iff_getElem?.mp hm
    refine Or.inl ⟨i, ?_, hi⟩
    by_contra hlt
    have hbelow := hread.below i _ hi (Nat.lt_of_not_le hlt)
    dsimp only at hbelow
    omega
  · exact Or.inr hm

/-- **A read loses no update**, in any interleaving. -/
theorem readSound_of_run {run : List (SessionEvent D × ServeSession D)}
    (hrun : Run Act (new initial) run) : ∀ x ∈ run, ∀ r ∈ x.2.reads, ReadSound initial x.2 r :=
  fun x hx _ hr => (hrun.invariant (fun _ _ _ h hst => h.act hst) inv_new x hx).readSound hr

/-! ### Messages -/

/-- Every message that a subscription can ask for can be delivered. -/
def AllDeliverable (s : ServeSession D) : Prop :=
  ∀ cursor : UInt32, ∀ m ∈ s.queue.messages.drop cursor.toNat, Deliverable s.tree m.patch

/-- The condition on a step: no patch removes an instance that a message needs, whether the message
is in the queue, waits to be pushed or records an earlier patch of the batch. -/
def Spares (s : ServeSession D) : SessionEvent D → Prop
  | .apply batch =>
    (∀ a ∈ batch, ∀ x, Below a.tree a.patch.removedInstances x →
      (∀ m ∈ s.queue.messages, ¬ Needed m.patch x) ∧
        ∀ records ∈ s.pending, ∀ m ∈ records, ¬ Needed m.patch x) ∧
    batch.Pairwise fun a b => ∀ x, Below b.tree b.patch.removedInstances x → ¬ Needed a.applied x
  | _ => True

/-- What the messages need is in the tree. -/
structure Supplied (s : ServeSession D) : Prop where
  inv : RojoTree.Inv s.tree
  queued : ∀ m ∈ s.queue.messages, ∀ x, Needed m.patch x → Present s.tree x
  pending : ∀ records ∈ s.pending, ∀ m ∈ records, ∀ x, Needed m.patch x → Present s.tree x

variable [LawfulWeakDom D]

theorem Supplied.act (h : s.Supplied) (hst : When Act Spares s e t) : t.Supplied := by
  obtain ⟨hact, hok⟩ := hst
  cases hact with
  | apply batch tree happly =>
    obtain ⟨hinv, hold, hnew⟩ := happly.supplied h.inv
      (fun x => (∃ m ∈ s.queue.messages, Needed m.patch x) ∨
        ∃ records ∈ s.pending, ∃ m ∈ records, Needed m.patch x)
      (fun x hx => by
        rcases hx with ⟨m, hm, hx⟩ | ⟨records, hrecords, m, hm, hx⟩
        · exact h.queued m hm x hx
        · exact h.pending records hrecords m hm x hx)
      (fun a ha x hbelow hx => by
        obtain ⟨hqueued, hpending⟩ := hok.1 a ha x hbelow
        rcases hx with ⟨m, hm, hx⟩ | ⟨records, hrecords, m, hm, hx⟩
        · exact hqueued m hm hx
        · exact hpending records hrecords m hm hx) hok.2
    refine ⟨hinv, fun m hm x hx => hold x (Or.inl ⟨m, hm, hx⟩), fun records hrecords m hm x hx => ?_⟩
    rcases List.mem_cons.mp hrecords with rfl | hrecords
    · obtain ⟨i, a, ha, rfl, -⟩ := mem_recordsFrom.mp hm
      exact hnew a (List.mem_of_getElem? ha) x hx
    · exact hold x (Or.inr ⟨records, hrecords, m, hm, hx⟩)
  | push before after batch now hpending =>
    have hmem : ∀ records, records = batch ∨ records ∈ before ++ after → records ∈ s.pending := by
      intro records hrecords
      rw [hpending]
      simp only [List.mem_append, List.mem_cons] at hrecords ⊢
      exact or_left_comm.mp hrecords
    refine ⟨h.inv, fun m hm x hx => ?_, fun records hrecords => h.pending records
      (hmem records (Or.inr hrecords))⟩
    rcases List.mem_append.mp hm with hm | hm
    · exact h.queued m hm x hx
    · exact h.pending batch (hmem batch (Or.inl rfl)) m hm x hx
  | readCursor => exact ⟨h.inv, h.queued, h.pending⟩
  | readTree cursor requestedIds instances hcursor hinstances =>
    exact ⟨h.inv, h.queued, h.pending⟩

omit [FloatCmp] in
theorem Supplied.allDeliverable (h : s.Supplied) : s.AllDeliverable :=
  fun _ m hm => (deliverable_iff h.inv).mpr (h.queued m (List.mem_of_mem_drop hm))

omit [FloatCmp] [LawfulWeakDom D] in
theorem supplied_new (h : RojoTree.Inv initial) : (new initial).Supplied :=
  ⟨h, fun _ hm => absurd hm List.not_mem_nil, fun _ hm => absurd hm List.not_mem_nil⟩

/-- **In a run in which no patch removes what a message needs, every message can be delivered at
every time.** -/
theorem allDeliverable_of_spares (h : RojoTree.Inv initial)
    {run : List (SessionEvent D × ServeSession D)}
    (hrun : Run (When Act Spares) (new initial) run) : ∀ x ∈ run, x.2.AllDeliverable :=
  fun x hx =>
    (hrun.invariant (fun _ _ _ h hst => h.act hst) (supplied_new h) x hx).allDeliverable

/-! ### Two sessions -/

/-- The tree after the child was replaced by another one. -/
def otherTree : RojoTree MapDom := ((applyPatchSet oneChildTree otherPatch).get rfl).1

def otherApplied : AppliedPatchSet := ((applyPatchSet oneChildTree otherPatch).get rfl).2

/-- The other child is removed again. -/
def dropOther : PatchSet := { PatchSet.new with removedInstances := [Ref.some 101] }

def droppedTree : RojoTree MapDom := ((applyPatchSet otherTree dropOther).get rfl).1

def droppedApplied : AppliedPatchSet := ((applyPatchSet otherTree dropOther).get rfl).2

omit [FloatCmp] in
theorem applyAll_other : letI : FloatCmp := FloatCmp.exact
    ApplyAll oneChildTree [⟨oneChildTree, otherPatch, otherApplied⟩] otherTree := by
  let _ : FloatCmp := FloatCmp.exact
  have hcompute : (computePatchSet (some otherChild) oneChildTree rootId).isSome := by rfl
  have happly : (applyPatchSet oneChildTree otherPatch).isSome := by rfl
  exact .cons (.computed (Option.some_get hcompute).symm) (Option.some_get happly).symm (.nil _)

omit [FloatCmp] in
theorem applyAll_dropOther : letI : FloatCmp := FloatCmp.exact
    ApplyAll otherTree [⟨otherTree, dropOther, droppedApplied⟩] droppedTree := by
  let _ : FloatCmp := FloatCmp.exact
  have happly : (applyPatchSet otherTree dropOther).isSome := by rfl
  exact .cons (.missing _) (Option.some_get happly).symm (.nil _)

omit [FloatCmp] in
/-- A read of the root, whose copy of the tree has a patch that its cursor does not: the other
child is in the copy. -/
theorem readSound_other : letI : FloatCmp := FloatCmp.exact
    ∃ (run : List (SessionEvent MapDom × ServeSession MapDom)) (s : ServeSession MapDom),
      Run Act (new oneChildTree) (run ++ [(.readTree 0 [rootId], s)]) ∧
      s.reads.map (fun r => (r.messageCursor, r.reflected,
        (r.instances.lookup (Ref.some 101)).map (·.name))) = [(0, 1, some "New")] ∧
      ∀ r ∈ s.reads, ReadSound oneChildTree s r := by
  let _ : FloatCmp := FloatCmp.exact
  have hread : (Interface.readInstances otherTree [rootId]).isSome := by rfl
  have hname : (((Interface.readInstances otherTree [rootId]).get hread).lookup
      (Ref.some 101)).map (·.name) = some "New" := by rfl
  have hrun : ∃ (run : List (SessionEvent MapDom × ServeSession MapDom))
      (s : ServeSession MapDom), Run Act (new oneChildTree) (run ++ [(.readTree 0 [rootId], s)]) ∧
        s.reads.map (fun r => (r.messageCursor, r.reflected,
          (r.instances.lookup (Ref.some 101)).map (·.name))) = [(0, 1, some "New")] :=
    ⟨[_, _, _], _,
      .cons (.readCursor _) <|
      .cons (.apply _ _ _ applyAll_other) <|
      .cons (.push _ [] [] _ 7 rfl) <|
      .cons (.readTree _ 0 [rootId] _ List.mem_cons_self (Option.some_get hread).symm) <| .nil _,
      congrArg (fun name => [((0 : UInt32), 1, name)]) hname⟩
  obtain ⟨run, s, hrun, hread⟩ := hrun
  exact ⟨run, s, hrun, hread,
    readSound_of_run hrun _ (List.mem_append_right _ List.mem_cons_self)⟩

omit [FloatCmp] in
/-- A session in which the added child stays. -/
theorem allDeliverable_other : letI : FloatCmp := FloatCmp.exact
    ∃ run : List (SessionEvent MapDom × ServeSession MapDom), run.length = 2 ∧
      Run Act (new oneChildTree) run ∧ ∀ x ∈ run, x.2.AllDeliverable := by
  let _ : FloatCmp := FloatCmp.exact
  have hrun : ∃ run : List (SessionEvent MapDom × ServeSession MapDom), run.length = 2 ∧
      Run (When Act Spares) (new oneChildTree) run :=
    ⟨_, rfl,
      .cons ⟨.apply _ _ _ applyAll_other,
        ⟨fun _ _ _ _ => ⟨fun _ hm => absurd hm List.not_mem_nil,
          fun _ hrecords => absurd hrecords List.not_mem_nil⟩, List.pairwise_singleton _ _⟩⟩ <|
      .cons ⟨.push _ [] [] _ 7 rfl, trivial⟩ <| .nil _⟩
  obtain ⟨run, hlength, hrun⟩ := hrun
  have hinv : RojoTree.Inv oneChildTree := Inv.new (Option.some_get _).symm
  exact ⟨run, hlength, hrun.of_when, allDeliverable_of_spares hinv hrun⟩

omit [FloatCmp] in
/-- The added child is removed before the message that added it is delivered. -/
theorem not_allDeliverable : letI : FloatCmp := FloatCmp.exact
    ¬ ∀ run : List (SessionEvent MapDom × ServeSession MapDom),
      Run Act (new oneChildTree) run → ∀ x ∈ run, x.2.AllDeliverable := by
  let _ : FloatCmp := FloatCmp.exact
  intro hall
  have hrun : ∃ (run : List (SessionEvent MapDom × ServeSession MapDom))
      (s : ServeSession MapDom), Run Act (new oneChildTree)
        (run ++ [(.apply [⟨otherTree, dropOther, droppedApplied⟩], s)]) ∧
      s.tree = droppedTree ∧ s.queue.messages.map QueuedPatch.patch = [otherApplied] :=
    ⟨[_, _], _,
      .cons (.apply _ _ _ applyAll_other) <|
      .cons (.push _ [] [] _ 7 rfl) <|
      .cons (.apply _ _ _ applyAll_dropOther) <| .nil _, rfl, rfl⟩
  obtain ⟨run, s, hrun, htree, hmessages⟩ := hrun
  have hmem : otherApplied ∈ s.queue.messages.map QueuedPatch.patch := by
    rw [hmessages]
    exact List.mem_cons_self
  obtain ⟨m, hm, heq⟩ := List.mem_map.mp hmem
  have hdeliverable := hall _ hrun _ (List.mem_append_right _ List.mem_cons_self) 0 m hm
  rw [heq] at hdeliverable
  have hmessage := hdeliverable.1
  dsimp only at hmessage
  rw [htree] at hmessage
  exact absurd hmessage (by decide)

end ServeSession

end Roxo
