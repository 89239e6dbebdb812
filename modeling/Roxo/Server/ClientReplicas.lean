import Roxo.Server.SentReplica
import Roxo.Server.Subscription

/-!
# Clients that keep a replica

A client reads the tree and then subscribes from the cursor of the read. The copy may be ahead of
the cursor, and a message is made of the tree of the time at which it is sent, which may be ahead
of what the message records. `SyncSession` is a serve session with any number of such clients.

Only the thread of the change processor applies patches, and it pushes what it applied before it
applies more. A client that has caught up with the queue then has the tree of now
(`replica_eq_of_run`), whatever the interleaving, if the patches replay.
-/

namespace Roxo

open AssocMap WeakDom RojoTree Forest Replica Transition MessageQueue Interface

variable {D : Type} [WeakDom D] [FloatCmp]

/-- What is recorded of a patch replays faithfully, and all of it is sent. -/
structure Application.Replays (application : Application D) : Prop where
  replay : ∀ tree' applied,
    applyPatchSet application.tree application.patch = some (tree', applied) →
    replay (replicaOf application.tree) (replicaOf tree') applied = replicaOf tree'
  sent : ∀ u ∈ application.applied.updated, ∀ k v,
    u.changedProperties.lookup k = some v → propertyFilter v = true

/-- A client with the cursor of its subscription. -/
structure ReplicaClient where
  messageCursor : UInt32
  replica : Store Ref ReplicaInstance

structure SyncSession (D : Type) where
  session : ServeSession D
  clients : List ReplicaClient

inductive SyncEvent (D : Type) where
  | server (e : SessionEvent D)
  /-- A read copies the tree; the client starts from what it gets. -/
  | connect (cursor : UInt32) (requestedIds : List Ref)
  | receive (client : Nat)

namespace SyncSession

def new (tree : RojoTree D) : SyncSession D := ⟨ServeSession.new tree, []⟩

inductive Act : SyncSession D → SyncEvent D → SyncSession D → Prop
  | server (s : SyncSession D) (e : SessionEvent D) (session : ServeSession D) :
      ServeSession.Act s.session e session → Act s (.server e) { s with session }
  | connect (s : SyncSession D) (cursor : UInt32) (requestedIds : List Ref)
      (instances : Map Ref Interface.Instance) : cursor ∈ s.session.reading →
      readInstances s.session.tree requestedIds = some instances →
      Act s (.connect cursor requestedIds)
        { session := { s.session with reading := s.session.reading.erase cursor }
          clients := s.clients ++ [⟨cursor, fun y => (instances.lookup y).map Instance.replica⟩] }
  /-- A subscription gets the messages that were there at some time since; they are made of the
  tree of now. -/
  | receive (s : SyncSession D) (i k : Nat) (client : ReplicaClient) (newCursor : UInt32)
      (batch : List QueuedPatch) (messages : List SubscribeMessage) :
      s.clients[i]? = some client →
      fireListenerIfReady (s.session.queue.messages.take k) ⟨i, client.messageCursor⟩ =
        some (newCursor, batch) →
      batch.mapM (fun m => SubscribeMessage.fromPatchUpdate s.session.tree m.patch) =
        some messages →
      Act s (.receive i)
        { s with
          clients := s.clients.set i
            ⟨newCursor, messages.foldl SubscribeMessage.play client.replica⟩ }

/-- The condition on a step: patches are applied when nothing waits to be pushed, and they replay;
a client reads the whole tree. -/
def Follows (s : SyncSession D) : SyncEvent D → Prop
  | .server (.apply batch) => s.session.pending = [] ∧ ∀ a ∈ batch, a.Replays
  | .connect _ requestedIds => ∀ y, Present s.session.tree y →
      ∃ id ∈ requestedIds, Desc (kids s.session.tree.inner) id y
  | _ => True

/-! ### The records -/

/-- The records of a session: those in the queue and those that wait to be pushed. -/
def log (session : ServeSession D) : List QueuedPatch :=
  session.queue.messages ++ session.pending.flatten

/-- The tree with the records of its patches. -/
abbrev LoggedTree (tree : RojoTree D) (log : List QueuedPatch) : Prop :=
  Logged ReplicaInstance.parent Ref.none InstanceUpdate.id InstanceUpdate.update (Issued tree.inner)
    (sentOf tree) (log.map fun m => m.patch.sentRecord)

/-- A replica of the tree that has the messages `pending` still to get. -/
abbrev LagsTree (tree : RojoTree D) (pending : List QueuedPatch)
    (replica : Store Ref ReplicaInstance) : Prop :=
  Lags ReplicaInstance.parent Ref.none InstanceUpdate.id InstanceUpdate.update (Issued tree.inner)
    (sentOf tree) (pending.map fun m => m.patch.sentRecord) replica

variable {s t : SyncSession D} {e : SyncEvent D} {initial tree tree' : RojoTree D}
  {session : ServeSession D}

omit [WeakDom D] [FloatCmp] in
theorem recordsFrom_cons (n : ℕ) (a : Application D) (batch : List (Application D)) :
    recordsFrom n (a :: batch) =
      (if a.applied.isEmpty then [] else [⟨n, a.applied⟩]) ++ recordsFrom (n + 1) batch := by
  unfold recordsFrom
  rw [List.zipIdx_cons, List.filterMap_cons]
  dsimp only
  split_ifs <;> rfl

omit [FloatCmp] in
theorem sentRecord_of_isEmpty {applied : AppliedPatchSet} (h : applied.isEmpty = true) :
    applied.sentRecord = ⟨[], [], []⟩ := by
  unfold AppliedPatchSet.isEmpty at h
  simp only [Bool.and_eq_true, List.isEmpty_iff] at h
  unfold AppliedPatchSet.sentRecord
  rw [h.1.1, h.1.2, h.2, List.map_nil]

variable [LawfulWeakDom D]

/-- A batch of patches continues the log, for the tree and for those that follow it. -/
theorem logged_applyAll {batch : List (Application D)} (h : ApplyAll tree batch tree')
    (hinv : RojoTree.Inv tree) (hreplays : ∀ a ∈ batch, a.Replays) {log : List QueuedPatch}
    (hlogged : LoggedTree tree log) (n : ℕ) :
    RojoTree.Inv tree' ∧ LoggedTree tree' (log ++ recordsFrom n batch) ∧
      ∀ pending replica, pending <:+ log → LagsTree tree pending replica →
        LagsTree tree' (pending ++ recordsFrom n batch) replica := by
  induction h generalizing log n with
  | nil tree =>
    have hnil : recordsFrom n ([] : List (Application D)) = [] := rfl
    rw [hnil]
    simp only [List.append_nil]
    exact ⟨hinv, hlogged, fun _ _ _ hlags => hlags⟩
  | @cons tree tree₁ tree' patch applied rest horigin happly _ ih =>
    obtain ⟨hfirst, hrest⟩ := List.forall_mem_cons.mp hreplays
    have hstep := Origin.step hinv horigin happly
      (play_sentRecord (hfirst.replay tree₁ applied happly) hfirst.sent)
    have hinv₁ := (Origin.leaves hinv horigin happly).inv
    rw [recordsFrom_cons]
    by_cases hempty : applied.isEmpty = true
    · rw [sentRecord_of_isEmpty hempty] at hstep
      have hsame := hstep.eq_of_empty
      have hlogged₁ : LoggedTree tree₁ log := by
        unfold LoggedTree
        rw [hsame]
        exact hlogged.mono hstep.grows
      obtain ⟨hinv', hlogged', hlags'⟩ := ih hinv₁ hrest hlogged₁ (n + 1)
      rw [if_pos hempty, List.nil_append]
      refine ⟨hinv', hlogged', fun pending replica hsuffix hlags => hlags' _ _ hsuffix ?_⟩
      unfold LagsTree
      rw [hsame]
      exact hlags.mono hstep.grows
    · have hlogged₁ : LoggedTree tree₁ (log ++ [⟨n, applied⟩]) := by
        unfold LoggedTree
        rw [List.map_append]
        exact hlogged.step overwrites_update hstep
      obtain ⟨hinv', hlogged', hlags'⟩ := ih hinv₁ hrest hlogged₁ (n + 1)
      rw [if_neg hempty, ← List.append_assoc]
      refine ⟨hinv', hlogged', fun pending replica hsuffix hlags => ?_⟩
      rw [← List.append_assoc]
      refine hlags' _ _ ?_ ?_
      · obtain ⟨before, rfl⟩ := hsuffix
        exact ⟨before, (List.append_assoc _ _ _).symm⟩
      · unfold LagsTree
        rw [List.map_append]
        exact hlags.step overwrites_update (hlogged.of_suffix (hsuffix.map _)) hstep

omit [FloatCmp] in
/-- A batch of messages is played in its order. -/
theorem lags_foldl_play (hinv : RojoTree.Inv tree) {batch rest : List QueuedPatch}
    {messages : List SubscribeMessage} {replica : Store Ref ReplicaInstance}
    (hmessages : batch.mapM (fun m => SubscribeMessage.fromPatchUpdate tree m.patch) =
      some messages)
    (hlogged : LoggedTree tree (batch ++ rest)) (h : LagsTree tree (batch ++ rest) replica) :
    LagsTree tree rest (messages.foldl SubscribeMessage.play replica) := by
  induction batch generalizing messages replica with
  | nil =>
    obtain rfl := Option.some.inj hmessages
    exact h
  | cons m batch ih =>
    rw [List.mapM_cons] at hmessages
    obtain ⟨message, hm, hmessages⟩ := Option.bind_eq_some_iff.mp hmessages
    obtain ⟨messages', hmessages', heq⟩ := Option.bind_eq_some_iff.mp hmessages
    obtain rfl := Option.some.inj heq
    rw [List.foldl_cons]
    refine ih hmessages' (hlogged.of_suffix (List.suffix_cons _ _)) ?_
    unfold LagsTree
    rw [play_fromPatchUpdate hinv hm]
    have hadded := (fromPatchUpdate_isSome hinv).mp (Option.isSome_of_eq_some hm)
    exact Lags.play overwrites_update hlogged h fun x hx => isSome_sentOf.mpr (hadded x hx)

omit [FloatCmp] [LawfulWeakDom D] in
/-- A batch whose messages can be made can be sent. -/
theorem exists_mapM_fromPatchUpdate {batch : List QueuedPatch}
    (h : ∀ m ∈ batch, (SubscribeMessage.fromPatchUpdate tree m.patch).isSome = true) :
    ∃ messages, batch.mapM (fun m => SubscribeMessage.fromPatchUpdate tree m.patch) =
      some messages := by
  induction batch with
  | nil => exact ⟨[], rfl⟩
  | cons m batch ih =>
    obtain ⟨hm, hbatch⟩ := List.forall_mem_cons.mp h
    obtain ⟨message, hm⟩ := Option.isSome_iff_exists.mp hm
    obtain ⟨messages, hmessages⟩ := ih hbatch
    exact ⟨message :: messages, by rw [List.mapM_cons, hm, hmessages]; rfl⟩

/-! ### Runs -/

/-- The invariant: every client has to get the records from its cursor on. -/
structure Inv (s : SyncSession D) : Prop where
  inv : RojoTree.Inv s.session.tree
  pending : s.session.pending.length ≤ 1
  logged : LoggedTree s.session.tree (log s.session)
  reading : ∀ cursor ∈ s.session.reading, cursor.toNat ≤ s.session.queue.messages.length
  cursors : ∀ client ∈ s.clients,
    client.messageCursor.toNat ≤ s.session.queue.messages.length
  lags : ∀ client ∈ s.clients,
    LagsTree s.session.tree ((log s.session).drop client.messageCursor.toNat) client.replica

omit [FloatCmp] in
theorem inv_new (h : RojoTree.Inv initial) : (new initial).Inv where
  inv := h
  pending := Nat.zero_le 1
  logged := .nil closed_sentOf fun _ _ => used_sentOf
  reading _ hcursor := absurd hcursor List.not_mem_nil
  cursors _ hclient := absurd hclient List.not_mem_nil
  lags _ hclient := absurd hclient List.not_mem_nil

omit [WeakDom D] [FloatCmp] [LawfulWeakDom D] in
/-- At most one batch waits to be pushed, so pushing keeps the log. -/
theorem log_push {before after : List (List QueuedPatch)} {batch : List QueuedPatch}
    (now : Nat) (hlength : session.pending.length ≤ 1)
    (hpending : session.pending = before ++ batch :: after) :
    log { session with queue := session.queue.pushMessages batch now, pending := before ++ after } =
      log session := by
  rw [hpending, List.length_append, List.length_cons] at hlength
  obtain rfl : before = [] := List.length_eq_zero_iff.mp (by omega)
  obtain rfl : after = [] := List.length_eq_zero_iff.mp (by omega)
  unfold log pushMessages
  rw [hpending]
  simp only [List.nil_append, List.flatten_nil, List.append_nil, List.flatten_cons]

theorem Inv.server (h : s.Inv) {e : SessionEvent D} (hact : ServeSession.Act s.session e session)
    (hok : Follows s (.server e)) : Inv { s with session } := by
  cases hact with
  | apply batch tree happly =>
    obtain ⟨hpending, hreplays⟩ := hok
    have hlog : log s.session = s.session.queue.messages := by
      unfold log
      rw [hpending, List.flatten_nil, List.append_nil]
    have hlog' : ∀ records, s.session.queue.messages ++ (records :: s.session.pending).flatten =
        s.session.queue.messages ++ records := fun records => by
      rw [hpending, List.flatten_cons, List.flatten_nil, List.append_nil]
    obtain ⟨hinv, hlogged, hlags⟩ :=
      logged_applyAll happly h.inv hreplays (hlog ▸ h.logged) s.session.history.length
    refine
      { inv := hinv
        pending := by
          rw [hpending]
          exact le_rfl
        logged := by
          unfold log
          rw [hlog']
          exact hlogged
        reading := h.reading
        cursors := h.cursors
        lags := fun client hclient => ?_ }
    unfold log
    rw [hlog', List.drop_append_of_le_length (h.cursors client hclient)]
    exact hlags _ _ (List.drop_suffix _ _) (hlog ▸ h.lags client hclient)
  | push before after batch now hpending =>
    have hlog := log_push now h.pending hpending
    have hlength : s.session.queue.messages.length ≤
        (s.session.queue.messages ++ batch).length := by
      rw [List.length_append]
      omega
    refine
      { inv := h.inv
        pending := ?_
        logged := by
          rw [hlog]
          exact h.logged
        reading := fun cursor hcursor => (h.reading cursor hcursor).trans hlength
        cursors := fun client hclient => (h.cursors client hclient).trans hlength
        lags := fun client hclient => by
          rw [hlog]
          exact h.lags client hclient }
    have hone := h.pending
    rw [hpending, List.length_append, List.length_cons] at hone
    show (before ++ after).length ≤ 1
    rw [List.length_append]
    omega
  | readCursor =>
    refine { h with reading := fun cursor hcursor => ?_ }
    rcases List.mem_cons.mp hcursor with rfl | hcursor
    · exact toNat_cursor_le s.session.queue.messages
    · exact h.reading cursor hcursor
  | readTree cursor requestedIds instances hcursor hinstances =>
    exact { h with reading := fun c hc => h.reading c (List.mem_of_mem_erase hc) }

theorem Inv.act (h : s.Inv) (hst : When Act Follows s e t)
    (hlength : s.session.queue.messages.length < UInt32.size) : t.Inv := by
  obtain ⟨hact, hok⟩ := hst
  cases hact with
  | server e session hact => exact h.server hact hok
  | connect cursor requestedIds instances hcursor hread =>
    have hle := h.reading cursor hcursor
    have hcopy := lookup_readInstances h.inv hread hok
    refine
      { inv := h.inv
        pending := h.pending
        logged := h.logged
        reading := fun c hc => h.reading c (List.mem_of_mem_erase hc)
        cursors := fun client hclient => ?_
        lags := fun client hclient => ?_ }
    · rcases List.mem_append.mp hclient with hclient | hclient
      · exact h.cursors client hclient
      · rw [List.mem_singleton.mp hclient]
        exact hle
    · rcases List.mem_append.mp hclient with hclient | hclient
      · exact h.lags client hclient
      · -- the copy has every record already, those from the cursor on among them
        rw [List.mem_singleton.mp hclient]
        dsimp only
        rw [hcopy]
        exact Lags.refl (h.logged.of_suffix ((List.drop_suffix _ _).map _))
  | receive i k client newCursor batch messages hclient hfire hmessages =>
    have hmem := List.mem_of_getElem? hclient
    obtain ⟨hlt, rfl, rfl⟩ := fireListenerIfReady_eq_some hfire
    have hk : (s.session.queue.messages.take k).length ≤ s.session.queue.messages.length := by
      rw [List.length_take]
      exact Nat.min_le_right _ _
    have hcursor := toNat_cursor (hk.trans_lt hlength)
    have hsplit : (log s.session).drop client.messageCursor.toNat =
        (s.session.queue.messages.take k).drop client.messageCursor.toNat ++
          (log s.session).drop (s.session.queue.messages.take k).length := by
      rw [UInt32.lt_iff_toNat_lt, hcursor] at hlt
      have htake : log s.session = s.session.queue.messages.take k ++
          (log s.session).drop (s.session.queue.messages.take k).length := by
        unfold log
        rw [List.drop_append_of_le_length hk, ← List.append_assoc]
        congr 1
        have hdrop : s.session.queue.messages.drop (s.session.queue.messages.take k).length =
            s.session.queue.messages.drop k := by
          rw [List.drop_eq_drop_iff, List.length_take]
          omega
        rw [hdrop, List.take_append_drop]
      nth_rewrite 1 [htake]
      rw [List.drop_append_of_le_length hlt.le]
    have hlags := h.lags client hmem
    rw [hsplit] at hlags
    refine
      { h with
        cursors := fun c hc => ?_
        lags := fun c hc => ?_ }
    · rcases List.mem_or_eq_of_mem_set hc with hc | rfl
      · exact h.cursors c hc
      · dsimp only
        rw [hcursor]
        exact hk
    · rcases List.mem_or_eq_of_mem_set hc with hc | rfl
      · exact h.lags c hc
      · dsimp only
        rw [hcursor]
        refine lags_foldl_play h.inv hmessages (h.logged.of_suffix ?_) hlags
        rw [← hsplit]
        exact (List.drop_suffix _ _).map _

omit [LawfulWeakDom D] in
theorem length_le_of_act (hact : Act s e t) :
    s.session.queue.messages.length ≤ t.session.queue.messages.length := by
  cases hact with
  | server e session hact =>
    cases hact with
    | push before after batch now hpending =>
      show _ ≤ (s.session.queue.messages ++ batch).length
      rw [List.length_append]
      omega
    | _ => exact le_rfl
  | _ => exact le_rfl

omit [FloatCmp] [LawfulWeakDom D] in
/-- What a client has once its cursor is that of the queue. -/
theorem Inv.replica_eq (h : s.Inv) (hlength : s.session.queue.messages.length < UInt32.size)
    (hpending : s.session.pending = []) {client : ReplicaClient} (hclient : client ∈ s.clients)
    (hcursor : client.messageCursor = s.session.queue.cursor) :
    client.replica = sentOf s.session.tree := by
  have hlags := h.lags client hclient
  have hnone : (log s.session).drop client.messageCursor.toNat = [] := by
    rw [hcursor]
    unfold log MessageQueue.cursor
    rw [hpending, List.flatten_nil, List.append_nil, toNat_cursor hlength, List.drop_length]
  rw [hnone] at hlags
  exact Lags.eq hlags

/-- **A client that has caught up has the tree of now.** Whatever the order in which patches are
applied and pushed, trees are read and messages are delivered, a client whose cursor is that of the
queue has a replica of the tree once nothing waits to be pushed. -/
theorem replica_eq_of_run (h : RojoTree.Inv initial)
    {run : List (SyncEvent D × SyncSession D)} (hrun : Run (When Act Follows) (new initial) run) :
    ∀ x ∈ run, x.2.session.queue.messages.length < UInt32.size → x.2.session.pending = [] →
      ∀ client ∈ x.2.clients, client.messageCursor = x.2.session.queue.cursor →
        client.replica = sentOf x.2.session.tree := by
  intro x hx hlength hpending client hclient hcursor
  have hinv : x.2.session.queue.messages.length < UInt32.size → x.2.Inv := by
    refine hrun.invariant (P := fun s => s.session.queue.messages.length < UInt32.size → s.Inv) ?_
      (fun _ => inv_new h) x hx
    intro s e t hs hst hlength
    have hbefore := (length_le_of_act hst.1).trans_lt hlength
    exact (hs hbefore).act hst hbefore
  exact (hinv hlength).replica_eq hlength hpending hclient hcursor

/-- The condition on a step: besides, no patch removes what a message needs. -/
def FollowsSparing (s : SyncSession D) (e : SyncEvent D) : Prop :=
  Follows s e ∧ ∀ event, e = .server event → s.session.Spares event

theorem inv_of_sparing (h : RojoTree.Inv initial) {run : List (SyncEvent D × SyncSession D)}
    (hrun : Run (When Act FollowsSparing) (new initial) run) :
    ∀ x ∈ run, x.2.session.queue.messages.length < UInt32.size →
      x.2.Inv ∧ x.2.session.Supplied := by
  refine hrun.invariant (P := fun s => s.session.queue.messages.length < UInt32.size →
    s.Inv ∧ s.session.Supplied) ?_ fun _ => ⟨inv_new h, ServeSession.supplied_new h⟩
  intro s e t hs hst hlength
  obtain ⟨hact, hfollows, hspares⟩ := hst
  have hbefore := (length_le_of_act hact).trans_lt hlength
  obtain ⟨hinv, hsupplied⟩ := hs hbefore
  refine ⟨hinv.act ⟨hact, hfollows⟩ hbefore, ?_⟩
  cases hact with
  | server e session hact => exact hsupplied.act ⟨hact, hspares e rfl⟩
  | connect => exact ⟨hsupplied.inv, hsupplied.queued, hsupplied.pending⟩
  | receive => exact hsupplied

/-- **A client can always catch up.** If besides no patch removes what a message needs, then
whenever nothing waits to be pushed a client has the tree of now or gets it with one more batch. -/
theorem catches_up_of_run (h : RojoTree.Inv initial) {run : List (SyncEvent D × SyncSession D)}
    (hrun : Run (When Act FollowsSparing) (new initial) run) :
    ∀ x ∈ run, x.2.session.queue.messages.length < UInt32.size → x.2.session.pending = [] →
      ∀ i client, x.2.clients[i]? = some client →
        client.replica = sentOf x.2.session.tree ∨
          ∃ t, Act x.2 (.receive i) t ∧ t.session = x.2.session ∧
            (t.clients[i]?).map ReplicaClient.replica = some (sentOf x.2.session.tree) := by
  intro x hx hlength hpending i client hclient
  obtain ⟨hinv, hsupplied⟩ := inv_of_sparing h hrun x hx hlength
  have hmem := List.mem_of_getElem? hclient
  by_cases hcursor : client.messageCursor = x.2.session.queue.cursor
  · exact Or.inl (hinv.replica_eq hlength hpending hmem hcursor)
  have hlt : client.messageCursor < UInt32.ofNat x.2.session.queue.messages.length := by
    rw [UInt32.lt_iff_toNat_lt, toNat_cursor hlength]
    refine lt_of_le_of_ne (hinv.cursors client hmem) fun heq => hcursor ?_
    rw [← UInt32.toNat_inj]
    unfold MessageQueue.cursor
    rw [toNat_cursor hlength, heq]
  have hfire : fireListenerIfReady
      (x.2.session.queue.messages.take x.2.session.queue.messages.length)
      ⟨i, client.messageCursor⟩ = some (x.2.session.queue.cursor,
        x.2.session.queue.messages.drop client.messageCursor.toNat) := by
    rw [List.take_length]
    exact if_pos hlt
  obtain ⟨messages, hmessages⟩ := exists_mapM_fromPatchUpdate
    (fun m hm => (hsupplied.allDeliverable client.messageCursor m hm).1)
  refine Or.inr ⟨_, .receive x.2 i _ client _ _ messages hclient hfire hmessages, rfl, ?_⟩
  have hinv' := hinv.act
    ⟨.receive x.2 i _ client _ _ messages hclient hfire hmessages, trivial⟩ hlength
  obtain ⟨hi, -⟩ := List.getElem?_eq_some_iff.mp hclient
  have hset : (x.2.clients.set i ⟨x.2.session.queue.cursor,
      messages.foldl SubscribeMessage.play client.replica⟩)[i]? =
        some ⟨x.2.session.queue.cursor,
          messages.foldl SubscribeMessage.play client.replica⟩ := by
    rw [List.getElem?_set_self hi]
  rw [hset, Option.map_some]
  exact congrArg some (hinv'.replica_eq hlength hpending (List.mem_of_getElem? hset) rfl)

omit [FloatCmp] [LawfulWeakDom D] in
/-- A patch without updates replays. -/
theorem replays_otherPatch : letI : FloatCmp := FloatCmp.exact
    (⟨oneChildTree, otherPatch, ServeSession.otherApplied⟩ : Application MapDom).Replays := by
  let _ : FloatCmp := FloatCmp.exact
  have hinv : RojoTree.Inv oneChildTree := RojoTree.Inv.new (Option.some_get _).symm
  have hcompute : (computePatchSet (some otherChild) oneChildTree rootId).isSome := by rfl
  have hp : computePatchSet (some otherChild) oneChildTree rootId = some otherPatch :=
    (Option.some_get hcompute).symm
  have hupdates : otherPatch.updatedInstances = [] := by rfl
  have hrecorded : ServeSession.otherApplied.updated = [] := by rfl
  refine ⟨fun tree' applied happly => ?_, fun u hu => ?_⟩
  · have hok := hinv.patchOk hp happly
    obtain ⟨tops, created, ha⟩ := hinv.applied hok happly
    refine (replay_eq_iff hinv hok ha).mpr fun u hu => ?_
    rw [hupdates] at hu
    cases hu
  · rw [hrecorded] at hu
    cases hu

omit [FloatCmp] in
/-- In a tree that consists of a root and its children a read of the root is a read of all. -/
theorem desc_rootId (tree : RojoTree MapDom) (h : ∀ n ∈ tree.inner.nodes,
      rootId = Ref.some n.id ∨ Ref.some n.id ∈ kids tree.inner rootId) (y : Ref)
    (hy : Present tree y) : ∃ id ∈ [rootId], Desc (kids tree.inner) id y := by
  obtain ⟨i, hi⟩ := Option.isSome_iff_exists.mp hy
  obtain ⟨n, hn, rfl, -⟩ := (MapDom.lookupNode_eq_some tree.inner.sorted).mp hi
  refine ⟨rootId, List.mem_cons_self, ?_⟩
  rcases h n hn with heq | hkid
  · exact heq ▸ .refl
  · exact .single hkid

omit [FloatCmp] [LawfulWeakDom D] in
/-- A client whose copy has the patch already gets the message about it and has the tree. -/
theorem replica_eq_other : letI : FloatCmp := FloatCmp.exact
    ∃ (run : List (SyncEvent MapDom × SyncSession MapDom)) (s : SyncSession MapDom),
      Run (When Act Follows) (new oneChildTree) (run ++ [(.receive 0, s)]) ∧
      s.clients.length = 1 ∧ ∀ client ∈ s.clients, client.replica = sentOf s.session.tree := by
  let _ : FloatCmp := FloatCmp.exact
  have hinv : RojoTree.Inv oneChildTree := RojoTree.Inv.new (Option.some_get _).symm
  have hread : (readInstances ServeSession.otherTree [rootId]).isSome := by rfl
  have hmessages : ([⟨0, ServeSession.otherApplied⟩] : List QueuedPatch).mapM (fun m =>
    SubscribeMessage.fromPatchUpdate ServeSession.otherTree m.patch) |>.isSome := by rfl
  have hall := desc_rootId ServeSession.otherTree (by decide)
  have hrun : ∃ (run : List (SyncEvent MapDom × SyncSession MapDom)) (s : SyncSession MapDom),
      Run (When Act Follows) (new oneChildTree) (run ++ [(.receive 0, s)]) ∧
        s.session.queue.messages.length = 1 ∧ s.session.pending = [] ∧
        s.clients.map ReplicaClient.messageCursor = [1] :=
    ⟨[_, _, _, _], _,
      .cons ⟨.server _ _ _ (.readCursor _), trivial⟩ <|
      .cons ⟨.server _ _ _ (.apply _ _ _ ServeSession.applyAll_other),
        rfl, List.forall_mem_singleton.mpr replays_otherPatch⟩ <|
      .cons ⟨.server _ _ _ (.push _ [] [] _ 7 rfl), trivial⟩ <|
      .cons ⟨.connect _ 0 [rootId] _ List.mem_cons_self (Option.some_get hread).symm, hall⟩ <|
      .cons ⟨.receive _ 0 1 _ 1 _ _ rfl rfl (Option.some_get hmessages).symm, trivial⟩ <| .nil _,
      rfl, rfl, rfl⟩
  obtain ⟨run, s, hrun, hlength, hpending, hcursors⟩ := hrun
  refine ⟨run, s, hrun, ?_, fun client hclient => ?_⟩
  · rw [← List.length_map ReplicaClient.messageCursor, hcursors]
    rfl
  · refine replica_eq_of_run hinv hrun _ (List.mem_append_right _ List.mem_cons_self)
      (by rw [hlength]; decide) hpending client hclient ?_
    have hmem := List.mem_map_of_mem (f := ReplicaClient.messageCursor) hclient
    rw [hcursors] at hmem
    unfold MessageQueue.cursor
    rw [List.mem_singleton.mp hmem, hlength]
    rfl

omit [FloatCmp] [LawfulWeakDom D] in
/-- A client that has copied the tree before a patch can catch up after it. -/
theorem catches_up_other : letI : FloatCmp := FloatCmp.exact
    ∃ (run : List (SyncEvent MapDom × SyncSession MapDom)) (s : SyncSession MapDom)
      (client : ReplicaClient),
      Run (When Act FollowsSparing) (new oneChildTree)
        (run ++ [(.server (.push [⟨0, ServeSession.otherApplied⟩] 7), s)]) ∧
      s.clients[0]? = some client ∧ (client.replica = sentOf s.session.tree ∨
        ∃ t, Act s (.receive 0) t ∧ t.session = s.session ∧
          (t.clients[0]?).map ReplicaClient.replica = some (sentOf s.session.tree)) := by
  let _ : FloatCmp := FloatCmp.exact
  have hinv : RojoTree.Inv oneChildTree := RojoTree.Inv.new (Option.some_get _).symm
  have hread : (readInstances oneChildTree [rootId]).isSome := by rfl
  have hall := desc_rootId oneChildTree (by decide)
  have hrun : ∃ (run : List (SyncEvent MapDom × SyncSession MapDom)) (s : SyncSession MapDom)
      (client : ReplicaClient),
      Run (When Act FollowsSparing) (new oneChildTree)
        (run ++ [(.server (.push [⟨0, ServeSession.otherApplied⟩] 7), s)]) ∧
        s.session.queue.messages.length = 1 ∧ s.session.pending = [] ∧
        s.clients[0]? = some client :=
    ⟨[_, _, _], _, _,
      .cons ⟨.server _ _ _ (.readCursor _), trivial, fun _ h => by cases h; trivial⟩ <|
      .cons ⟨.connect _ 0 [rootId] _ List.mem_cons_self (Option.some_get hread).symm,
        ⟨hall, fun _ h => by cases h⟩⟩ <|
      .cons ⟨.server _ _ _ (.apply _ _ _ ServeSession.applyAll_other),
        ⟨rfl, List.forall_mem_singleton.mpr replays_otherPatch⟩, fun _ h => by
          cases h
          exact ⟨fun _ _ _ _ => ⟨fun _ hm => absurd hm List.not_mem_nil,
            fun _ hrecords => absurd hrecords List.not_mem_nil⟩, List.pairwise_singleton _ _⟩⟩ <|
      .cons ⟨.server _ _ _ (.push _ [] [] _ 7 rfl), trivial, fun _ h => by cases h; trivial⟩ <|
      .nil _, rfl, rfl, rfl⟩
  obtain ⟨run, s, client, hrun, hlength, hpending, hclient⟩ := hrun
  exact ⟨run, s, client, hrun, hclient, catches_up_of_run hinv hrun _
    (List.mem_append_right _ List.mem_cons_self) (by rw [hlength]; decide) hpending 0 client
    hclient⟩

end SyncSession

end Roxo
