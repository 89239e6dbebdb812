import Roxo.Library.AssocMap
import Roxo.Library.Transition

/-!
# The clients of a serve session

`ClientRegistry` is what the server knows of its clients: an entry is made by a handshake, marked
by a websocket subscription, pruned when it was never subscribed, and removed when a subscription
ends. `Sockets` is the registry with the tasks that hold a subscription, and `Act` what can
happen to them.

The registry tells the truth (`Truthful`) if it counts a subscribed client exactly if a
subscription is open. This holds all along a run exactly if every event meets `Keeps`
(`truthful_iff`): a subscription opened under an id that is not listed, and one of two
subscriptions of the same id being closed, break it.
-/

namespace Roxo

open AssocMap Transition

abbrev ClientId := UInt64

/-- What a client told about itself, and what the server observed. -/
structure ClientInfo where
  id : ClientId
  placeId : Option UInt64
  gameId : Option UInt64
  clientName : String
  clientVersion : Option String
  autoConnected : Bool
  matchReason : Option String
  remoteAddr : String
  /-- Seconds since the epoch. -/
  connectedAt : Nat
  lastSeen : Nat
  /-- Whether the client holds an open subscription. -/
  subscribed : Bool

/-- Details that a client provides when it connects. -/
structure ClientHandshake where
  placeId : Option UInt64 := none
  gameId : Option UInt64 := none
  clientName : Option String := none
  clientVersion : Option String := none
  autoConnected : Bool := false
  matchReason : Option String := none

structure ClientRegistry where
  clients : Map ClientId ClientInfo
  nextId : ClientId

namespace ClientRegistry

def new : ClientRegistry := ⟨∅, 0⟩

def unsubscribedTtlSecs : Nat := 60

/-- Forgets the clients that never subscribed and were not seen for a while. -/
def pruneStale (registry : ClientRegistry) (now : Nat) : ClientRegistry :=
  { registry with
    clients := retain
      (fun _ client => client.subscribed || now - client.lastSeen < unsubscribedTtlSecs)
      registry.clients }

/-- Records a handshake and returns the id assigned to it. -/
def handshake (registry : ClientRegistry) (handshake : ClientHandshake) (remoteAddr : String)
    (now : Nat) : ClientId × ClientRegistry :=
  let registry := registry.pruneStale now
  let id := registry.nextId
  let info : ClientInfo :=
    { id
      placeId := handshake.placeId
      gameId := handshake.gameId
      clientName := handshake.clientName.getD "unknown"
      clientVersion := handshake.clientVersion
      autoConnected := handshake.autoConnected
      matchReason := handshake.matchReason
      remoteAddr
      connectedAt := now
      lastSeen := now
      subscribed := false }
  -- `fetch_add` wraps around
  (id, { clients := registry.clients.insert id info, nextId := id + 1 })

/-- Marks a client that is listed. -/
def setSubscribed (registry : ClientRegistry) (id : ClientId) (subscribed : Bool) (now : Nat) :
    ClientRegistry :=
  match registry.clients.lookup id with
  | some client =>
    { registry with
      clients := registry.clients.insert id { client with subscribed, lastSeen := now } }
  | none => registry

def remove (registry : ClientRegistry) (id : ClientId) : ClientRegistry :=
  { registry with clients := registry.clients.erase id }

/-- The number of clients with a live subscription. -/
def subscribedCount (registry : ClientRegistry) : Nat :=
  (registry.clients.entries.filter fun e => e.2.subscribed).length

/-- A client is listed as subscribed. -/
def Subscribed (registry : ClientRegistry) (id : ClientId) : Prop :=
  ∃ client, registry.clients.lookup id = some client ∧ client.subscribed = true

theorem subscribedCount_pos {registry : ClientRegistry} :
    0 < registry.subscribedCount ↔ ∃ id, registry.Subscribed id := by
  unfold subscribedCount
  rw [List.length_pos_iff_exists_mem]
  constructor
  · rintro ⟨⟨id, client⟩, h⟩
    obtain ⟨hmem, hsub⟩ := List.mem_filter.mp h
    exact ⟨id, client, AList.mem_lookup_iff.mpr hmem, hsub⟩
  · rintro ⟨id, client, hlookup, hsub⟩
    exact ⟨⟨id, client⟩, List.mem_filter.mpr ⟨AList.mem_lookup_iff.mp hlookup, hsub⟩⟩

/-- Subscribed clients are never pruned. -/
@[simp] theorem subscribed_pruneStale {registry : ClientRegistry} {now : Nat} {id : ClientId} :
    (registry.pruneStale now).Subscribed id ↔ registry.Subscribed id := by
  unfold Subscribed pruneStale
  simp only [lookup_retain, Option.filter_eq_some_iff]
  constructor
  · rintro ⟨client, ⟨h, -⟩, hsub⟩
    exact ⟨client, h, hsub⟩
  · rintro ⟨client, h, hsub⟩
    exact ⟨client, ⟨h, by rw [hsub, Bool.true_or]⟩, hsub⟩

@[simp] theorem nextId_pruneStale {registry : ClientRegistry} {now : Nat} :
    (registry.pruneStale now).nextId = registry.nextId := rfl

@[simp] theorem handshake_fst {registry : ClientRegistry} {h : ClientHandshake} {addr : String}
    {now : Nat} : (registry.handshake h addr now).1 = registry.nextId := rfl

/-- A handshake takes the subscription from the id that it hands out. -/
@[simp] theorem subscribed_handshake {registry : ClientRegistry} {h : ClientHandshake}
    {addr : String} {now : Nat} {id : ClientId} :
    (registry.handshake h addr now).2.Subscribed id ↔
      id ≠ registry.nextId ∧ registry.Subscribed id := by
  have hprune : (registry.pruneStale now).Subscribed id ↔ registry.Subscribed id :=
    subscribed_pruneStale
  rw [← hprune]
  unfold Subscribed handshake
  simp only [lookup_insert_eq, nextId_pruneStale]
  by_cases hid : id = registry.nextId
  · simp [hid]
  · simp [hid]

@[simp] theorem subscribed_setSubscribed {registry : ClientRegistry} {id id' : ClientId}
    {now : Nat} :
    (registry.setSubscribed id true now).Subscribed id' ↔
      registry.Subscribed id' ∨ id' = id ∧ id ∈ registry.clients := by
  unfold Subscribed setSubscribed
  cases h : registry.clients.lookup id with
  | none =>
    have hid := AList.lookup_eq_none.mp h
    simp only [hid, and_false, or_false]
  | some client =>
    have hid : id ∈ registry.clients := AList.lookup_isSome.mp (by rw [h]; rfl)
    simp only [lookup_insert_eq, hid, and_true]
    by_cases heq : id' = id
    · simp [heq]
    · simp [heq]

@[simp] theorem subscribed_remove {registry : ClientRegistry} {id id' : ClientId} :
    (registry.remove id).Subscribed id' ↔ id' ≠ id ∧ registry.Subscribed id' := by
  unfold Subscribed remove
  simp only [lookup_erase_eq]
  by_cases heq : id' = id
  · simp [heq]
  · simp [heq]

end ClientRegistry

/-- The registry and the tasks around it. -/
structure Sockets where
  registry : ClientRegistry
  /-- The ids of the tasks that wait for the upgrade of their connection. -/
  upgrading : List ClientId
  /-- The ids of the tasks that hold a `SubscriptionGuard`. -/
  subscriptions : List ClientId

/-- What happens to the clients. `now` is what the clock says, which may go back. -/
inductive SocketEvent where
  /-- A client other than a discovery probe asks for the server information. -/
  | handshake (handshake : ClientHandshake) (remoteAddr : String) (now : Nat)
  /-- A websocket is asked for, with the `clientId` of the query. -/
  | socket (queryClientId : Option ClientId) (remoteAddr : String) (now : Nat)
  /-- The upgrade of a task is complete: it makes its guard. -/
  | subscribe (id : ClientId) (now : Nat)
  /-- The upgrade of a task fails. -/
  | abandon (id : ClientId)
  /-- The task of a subscription ends and drops its guard. -/
  | close (id : ClientId)
  | pruneStale (now : Nat)

namespace Sockets

def new : Sockets := ⟨ClientRegistry.new, [], []⟩

/-- The handshake made for a socket without a client id. -/
def anonymous : ClientHandshake := { clientName := some "unknown" }

/-- A `handle_api_socket` request: the id of the task, and the registry. -/
def handleApiSocket (registry : ClientRegistry) (queryClientId : Option ClientId)
    (remoteAddr : String) (now : Nat) : ClientId × ClientRegistry :=
  match queryClientId with
  | some id => (id, registry)
  | none => registry.handshake anonymous remoteAddr now

/-- The events. -/
inductive Act : Sockets → SocketEvent → Sockets → Prop
  | handshake (s : Sockets) (h : ClientHandshake) (addr : String) (now : Nat) :
      Act s (.handshake h addr now) { s with registry := (s.registry.handshake h addr now).2 }
  | socket (s : Sockets) (query : Option ClientId) (addr : String) (now : Nat) :
      Act s (.socket query addr now)
        { s with
          registry := (handleApiSocket s.registry query addr now).2
          upgrading := (handleApiSocket s.registry query addr now).1 :: s.upgrading }
  | subscribe (s : Sockets) (id : ClientId) (now : Nat) : id ∈ s.upgrading →
      Act s (.subscribe id now)
        { registry := s.registry.setSubscribed id true now
          upgrading := s.upgrading.erase id
          subscriptions := id :: s.subscriptions }
  | abandon (s : Sockets) (id : ClientId) : id ∈ s.upgrading →
      Act s (.abandon id) { s with upgrading := s.upgrading.erase id }
  | close (s : Sockets) (id : ClientId) : id ∈ s.subscriptions →
      Act s (.close id)
        { s with
          registry := s.registry.remove id
          subscriptions := s.subscriptions.erase id }
  | pruneStale (s : Sockets) (now : Nat) :
      Act s (.pruneStale now) { s with registry := s.registry.pruneStale now }

/-- The registry tells the truth about the subscriptions. -/
def Truthful (s : Sockets) : Prop :=
  (0 < s.registry.subscribedCount ↔ s.subscriptions ≠ []) ∧
    ∀ id ∈ s.subscriptions, s.registry.Subscribed id

/-- The condition on an event: no handshake gets the id of an open subscription (the counter would
have to come round), a subscription is opened under an id that is listed, and closed when no other
one has its id. -/
def Keeps (s : Sockets) : SocketEvent → Prop
  | .handshake _ _ _ | .socket none _ _ => s.registry.nextId ∉ s.subscriptions
  | .subscribe id _ => id ∈ s.registry.clients
  | .close id => id ∉ s.subscriptions.erase id
  | .socket (some _) _ _ | .abandon _ | .pruneStale _ => True

instance (s : Sockets) : DecidablePred s.Keeps
  | .handshake _ _ _ | .socket none _ _ =>
    inferInstanceAs (Decidable (s.registry.nextId ∉ s.subscriptions))
  | .subscribe id _ => inferInstanceAs (Decidable (id ∈ s.registry.clients))
  | .close id => inferInstanceAs (Decidable (id ∉ s.subscriptions.erase id))
  | .socket (some _) _ _ | .abandon _ | .pruneStale _ => inferInstanceAs (Decidable True)

/-- Who is listed as subscribed has an open subscription. This holds in every run. -/
def Backed (s : Sockets) : Prop := ∀ id, s.registry.Subscribed id → id ∈ s.subscriptions

variable {s t : Sockets} {e : SocketEvent}

theorem Backed.act (h : s.Backed) (hst : Act s e t) : t.Backed := by
  intro id hid
  cases hst with
  | handshake h' addr now => exact h id (ClientRegistry.subscribed_handshake.mp hid).2
  | socket query addr now =>
    cases query with
    | none => exact h id (ClientRegistry.subscribed_handshake.mp hid).2
    | some id' => exact h id hid
  | subscribe id' now hmem =>
    rcases ClientRegistry.subscribed_setSubscribed.mp hid with hid | ⟨rfl, -⟩
    · exact List.mem_cons_of_mem _ (h id hid)
    · exact List.mem_cons_self
  | abandon id' hmem => exact h id hid
  | close id' hmem =>
    obtain ⟨hne, hid⟩ := ClientRegistry.subscribed_remove.mp hid
    exact (List.mem_erase_of_ne hne).mpr (h id hid)
  | pruneStale now => exact h id (ClientRegistry.subscribed_pruneStale.mp hid)

/-- Where the subscribed clients have subscriptions, only the other direction is open. -/
theorem Backed.truthful_iff_subscribed (h : s.Backed) :
    s.Truthful ↔ ∀ id ∈ s.subscriptions, s.registry.Subscribed id := by
  refine ⟨And.right, fun hall => ⟨?_, hall⟩⟩
  rw [ClientRegistry.subscribedCount_pos]
  constructor
  · rintro ⟨id, hid⟩
    exact List.ne_nil_of_mem (h id hid)
  · intro hne
    obtain ⟨id, hid⟩ := List.exists_mem_of_ne_nil _ hne
    exact ⟨id, hall id hid⟩

/-- Handing out an id keeps the truth unless a subscription has the id. -/
theorem handshake_keeps {addr : String} {h : ClientHandshake} {now : Nat}
    (hs : ∀ id ∈ s.subscriptions, s.registry.Subscribed id) :
    (∀ id ∈ s.subscriptions, (s.registry.handshake h addr now).2.Subscribed id) ↔
      s.registry.nextId ∉ s.subscriptions := by
  constructor
  · intro hall hmem
    exact (ClientRegistry.subscribed_handshake.mp (hall _ hmem)).1 rfl
  · intro hnot id hid
    refine ClientRegistry.subscribed_handshake.mpr ⟨?_, hs id hid⟩
    rintro rfl
    exact hnot hid

theorem Truthful.act_iff (hb : s.Backed) (hs : s.Truthful) (hst : Act s e t) :
    t.Truthful ↔ s.Keeps e := by
  rw [(hb.act hst).truthful_iff_subscribed]
  have hs := hs.2
  cases hst with
  | handshake h addr now => exact handshake_keeps hs
  | socket query addr now =>
    cases query with
    | none => exact handshake_keeps hs
    | some id => exact iff_true_intro hs
  | subscribe id now hmem =>
    constructor
    · intro hall
      rcases ClientRegistry.subscribed_setSubscribed.mp (hall id List.mem_cons_self) with h | h
      · obtain ⟨client, hclient, -⟩ := h
        exact AList.lookup_isSome.mp (by rw [hclient]; rfl)
      · exact h.2
    · intro hlisted id' hid'
      apply ClientRegistry.subscribed_setSubscribed.mpr
      rcases List.mem_cons.mp hid' with rfl | hid'
      · exact Or.inr ⟨rfl, hlisted⟩
      · exact Or.inl (hs id' hid')
  | abandon id hmem => exact iff_true_intro hs
  | close id hmem =>
    constructor
    · intro hall hid
      exact (ClientRegistry.subscribed_remove.mp (hall id hid)).1 rfl
    · intro hnot id' hid'
      refine ClientRegistry.subscribed_remove.mpr ⟨?_, hs id' (List.mem_of_mem_erase hid')⟩
      rintro rfl
      exact hnot hid'
  | pruneStale now =>
    exact iff_true_intro fun id hid => ClientRegistry.subscribed_pruneStale.mpr (hs id hid)

theorem not_subscribed_new {id : ClientId} : ¬ ClientRegistry.new.Subscribed id := by
  rintro ⟨client, h, -⟩
  cases h

theorem backed_new : new.Backed := fun _ h => absurd h not_subscribed_new

theorem truthful_new : new.Truthful :=
  backed_new.truthful_iff_subscribed.mpr fun _ h => absurd h List.not_mem_nil

/-- **The registry tells the truth all along a run if and only if every event of the run meets the
condition.** -/
theorem truthful_iff {run : List (SocketEvent × Sockets)} (hrun : Run Act new run) :
    (∀ x ∈ run, x.2.Truthful) ↔ Run (When Act Keeps) new run :=
  hrun.forall_iff (fun _ _ _ hb hst => hb.act hst) (fun _ _ _ hb hs hst => hs.act_iff hb hst)
    backed_new truthful_new

/-- A client that handshakes, subscribes and leaves. -/
theorem truthful_visit : ∃ run : List (SocketEvent × Sockets),
    run.length = 4 ∧ Run Act new run ∧ ∀ x ∈ run, x.2.Truthful := by
  have hrun : ∃ run, run.length = 4 ∧ Run (When Act Keeps) new run :=
    ⟨_, rfl,
      .cons ⟨.handshake new {} "127.0.0.1:1" 5, List.not_mem_nil⟩ <|
      .cons ⟨.socket _ (some 0) "127.0.0.1:1" 6, trivial⟩ <|
      .cons ⟨.subscribe _ 0 7 List.mem_cons_self, by decide⟩ <|
      .cons ⟨.close _ 0 List.mem_cons_self, by decide⟩ <| .nil _⟩
  obtain ⟨run, hlength, hrun⟩ := hrun
  exact ⟨run, hlength, hrun.of_when, (truthful_iff hrun.of_when).mpr hrun⟩

/-- A client opens a second subscription under its id, and the first one ends. -/
theorem not_truthful_reconnect :
    ¬ ∀ run : List (SocketEvent × Sockets), Run Act new run → ∀ x ∈ run, x.2.Truthful := by
  intro hall
  have hrun : ∃ (run : List (SocketEvent × Sockets)) (t : Sockets),
      Run Act new (run ++ [(.close 0, t)]) ∧ t.subscriptions = [0] ∧ t.registry.clients = ∅ :=
    ⟨[_, _, _, _, _], _,
      .cons (.handshake new {} "127.0.0.1:1" 5) <|
      .cons (.socket _ (some 0) "127.0.0.1:1" 6) <|
      .cons (.subscribe _ 0 7 List.mem_cons_self) <|
      .cons (.socket _ (some 0) "127.0.0.1:2" 8) <|
      .cons (.subscribe _ 0 9 List.mem_cons_self) <|
      .cons (.close _ 0 List.mem_cons_self) <| .nil _, by decide, rfl⟩
  obtain ⟨run, t, hrun, hsubscriptions, hclients⟩ := hrun
  obtain ⟨client, h, -⟩ :=
    (hall _ hrun _ (List.mem_append_right _ List.mem_cons_self)).2 0 (by rw [hsubscriptions]; decide)
  rw [hclients] at h
  cases h

end Sockets

end Roxo
