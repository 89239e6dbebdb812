import Mathlib.Data.List.MinMax
import Roxo.Server.ClientRegistry

/-!
# The probes of a server

`ClientRegistry` also remembers which places looked at the server, and why they declined it. An
entry expires some time after the last probe or verdict of its place; one that has to make room for
another is that with the oldest probe, whatever its verdict. It is the stalest entry exactly if no
other one has been idle since that verdict (`forgetsStalest_iff`).
-/

namespace Roxo

open AssocMap Transition

/-- The reason of the plugin for not connecting to the server. -/
structure ProbeVerdict where
  outcome : String
  code : Option String
  reason : String
  conflictingPorts : List UInt16
  reportedAt : Nat

/-- A place that looked at the server. -/
structure ProbeInfo where
  placeId : Option UInt64
  gameId : Option UInt64
  clientVersion : Option String
  remoteAddr : String
  firstProbeAt : Nat
  lastProbeAt : Nat
  probeCount : UInt64
  /-- Why the place did not connect, if its plugin said. -/
  verdict : Option ProbeVerdict

/-- What the plugin sends to `/api/roxo/probe-report`. -/
structure ProbeReport where
  placeId : Option UInt64 := none
  gameId : Option UInt64 := none
  outcome : String
  code : Option String := none
  reason : String
  conflictingPorts : List UInt16 := []

abbrev ProbeKey := Option UInt64 × Option UInt64

abbrev ProbeTable := Map ProbeKey ProbeInfo

/-- Clips text that a client supplies. -/
def clip (text : String) (maxChars : Nat) : String := String.ofList (text.toList.take maxChars)

namespace ClientRegistry

def probeTtlSecs : Nat := 600

def maxProbes : Nat := 16

def maxReasonChars : Nat := 500

def maxFieldChars : Nat := 64

end ClientRegistry

namespace ProbeInfo

/-- The later of the last probe and the verdict. -/
def last (probe : ProbeInfo) : Nat :=
  match probe.verdict with
  | some verdict => max verdict.reportedAt probe.lastProbeAt
  | none => probe.lastProbeAt

/-- The entry has not expired. -/
def isFresh (probe : ProbeInfo) (now : Nat) : Bool :=
  now - probe.last < ClientRegistry.probeTtlSecs

def new (placeId gameId : Option UInt64) (now : Nat) : ProbeInfo where
  placeId := placeId
  gameId := gameId
  clientVersion := none
  remoteAddr := ""
  firstProbeAt := now
  lastProbeAt := now
  probeCount := 0
  verdict := none

end ProbeInfo

namespace ClientRegistry

def pruneProbes (probes : ProbeTable) (now : Nat) : ProbeTable :=
  retain (fun _ probe => probe.isFresh now) probes

/-- What is done to an entry through `probe_entry`. `order` are the entries that have not expired,
in the order in which the map is iterated over. -/
def probeEntry (probes : ProbeTable) (placeId gameId : Option UInt64) (now : Nat)
    (order : List (ProbeKey × ProbeInfo)) (f : ProbeInfo → ProbeInfo) : ProbeTable :=
  let probes := pruneProbes probes now
  let key := (placeId, gameId)
  let probes :=
    if key ∉ probes ∧ maxProbes ≤ probes.keys.length then
      match order.argmin (·.2.lastProbeAt) with
      | some oldest => probes.erase oldest.1
      | none => probes
    else probes
  probes.insert key (f ((probes.lookup key).getD (.new placeId gameId now)))

/-- Records a discovery probe. -/
def recordProbe (probes : ProbeTable) (handshake : ClientHandshake) (remoteAddr : String)
    (now : Nat) (order : List (ProbeKey × ProbeInfo)) : ProbeTable :=
  probeEntry probes handshake.placeId handshake.gameId now order fun entry =>
    { entry with
      lastProbeAt := now
      probeCount := entry.probeCount + 1
      remoteAddr := remoteAddr
      clientVersion :=
        match handshake.clientVersion with
        | some version => some (clip version maxFieldChars)
        | none => entry.clientVersion }

/-- Records why a place declined this server. -/
def recordProbeVerdict (probes : ProbeTable) (report : ProbeReport) (remoteAddr : String)
    (now : Nat) (order : List (ProbeKey × ProbeInfo)) : ProbeTable :=
  probeEntry probes report.placeId report.gameId now order fun entry =>
    { entry with
      remoteAddr := if entry.remoteAddr = "" then remoteAddr else entry.remoteAddr
      verdict := some
        { outcome := clip report.outcome maxFieldChars
          code := report.code.map (clip · maxFieldChars)
          reason := clip report.reason maxReasonChars
          conflictingPorts := report.conflictingPorts.take maxProbes
          reportedAt := now } }

/-- Recently seen probes, most recent first, with what is left of the table. -/
def recentProbes (probes : ProbeTable) (now : Nat) (order : List (ProbeKey × ProbeInfo)) :
    List ProbeInfo × ProbeTable :=
  ((order.map Prod.snd).mergeSort fun a b => b.lastProbeAt ≤ a.lastProbeAt, pruneProbes probes now)

end ClientRegistry

open ClientRegistry

/-! ## Runs -/

/-- The calls, each with its time and the order in which the map is iterated over. -/
inductive ProbeCall where
  | recordProbe (handshake : ClientHandshake) (remoteAddr : String)
  | recordProbeVerdict (report : ProbeReport) (remoteAddr : String)
  | recentProbes

structure ProbeEvent where
  call : ProbeCall
  now : Nat
  order : List (ProbeKey × ProbeInfo)

/-- The place that a call records something for. -/
def ProbeCall.key : ProbeCall → Option ProbeKey
  | .recordProbe handshake _ => some (handshake.placeId, handshake.gameId)
  | .recordProbeVerdict report _ => some (report.placeId, report.gameId)
  | .recentProbes => none

/-- How many probes a call counts. -/
def ProbeCall.counts : ProbeCall → UInt64
  | .recordProbe _ _ => 1
  | .recordProbeVerdict _ _ | .recentProbes => 0

/-- The table with the time of the last call, and all that has been recorded and when. -/
structure ProbeLog where
  probes : ProbeTable
  clock : Nat
  recorded : List (ProbeKey × Nat)

namespace ProbeLog

def new : ProbeLog := ⟨∅, 0, []⟩

def after (s : ProbeLog) (e : ProbeEvent) : ProbeLog where
  probes :=
    match e.call with
    | .recordProbe handshake remoteAddr =>
      recordProbe s.probes handshake remoteAddr e.now e.order
    | .recordProbeVerdict report remoteAddr =>
      recordProbeVerdict s.probes report remoteAddr e.now e.order
    | .recentProbes => (recentProbes s.probes e.now e.order).2
  clock := e.now
  recorded := (e.call.key.toList.map fun key => (key, e.now)) ++ s.recorded

/-- Time does not go back. -/
def Act (s : ProbeLog) (e : ProbeEvent) (t : ProbeLog) : Prop :=
  s.clock ≤ e.now ∧ e.order.Perm (toList (pruneProbes s.probes e.now)) ∧ t = s.after e

/-- After a call the table is bounded and has recent entries only, the place of the call is in it
with its history, and of the entries before none expires before one that had to make room. -/
structure ForgetsStalest (s : ProbeLog) (e : ProbeEvent) (t : ProbeLog) : Prop where
  bounded : t.probes.keys.length ≤ maxProbes
  recent : ∀ key ∈ t.probes, ∃ time, (key, time) ∈ t.recorded ∧ time ≤ t.clock ∧
    t.clock - time < probeTtlSecs
  own : ∀ key ∈ e.call.key, ∃ probe, t.probes.lookup key = some probe ∧
    ∀ before, s.probes.lookup key = some before → before.isFresh e.now = true →
      probe.firstProbeAt = before.firstProbeAt ∧
        probe.probeCount = before.probeCount + e.call.counts
  stalest : ∀ key evicted, s.probes.lookup key = some evicted → evicted.isFresh e.now = true →
    t.probes.lookup key = none → ∀ key' other, s.probes.lookup key' = some other →
      other.isFresh e.now = true → ∀ later, other.isFresh later = false →
        evicted.isFresh later = false

/-- When the table is full and the place is new, the entry with the oldest probe has no verdict that
is younger than all of another entry. -/
def OldestIsStalest (s : ProbeLog) (e : ProbeEvent) : Prop :=
  ∀ key ∈ e.call.key, key ∉ pruneProbes s.probes e.now →
    maxProbes ≤ (pruneProbes s.probes e.now).keys.length →
    ∀ oldest ∈ e.order.argmin (·.2.lastProbeAt), ∀ verdict ∈ oldest.2.verdict,
      ∀ other ∈ e.order, verdict.reportedAt ≤ other.2.last

end ProbeLog

/-! ## The entries of the table -/

section Keys

variable {K V : Type} [DecidableEq K] {m : Map K V} {k : K} {v : V}

theorem length_keys_erase (hk : k ∈ m) : (m.erase k).keys.length = m.keys.length - 1 := by
  rw [AList.keys_erase]
  exact List.length_erase_of_mem (AList.mem_keys.mp hk)

theorem length_keys_insert_le : (m.insert k v).keys.length ≤ m.keys.length + 1 := by
  rw [AList.keys_insert, List.length_cons]
  exact Nat.succ_le_succ List.erase_sublist.length_le

theorem length_keys_insert (hk : k ∈ m) : (m.insert k v).keys.length = m.keys.length := by
  have hmem := AList.mem_keys.mp hk
  rw [AList.keys_insert, List.length_cons, List.length_erase_of_mem hmem]
  exact Nat.succ_pred_eq_of_pos (List.length_pos_of_mem hmem)

end Keys

section Entries

variable {probes : ProbeTable} {probe : ProbeInfo} {key k : ProbeKey} {now later : Nat}
  {order : List (ProbeKey × ProbeInfo)} {f : ProbeInfo → ProbeInfo}

theorem ProbeInfo.isFresh_iff : probe.isFresh now = true ↔ now - probe.last < probeTtlSecs :=
  decide_eq_true_iff

theorem ProbeInfo.isFresh_eq_false : probe.isFresh now = false ↔
    probe.last + probeTtlSecs ≤ now := by
  rw [← Bool.not_eq_true, isFresh_iff]
  unfold probeTtlSecs
  omega

theorem ProbeInfo.lastProbeAt_le_last (probe : ProbeInfo) : probe.lastProbeAt ≤ probe.last := by
  unfold last
  split
  · exact Nat.le_max_right _ _
  · exact Nat.le_refl _

/-- One entry expires no later than another exactly if its place was active no later. -/
theorem ProbeInfo.expires_iff {evicted other : ProbeInfo} :
    (∀ later, other.isFresh later = false → evicted.isFresh later = false) ↔
      evicted.last ≤ other.last := by
  simp only [isFresh_eq_false]
  constructor
  · intro h
    exact Nat.le_of_add_le_add_right (h _ (Nat.le_refl _))
  · exact fun h later hother => (Nat.add_le_add_right h _).trans hother

theorem lookup_pruneProbes : (pruneProbes probes now).lookup k = some probe ↔
    probes.lookup k = some probe ∧ probe.isFresh now = true := by
  unfold pruneProbes
  rw [lookup_retain, Option.filter_eq_some_iff]

theorem length_pruneProbes_le : (pruneProbes probes now).keys.length ≤ probes.keys.length := by
  unfold pruneProbes AList.keys List.keys
  rw [List.length_map, List.length_map]
  exact (List.filter_sublist).length_le

/-- The entry has to make room for the place. -/
def Evicts (probes : ProbeTable) (key : ProbeKey) (order : List (ProbeKey × ProbeInfo))
    (k : ProbeKey) : Prop :=
  key ∉ probes ∧ maxProbes ≤ probes.keys.length ∧
    ∃ oldest ∈ order.argmin (·.2.lastProbeAt), oldest.1 = k

theorem Evicts.mem (horder : order.Perm (toList probes)) (h : Evicts probes key order k) :
    k ∈ probes := by
  obtain ⟨-, -, oldest, holdest, rfl⟩ := h
  have hmem := horder.subset (List.argmin_mem holdest)
  exact AList.lookup_isSome.mp (by rw [mem_toList.mp hmem]; rfl)

theorem exists_argmin (horder : order.Perm (toList probes))
    (hfull : maxProbes ≤ probes.keys.length) :
    ∃ oldest, order.argmin (·.2.lastProbeAt) = some oldest := by
  refine Option.ne_none_iff_exists'.mp fun hnone => ?_
  rw [List.argmin_eq_none.mp hnone] at horder
  have hlength : probes.keys.length = 0 := by
    unfold AList.keys List.keys
    rw [List.length_map]
    have hlength := horder.length_eq
    unfold toList at hlength
    rw [List.length_map] at hlength
    exact hlength.symm
  rw [hlength] at hfull
  exact absurd hfull (by decide)

open Classical in
/-- What is done to the entries of the table. -/
theorem lookup_probeEntry (horder : order.Perm (toList (pruneProbes probes now))) :
    (probeEntry probes key.1 key.2 now order f).lookup k =
      if k = key then
        some (f (((pruneProbes probes now).lookup key).getD (.new key.1 key.2 now)))
      else if Evicts (pruneProbes probes now) key order k then none
      else (pruneProbes probes now).lookup k := by
  unfold probeEntry
  dsimp only [Prod.mk.eta]
  rw [lookup_insert_eq]
  by_cases hfull : key ∉ pruneProbes probes now ∧
      maxProbes ≤ (pruneProbes probes now).keys.length
  · obtain ⟨oldest, holdest⟩ := exists_argmin horder hfull.2
    have hevicts : ∀ k', Evicts (pruneProbes probes now) key order k' ↔ k' = oldest.1 := by
      intro k'
      constructor
      · rintro ⟨-, -, oldest', holdest', rfl⟩
        rw [Option.mem_def, holdest] at holdest'
        rw [Option.some.inj holdest']
      · exact fun h => ⟨hfull.1, hfull.2, oldest, holdest, h.symm⟩
    have hne : key ≠ oldest.1 := fun h => hfull.1 (((hevicts _).mpr h).mem horder)
    simp only [if_pos hfull, holdest, lookup_erase_eq, if_neg hne, hevicts]
  · have hevicts : ∀ k', ¬ Evicts (pruneProbes probes now) key order k' :=
      fun k' h => hfull ⟨h.1, h.2.1⟩
    simp only [if_neg hfull, hevicts, if_false]

/-- There is always room for one more. -/
theorem length_probeEntry_le {placeId gameId : Option UInt64}
    (horder : order.Perm (toList (pruneProbes probes now)))
    (hbound : probes.keys.length ≤ maxProbes) :
    (probeEntry probes placeId gameId now order f).keys.length ≤ maxProbes := by
  have hpruned : (pruneProbes probes now).keys.length ≤ maxProbes :=
    length_pruneProbes_le.trans hbound
  unfold probeEntry
  dsimp only
  by_cases hfull : (placeId, gameId) ∉ pruneProbes probes now ∧
      maxProbes ≤ (pruneProbes probes now).keys.length
  · obtain ⟨oldest, holdest⟩ := exists_argmin horder hfull.2
    have herased := length_keys_erase (Evicts.mem horder ⟨hfull.1, hfull.2, oldest, holdest, rfl⟩)
    have hpos : 1 ≤ (pruneProbes probes now).keys.length := Nat.le_trans (by decide) hfull.2
    simp only [if_pos hfull, holdest]
    refine length_keys_insert_le.trans ?_
    omega
  · rw [if_neg hfull]
    by_cases hmem : (placeId, gameId) ∈ pruneProbes probes now
    · exact (length_keys_insert hmem).trans_le hpruned
    · exact length_keys_insert_le.trans (Nat.lt_of_not_le fun hle => hfull ⟨hmem, hle⟩)

end Entries

/-! ## One call -/

namespace ProbeLog

variable {s t : ProbeLog} {e : ProbeEvent} {key k : ProbeKey}

/-- What is known of the entries: each was last active when something was recorded for its place. -/
structure Recorded (s : ProbeLog) : Prop where
  bounded : s.probes.keys.length ≤ maxProbes
  active : ∀ k probe, s.probes.lookup k = some probe →
    (k, probe.last) ∈ s.recorded ∧ probe.last ≤ s.clock

theorem recorded_new : new.Recorded := ⟨Nat.zero_le _, fun k probe h => by cases h⟩

/-- What a call does to the entry of its place. -/
structure Records (call : ProbeCall) (now : Nat) (f : ProbeInfo → ProbeInfo) : Prop where
  firstProbeAt : ∀ entry, (f entry).firstProbeAt = entry.firstProbeAt
  probeCount : ∀ entry, (f entry).probeCount = entry.probeCount + call.counts
  last : ∀ entry, entry.last ≤ now → (f entry).last = now

theorem exists_records (hkey : e.call.key = some key) :
    ∃ f, Records e.call e.now f ∧
      (s.after e).probes = probeEntry s.probes key.1 key.2 e.now e.order f := by
  obtain ⟨call, now, order⟩ := e
  cases call with
  | recordProbe handshake remoteAddr =>
    obtain rfl := Option.some.inj hkey
    have heq : recordProbe s.probes handshake remoteAddr now order =
      probeEntry s.probes handshake.placeId handshake.gameId now order _ := rfl
    refine ⟨_, ?_, heq⟩
    refine ⟨fun _ => rfl, fun _ => rfl, fun entry hlast => ?_⟩
    unfold ProbeInfo.last at hlast ⊢
    cases hverdict : entry.verdict with
    | none => rfl
    | some verdict =>
      simp only [hverdict] at hlast ⊢
      omega
  | recordProbeVerdict report remoteAddr =>
    obtain rfl := Option.some.inj hkey
    have heq : recordProbeVerdict s.probes report remoteAddr now order =
      probeEntry s.probes report.placeId report.gameId now order _ := rfl
    refine ⟨_, ?_, heq⟩
    refine ⟨fun _ => rfl, fun entry => (UInt64.add_zero entry.probeCount).symm,
      fun entry hlast => ?_⟩
    exact Nat.max_eq_left (entry.lastProbeAt_le_last.trans hlast)
  | recentProbes => cases hkey

theorem probes_after_of_none (hkey : e.call.key = none) :
    (s.after e).probes = pruneProbes s.probes e.now := by
  obtain ⟨call, now, order⟩ := e
  cases call with
  | recordProbe handshake remoteAddr => cases hkey
  | recordProbeVerdict report remoteAddr => cases hkey
  | recentProbes => rfl

/-- The entry of the place of a call was active just now. -/
theorem own_after (hs : s.Recorded) (hst : Act s e t) (hkey : e.call.key = some key) :
    ∃ probe, t.probes.lookup key = some probe ∧ probe.last = e.now ∧
      ∀ before, s.probes.lookup key = some before → before.isFresh e.now = true →
        probe.firstProbeAt = before.firstProbeAt ∧
          probe.probeCount = before.probeCount + e.call.counts := by
  obtain ⟨hclock, horder, rfl⟩ := hst
  obtain ⟨f, hf, hprobes⟩ := exists_records (s := s) hkey
  refine ⟨_, by rw [hprobes, lookup_probeEntry horder, if_pos rfl], hf.last _ ?_, ?_⟩
  · cases hlookup : (pruneProbes s.probes e.now).lookup key with
    | none => exact Nat.le_refl _
    | some before => exact ((hs.active key before (lookup_pruneProbes.mp hlookup).1).2).trans hclock
  · intro before hbefore hfresh
    rw [lookup_pruneProbes.mpr ⟨hbefore, hfresh⟩, Option.getD_some]
    exact ⟨hf.firstProbeAt before, hf.probeCount before⟩

open Classical in
/-- The other entries stay unless they expire or make room. -/
theorem lookup_after (hst : Act s e t) (hk : e.call.key ≠ some k) :
    t.probes.lookup k =
      if ∃ key, e.call.key = some key ∧ Evicts (pruneProbes s.probes e.now) key e.order k then none
      else (pruneProbes s.probes e.now).lookup k := by
  obtain ⟨-, horder, rfl⟩ := hst
  cases hkey : e.call.key with
  | none =>
    rw [probes_after_of_none hkey, if_neg]
    rintro ⟨key, h, -⟩
    cases h
  | some key =>
    obtain ⟨f, -, hprobes⟩ := exists_records (s := s) hkey
    have hne : k ≠ key := fun h => hk (h ▸ hkey)
    rw [hprobes, lookup_probeEntry horder, if_neg hne]
    simp only [Option.some.injEq, exists_eq_left']

theorem length_after_le (hs : s.Recorded) (hst : Act s e t) :
    t.probes.keys.length ≤ maxProbes := by
  obtain ⟨-, horder, rfl⟩ := hst
  cases hkey : e.call.key with
  | none =>
    rw [probes_after_of_none hkey]
    exact length_pruneProbes_le.trans hs.bounded
  | some key =>
    obtain ⟨f, -, hprobes⟩ := exists_records (s := s) hkey
    rw [hprobes]
    exact length_probeEntry_le horder hs.bounded

/-- An entry that is not that of the place was there before and has not expired. -/
theorem entry_after (hs : s.Recorded) (hst : Act s e t) {probe : ProbeInfo}
    (h : t.probes.lookup k = some probe) :
    (k, probe.last) ∈ t.recorded ∧ probe.last ≤ t.clock ∧ probe.isFresh t.clock = true := by
  by_cases hk : e.call.key = some k
  · obtain ⟨own, hown, hlast, -⟩ := own_after hs hst hk
    obtain rfl := Option.some.inj (h.symm.trans hown)
    obtain ⟨-, -, rfl⟩ := hst
    refine ⟨List.mem_append_left _ ?_, hlast.le, ?_⟩
    · rw [hk, hlast]
      exact List.mem_singleton_self _
    · rw [ProbeInfo.isFresh_iff, hlast]
      exact (Nat.sub_self e.now).trans_lt (by decide)
  · rw [lookup_after hst hk] at h
    split_ifs at h
    obtain ⟨hbefore, hfresh⟩ := lookup_pruneProbes.mp h
    obtain ⟨hmem, hle⟩ := hs.active k probe hbefore
    obtain ⟨hclock, -, rfl⟩ := hst
    exact ⟨List.mem_append_right _ hmem, hle.trans hclock, hfresh⟩

theorem Recorded.act (hs : s.Recorded) (hst : Act s e t) : t.Recorded :=
  ⟨length_after_le hs hst, fun _ _ h =>
    ⟨(entry_after hs hst h).1, (entry_after hs hst h).2.1⟩⟩

/-- An entry makes room in the order of expiry exactly if its verdict does not make it younger than
another. -/
theorem evicted_le_iff {oldest : ProbeKey × ProbeInfo}
    (h : oldest ∈ e.order.argmin (·.2.lastProbeAt)) :
    (∀ other ∈ e.order, oldest.2.last ≤ other.2.last) ↔
      ∀ verdict ∈ oldest.2.verdict, ∀ other ∈ e.order, verdict.reportedAt ≤ other.2.last := by
  have hprobe : ∀ other ∈ e.order, oldest.2.lastProbeAt ≤ other.2.last := fun other hother =>
    (List.le_of_mem_argmin hother h).trans other.2.lastProbeAt_le_last
  unfold ProbeInfo.last at hprobe ⊢
  cases hverdict : oldest.2.verdict with
  | none => exact iff_of_true hprobe nofun
  | some verdict =>
    simp only [Option.mem_def, Option.some.injEq, forall_eq', Nat.max_le]
    exact ⟨fun hall other hother => (hall other hother).1,
      fun hall other hother => ⟨hall other hother, hprobe other hother⟩⟩

theorem Recorded.act_forgetsStalest_iff (hs : s.Recorded) (hst : Act s e t) :
    ForgetsStalest s e t ↔ OldestIsStalest s e := by
  have horder := hst.2.1
  constructor
  · intro h key hkey hnew hfull oldest holdest
    refine (evicted_le_iff holdest).mp fun other hother => ?_
    obtain ⟨hevicted, hfresh⟩ :=
      lookup_pruneProbes.mp (mem_toList.mp (horder.subset (List.argmin_mem holdest)))
    obtain ⟨hother, hotherFresh⟩ := lookup_pruneProbes.mp (mem_toList.mp (horder.subset hother))
    have hevicts : Evicts (pruneProbes s.probes e.now) key e.order oldest.1 :=
      ⟨hnew, hfull, oldest, holdest, rfl⟩
    have hne : e.call.key ≠ some oldest.1 := fun heq =>
      hnew (Option.some.inj (hkey.symm.trans heq) ▸ hevicts.mem horder)
    have hgone : t.probes.lookup oldest.1 = none := by
      rw [lookup_after hst hne, if_pos ⟨key, hkey, hevicts⟩]
    exact ProbeInfo.expires_iff.mp
      (h.stalest oldest.1 oldest.2 hevicted hfresh hgone other.1 other.2 hother hotherFresh)
  · intro h
    refine ⟨length_after_le hs hst, fun k hk => ?_, fun key hkey => ?_, ?_⟩
    · obtain ⟨probe, hprobe⟩ := Option.isSome_iff_exists.mp (AList.lookup_isSome.mpr hk)
      obtain ⟨hmem, hle, hfresh⟩ := entry_after hs hst hprobe
      exact ⟨probe.last, hmem, hle, ProbeInfo.isFresh_iff.mp hfresh⟩
    · obtain ⟨probe, hprobe, -, hown⟩ := own_after hs hst hkey
      exact ⟨probe, hprobe, hown⟩
    · intro k evicted hevicted hfresh hgone k' other hother hotherFresh
      have hk : e.call.key ≠ some k := by
        intro hk
        obtain ⟨probe, hprobe, -⟩ := own_after hs hst hk
        rw [hgone] at hprobe
        cases hprobe
      have hin := lookup_pruneProbes.mpr ⟨hevicted, hfresh⟩
      rw [lookup_after hst hk, hin] at hgone
      split_ifs at hgone with hevicts
      obtain ⟨key, hkey, hnew, hfull, oldest, holdest, rfl⟩ := hevicts
      have hmem := mem_toList.mp (horder.subset (List.argmin_mem holdest))
      have heq := (lookup_pruneProbes.mp hmem).1
      obtain rfl := Option.some.inj (hevicted.symm.trans heq)
      have hmem : (k', other) ∈ e.order :=
        horder.mem_iff.mpr (mem_toList.mpr (lookup_pruneProbes.mpr ⟨hother, hotherFresh⟩))
      exact ProbeInfo.expires_iff.mpr
        ((evicted_le_iff holdest).mpr (h key hkey hnew hfull oldest holdest) _ hmem)

/-- **In every step of a run the table forgets the stalest place first, exactly if whenever it is
full and a place is new, no entry was idle since the verdict of the one with the oldest probe.** -/
theorem forgetsStalest_iff {run : List (ProbeEvent × ProbeLog)} (hrun : Run Act new run) :
    Run (fun s e t => Act s e t ∧ ForgetsStalest s e t) new run ↔
      Run (When Act OldestIsStalest) new run :=
  hrun.steps_iff (fun _ _ _ hs hst _ => hs.act hst)
    (fun _ _ _ hs hst => hs.act_forgetsStalest_iff hst) recorded_new

/-! ## A place that has just reported -/

/-- A run of calls at given times. -/
def probeRun (s : ProbeLog) : List (ProbeCall × Nat) → List (ProbeEvent × ProbeLog)
  | [] => []
  | (call, now) :: calls =>
    let e : ProbeEvent := ⟨call, now, toList (pruneProbes s.probes now)⟩
    (e, s.after e) :: probeRun (s.after e) calls

/-- The times do not go back, and all calls meet a condition. -/
def checks (ok : ProbeLog → ProbeEvent → Bool) (s : ProbeLog) : List (ProbeCall × Nat) → Bool
  | [] => true
  | (call, now) :: calls =>
    let e : ProbeEvent := ⟨call, now, toList (pruneProbes s.probes now)⟩
    s.clock ≤ now && ok s e && checks ok (s.after e) calls

theorem run_probeRun {ok : ProbeLog → ProbeEvent → Bool} {calls : List (ProbeCall × Nat)}
    (h : checks ok s calls = true) :
    Run (When Act fun s e => ok s e = true) s (probeRun s calls) := by
  induction calls generalizing s with
  | nil => exact .nil s
  | cons first calls ih =>
    unfold checks at h
    rw [Bool.and_eq_true, Bool.and_eq_true] at h
    exact .cons ⟨⟨of_decide_eq_true h.1.1, .refl _, rfl⟩, h.1.2⟩ (ih h.2)

instance (s : ProbeLog) (e : ProbeEvent) : Decidable (OldestIsStalest s e) :=
  -- not by going through all keys there are
  Option.decidableForallMem e.call.key

def probeOf (place : UInt64) : ProbeCall := .recordProbe { placeId := some place } "127.0.0.1:1"

def verdictOf (place : UInt64) : ProbeCall :=
  .recordProbeVerdict
    { placeId := some place, outcome := "rejected", reason := "not in servePlaceIds" } "127.0.0.1:1"

/-- As many places as the table holds. -/
def manyPlaces : List (ProbeCall × Nat) :=
  (probeOf 1, 0) :: (List.range 15).map fun n => (probeOf (UInt64.ofNat (n + 2)), 1)

/-- The place that was probed first makes room for one more. -/
theorem forgetsStalest_idle : ∃ run : List (ProbeEvent × ProbeLog),
    Run (fun s e t => Act s e t ∧ ForgetsStalest s e t) new run ∧
      ∀ x ∈ run.getLast?, x.2.probes.keys.length = maxProbes ∧ (some 1, none) ∉ x.2.probes := by
  have hchecks : checks (fun s e => OldestIsStalest s e) new (manyPlaces ++ [(probeOf 17, 3)]) =
      true := by decide +kernel
  have hrun : Run (When Act OldestIsStalest) new
      (probeRun new (manyPlaces ++ [(probeOf 17, 3)])) := by
    have h := run_probeRun hchecks
    simp only [decide_eq_true_iff] at h
    exact h
  exact ⟨_, (forgetsStalest_iff hrun.of_when).mpr hrun, by decide +kernel⟩

/-- A full table. The place that was probed first has reported since. -/
def reportedLog : ProbeLog := endOf new (probeRun new (manyPlaces ++ [(verdictOf 1, 2)]))

/-- A further place probes. -/
def nextProbe (s : ProbeLog) : ProbeEvent := ⟨probeOf 17, 3, toList (pruneProbes s.probes 3)⟩

theorem act_nextProbe (h : s.clock ≤ 3) : Act s (nextProbe s) (s.after (nextProbe s)) :=
  ⟨h, .refl _, rfl⟩

/-- The place that has just reported makes room for a new one. -/
theorem not_forgetsStalest_report : ¬ ∀ run : List (ProbeEvent × ProbeLog), Run Act new run →
    Run (fun s e t => Act s e t ∧ ForgetsStalest s e t) new run := by
  intro hall
  have hchecks : checks (fun _ _ => true) new (manyPlaces ++ [(verdictOf 1, 2)]) = true := by
    decide +kernel
  have hclock : reportedLog.clock ≤ 3 := by decide +kernel
  have hend : endOf new (probeRun new (manyPlaces ++ [(verdictOf 1, 2)])) = reportedLog := rfl
  have hact := act_nextProbe hclock
  rw [← hend] at hact
  have hforgets := (hall _ ((run_probeRun hchecks).of_when.concat hact)).last.2
  rw [hend] at hforgets
  have hreported : (reportedLog.probes.lookup (some 1, none)).map (·.last) = some 2 := by
    decide +kernel
  have hprobed : (reportedLog.probes.lookup (some 2, none)).map (·.last) = some 1 := by
    decide +kernel
  obtain ⟨evicted, hevicted, hreported⟩ := Option.map_eq_some_iff.mp hreported
  obtain ⟨other, hother, hprobed⟩ := Option.map_eq_some_iff.mp hprobed
  have hgone : (reportedLog.after (nextProbe reportedLog)).probes.lookup (some 1, none) = none := by
    have hnot : (some 1, none) ∉ (reportedLog.after (nextProbe reportedLog)).probes := by
      decide +kernel
    exact AList.lookup_eq_none.mpr hnot
  have hexpired := hforgets.stalest _ evicted hevicted
    (by rw [ProbeInfo.isFresh_iff, hreported]; decide) hgone _ other hother
    (by rw [ProbeInfo.isFresh_iff, hprobed]; decide) 601
    (by rw [ProbeInfo.isFresh_eq_false, hprobed]; decide)
  rw [ProbeInfo.isFresh_eq_false, hreported] at hexpired
  exact absurd hexpired (by decide)

end ProbeLog

end Roxo
