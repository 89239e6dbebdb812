import Mathlib.Tactic.NormNum
import Roxo.Server.SessionRegistry
import Roxo.SnapshotMiddleware.Json

/-!
# The tools of the MCP server

How `roxo_status`, `roxo_wait_for_studio` and `roxo_serve_stop` choose a session by the `port` of
their arguments. A number above 65535 is cut to 16 bits, and what is no natural number counts as no
port at all, except by `roxo_serve_stop`, which demands one.
-/

namespace Roxo

open AssocMap

namespace Mcp

/-! ## Arguments -/

def portOf (arguments : Json) : Option UInt16 :=
  ((arguments.get "port").bind Json.asU64).map UInt64.toUInt16

def projectOf (arguments : Json) : Option PathBuf :=
  ((arguments.get "project").bind Json.asStr).map PathBuf.ofString

/-! ## Choosing a session -/

/-- `Path::starts_with`. -/
def startsWith (path base : PathBuf) : Bool := (path.stripPrefix base).isSome

/-- The sessions that `resolve` chooses from. -/
def candidates (canonicalize : PathBuf → Option PathBuf) (port : Option UInt16)
    (project : Option PathBuf) (sessions : List SessionBeacon) : List SessionBeacon :=
  let sessions :=
    match port with
    | some port => sessions.filter fun session => session.port = port
    | none => sessions
  match project with
  | some project =>
    let project := (canonicalize project).getD project
    sessions.filter fun session => startsWith session.projectPath project
  | none => sessions

def noSession : String :=
  "No running Roxo serve session was found. Start one with `roxo serve`, " ++
    "or pass --port to name a session on a specific port."

def manySessions (sessions : List SessionBeacon) : String :=
  "Multiple Roxo serve sessions are running. Use --port to pick one:\n" ++
    "\n".intercalate (sessions.map fun session =>
      "  port " ++ toString session.port.toNat ++ " - " ++ session.projectName)

/-- Finds a single session. `listing` is what listing the registry gives. -/
def resolve (canonicalize : PathBuf → Option PathBuf) (listing : Except String (List SessionBeacon))
    (port : Option UInt16) (project : Option PathBuf) : Except String SessionBeacon := do
  let sessions ← listing
  match candidates canonicalize port project sessions with
  | [] => .error noSession
  | [session] => .ok session
  | sessions => .error (manySessions sessions)

/-- What the server of a session says, and what is made of it. -/
class StudioStatus (Status : Type) where
  studioConnected : Status → Bool
  /-- The state of the diagnosis is `Declined` or `Ambiguous`, for a session on the port. -/
  declined : Status → UInt16 → Bool
  /-- When the verdicts of the recent probes were reported. -/
  verdicts : Status → List ℕ

section Status

variable {Status : Type} [StudioStatus Status]

/-- What the tools read from outside: the registry, and the answers of the servers. -/
structure Poll (Status : Type) where
  listing : Except String (List SessionBeacon)
  answer : SessionBeacon → Except String Status
  /-- The deadline has passed when the poll is over. -/
  expired : Bool

def fetchSessionStatus (canonicalize : PathBuf → Option PathBuf) (poll : Poll Status)
    (port : Option UInt16) (project : Option PathBuf) : Except String (SessionBeacon × Status) := do
  let session ← resolve canonicalize poll.listing port project
  let status ← poll.answer session
  .ok (session, status)

/-- A report: the status of a session, with the session it came from. -/
abbrev Report (Status : Type) := SessionBeacon × Status

def toolStatus (canonicalize : PathBuf → Option PathBuf) (arguments : Json) (poll : Poll Status) :
    Except String (Report Status) :=
  fetchSessionStatus canonicalize poll (portOf arguments) (projectOf arguments)

/-- How a wait ends. -/
inductive Waited (Status : Type) where
  | connected (report : Report Status)
  | declined (report : Report Status)
  | timeout (report : Report Status)

def Waited.report : Waited Status → Report Status
  | connected report => report
  | declined report => report
  | timeout report => report

/-- The loop of `tool_wait_for_studio`; nothing is returned while the wait goes on. -/
def waitLoop (canonicalize : PathBuf → Option PathBuf) (failFast : Bool) (startedAt : ℕ)
    (timeout : UInt64) (port : Option UInt16) (project : Option PathBuf) :
    Option String → Option (Report Status) → List (Poll Status) →
      Option (Except String (Waited Status))
  | _, _, [] => none
  | lastError, lastReport, poll :: polls =>
    match fetchSessionStatus canonicalize poll port project with
    | .ok (session, status) =>
      if StudioStatus.studioConnected status then some (.ok (.connected (session, status)))
      else
        let freshDecline := StudioStatus.declined status session.port &&
          (StudioStatus.verdicts status).any fun reportedAt => reportedAt > startedAt
        if failFast && freshDecline then some (.ok (.declined (session, status)))
        else if poll.expired then some (.ok (.timeout (session, status)))
        else waitLoop canonicalize failFast startedAt timeout port project lastError
          (some (session, status)) polls
    | .error err =>
      if poll.expired then
        match lastReport with
        | some report => some (.ok (.timeout report))
        | none => some (.error ("No serve session answered within " ++ toString timeout.toNat ++
            "s. Last attempt: " ++ err))
      else waitLoop canonicalize failFast startedAt timeout port project (some err) lastReport polls

def toolWaitForStudio (canonicalize : PathBuf → Option PathBuf) (arguments : Json) (startedAt : ℕ)
    (polls : List (Poll Status)) : Option (Except String (Waited Status)) :=
  let timeout := ((arguments.get "timeoutSeconds").bind Json.asU64).getD 60
  let failFast := ((arguments.get "failFast").bind Json.asBool).getD true
  waitLoop canonicalize failFast startedAt timeout (portOf arguments) (projectOf arguments) none none
    polls

end Status

/-! ## Stopping a session -/

/-- A process that `roxo_serve_start` has spawned. -/
structure Child where
  handle : ℕ
  pid : UInt32
  deriving DecidableEq, Repr

/-- How killing a child and waiting for it go. -/
structure Signal where
  kill : Except String Unit
  wait : Except String Unit

def toolServeStop (spawned : Map UInt16 Child) (arguments : Json) (signal : Signal) :
    Map UInt16 Child × Except String UInt16 :=
  match (arguments.get "port").bind Json.asU64 with
  | none => (spawned, .error "The 'port' argument is required")
  | some n =>
    let port := n.toUInt16
    match spawned.lookup port with
    | some _ => (spawned.erase port, do
        signal.kill
        signal.wait
        .ok port)
    | none => (spawned, .error ("No serve session on port " ++ toString port.toNat ++
        " was started by this MCP server. Only sessions started with roxo_serve_start can be " ++
        "stopped here."))

/-! ## Which session a port names -/

variable {Status : Type} [StudioStatus Status] {canonicalize : PathBuf → Option PathBuf}
  {arguments value : Json} {project : Option PathBuf} {sessions : List SessionBeacon}
  {session : SessionBeacon} {spawned : Map UInt16 Child}

variable (Status) in
/-- The tools report on a session, or stop one, only if the value names its port. The registry lists
one of `listings` whenever it is read. -/
structure OnlyNamed (canonicalize : PathBuf → Option PathBuf) (arguments value : Json)
    (listings : Set (List SessionBeacon)) (spawned : Map UInt16 Child) : Prop where
  status : ∀ poll : Poll Status, (∀ sessions, poll.listing = .ok sessions → sessions ∈ listings) →
    ∀ report, toolStatus canonicalize arguments poll = .ok report → value.Names report.1.port
  wait : ∀ startedAt (polls : List (Poll Status)),
    (∀ poll ∈ polls, ∀ sessions, poll.listing = .ok sessions → sessions ∈ listings) →
    ∀ waited, toolWaitForStudio canonicalize arguments startedAt polls = some (.ok waited) →
      value.Names waited.report.1.port
  stop : ∀ signal port child, spawned.lookup port = some child →
    (toolServeStop spawned arguments signal).1.lookup port ≠ some child → value.Names port

/-- What the value makes `resolve` choose is what it names: it is a number of a port, or it is cut
to a port at which there is not exactly one session, or it is no natural number and the only session
that is left without a port has it. -/
def Chooses (canonicalize : PathBuf → Option PathBuf) (value : Json) (project : Option PathBuf)
    (sessions : List SessionBeacon) : Prop :=
  (∀ n, value.asU64 = some n → n.toNat < 65536 ∨
    ∀ session, candidates canonicalize (some n.toUInt16) project sessions ≠ [session]) ∧
  (value.asU64 = none → ∀ session, candidates canonicalize none project sessions = [session] →
    value.Names session.port)

theorem asU64_eq_some {n : UInt64} : value.asU64 = some n ↔ value = .number (.posInt n) := by
  unfold Json.asU64
  split
  · simp
  · next h => simpa using h n

theorem names_of_lt {n : UInt64} (hn : value.asU64 = some n) (hlt : n.toNat < 65536) :
    value.Names n.toUInt16 := by
  refine ⟨_, asU64_eq_some.mp hn, ?_⟩
  unfold JsonNumber.toRat
  rw [UInt64.toNat_toUInt16, Nat.mod_eq_of_lt hlt]

theorem not_names_of_le {n : UInt64} (hn : value.asU64 = some n) (hle : 65536 ≤ n.toNat)
    (port : UInt16) : ¬ value.Names port := by
  obtain rfl := asU64_eq_some.mp hn
  rintro ⟨m, hm, heq⟩
  obtain rfl := Json.number.inj hm
  have heq' : (n.toNat : ℚ) = port.toNat := heq
  have hlt : port.toNat < 65536 := port.toNat_lt
  rw [Nat.cast_inj] at heq'
  omega

theorem portOf_eq (hv : arguments.get "port" = some value) :
    portOf arguments = value.asU64.map UInt64.toUInt16 := by
  unfold portOf
  rw [hv, Option.bind_some]

theorem port_of_mem_candidates {port : UInt16}
    (h : session ∈ candidates canonicalize (some port) project sessions) : session.port = port := by
  unfold candidates at h
  cases project with
  | none => exact of_decide_eq_true (List.mem_filter.mp h).2
  | some project => exact of_decide_eq_true (List.mem_filter.mp (List.mem_filter.mp h).1).2

theorem resolve_eq_ok {listing : Except String (List SessionBeacon)} {port : Option UInt16} :
    resolve canonicalize listing port project = .ok session ↔
      ∃ sessions, listing = .ok sessions ∧
        candidates canonicalize port project sessions = [session] := by
  unfold resolve
  cases listing with
  | error err => simp [bind, Except.bind]
  | ok sessions =>
    simp only [bind, Except.bind, Except.ok.injEq, exists_eq_left']
    split
    · next h => simp [h]
    · next h => simp [h]
    · next h₁ h₂ => 
      constructor
      · intro h
        cases h
      · intro h
        exact absurd h (h₂ session)

/-- `resolve` chooses a session that the value names, exactly under the condition. -/
theorem chooses_iff (hv : arguments.get "port" = some value) :
    Chooses canonicalize value project sessions ↔ ∀ session,
      candidates canonicalize (portOf arguments) project sessions = [session] →
        value.Names session.port := by
  rw [portOf_eq hv]
  unfold Chooses
  cases hn : value.asU64 with
  | none => simp
  | some n =>
    have hport : ∀ session, candidates canonicalize (some n.toUInt16) project sessions = [session] →
        session.port = n.toUInt16 := fun session h =>
      port_of_mem_candidates (h ▸ List.mem_singleton_self session)
    constructor
    · rintro ⟨h, -⟩ session hc
      rw [hport session hc]
      exact names_of_lt hn ((h n rfl).resolve_right fun hne => hne session hc)
    · intro h
      refine ⟨?_, nofun⟩
      rintro _ ⟨rfl⟩
      by_cases hlt : n.toNat < 65536
      · exact .inl hlt
      · exact .inr fun session hc => not_names_of_le hn (Nat.not_lt.mp hlt) _ (h session hc)

omit [StudioStatus Status] in
theorem fetchSessionStatus_eq_ok {poll : Poll Status} {port : Option UInt16} {status : Status}
    (h : fetchSessionStatus canonicalize poll port project = .ok (session, status)) :
    ∃ sessions, poll.listing = .ok sessions ∧
      candidates canonicalize port project sessions = [session] := by
  unfold fetchSessionStatus at h
  cases hr : resolve canonicalize poll.listing port project with
  | error err =>
    rw [hr] at h
    cases h
  | ok found =>
    rw [hr] at h
    cases ha : poll.answer found with
    | error err =>
      simp only [bind, Except.bind, ha] at h
      cases h
    | ok status' =>
      simp only [bind, Except.bind, ha] at h
      cases h
      exact resolve_eq_ok.mp hr

/-- A wait reports on a session of one of its polls. -/
theorem waitLoop_report {P : SessionBeacon → Prop} {failFast : Bool} {startedAt : ℕ}
    {timeout : UInt64} {port : Option UInt16} {polls : List (Poll Status)}
    (hpolls : ∀ poll ∈ polls, ∀ session status,
      fetchSessionStatus canonicalize poll port project = .ok (session, status) → P session)
    {lastError : Option String} {lastReport : Option (Report Status)}
    (hlast : ∀ report, lastReport = some report → P report.1) {waited : Waited Status}
    (h : waitLoop canonicalize failFast startedAt timeout port project lastError lastReport polls =
      some (.ok waited)) : P waited.report.1 := by
  induction polls generalizing lastError lastReport with
  | nil => cases h
  | cons poll polls ih =>
    have hrest := fun p hp => hpolls p (List.mem_cons_of_mem _ hp)
    unfold waitLoop at h
    cases hf : fetchSessionStatus canonicalize poll port project with
    | ok found =>
      obtain ⟨session, status⟩ := found
      have hP := hpolls poll List.mem_cons_self session status hf
      rw [hf] at h
      dsimp only at h
      split_ifs at h with hconnected hdeclined hexpired
      · cases h
        exact hP
      · cases h
        exact hP
      · cases h
        exact hP
      · refine ih hrest (fun report hreport => ?_) h
        cases hreport
        exact hP
    | error err =>
      rw [hf] at h
      dsimp only at h
      split_ifs at h with hexpired
      · cases hl : lastReport with
        | none =>
          rw [hl] at h
          cases h
        | some report =>
          rw [hl] at h
          cases h
          exact hlast report hl
      · exact ih hrest hlast h

theorem toolServeStop_lookup {signal : Signal} {port : UInt16} {child : Child}
    (hv : arguments.get "port" = some value) (hchild : spawned.lookup port = some child) :
    (toolServeStop spawned arguments signal).1.lookup port ≠ some child ↔
      ∃ n, value.asU64 = some n ∧ n.toUInt16 = port := by
  unfold toolServeStop
  rw [hv, Option.bind_some]
  cases hn : value.asU64 with
  | none => simp [hchild]
  | some n =>
    dsimp only
    by_cases hport : n.toUInt16 = port
    · rw [hport, hchild]
      simp [hport]
    · cases hl : spawned.lookup n.toUInt16 with
      | none => simp [hchild, hport]
      | some other =>
        dsimp only
        rw [lookup_erase_eq, if_neg (Ne.symm hport)]
        simp [hchild, hport]

/-- **The tools act only on the named session exactly if the value makes them choose no other**: it
is a number of a port, or what it is cut to, or leaving the port out, selects nothing else. -/
theorem onlyNamed_iff [Inhabited Status] (hv : arguments.get "port" = some value)
    (listings : Set (List SessionBeacon)) :
    OnlyNamed Status canonicalize arguments value listings spawned ↔
      (∀ sessions ∈ listings, Chooses canonicalize value (projectOf arguments) sessions) ∧
      ∀ n, value.asU64 = some n → n.toNat < 65536 ∨ spawned.lookup n.toUInt16 = none := by
  constructor
  · intro h
    refine ⟨fun sessions hs => (chooses_iff hv).mpr fun session hc => ?_, fun n hn => ?_⟩
    · refine h.status ⟨.ok sessions, fun _ => .ok default, true⟩ ?_ (session, default) ?_
      · rintro _ ⟨rfl⟩
        exact hs
      · unfold toolStatus fetchSessionStatus
        rw [resolve_eq_ok.mpr ⟨sessions, rfl, hc⟩]
        rfl
    · by_cases hlt : n.toNat < 65536
      · exact .inl hlt
      · refine .inr (Option.eq_none_iff_forall_ne_some.mpr fun child hchild => ?_)
        exact not_names_of_le hn (Nat.not_lt.mp hlt) _ (h.stop ⟨.ok (), .ok ()⟩ _ child hchild
          ((toolServeStop_lookup hv hchild).mpr ⟨n, hn, rfl⟩))
  · rintro ⟨hchooses, hstop⟩
    have hfetch : ∀ poll : Poll Status,
        (∀ sessions, poll.listing = .ok sessions → sessions ∈ listings) → ∀ session status,
        fetchSessionStatus canonicalize poll (portOf arguments) (projectOf arguments) =
          .ok (session, status) → value.Names session.port := by
      intro poll hpoll session status hf
      obtain ⟨sessions, hlisting, hc⟩ := fetchSessionStatus_eq_ok hf
      exact (chooses_iff hv).mp (hchooses sessions (hpoll sessions hlisting)) session hc
    refine
      { status := fun poll hpoll report hreport => hfetch poll hpoll _ _ hreport
        wait := fun startedAt polls hpolls waited hwaited => ?_
        stop := fun signal port child hchild hgone => ?_ }
    · exact waitLoop_report (P := fun session => value.Names session.port)
        (fun poll hpoll => hfetch poll (hpolls poll hpoll)) (by
        intro _ hnone
        cases hnone) hwaited
    · obtain ⟨n, hn, rfl⟩ := (toolServeStop_lookup hv hchild).mp hgone
      refine names_of_lt hn ((hstop n hn).resolve_right fun hnone => ?_)
      rw [hnone] at hchild
      cases hchild

/-! ### Two ports -/

/-- A server that Studio is not connected to. -/
@[reducible] def silentStatus : StudioStatus Unit where
  studioConnected _ := false
  declined _ _ := false
  verdicts _ := []

def portArguments (n : UInt64) : Json := .object [("port", .number (.posInt n))]

def firstChild : Child := ⟨0, 1⟩

def firstSpawned : Map UInt16 Child := (∅ : Map UInt16 Child).insert 34872 firstChild

/-- `100408` is cut to the port of the session that was spawned, which is stopped. -/
theorem not_onlyNamed_cut : letI := silentStatus
    ¬ ∀ (arguments value : Json) (listings : Set (List SessionBeacon)) (spawned : Map UInt16 Child),
      arguments.get "port" = some value →
      OnlyNamed Unit (fun _ => none) arguments value listings spawned := by
  let _ := silentStatus
  intro hall
  have h := hall (portArguments 100408) _ ∅ firstSpawned rfl
  exact not_names_of_le (n := 100408) rfl (by decide) 34872
    (h.stop ⟨.ok (), .ok ()⟩ 34872 firstChild rfl (by decide))

theorem onlyNamed_port : letI := silentStatus
    OnlyNamed Unit (fun _ => none) (portArguments 34872) (.number (.posInt 34872)) Set.univ
      firstSpawned := by
  let _ := silentStatus
  refine (onlyNamed_iff rfl Set.univ).mpr ⟨fun sessions _ => ⟨?_, nofun⟩, ?_⟩
  · rintro _ ⟨rfl⟩
    exact .inl (by decide)
  · rintro _ ⟨rfl⟩
    exact .inl (by decide)

end Mcp

end Roxo
