import Roxo.Library.Transition
import Roxo.Plugin.ApiContext

/-!
# Servers that are trusted

Discovery judges a server by the answer to a probe, and the session that it starts connects to the
same port later. Servers come and go on the ports in between. `trusted` records on which server
something was done without a person: a patch accepted because the session was auto-connected, or a
pairing saved by such a session.
-/

namespace Roxo.Plugin

open AssocMap AutoConnect Transition

/-- `App:setPairing`: the pairings with that of the place, if one is saved. -/
def setPairing (context : PlaceContext) (serverInfo : Option ServerInfo) (host port : String)
    (timestamp : ℕ) : Option PlaceContext := do
  let info ← serverInfo
  let projectId ← info.projectId
  let placeId := toString context.place
  if placeId ∈ ignorePlaceIds then none
  else some { context with
    pairings := some ((context.pairings.getD ∅).insert placeId
      ⟨projectId, info.projectName, info.projectPath, host, port, timestamp⟩) }

/-- `ServeSession:__applyGameAndPlaceId`. -/
def applyGameAndPlaceId (context : PlaceContext) (serverInfo : ServerInfo) : PlaceContext :=
  { context with
    gameId := serverInfo.gameId <|> context.gameId
    placeId := serverInfo.placeId <|> context.placeId }

inductive Decision where
  | accept
  | reject
  | abort
  deriving DecidableEq, Repr

/-- What the confirm callback looks at. -/
structure Confirmation where
  patchIsEmpty : Bool
  playtestServerAvailable : Bool
  /-- What the settings or the person decide. -/
  otherwise : Decision
  twoWaySync : Bool

/-- Only `options.autoConnected` makes the callback accept the patch. -/
def Confirmation.trusts (confirmation : Confirmation) (autoConnected : Bool) : Bool :=
  !confirmation.patchIsEmpty && !confirmation.playtestServerAvailable && autoConnected

/-- The callback that `setConfirmCallback` is given. -/
def Confirmation.decide (confirmation : Confirmation) (autoConnected : Bool) : Decision :=
  if confirmation.patchIsEmpty then .accept
  else if confirmation.playtestServerAvailable then .accept
  else if autoConnected then .accept
  else confirmation.otherwise

/-- A round of discovery: what the place was when it began, and the answers so far. -/
structure DiscoveryRound where
  context : PlaceContext
  results : List ProbeResult

inductive Progress where
  | connecting
  | reading
  | synced
  | ended
  deriving DecidableEq, Repr

/-- A session that has been started, with the place as it was for the round that chose its server. -/
structure StartedSession where
  port : String
  autoConnected : Bool
  context : PlaceContext
  /-- `__serverInfo`. -/
  serverInfo : Option ServerInfo
  progress : Progress

structure Ports where
  servers : String → Option ServerInfo
  context : PlaceContext
  rounds : List DiscoveryRound
  sessions : List StartedSession
  trusted : List (PlaceContext × ServerInfo)

inductive PortEvent where
  /-- A server starts or stops on the port. -/
  | serve (port : String) (server : Option ServerInfo)
  | tryAutoConnect
  | probe (round : ℕ) (port : String)
  | discovered (round : ℕ)
  /-- Somebody clicks Connect. -/
  | startSession (port : String)
  | connect (session : ℕ)
  | initialSync (session : ℕ) (confirmation : Confirmation)
  /-- The status of the session becomes `Connected`. -/
  | connected (session : ℕ) (timestamp : ℕ)

namespace Ports

variable (tonumber : String → Option Number) (host : String)

def start (ports : Ports) (port : String) (autoConnected : Bool) (context : PlaceContext) : Ports :=
  { ports with sessions := ports.sessions ++ [⟨port, autoConnected, context, none, .connecting⟩] }

/-- Change a session. -/
def modifySession (ports : Ports) (i : ℕ) (f : StartedSession → StartedSession) : Ports :=
  { ports with sessions := ports.sessions.modify i f }

/-- `connect` has returned what the server on the port answers. -/
def connect (ports : Ports) (i : ℕ) (session : StartedSession) : Ports :=
  match ApiContext.connect ports.context.place (ports.servers session.port) with
  | .ok info =>
    ports.modifySession i fun session =>
      { session with serverInfo := some info, progress := .reading }
  | .error _ => ports.modifySession i fun session => { session with progress := .ended }

/-- `__initialSync`: `read` fails if the server has changed its session id. -/
def initialSync (ports : Ports) (i : ℕ) (session : StartedSession) (info : ServerInfo)
    (confirmation : Confirmation) : Ports :=
  let ended := ports.modifySession i fun session => { session with progress := .ended }
  let synced := ports.modifySession i fun session => { session with progress := .synced }
  if (ports.servers session.port).all fun server => server.sessionId ≠ info.sessionId then ended
  else
    match confirmation.decide session.autoConnected with
    | .accept =>
      if confirmation.trusts session.autoConnected then
        { synced with trusted := (session.context, info) :: ports.trusted }
      else synced
    | .reject => if confirmation.twoWaySync then synced else ended
    | .abort => ended

/-- `setPairing`, which the status callback calls. -/
def pair (ports : Ports) (session : StartedSession) (info : ServerInfo) (timestamp : ℕ) : Ports :=
  match setPairing ports.context (some info) host session.port timestamp with
  | none => ports
  | some context =>
    { ports with
      context
      trusted :=
        if session.autoConnected then (session.context, info) :: ports.trusted else ports.trusted }

/-- The session is connected: the pairing is saved, and after that the place and the game are those of
the server. -/
def connected (ports : Ports) (i : ℕ) (session : StartedSession) (info : ServerInfo)
    (timestamp : ℕ) : Ports :=
  let ports := ports.modifySession i fun session => { session with progress := .ended }
  let ports := ports.pair host session info timestamp
  { ports with context := applyGameAndPlaceId ports.context info }

/-- One step. What cannot happen leaves things as they are. -/
def step (ports : Ports) : PortEvent → Ports
  | .serve port server => { ports with servers := Function.update ports.servers port server }
  | .tryAutoConnect => { ports with rounds := ports.rounds ++ [⟨ports.context, []⟩] }
  | .probe r port =>
    match ports.servers port with
    | none => ports
    | some info =>
      { ports with
        rounds := ports.rounds.modify r fun round =>
          { round with results := round.results ++ [⟨host, port, baseUrlFor host port, info⟩] } }
  | .discovered r =>
    match ports.rounds[r]? with
    | none => ports
    | some round =>
      let ports := { ports with rounds := ports.rounds.eraseIdx r }
      match (choose (classify tonumber (round.results.map some) round.context).candidates).1 with
      | none => ports
      | some chosen => ports.start chosen.port true round.context
  | .startSession port => ports.start port false ports.context
  | .connect i =>
    match ports.sessions[i]? with
    | none => ports
    | some session => if session.progress = .connecting then ports.connect i session else ports
  | .initialSync i confirmation =>
    match ports.sessions[i]? with
    | none => ports
    | some session =>
      match session.serverInfo with
      | none => ports
      | some info =>
        if session.progress = .reading then ports.initialSync i session info confirmation else ports
  | .connected i timestamp =>
    match ports.sessions[i]? with
    | none => ports
    | some session =>
      match session.serverInfo with
      | none => ports
      | some info =>
        if session.progress = .synced then ports.connected host i session info timestamp else ports

def Act (ports : Ports) (e : PortEvent) (ports' : Ports) : Prop :=
  ports.step tonumber host e = ports'

/-! ## No server is trusted that is not a match -/

/-- `connect` of a session in the place lets the server through. -/
def LetsThrough (placeId : ℤ) (server : ServerInfo) : Prop :=
  ∃ info, ApiContext.connect placeId (some server) = .ok info

/-- Every server that something was done on without a person is a match for the place. -/
def Verified (ports : Ports) : Prop :=
  ∀ x ∈ ports.trusted, matches' x.1 x.2 = true

/-- A round with the context has found a match on the port, or has started a session that is about to
connect to it. -/
def Found (ports : Ports) (context : PlaceContext) (port : String) : Prop :=
  (∃ round ∈ ports.rounds, round.context = context ∧ ∃ result ∈ round.results,
      result.port = port ∧ matches' context result.serverInfo = true) ∨
    ∃ session ∈ ports.sessions, session.autoConnected = true ∧ session.progress = .connecting ∧
      session.context = context ∧ session.port = port

/-- Whatever a session in the place connects to on the port is a match. -/
def Safe (ports : Ports) (placeId : ℤ) (context : PlaceContext) (port : String) : Prop :=
  ∀ server, ports.servers port = some server → LetsThrough placeId server →
    matches' context server = true

/-- Where a match was found, no other server is let through: none starts there that is let through and
is no match, and no session sets the place to one in which the server that is there is. -/
def Orderly (ports : Ports) : PortEvent → Prop
  | .serve port (some server) => ∀ context, ports.Found context port →
    LetsThrough ports.context.place server → matches' context server = true
  | .connected i _ => ∀ session info, ports.sessions[i]? = some session →
    session.serverInfo = some info → session.progress = .synced →
    ∀ context port, ports.Found context port →
      ports.Safe (applyGameAndPlaceId ports.context info).place context port
  | _ => True

/-- What holds all along an orderly run. -/
structure Guarded (ports : Ports) : Prop where
  found : ∀ context port, ports.Found context port → ports.Safe ports.context.place context port
  connected : ∀ session ∈ ports.sessions, session.autoConnected = true →
    ∀ info, session.serverInfo = some info → matches' session.context info = true
  verified : ports.Verified

/-- Nothing has begun. -/
structure Idle (ports : Ports) : Prop where
  rounds : ports.rounds = []
  sessions : ports.sessions = []
  trusted : ports.trusted = []

variable {tonumber host} {ports : Ports}

theorem Idle.guarded (h : ports.Idle) : ports.Guarded where
  found := by simp [Found, h.rounds, h.sessions]
  connected := by simp [h.sessions]
  verified := by simp [Verified, h.trusted]

theorem setPairing_placeId {context context' : PlaceContext} {serverInfo : Option ServerInfo}
    {port : String} {timestamp : ℕ}
    (h : setPairing context serverInfo host port timestamp = some context') :
    context'.placeId = context.placeId := by
  unfold setPairing at h
  simp only [Option.bind_eq_bind, Option.bind_eq_some_iff] at h
  obtain ⟨info, -, projectId, -, h⟩ := h
  split_ifs at h
  rw [← Option.some.inj h]

theorem mem_modify {α : Type} {l : List α} {i : ℕ} {f : α → α} {x : α} (h : x ∈ l.modify i f) :
    x ∈ l ∨ ∃ y, l[i]? = some y ∧ x = f y := by
  obtain ⟨j, hj⟩ := List.mem_iff_getElem?.mp h
  rw [List.getElem?_modify, Option.map_eq_map, Option.map_eq_some_iff] at hj
  obtain ⟨y, hy, rfl⟩ := hj
  split_ifs with hij
  · exact .inr ⟨y, hij ▸ hy, rfl⟩
  · exact .inl (List.mem_of_getElem? hy)

/-- Moving a session on finds nothing on any port. -/
theorem found_of_modifySession {i : ℕ} {progress : Progress} (hp : progress ≠ .connecting)
    {context : PlaceContext} {port : String}
    (hfound : (ports.modifySession i fun session => { session with progress }).Found context port) :
    ports.Found context port := by
  obtain hround | ⟨session, hs, hauto, hc, heq⟩ := hfound
  · exact .inl hround
  · obtain hs | ⟨_, -, rfl⟩ := mem_modify hs
    · exact .inr ⟨session, hs, hauto, hc, heq⟩
    · exact absurd hc hp

/-- Moving a session on, without another server for it. -/
theorem Guarded.modifySession (h : ports.Guarded) (i : ℕ) (progress : Progress)
    (hp : progress ≠ .connecting) :
    (ports.modifySession i fun session => { session with progress }).Guarded where
  found context port hfound := h.found context port (found_of_modifySession hp hfound)
  connected session hs hauto info hinfo := by
    obtain hs | ⟨before, hb, rfl⟩ := mem_modify hs
    · exact h.connected session hs hauto info hinfo
    · exact h.connected before (List.mem_of_getElem? hb) hauto info hinfo
  verified := h.verified

/-- Trusting a server that a session has connected to. -/
theorem Guarded.trust (h : ports.Guarded) {session : StartedSession} {info : ServerInfo}
    (hm : matches' session.context info = true) :
    ({ ports with trusted := (session.context, info) :: ports.trusted } : Ports).Guarded where
  found := h.found
  connected := h.connected
  verified x hx := by
    obtain rfl | hx := List.mem_cons.mp hx
    · exact hm
    · exact h.verified x hx

theorem Guarded.serve (h : ports.Guarded) {port : String} {server : Option ServerInfo}
    (ho : ports.Orderly (.serve port server)) :
    ({ ports with servers := Function.update ports.servers port server } : Ports).Guarded := by
  refine ⟨fun context port' hfound found hserver hl => ?_, h.connected, h.verified⟩
  -- what is said about a port is about the server that is there now
  change Function.update ports.servers port server port' = some found at hserver
  by_cases hport : port' = port
  · rw [hport, Function.update_self] at hserver
    subst hserver
    exact ho context (hport ▸ hfound) hl
  · rw [Function.update_of_ne hport] at hserver
    exact h.found context port' hfound found hserver hl

/-- What a round has found is safe. -/
theorem Guarded.result (h : ports.Guarded) {round : DiscoveryRound} (hround : round ∈ ports.rounds)
    {result : ProbeResult} (hresult : result ∈ round.results)
    (hm : matches' round.context result.serverInfo = true) :
    ports.Safe ports.context.place round.context result.port :=
  h.found _ _ (.inl ⟨round, hround, rfl, result, hresult, rfl, hm⟩)

/-- Other rounds keep what holds if what they have found is safe. -/
theorem Guarded.withRounds (h : ports.Guarded) {rounds : List DiscoveryRound}
    (hrounds : ∀ round ∈ rounds, ∀ result ∈ round.results,
      matches' round.context result.serverInfo = true →
        ports.Safe ports.context.place round.context result.port) :
    ({ ports with rounds := rounds } : Ports).Guarded where
  found context port hfound := by
    obtain ⟨round, hround, rfl, result, hresult, rfl, hm⟩ | hsession := hfound
    · exact hrounds round hround result hresult hm
    · exact h.found context port (.inr hsession)
  connected := h.connected
  verified := h.verified

theorem Guarded.probe (h : ports.Guarded) {port : String} {info : ServerInfo}
    (hserver : ports.servers port = some info) (r : ℕ) :
    ({ ports with
      rounds := ports.rounds.modify r fun round =>
        { round with results := round.results ++ [⟨host, port, baseUrlFor host port, info⟩] } } :
      Ports).Guarded := by
  refine h.withRounds fun round hround result hresult hm => ?_
  obtain hround | ⟨before, hbefore, rfl⟩ := mem_modify hround
  · exact h.result hround hresult hm
  · obtain hresult | hresult := List.mem_append.mp hresult
    · exact h.result (List.mem_of_getElem? hbefore) hresult hm
    · obtain rfl := List.mem_singleton.mp hresult
      intro server hserver' _
      rw [← Option.some.inj (hserver.symm.trans hserver')]
      exact hm

theorem Guarded.start (h : ports.Guarded) {port : String} {autoConnected : Bool}
    {context : PlaceContext}
    (hs : autoConnected = true → ports.Safe ports.context.place context port) :
    (ports.start port autoConnected context).Guarded where
  found context' port' hfound := by
    obtain hround | ⟨session, hmem, hauto, hc, rfl, rfl⟩ := hfound
    · exact h.found context' port' (.inl hround)
    · obtain hmem | hmem := List.mem_append.mp hmem
      · exact h.found _ _ (.inr ⟨session, hmem, hauto, hc, rfl, rfl⟩)
      · obtain rfl := List.mem_singleton.mp hmem
        exact hs hauto
  connected session hmem hauto info hinfo := by
    obtain hmem | hmem := List.mem_append.mp hmem
    · exact h.connected session hmem hauto info hinfo
    · obtain rfl := List.mem_singleton.mp hmem
      cases hinfo
  verified := h.verified

theorem Guarded.connect (h : ports.Guarded) {i : ℕ} {session : StartedSession}
    (hs : ports.sessions[i]? = some session) (hc : session.progress = .connecting) :
    (ports.connect i session).Guarded := by
  unfold Ports.connect
  cases hconnect : ApiContext.connect ports.context.place (ports.servers session.port) with
  | error _ => exact h.modifySession i .ended Progress.noConfusion
  | ok info =>
    have hserver := (ApiContext.connect_eq_ok.mp hconnect).1
    refine
      { found := fun context port hfound => h.found context port ?_
        connected := fun x hx hauto found hfound => ?_
        verified := h.verified }
    · obtain hround | ⟨x, hx, hauto, hcx, heq⟩ := hfound
      · exact .inl hround
      · obtain hx | ⟨_, -, rfl⟩ := mem_modify hx
        · exact .inr ⟨x, hx, hauto, hcx, heq⟩
        · cases hcx
    · obtain hx | ⟨before, hb, rfl⟩ := mem_modify hx
      · exact h.connected x hx hauto found hfound
      · obtain rfl := Option.some.inj (hs.symm.trans hb)
        obtain rfl := Option.some.inj hfound
        exact h.found _ _ (.inr ⟨session, List.mem_of_getElem? hs, hauto, hc, rfl, rfl⟩) info
          hserver ⟨info, hserver ▸ hconnect⟩

theorem Guarded.initiallySynced (h : ports.Guarded) {i : ℕ} {session : StartedSession}
    (hs : ports.sessions[i]? = some session) {info : ServerInfo}
    (hinfo : session.serverInfo = some info) (confirmation : Confirmation) :
    (ports.initialSync i session info confirmation).Guarded := by
  have hended := h.modifySession i .ended Progress.noConfusion
  have hsynced := h.modifySession i .synced Progress.noConfusion
  unfold Ports.initialSync
  dsimp only
  split
  · exact hended
  · cases confirmation.decide session.autoConnected with
    | accept =>
      dsimp only
      split_ifs with htrusts
      · have hauto : session.autoConnected = true := by
          unfold Confirmation.trusts at htrusts
          simp only [Bool.and_eq_true] at htrusts
          exact htrusts.2
        exact hsynced.trust (h.connected session (List.mem_of_getElem? hs) hauto info hinfo)
      · exact hsynced
    | reject =>
      dsimp only
      split_ifs
      · exact hsynced
      · exact hended
    | abort => exact hended

theorem Guarded.connectedTo (h : ports.Guarded) {i : ℕ} {session : StartedSession}
    (hs : ports.sessions[i]? = some session) {info : ServerInfo}
    (hinfo : session.serverInfo = some info)
    (hplace : ∀ context port, ports.Found context port →
      ports.Safe (applyGameAndPlaceId ports.context info).place context port) (timestamp : ℕ) :
    (ports.connected host i session info timestamp).Guarded := by
  have hended := h.modifySession i .ended Progress.noConfusion
  -- the pairing does not count for what `connect` lets through
  have hctx : ∀ context : PlaceContext, context.placeId = ports.context.placeId →
      ({ ports.modifySession i fun session => { session with progress := .ended } with
        context := applyGameAndPlaceId context info } : Ports).Guarded := by
    intro context hsame
    refine
      { found := fun context' port hfound server hserver hl => ?_
        connected := hended.connected
        verified := hended.verified }
    refine hplace context' port (found_of_modifySession Progress.noConfusion hfound) server hserver ?_
    have heq : (applyGameAndPlaceId context info).place =
        (applyGameAndPlaceId ports.context info).place := by
      unfold applyGameAndPlaceId PlaceContext.place
      dsimp only
      rw [hsame]
    exact heq ▸ hl
  unfold Ports.connected Ports.pair
  dsimp only
  cases hp : setPairing (ports.modifySession i fun session =>
      { session with progress := .ended }).context (some info) host session.port timestamp with
  | none => exact hctx ports.context rfl
  | some context =>
    have hguarded := hctx context (setPairing_placeId hp)
    dsimp only
    split_ifs with hauto
    · exact hguarded.trust (h.connected session (List.mem_of_getElem? hs) hauto info hinfo)
    · exact hguarded

theorem Guarded.discovered (h : ports.Guarded) {r : ℕ} {round : DiscoveryRound}
    (hr : ports.rounds[r]? = some round) {chosen : Candidate}
    (hc : (choose (classify tonumber (round.results.map some) round.context).candidates).1 =
      some chosen) : ports.Safe ports.context.place round.context chosen.port := by
  obtain ⟨hmem, hauthorized⟩ := authorized_of_choose hc
  obtain ⟨result, hresult, heq⟩ := List.mem_map.mp hmem
  rw [Option.some.inj heq] at hresult
  exact h.result (List.mem_of_getElem? hr) hresult (matches'_iff.mpr hauthorized)

/-- A step that is orderly keeps what holds. -/
theorem Guarded.step (h : ports.Guarded) {e : PortEvent} (ho : ports.Orderly e) :
    (ports.step tonumber host e).Guarded := by
  cases e with
  | serve port server => exact h.serve ho
  | tryAutoConnect =>
    refine h.withRounds fun round hround result hresult hm => ?_
    obtain hround | hround := List.mem_append.mp hround
    · exact h.result hround hresult hm
    · obtain rfl := List.mem_singleton.mp hround
      cases hresult
  | probe r port =>
    dsimp only [Ports.step]
    cases hserver : ports.servers port with
    | none => exact h
    | some info => exact h.probe hserver r
  | discovered r =>
    dsimp only [Ports.step]
    cases hr : ports.rounds[r]? with
    | none => exact h
    | some round =>
      have herase : ({ ports with rounds := ports.rounds.eraseIdx r } : Ports).Guarded :=
        h.withRounds fun _ hround _ hresult hm =>
          h.result (List.mem_of_mem_eraseIdx hround) hresult hm
      dsimp only
      cases hc : (choose (classify tonumber (round.results.map some)
          round.context).candidates).1 with
      | none => exact herase
      | some chosen => exact herase.start fun _ => h.discovered hr hc
  | startSession port => exact h.start fun hauto => by cases hauto
  | connect i =>
    dsimp only [Ports.step]
    cases hs : ports.sessions[i]? with
    | none => exact h
    | some session =>
      dsimp only
      split_ifs with hc
      · exact h.connect hs hc
      · exact h
  | initialSync i confirmation =>
    dsimp only [Ports.step]
    cases hs : ports.sessions[i]? with
    | none => exact h
    | some session =>
      dsimp only
      cases hinfo : session.serverInfo with
      | none => exact h
      | some info =>
        dsimp only
        split_ifs with hc
        · exact h.initiallySynced hs hinfo confirmation
        · exact h
  | connected i timestamp =>
    dsimp only [Ports.step]
    cases hs : ports.sessions[i]? with
    | none => exact h
    | some session =>
      dsimp only
      cases hinfo : session.serverInfo with
      | none => exact h
      | some info =>
        dsimp only
        split_ifs with hc
        · exact h.connectedTo hs hinfo (ho session info hs hinfo hc) timestamp
        · exact h

/-- In a run in which no other server is let through on a port that a match was found on, nothing is
done without a person on a server that is no match for the place. -/
theorem verified_of_run {run : List (PortEvent × Ports)} (h : ports.Idle)
    (hrun : Run (When (Act tonumber host) Orderly) ports run) : ∀ x ∈ run, x.2.Verified := by
  have hguarded := hrun.invariant (P := Guarded) (fun s e t hs hst => ?_) h.guarded
  · exact fun x hx => (hguarded x hx).verified
  · obtain ⟨rfl, ho⟩ := hst
    exact hs.step ho

/-! ### A port that changes hands -/

/-- Running steps one after the other is a run. -/
def trace (tonumber : String → Option Number) (host : String) : Ports → List PortEvent →
    List (PortEvent × Ports)
  | _, [] => []
  | ports, e :: events =>
    (e, ports.step tonumber host e) :: trace tonumber host (ports.step tonumber host e) events

theorem run_trace (ports : Ports) (events : List PortEvent) :
    Run (Act tonumber host) ports (ports.trace tonumber host events) := by
  induction events generalizing ports with
  | nil => exact .nil ports
  | cons e events ih => exact .cons rfl (ih _)

/-- A place with an id of its own, and no server. -/
def somePlace : Ports := ⟨fun _ => none, ⟨some 1818, none, none⟩, [], [], []⟩

theorem somePlace_idle : somePlace.Idle := ⟨rfl, rfl, rfl⟩

/-- The server for the place is found, and another project takes its port before the session connects. -/
def takeover : List PortEvent :=
  [.serve "34872" (some (projectInfo "ours" (some [1818]))), .tryAutoConnect, .probe 0 "34872",
    .discovered 0, .serve "34872" (some (projectInfo "theirs" none)), .connect 0,
    .initialSync 0 ⟨false, false, .abort, false⟩]

theorem not_verified_takeover :
    ¬∀ (ports : Ports) run, ports.Idle →
      Run (Act (fun _ => none) Config.defaultHost) ports run → ∀ x ∈ run, x.2.Verified := by
  intro h
  -- The server that took the place is trusted, and is no match.
  have htaken : ∃ x ∈ somePlace.trace (fun _ => none) Config.defaultHost takeover,
      ∃ server ∈ x.2.trusted, matches' server.1 server.2 = false := by
    decide +kernel
  obtain ⟨x, hx, server, hserver, hno⟩ := htaken
  have hverified := h somePlace _ somePlace_idle (run_trace somePlace takeover) x hx
  rw [hverified server hserver] at hno
  exact Bool.noConfusion hno

/-- A project that sets the place. -/
def otherInfo : ServerInfo :=
  { projectInfo "other" none with gameId := some 7, placeId := some 9999 }

/-- The server for the place is found and stays, while somebody connects to a project that sets the
place to another one. -/
def steady : List PortEvent :=
  [.serve "34872" (some (projectInfo "ours" (some [1818]))), .serve "34873" (some otherInfo),
    .tryAutoConnect, .probe 0 "34872", .startSession "34873", .connect 0,
    .initialSync 0 ⟨false, false, .accept, false⟩, .discovered 0, .connect 1,
    .initialSync 1 ⟨false, false, .abort, false⟩, .connected 0 0, .connected 1 0]

/-- Nothing is found on a port if no round goes on and no session is about to connect. -/
theorem not_found (hr : ports.rounds.isEmpty = true)
    (hs : ∀ session ∈ ports.sessions, session.progress ≠ .connecting) (context : PlaceContext)
    (port : String) : ¬ports.Found context port := by
  rintro (⟨round, hround, -⟩ | ⟨session, hsession, -, hc, -⟩)
  · rw [List.isEmpty_iff.mp hr] at hround
    cases hround
  · exact hs session hsession hc

/-- A patch is accepted from the server that was found, and the pairing with it is saved, for the place
that the other session has set. -/
theorem verified_steady : somePlace.Idle ∧
    (∀ x ∈ somePlace.trace (fun _ => none) Config.defaultHost steady, x.2.Verified) ∧
    ∃ x ∈ somePlace.trace (fun _ => none) Config.defaultHost steady,
      x.2.trusted.length = 2 ∧ x.2.context.place = 9999 := by
  have hserve : ∀ ports : Ports, ports.rounds.isEmpty = true → ports.sessions = [] →
      ∀ port server, ports.Orderly (.serve port (some server)) := by
    intro ports hr hs port server context hfound
    exact absurd hfound (not_found hr (by simp [hs]) context port)
  have hconnected : ∀ ports : Ports, ports.rounds.isEmpty = true →
      (∀ session ∈ ports.sessions, session.progress ≠ .connecting) →
      ∀ i timestamp, ports.Orderly (.connected i timestamp) := by
    intro ports hr hs i timestamp session info _ _ _ context port hfound
    exact absurd hfound (not_found hr hs context port)
  refine ⟨somePlace_idle,
    @verified_of_run (fun _ => none) Config.defaultHost _ _ somePlace_idle ?_, by decide +kernel⟩
  exact
    .cons ⟨rfl, hserve _ rfl rfl _ _⟩ <| .cons ⟨rfl, hserve _ rfl rfl _ _⟩ <|
      .cons ⟨rfl, trivial⟩ <| .cons ⟨rfl, trivial⟩ <| .cons ⟨rfl, trivial⟩ <|
        .cons ⟨rfl, trivial⟩ <| .cons ⟨rfl, trivial⟩ <| .cons ⟨rfl, trivial⟩ <|
          .cons ⟨rfl, trivial⟩ <| .cons ⟨rfl, trivial⟩ <|
            .cons ⟨rfl, hconnected _ (by decide +kernel) (by decide +kernel) _ _⟩ <|
              .cons ⟨rfl, hconnected _ (by decide +kernel) (by decide +kernel) _ _⟩ <| .nil _

end Ports

end Roxo.Plugin
