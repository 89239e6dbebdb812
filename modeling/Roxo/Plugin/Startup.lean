import Roxo.Plugin.Discovery
import Roxo.Plugin.ApiContext

/-!
# Starting up

When the plugin starts it looks for a server to attach to, and where discovery attaches to none it
reconnects to the endpoint of the last sync. The servers are those that run at that time, by the
URL that they answer at.
-/

namespace Roxo.Plugin

open AssocMap AutoConnect

/-- An entry of `priorEndpoints`. Defaults are not saved. -/
structure PriorSyncInfo where
  host : Option String
  port : Option String
  projectName : Option String
  timestamp : Option ℕ
  deriving DecidableEq, Repr

/-- The entry for a place without one. -/
def PriorSyncInfo.none : PriorSyncInfo := ⟨.none, .none, .none, .none⟩

structure Settings where
  autoConnect : Bool
  autoReconnect : Bool
  autoConnectPortRange : Option String
  priorEndpoints : Option (Map String PriorSyncInfo)

/-- What the plugin finds when it starts. -/
structure Surroundings where
  settings : Settings
  context : PlaceContext
  /-- Nobody else holds the sync lock. -/
  lockAvailable : Bool
  servers : String → Option ServerInfo

/-- A session, and where it connects to. -/
structure StartOptions where
  host : String
  port : String
  autoConnected : Bool
  deriving DecidableEq, Repr

namespace Surroundings

variable (tonumber : String → Option Number) (tostring : Number → String) (s : Surroundings)

def getPriorSyncInfo : PriorSyncInfo :=
  let id := toString s.context.place
  if id ∈ ignorePlaceIds then .none
  else (s.settings.priorEndpoints.bind (·.lookup id)).getD .none

/-- The host binding, which starts with the saved host. -/
def host : String := s.getPriorSyncInfo.host.getD ""

def port : String := s.getPriorSyncInfo.port.getD ""

def getHostAndPort : String × String :=
  (if s.host.length > 0 then s.host else Config.defaultHost,
    if s.port.length > 0 then s.port else Config.defaultPort)

/-- `AutoConnect.probe`. -/
def probe (host : String) (port : Number) : Option ProbeResult :=
  (s.servers (baseUrlFor host (tostring port))).map fun serverInfo =>
    ⟨host, tostring port, baseUrlFor host (tostring port), serverInfo⟩

/-- The round of discovery when the plugin starts, if it gets as far as the first probe. -/
def firstPoll : Option Poll :=
  let host := if s.host.length = 0 then Config.defaultHost else s.host
  discover tonumber ⟨s.settings.autoConnectPortRange, s.port, [], s.context⟩
    ⟨s.probe tostring host, s.probe tostring host⟩

/-- `startSession`, if the sync lock can be claimed. -/
def startSession (host port : String) (autoConnected : Bool) : Option StartOptions :=
  if s.lockAvailable then some ⟨host, port, autoConnected⟩ else none

/-- `tryAutoConnect`, if it comes back: whether it takes itself to have connected, and the session. -/
def tryAutoConnect : Option (Bool × Option StartOptions) :=
  if !s.settings.autoConnect then some (false, none)
  else if !s.lockAvailable then some (false, none)
  else
    (s.firstPoll tonumber tostring).map fun poll =>
      match (choose poll.classified.candidates).1 with
      | none => (false, none)
      | some chosen => (true, s.startSession chosen.host chosen.port true)

def findActiveServer : Except ApiContext.ConnectError ServerInfo :=
  ApiContext.connect s.context.place
    (s.servers (baseUrlFor s.getHostAndPort.1 s.getHostAndPort.2))

/-- `tryAutoReconnect`, which goes by the name of the project. -/
def tryAutoReconnect : Bool × Option StartOptions :=
  if !s.settings.autoReconnect then (false, none)
  else
    match s.getPriorSyncInfo.projectName with
    | none => (false, none)
    | some projectName =>
      match s.findActiveServer with
      | .error _ => (false, none)
      | .ok serverInfo =>
        if serverInfo.projectName = projectName then
          (true, s.startSession s.getHostAndPort.1 s.getHostAndPort.2 false)
        else (false, none)

/-- The session that is started when the plugin starts, if there is one. -/
def startup : Option StartOptions := do
  let (didConnect, session) ← s.tryAutoConnect tonumber tostring
  if didConnect then session else s.tryAutoReconnect.2

/-! ## No session against the rules -/

/-- The rules of auto-connect speak against every session: two servers qualify, or the only server
that is found has been rejected. -/
def Forbids : Prop :=
  s.settings.autoConnect = true ∧ ∃ poll, s.firstPoll tonumber tostring = some poll ∧
    (2 ≤ poll.classified.candidates.length ∨
      poll.classified.candidates.length = 0 ∧ poll.classified.rejected.length = 1)

/-- The endpoint of the last sync is served, under the name of the last project, by a server that
speaks the protocol and does not exclude the place. -/
structure Reconnects : Prop where
  autoReconnect : s.settings.autoReconnect = true
  lockAvailable : s.lockAvailable = true
  served : ∃ info, s.servers (baseUrlFor s.getHostAndPort.1 s.getHostAndPort.2) = some info ∧
    s.getPriorSyncInfo.projectName = some info.projectName ∧
    info.protocolVersion = Config.protocolVersion ∧
    (info.expectedPlaceIds ≠ none → lists info.expectedPlaceIds s.context.place = true) ∧
    lists info.unexpectedPlaceIds s.context.place = false

variable {tonumber tostring s}

/-- Where the rules forbid every session, discovery starts none. -/
theorem Forbids.tryAutoConnect (h : s.Forbids tonumber tostring) :
    s.tryAutoConnect tonumber tostring = some (false, none) := by
  obtain ⟨hsetting, poll, hpoll, hcount⟩ := h
  have hnone : (choose poll.classified.candidates).1 = none := by
    refine Option.not_isSome_iff_eq_none.mp fun hsome => ?_
    have hone := isSome_choose.mp hsome
    obtain h | ⟨h, -⟩ := hcount
    · omega
    · omega
  unfold Surroundings.tryAutoConnect
  rw [hsetting, hpoll, Option.map_some, hnone]
  split_ifs <;> rfl

theorem tryAutoReconnect_isSome :
    s.tryAutoReconnect.2.isSome = true ↔ s.Reconnects := by
  unfold tryAutoReconnect findActiveServer
  constructor
  · intro h
    split_ifs at h with hsetting
    · cases h
    · cases hname : s.getPriorSyncInfo.projectName with
      | none =>
        rw [hname] at h
        cases h
      | some projectName =>
        rw [hname] at h
        dsimp only at h
        cases hconnect : ApiContext.connect s.context.place
            (s.servers (baseUrlFor s.getHostAndPort.1 s.getHostAndPort.2)) with
        | error _ =>
          rw [hconnect] at h
          cases h
        | ok info =>
          rw [hconnect] at h
          dsimp only at h
          split_ifs at h with hsame
          · unfold startSession at h
            split_ifs at h with hlock
            · obtain ⟨hserver, hrest⟩ := ApiContext.connect_eq_ok.mp hconnect
              refine ⟨by simpa using hsetting, hlock, info, hserver, ?_, hrest⟩
              rw [hname, hsame]
            · cases h
          · cases h
  · rintro ⟨hsetting, hlock, info, hserver, hname, hrest⟩
    have hconnect := ApiContext.connect_eq_ok.mpr ⟨hserver, hrest⟩
    simp [hsetting, hname, hconnect, startSession, hlock]

/-- Where the rules forbid every session, the plugin starts none exactly if it does not reconnect to the
endpoint of the last sync. -/
theorem startup_eq_none_iff (h : s.Forbids tonumber tostring) :
    s.startup tonumber tostring = none ↔ ¬s.Reconnects := by
  unfold startup
  rw [h.tryAutoConnect, ← tryAutoReconnect_isSome]
  exact Option.not_isSome_iff_eq_none.symm

/-! ### A project that has auto-connect turned off -/

/-- The project of the last sync is the only one that is served, and it has auto-connect turned off. -/
def turnedOff (autoReconnect : Bool) : Surroundings where
  settings :=
    { autoConnect := true
      autoReconnect
      autoConnectPortRange := some "34872"
      priorEndpoints := some (AList.singleton "1818" ⟨none, none, some "ours", none⟩) }
  context := ⟨some 1818, none, none⟩
  lockAvailable := true
  servers url :=
    if url = "http://localhost:34872" then
      some { projectInfo "ours" none with autoConnect := some .off }
    else none

theorem turnedOff_forbids (autoReconnect : Bool) :
    (turnedOff autoReconnect).Forbids (fun _ => none) (fun _ => Config.defaultPort) := by
  have hpoll : ((turnedOff autoReconnect).firstPoll (fun _ => none) fun _ => Config.defaultPort).any
      (fun poll => poll.classified.candidates.length = 0 ∧ poll.classified.rejected.length = 1) := by
    cases autoReconnect <;> decide +kernel
  obtain ⟨poll, hpoll, hcount⟩ := (Option.any_eq_true _ _).mp hpoll
  exact ⟨rfl, poll, hpoll, .inr (of_decide_eq_true hcount)⟩

/-- The plugin reconnects to it. -/
theorem not_startup_turnedOff :
    ¬∀ (tonumber : String → Option Number) (tostring : Number → String) (s : Surroundings),
      s.Forbids tonumber tostring → s.startup tonumber tostring = none := by
  intro h
  exact absurd (h _ _ _ (turnedOff_forbids true)) (by decide +kernel)

theorem startup_turnedOff :
    (turnedOff false).startup (fun _ => none) (fun _ => Config.defaultPort) = none ↔
      ¬(turnedOff false).Reconnects :=
  startup_eq_none_iff (turnedOff_forbids false)

end Surroundings

end Roxo.Plugin
