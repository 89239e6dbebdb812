import Roxo.Plugin.AutoConnect

/-!
# Connecting to a server

What `ApiContext:connect` makes of the response, whoever asked for the connection.
-/

namespace Roxo.Plugin

open AutoConnect

/-- `string.format("%s:%s")`, with the scheme if the host has none. -/
def baseUrlFor (host port : String) : String :=
  if host.startsWith "http://" ∨ host.startsWith "https://" then host ++ ":" ++ port
  else "http://" ++ host ++ ":" ++ port

/-- Place ids that will not have metadata saved for them. -/
def ignorePlaceIds : List String :=
  ["0", "95206881", "6560363541", "95206192", "13165709401", "520390648", "203810088", "366130569",
    "215383192", "264719325", "203812057", "379736082", "301530843", "92721754", "301529772",
    "203885589", "10275826693", "5353920686", "6936227200"]

namespace ApiContext

inductive ConnectError where
  | failedRequest
  | wrongProtocolVersion
  /-- The project is set to be used with other places only. -/
  | notExpectedPlace
  /-- The project is set not to be used with this place. -/
  | unexpectedPlace
  deriving DecidableEq, Repr

def rejectWrongProtocolVersion (info : ServerInfo) : Except ConnectError ServerInfo :=
  if info.protocolVersion ≠ Config.protocolVersion then .error .wrongProtocolVersion else .ok info

def rejectWrongPlaceId (placeId : ℤ) (info : ServerInfo) : Except ConnectError ServerInfo :=
  if info.expectedPlaceIds.isSome ∧ ¬lists info.expectedPlaceIds placeId then
    .error .notExpectedPlace
  else if lists info.unexpectedPlaceIds placeId then .error .unexpectedPlace
  else .ok info

/-- `connect`, at the server that is on the port, if there is one. -/
def connect (placeId : ℤ) (server : Option ServerInfo) : Except ConnectError ServerInfo :=
  match server with
  | none => .error .failedRequest
  | some info => (rejectWrongProtocolVersion info).bind (rejectWrongPlaceId placeId)

/-- Nothing is asked about the identity of the project. -/
theorem connect_eq_ok {placeId : ℤ} {server : Option ServerInfo} {info : ServerInfo} :
    connect placeId server = .ok info ↔ server = some info ∧
      info.protocolVersion = Config.protocolVersion ∧
      (info.expectedPlaceIds ≠ none → lists info.expectedPlaceIds placeId = true) ∧
      lists info.unexpectedPlaceIds placeId = false := by
  cases server with
  | none => simp [connect]
  | some found =>
    rw [Option.some.injEq]
    unfold connect rejectWrongProtocolVersion
    dsimp only
    by_cases hversion : found.protocolVersion = Config.protocolVersion
    · rw [if_neg (not_not.mpr hversion)]
      unfold Except.bind rejectWrongPlaceId
      dsimp only
      split_ifs with hexpected hunexpected
      · refine iff_of_false (by simp) ?_
        rintro ⟨rfl, -, h, -⟩
        exact hexpected.2 (h (Option.isSome_iff_ne_none.mp hexpected.1))
      · refine iff_of_false (by simp) ?_
        rintro ⟨rfl, -, -, h⟩
        rw [h] at hunexpected
        cases hunexpected
      · constructor
        · intro h
          cases h
          refine ⟨rfl, hversion, fun hsome => ?_, Bool.not_eq_true _ ▸ hunexpected⟩
          exact not_not.mp fun hnot => hexpected ⟨Option.isSome_iff_ne_none.mpr hsome, hnot⟩
        · rintro ⟨rfl, -⟩
          rfl
    · rw [if_pos hversion]
      refine iff_of_false (by simp [Except.bind]) ?_
      rintro ⟨rfl, h, -⟩
      exact hversion h

end ApiContext

/-- A project for the places with the ids, or for no place in particular. -/
def projectInfo (sessionId : String) (placeIds : Option (List ℤ)) : ServerInfo where
  sessionId
  protocolVersion := Config.protocolVersion
  projectName := sessionId
  projectId := some sessionId
  projectPath := none
  expectedPlaceIds := placeIds
  unexpectedPlaceIds := none
  gameId := none
  placeId := none
  autoConnect := none
  peerPorts := none

end Roxo.Plugin
