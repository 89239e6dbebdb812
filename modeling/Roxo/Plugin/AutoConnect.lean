import Mathlib.Data.List.Perm.Basic
import Mathlib.Data.Rat.Defs
import Roxo.Library.AssocMap

/-!
# Auto-connect

Which servers a place may attach to without a person pressing Connect. `evaluate` judges one server,
`classify` the results of a round of probes, and `choose` takes a candidate that has no rival.
-/

namespace Roxo.Plugin

open AssocMap

namespace Config

def protocolVersion : ℤ := 5

def defaultHost : String := "localhost"

def defaultPort : String := "34872"

end Config

namespace AutoConnect

/-! ## What is judged -/

/-- How a candidate proved that it belongs to this place, strongest first. -/
inductive MatchReason where
  | servePlaceIds
  | gameId
  | paired
  | declared
  deriving DecidableEq, Repr

inductive RejectCode where
  | noServerInfo
  | protocolMismatch
  | blockedPlace
  | notInServePlaceIds
  | autoConnectOff
  | unpublishedPlace
  | alwaysOnPublishedPlace
  | noIdentityMatch
  deriving DecidableEq, Repr

def MatchReason.strength : MatchReason → ℕ
  | .servePlaceIds => 4
  | .gameId => 3
  | .paired => 2
  | .declared => 1

/-- The policy of a project. Servers may send any text. -/
inductive Policy where
  | off
  | matching
  | always
  | other (text : String)
  deriving DecidableEq, Repr

/-- A number of Luau. Both zeros are one, as they are where they are keys of a table. -/
inductive Number where
  | finite (n : ℚ)
  | infinite (negative : Bool)
  | nan
  deriving DecidableEq, Repr

/-- An element of a list that a server sends as ports. -/
inductive Advertised where
  | number (n : Number)
  | text (text : String)
  | other
  deriving DecidableEq, Repr

/-- The body of the response to `/api/rojo`. Upstream servers leave out the optional fields. -/
structure ServerInfo where
  sessionId : String
  protocolVersion : ℤ
  projectName : String
  projectId : Option String
  projectPath : Option String
  expectedPlaceIds : Option (List ℤ)
  unexpectedPlaceIds : Option (List ℤ)
  gameId : Option ℤ
  placeId : Option ℤ
  autoConnect : Option Policy
  /-- `none` where the field is no table. -/
  peerPorts : Option (List Advertised)
  deriving DecidableEq, Repr

/-- A project that a person has connected a place to. -/
structure Pairing where
  projectId : String
  projectName : String
  projectPath : Option String
  host : String
  port : String
  timestamp : ℕ
  deriving DecidableEq, Repr

/-- The identity of a place and its saved pairings. -/
structure PlaceContext where
  placeId : Option ℤ
  gameId : Option ℤ
  pairings : Option (Map String Pairing)

structure Match where
  reason : MatchReason
  strength : ℕ
  deriving DecidableEq, Repr

structure Rejection where
  reason : String
  code : RejectCode
  deriving DecidableEq, Repr

def Match.of (reason : MatchReason) : Match := ⟨reason, reason.strength⟩

/-! ## Judging a server -/

def ServerInfo.policy (info : ServerInfo) : Policy := info.autoConnect.getD .matching

def PlaceContext.place (context : PlaceContext) : ℤ := context.placeId.getD 0

def PlaceContext.game (context : PlaceContext) : ℤ := context.gameId.getD 0

/-- `table.find` in a list that may be missing. -/
def lists (ids : Option (List ℤ)) (id : ℤ) : Bool := ids.any (·.contains id)

/-- The place has been paired with the project of the server. -/
def isPaired (info : ServerInfo) (context : PlaceContext) : Bool :=
  match context.pairings.bind (·.lookup (toString context.place)), info.projectId with
  | some pairing, some projectId => pairing.projectId = projectId
  | _, _ => false

/-- Decides whether a place may attach to a server without confirmation. -/
def evaluate (serverInfo : Option ServerInfo) (context : PlaceContext) : Except Rejection Match :=
  match serverInfo with
  | none => .error ⟨"no server info", .noServerInfo⟩
  | some info =>
    if info.protocolVersion ≠ Config.protocolVersion then
      .error ⟨"incompatible protocol version", .protocolMismatch⟩
    -- first, so that a pairing cannot override an explicit exclusion
    else if lists info.unexpectedPlaceIds context.place then
      .error ⟨"this place is listed in blockedPlaceIds", .blockedPlace⟩
    else if info.expectedPlaceIds.isSome ∧ ¬lists info.expectedPlaceIds context.place then
      .error ⟨"this place is not listed in servePlaceIds", .notInServePlaceIds⟩
    else if info.policy = .off then
      .error ⟨"the project has auto-connect turned off", .autoConnectOff⟩
    else if context.place ≠ 0 ∧ lists info.expectedPlaceIds context.place then
      .ok (.of .servePlaceIds)
    else if context.game ≠ 0 ∧ info.gameId = some context.game then .ok (.of .gameId)
    else if context.place ≠ 0 ∧ isPaired info context then .ok (.of .paired)
    else if info.policy = .always ∧ context.place = 0 then .ok (.of .declared)
    else if context.place = 0 then
      .error ⟨"this place is unpublished, so it has no ID to match against. " ++
        "Set \"autoConnect\": \"always\" in the project file, or connect once by hand to pair them.",
        .unpublishedPlace⟩
    else if info.policy = .always then
      .error ⟨"the project is set to 'always', which only applies to unpublished places. " ++
        "Add this place to servePlaceIds, or connect once by hand to pair them.",
        .alwaysOnPublishedPlace⟩
    else
      .error ⟨"nothing identifies this place as belonging to the project. " ++
        "Add this place to servePlaceIds, or connect once by hand to pair them.", .noIdentityMatch⟩

/-- The server is a match for the place. -/
def matches' (context : PlaceContext) (info : ServerInfo) : Bool :=
  (evaluate (some info) context).isOk

/-- What identifies the place as one of the project. -/
inductive Identified (info : ServerInfo) (context : PlaceContext) : Prop
  | servePlaceIds (hplace : context.place ≠ 0)
      (hlisted : lists info.expectedPlaceIds context.place = true)
  | gameId (hgame : context.game ≠ 0) (heq : info.gameId = some context.game)
  | paired (hplace : context.place ≠ 0) (hpaired : isPaired info context = true)
  | declared (hplace : context.place = 0) (hpolicy : info.policy = .always)

/-- All that a server must fulfil. -/
structure Authorized (info : ServerInfo) (context : PlaceContext) : Prop where
  protocol : info.protocolVersion = Config.protocolVersion
  notBlocked : lists info.unexpectedPlaceIds context.place = false
  served : info.expectedPlaceIds ≠ none → lists info.expectedPlaceIds context.place = true
  notOff : info.policy ≠ .off
  identified : Identified info context

theorem isOk_refuse {ε α : Type} {c : Prop} [Decidable c] {e : ε} {result : Except ε α} :
    (if c then .error e else result).isOk = true ↔ ¬c ∧ result.isOk = true := by
  split_ifs with hc
  · exact iff_of_false Bool.false_ne_true fun h => h.1 hc
  · exact ⟨fun h => ⟨hc, h⟩, And.right⟩

theorem isOk_accept {ε α : Type} {c : Prop} [Decidable c] {a : α} {result : Except ε α} :
    (if c then .ok a else result).isOk = true ↔ c ∨ result.isOk = true := by
  split_ifs with hc
  · exact iff_of_true rfl (.inl hc)
  · exact ⟨.inr, fun h => h.resolve_left hc⟩

/-- A server is accepted exactly if it fulfils all of it. -/
theorem matches'_iff {info : ServerInfo} {context : PlaceContext} :
    matches' context info = true ↔ Authorized info context := by
  unfold matches' evaluate
  rw [isOk_refuse, isOk_refuse, isOk_refuse, isOk_refuse, isOk_accept, isOk_accept, isOk_accept,
    isOk_accept, isOk_refuse, isOk_refuse]
  constructor
  · rintro ⟨hprotocol, hblocked, hserved, hoff, hidentified⟩
    refine ⟨not_not.mp hprotocol, Bool.not_eq_true _ ▸ hblocked, fun hsome => ?_, hoff, ?_⟩
    · exact not_not.mp fun hnot => hserved ⟨Option.isSome_iff_ne_none.mpr hsome, hnot⟩
    · rcases hidentified with ⟨hplace, hlisted⟩ | ⟨hgame, heq⟩ | ⟨hplace, hpaired⟩ |
        ⟨hpolicy, hplace⟩ | ⟨-, -, herror⟩
      · exact .servePlaceIds hplace hlisted
      · exact .gameId hgame heq
      · exact .paired hplace hpaired
      · exact .declared hplace hpolicy
      · cases herror
  · intro h
    have hserved : ¬(info.expectedPlaceIds.isSome ∧
        ¬lists info.expectedPlaceIds context.place = true) :=
      fun hnot => hnot.2 (h.served (Option.isSome_iff_ne_none.mp hnot.1))
    refine ⟨not_not.mpr h.protocol, Bool.eq_false_iff.mp h.notBlocked, hserved, h.notOff, ?_⟩
    cases h.identified with
    | servePlaceIds hplace hlisted => exact .inl ⟨hplace, hlisted⟩
    | gameId hgame heq => exact .inr (.inl ⟨hgame, heq⟩)
    | paired hplace hpaired => exact .inr (.inr (.inl ⟨hplace, hpaired⟩))
    | declared hplace hpolicy => exact .inr (.inr (.inr (.inl ⟨hpolicy, hplace⟩)))

/-- Blocking more places accepts no further server. -/
theorem Authorized.of_more_blocked {info : ServerInfo} {context : PlaceContext}
    {ids : List ℤ} (hids : ∀ id ∈ info.unexpectedPlaceIds.getD [], id ∈ ids)
    (h : Authorized { info with unexpectedPlaceIds := some ids } context) :
    Authorized info context where
  protocol := h.protocol
  notBlocked := by
    have hnot := h.notBlocked
    cases hblocked : info.unexpectedPlaceIds with
    | none => rfl
    | some blocked =>
      rw [hblocked] at hids
      simp only [lists, Option.any_some, List.contains_eq_mem, decide_eq_false_iff_not] at hnot ⊢
      exact fun hmem => hnot (hids _ hmem)
  served := h.served
  notOff := h.notOff
  identified := by
    cases h.identified with
    | servePlaceIds hplace hlisted => exact .servePlaceIds hplace hlisted
    | gameId hgame heq => exact .gameId hgame heq
    | paired hplace hpaired => exact .paired hplace hpaired
    | declared hplace hpolicy => exact .declared hplace hpolicy

/-! ## A round of probes -/

/-- What a probe resolves to where a server has answered. -/
structure ProbeResult where
  host : String
  port : String
  baseUrl : String
  serverInfo : ServerInfo
  deriving DecidableEq, Repr

structure Candidate extends ProbeResult where
  «match» : Match
  deriving DecidableEq, Repr

structure Rejected where
  projectName : String
  port : String
  baseUrl : String
  serverInfo : ServerInfo
  reason : String
  code : RejectCode
  deriving DecidableEq, Repr

/-- What is infinite or no number leaves no remainder that is zero. -/
def Number.isPort : Number → Bool
  | .finite n => n.den = 1 ∧ 1 ≤ n ∧ n ≤ 65535
  | _ => false

/-- The port of an element, if it is one. The text of a number converts as `tonumber` has it. -/
def Advertised.port (tonumber : String → Option Number) (advertised : Advertised) :
    Option Number :=
  let number := match advertised with
    | .number n => some n
    | .text numeral => tonumber numeral
    | .other => none
  number.filter Number.isPort

/-- One element of `extraPorts`. -/
def extraStep (tonumber : String → Option Number) :
    List Number × List Number → Advertised → List Number × List Number
  | (ports, seen), advertised =>
    match advertised.port tonumber with
    | some port => if port ∈ seen then (ports, seen) else (ports ++ [port], port :: seen)
    | none => (ports, seen)

/-- The ports of a list that are not marked as seen, and the marks with them added. -/
def extraPorts (tonumber : String → Option Number) (list : Option (List Advertised))
    (seen : List Number) : List Number × List Number :=
  (list.getD []).foldl (extraStep tonumber) ([], seen)

structure Classified where
  candidates : List Candidate
  rejected : List Rejected
  peerPorts : List Number

/-- One result of `classify`. -/
def classifyStep (tonumber : String → Option Number) (context : PlaceContext) :
    Classified × List Number → Option ProbeResult → Classified × List Number
  | (classified, seenPeers), none => (classified, seenPeers)
  | (classified, seenPeers), some result =>
    let (ports, seenPeers) := extraPorts tonumber result.serverInfo.peerPorts seenPeers
    let classified := { classified with peerPorts := classified.peerPorts ++ ports }
    match evaluate (some result.serverInfo) context with
    | .ok «match» =>
      ({ classified with candidates := classified.candidates ++ [{ result with «match» }] },
        seenPeers)
    | .error rejection =>
      ({ classified with rejected := classified.rejected ++ [⟨result.serverInfo.projectName,
        result.port, result.baseUrl, result.serverInfo, rejection.reason, rejection.code⟩] },
        seenPeers)

/-- Splits probe results, which have holes where a port was closed, into servers that this place
may attach to and servers that it may not. -/
def classify (tonumber : String → Option Number) (results : List (Option ProbeResult))
    (context : PlaceContext) : Classified :=
  (results.foldl (classifyStep tonumber context) (⟨[], [], []⟩, [])).1

/-- Chooses at most one candidate, or else the candidates that tied. -/
def choose : List Candidate → Option Candidate × List Candidate
  | [] => (none, [])
  | [candidate] => (some candidate, [])
  | candidates => (none, candidates)

/-! ## What is chosen -/

variable {tonumber : String → Option Number} {context : PlaceContext}

/-- The candidate that a result makes. -/
def candidateOf (context : PlaceContext) (result : ProbeResult) : Option Candidate :=
  match evaluate (some result.serverInfo) context with
  | .ok «match» => some { result with «match» }
  | .error _ => none

theorem isSome_candidateOf (context : PlaceContext) (result : ProbeResult) :
    (candidateOf context result).isSome = matches' context result.serverInfo := by
  unfold candidateOf matches'
  cases evaluate (some result.serverInfo) context <;> rfl

theorem candidates_step (acc : Classified × List Number) (result : Option ProbeResult) :
    (classifyStep tonumber context acc result).1.candidates =
      acc.1.candidates ++ (result.bind (candidateOf context)).toList := by
  obtain ⟨classified, seenPeers⟩ := acc
  cases result with
  | none => exact (List.append_nil _).symm
  | some result =>
    simp only [classifyStep, Option.bind_some, candidateOf]
    cases evaluate (some result.serverInfo) context with
    | ok «match» => rfl
    | error rejection => exact (List.append_nil _).symm

theorem candidates_foldl (acc : Classified × List Number) (results : List (Option ProbeResult)) :
    (results.foldl (classifyStep tonumber context) acc).1.candidates =
      acc.1.candidates ++ results.filterMap (·.bind (candidateOf context)) := by
  induction results generalizing acc with
  | nil => exact (List.append_nil _).symm
  | cons result results ih =>
    rw [List.foldl_cons, ih, candidates_step, List.append_assoc, List.filterMap_cons]
    cases result.bind (candidateOf context) <;> rfl

/-- The candidates are the results that qualify, in their order. -/
theorem candidates_classify (results : List (Option ProbeResult)) :
    (classify tonumber results context).candidates =
      results.filterMap (·.bind (candidateOf context)) := by
  unfold classify
  rw [candidates_foldl]
  exact List.nil_append _

/-- The result of a probe qualifies. -/
def qualifies (context : PlaceContext) (result : Option ProbeResult) : Bool :=
  result.any fun result => matches' context result.serverInfo

theorem length_candidates (results : List (Option ProbeResult)) :
    (classify tonumber results context).candidates.length =
      results.countP (qualifies context) := by
  rw [candidates_classify, List.length_filterMap_eq_countP]
  refine List.countP_congr fun result _ => ?_
  cases result with
  | none => exact Iff.rfl
  | some result =>
    show (candidateOf context result).isSome = true ↔ _
    rw [isSome_candidateOf]
    exact Iff.rfl

theorem choose_eq_some {candidates : List Candidate} {candidate : Candidate} :
    (choose candidates).1 = some candidate ↔ candidates = [candidate] := by
  match candidates with
  | [] => simp [choose]
  | [_] => simp [choose]
  | _ :: _ :: _ => simp [choose]

theorem isSome_choose {candidates : List Candidate} :
    (choose candidates).1.isSome = true ↔ candidates.length = 1 := by
  rw [Option.isSome_iff_exists, List.length_eq_one_iff]
  exact exists_congr fun _ => choose_eq_some

/-- The chosen candidate is a result of a probe, and its server is a match. -/
theorem authorized_of_choose {results : List (Option ProbeResult)} {candidate : Candidate}
    (h : (choose (classify tonumber results context).candidates).1 = some candidate) :
    some candidate.toProbeResult ∈ results ∧ Authorized candidate.serverInfo context := by
  have hmem : candidate ∈ (classify tonumber results context).candidates := by
    rw [choose_eq_some.mp h]
    exact List.mem_singleton_self _
  rw [candidates_classify, List.mem_filterMap] at hmem
  obtain ⟨result, hresult, hcandidate⟩ := hmem
  obtain ⟨result, rfl, hof⟩ := Option.bind_eq_some_iff.mp hcandidate
  have hmatch : matches' context result.serverInfo = true := by
    rw [← isSome_candidateOf, hof]
    rfl
  have heq : candidate.toProbeResult = result := by
    unfold candidateOf at hof
    cases he : evaluate (some result.serverInfo) context with
    | ok «match» =>
      rw [he] at hof
      rw [← Option.some.inj hof]
    | error rejection =>
      rw [he] at hof
      cases hof
  rw [heq]
  exact ⟨hresult, matches'_iff.mp hmatch⟩

theorem choose_perm {results results' : List (Option ProbeResult)} (h : results.Perm results') :
    (choose (classify tonumber results context).candidates).1 =
      (choose (classify tonumber results' context).candidates).1 := by
  rw [candidates_classify, candidates_classify]
  have hperm := h.filterMap (·.bind (candidateOf context))
  refine Option.ext fun candidate => ?_
  rw [choose_eq_some, choose_eq_some]
  constructor <;> intro heq
  · rw [heq] at hperm
    exact List.perm_singleton.mp hperm.symm
  · rw [heq] at hperm
    exact List.perm_singleton.mp hperm

/-- A server is chosen exactly if it is the only one to qualify, in whatever order the probes come
back, a server qualifies exactly if it is authorized, and blocking more places accepts no further
server. -/
theorem choose_authorized (tonumber : String → Option Number) (context : PlaceContext) :
    (∀ results : List (Option ProbeResult),
      ((choose (classify tonumber results context).candidates).1.isSome = true ↔
        results.countP (qualifies context) = 1) ∧
      (∀ candidate, (choose (classify tonumber results context).candidates).1 = some candidate →
        some candidate.toProbeResult ∈ results ∧ qualifies context (some candidate.toProbeResult)) ∧
      ∀ results' : List (Option ProbeResult), results.Perm results' →
        (choose (classify tonumber results context).candidates).1 =
          (choose (classify tonumber results' context).candidates).1) ∧
    (∀ info, matches' context info = true ↔ Authorized info context) ∧
    ∀ info ids, (∀ id ∈ info.unexpectedPlaceIds.getD [], id ∈ ids) →
      matches' context { info with unexpectedPlaceIds := some ids } = true →
        matches' context info = true := by
  refine ⟨fun results => ⟨?_, fun candidate h => ?_, fun _ => choose_perm⟩,
    fun _ => matches'_iff, fun info ids hids h => ?_⟩
  · rw [isSome_choose, length_candidates]
  · obtain ⟨hmem, hauthorized⟩ := authorized_of_choose h
    exact ⟨hmem, matches'_iff.mpr hauthorized⟩
  · exact matches'_iff.mpr (Authorized.of_more_blocked hids (matches'_iff.mp h))

end AutoConnect

end Roxo.Plugin
