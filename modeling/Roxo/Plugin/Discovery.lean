import Mathlib.Algebra.Order.Ring.Rat
import Roxo.Plugin.PortRanges

/-!
# Discovery

Which ports a poll probes: the preferred one, those of the configured ranges, those that servers
have advertised on an earlier poll, and, once the first answers are there, those that the servers
advertise now. The answers are a parameter of each poll.
-/

namespace Roxo.Plugin

namespace AutoConnect

open Config

/-! ## Polls -/

structure DiscoverOptions where
  portRange : Option String
  preferredPort : String
  knownPeerPorts : List Number
  context : PlaceContext

/-- Take up the ports that are not marked as seen, and mark them. -/
def addPorts (ports seen : List Number) : List Number → List Number × List Number
  | [] => (ports, seen)
  | port :: list =>
    if port ∈ seen then addPorts ports seen list else addPorts (ports ++ [port]) (port :: seen) list

/-- The ports that a poll probes first, and the marks. It raises where NaN would be marked, and goes
on for ever where a loop over a range does. -/
def firstPorts (tonumber : String → Option Number) (options : DiscoverOptions) :
    Option (List Number × List Number) := do
  let preferred := (tonumber options.preferredPort).toList
  if .nan ∈ preferred then none
  else
    let ranges ← rangePorts (parsePortRanges options.portRange)
    let (ports, seen) := addPorts preferred preferred ranges
    let (extra, seen) := extraPorts tonumber (some (options.knownPeerPorts.map .number)) seen
    some (ports ++ extra, seen)

/-- The ports that the servers have advertised and that are not marked, up to the cap. -/
def collectPeerPorts (tonumber : String → Option Number) :
    List (Option ProbeResult) → List Number → List Number → List Number
  | [], _, ports => ports
  | none :: results, seen, ports => collectPeerPorts tonumber results seen ports
  | some result :: results, seen, ports =>
    let (extra, seen) := extraPorts tonumber result.serverInfo.peerPorts seen
    let room := maxPeerPorts - ports.length
    if room < extra.length then ports ++ extra.take room
    else collectPeerPorts tonumber results seen (ports ++ extra)

/-- What answers on a port in the two rounds of a poll, if anything. -/
structure Answers where
  first : Number → Option ProbeResult
  second : Number → Option ProbeResult

structure Poll where
  /-- The ports that have been probed, in their order. -/
  probed : List Number
  classified : Classified

/-- Probes every port in the ranges and those that the servers point at. Where that does not get as
far as the first probe, there is no poll. -/
def discover (tonumber : String → Option Number) (options : DiscoverOptions) (answers : Answers) :
    Option Poll := do
  let (ports, seen) ← firstPorts tonumber options
  let results := ports.map answers.first
  let peerPorts := collectPeerPorts tonumber results seen []
  some
    { probed := ports ++ peerPorts
      classified := classify tonumber (results ++ peerPorts.map answers.second) options.context }

/-- What is known of peers after a poll: only a poll that some server has answered replaces it. -/
def learnedPorts (knownPeerPorts : List Number) (poll : Option Poll) : List Number :=
  match poll with
  | some poll =>
    if poll.classified.candidates.length + poll.classified.rejected.length > 0 then
      poll.classified.peerPorts
    else knownPeerPorts
  | none => knownPeerPorts

/-- What a poll of the plugin starts from, the known peers apart, and what answers it. -/
structure PollInput where
  portRange : Option String
  preferredPort : String
  context : PlaceContext
  answers : Answers

/-- Polls one after the other, with the peers learned on one known to the next. A call that raises or
is stopped may be followed by others. -/
def runPolls (tonumber : String → Option Number) :
    List Number → List PollInput → List (PollInput × Option Poll)
  | _, [] => []
  | knownPeerPorts, input :: inputs =>
    let poll := discover tonumber
      ⟨input.portRange, input.preferredPort, knownPeerPorts, input.context⟩ input.answers
    (input, poll) :: runPolls tonumber (learnedPorts knownPeerPorts poll) inputs

/-! ## Taking up ports -/

section Ports

variable {ports seen list : List Number} {p : Number}

theorem mem_addPorts : p ∈ (addPorts ports seen list).1 ↔ p ∈ ports ∨ p ∈ list ∧ p ∉ seen := by
  induction list generalizing ports seen with
  | nil => simp [addPorts]
  | cons port list ih =>
    unfold addPorts
    split_ifs with h
    · rw [ih]
      grind
    · rw [ih]
      grind

theorem mem_addPorts_seen : p ∈ (addPorts ports seen list).2 ↔ p ∈ seen ∨ p ∈ list := by
  induction list generalizing ports seen with
  | nil => simp [addPorts]
  | cons port list ih =>
    unfold addPorts
    split_ifs with h
    · rw [ih]
      grind
    · rw [ih]
      grind

theorem nodup_addPorts (hports : ports.Nodup) (hseen : ∀ p ∈ ports, p ∈ seen) :
    (addPorts ports seen list).1.Nodup := by
  induction list generalizing ports seen with
  | nil => exact hports
  | cons port list ih =>
    unfold addPorts
    split_ifs with h
    · exact ih hports hseen
    · refine ih ?_ fun p hp => ?_
      · exact hports.append (List.nodup_singleton port) fun q hq hq' =>
          h (List.mem_singleton.mp hq' ▸ hseen q hq)
      · rcases List.mem_append.mp hp with hp | hp
        · exact List.mem_cons_of_mem _ (hseen p hp)
        · exact List.mem_singleton.mp hp ▸ List.mem_cons_self

theorem length_addPorts_le : (addPorts ports seen list).1.length ≤ ports.length + list.length := by
  induction list generalizing ports seen with
  | nil => exact Nat.le_refl _
  | cons port list ih =>
    unfold addPorts
    split_ifs with h
    · exact ih.trans (by simp)
    · refine ih.trans ?_
      simp only [List.length_append, List.length_cons, List.length_nil]
      omega

variable {tonumber : String → Option Number} {advertised : Option (List Advertised)}

theorem foldl_extraStep (l : List Advertised) (ports seen : List Number) :
    l.foldl (extraStep tonumber) (ports, seen) =
      addPorts ports seen (l.filterMap (·.port tonumber)) := by
  induction l generalizing ports seen with
  | nil => rfl
  | cons advertised l ih =>
    rw [List.foldl_cons]
    cases hport : advertised.port tonumber with
    | none =>
      have hstep : extraStep tonumber (ports, seen) advertised = (ports, seen) := by
        simp only [extraStep, hport]
      rw [hstep, ih, List.filterMap_cons_none hport]
    | some port =>
      have hstep : extraStep tonumber (ports, seen) advertised =
          if port ∈ seen then (ports, seen) else (ports ++ [port], port :: seen) := by
        simp only [extraStep, hport]
      rw [hstep, List.filterMap_cons_some hport]
      unfold addPorts
      split_ifs with h
      · exact ih ports seen
      · exact ih (ports ++ [port]) (port :: seen)

theorem extraPorts_eq : extraPorts tonumber advertised seen =
    addPorts [] seen ((advertised.getD []).filterMap (·.port tonumber)) :=
  foldl_extraStep _ [] seen

/-- A whole number from 1 to 65535. -/
def IsPort (p : Number) : Prop := ∃ n : ℕ, 1 ≤ n ∧ n ≤ 65535 ∧ p = .finite n

theorem isPort_iff : p.isPort = true ↔ IsPort p := by
  constructor
  · intro hp
    cases p with
    | finite n =>
      obtain ⟨hden, hone, hmax⟩ := of_decide_eq_true hp
      obtain ⟨z, rfl⟩ : ∃ z : ℤ, n = z := ⟨n.num, ((Rat.den_eq_one_iff n).mp hden).symm⟩
      have hone' : 1 ≤ z := by exact_mod_cast hone
      have hmax' : z ≤ 65535 := by exact_mod_cast hmax
      obtain ⟨n, rfl⟩ := Int.eq_ofNat_of_zero_le (by omega : 0 ≤ z)
      exact ⟨n, by omega, by omega, by simp⟩
    | infinite negative => cases hp
    | nan => cases hp
  · rintro ⟨n, hone, hmax, rfl⟩
    have hone' : (1 : ℚ) ≤ n := by exact_mod_cast hone
    have hmax' : (n : ℚ) ≤ 65535 := by exact_mod_cast hmax
    exact decide_eq_true ⟨Rat.den_natCast n, hone', hmax'⟩

theorem port_eq_some {advertised : Advertised} (h : advertised.port tonumber = some p) : IsPort p :=
  isPort_iff.mp (Option.filter_eq_some_iff.mp h).2

theorem port_number (h : IsPort p) : (Advertised.number p).port tonumber = some p :=
  Option.filter_eq_some_iff.mpr ⟨rfl, isPort_iff.mpr h⟩

theorem mem_extraPorts : p ∈ (extraPorts tonumber advertised seen).1 ↔
    (∃ a ∈ advertised.getD [], a.port tonumber = some p) ∧ p ∉ seen := by
  rw [extraPorts_eq, mem_addPorts, List.mem_filterMap]
  simp

theorem mem_extraPorts_seen : p ∈ (extraPorts tonumber advertised seen).2 ↔
    p ∈ seen ∨ ∃ a ∈ advertised.getD [], a.port tonumber = some p := by
  rw [extraPorts_eq, mem_addPorts_seen, List.mem_filterMap]

theorem nodup_extraPorts : (extraPorts tonumber advertised seen).1.Nodup := by
  rw [extraPorts_eq]
  exact nodup_addPorts List.nodup_nil fun p hp => absurd hp List.not_mem_nil

/-- The ports that peers contribute to a poll: none twice, none that is marked, and not more than
the cap. -/
theorem collectPeerPorts_spec {results : List (Option ProbeResult)} (hports : ports.Nodup)
    (hseen : ∀ p ∈ ports, p ∈ seen) (hlen : ports.length ≤ maxPeerPorts) :
    (collectPeerPorts tonumber results seen ports).Nodup ∧
      (collectPeerPorts tonumber results seen ports).length ≤ maxPeerPorts ∧
      ∀ p ∈ collectPeerPorts tonumber results seen ports, p ∈ ports ∨ p ∉ seen ∧ IsPort p := by
  induction results generalizing seen ports with
  | nil => exact ⟨hports, hlen, fun p hp => .inl hp⟩
  | cons result results ih =>
    cases result with
    | none => exact ih hports hseen hlen
    | some result =>
      have hextra : ∀ p ∈ (extraPorts tonumber result.serverInfo.peerPorts seen).1,
          p ∉ seen ∧ IsPort p := by
        intro p hp
        obtain ⟨⟨a, -, ha⟩, hnot⟩ := mem_extraPorts.mp hp
        exact ⟨hnot, port_eq_some ha⟩
      have hnd : (extraPorts tonumber result.serverInfo.peerPorts seen).1.Nodup := nodup_extraPorts
      have hmarked : ∀ p ∈ (extraPorts tonumber result.serverInfo.peerPorts seen).1,
          p ∈ (extraPorts tonumber result.serverInfo.peerPorts seen).2 :=
        fun p hp => mem_extraPorts_seen.mpr (.inr (mem_extraPorts.mp hp).1)
      have hkept : ∀ p ∈ seen, p ∈ (extraPorts tonumber result.serverInfo.peerPorts seen).2 :=
        fun p hp => mem_extraPorts_seen.mpr (.inl hp)
      unfold collectPeerPorts
      generalize extraPorts tonumber result.serverInfo.peerPorts seen = extra at *
      have hdisjoint : ∀ p ∈ ports, p ∉ extra.1 := fun p hp hp' => (hextra p hp').1 (hseen p hp)
      dsimp only
      split_ifs with hroom
      · refine ⟨?_, ?_, fun p hp => ?_⟩
        · refine hports.append (hnd.sublist (List.take_sublist _ _)) fun p hp hp' => ?_
          exact hdisjoint p hp (List.mem_of_mem_take hp')
        · rw [List.length_append, List.length_take]
          omega
        · exact (List.mem_append.mp hp).imp_right fun hp => hextra p (List.mem_of_mem_take hp)
      · obtain ⟨hnd', hlen', hmem⟩ := @ih (ports ++ extra.1) extra.2
          (hports.append hnd fun p hp hp' => hdisjoint p hp hp')
          (fun p hp => (List.mem_append.mp hp).elim (fun hp => hkept p (hseen p hp)) (hmarked p))
          (by rw [List.length_append]; omega)
        refine ⟨hnd', hlen', fun p hp => ?_⟩
        rcases hmem p hp with hp | ⟨hp, hport⟩
        · exact (List.mem_append.mp hp).imp_right (hextra p)
        · exact .inr ⟨fun h => hp (hkept p h), hport⟩

/-! ### What is learned -/

/-- Some probe has found a server that advertises the port. -/
def AdvertisedIn (tonumber : String → Option Number) (results : List (Option ProbeResult)) (p : Number) :
    Prop :=
  ∃ result, some result ∈ results ∧
    ∃ a ∈ result.serverInfo.peerPorts.getD [], a.port tonumber = some p

variable {context : PlaceContext}

theorem peerPorts_step (acc : Classified × List Number) (result : ProbeResult) :
    (classifyStep tonumber context acc (some result)).1.peerPorts =
        acc.1.peerPorts ++ (extraPorts tonumber result.serverInfo.peerPorts acc.2).1 ∧
      (classifyStep tonumber context acc (some result)).2 =
        (extraPorts tonumber result.serverInfo.peerPorts acc.2).2 := by
  obtain ⟨classified, seenPeers⟩ := acc
  simp only [classifyStep]
  cases evaluate (some result.serverInfo) context <;> exact ⟨rfl, rfl⟩

/-- The peer ports are those that the servers advertise, none twice. -/
theorem peerPorts_foldl {results : List (Option ProbeResult)} {acc : Classified × List Number}
    (hnd : acc.1.peerPorts.Nodup) (hseen : ∀ p, p ∈ acc.1.peerPorts ↔ p ∈ acc.2) :
    (results.foldl (classifyStep tonumber context) acc).1.peerPorts.Nodup ∧
      ∀ p, p ∈ (results.foldl (classifyStep tonumber context) acc).1.peerPorts ↔
        p ∈ acc.1.peerPorts ∨ AdvertisedIn tonumber results p := by
  induction results generalizing acc with
  | nil => exact ⟨hnd, fun p => by simp [AdvertisedIn]⟩
  | cons result results ih =>
    cases result with
    | none =>
      obtain ⟨hnd', hmem⟩ := ih hnd hseen
      refine ⟨hnd', fun p => (hmem p).trans (or_congr_right ?_)⟩
      simp [AdvertisedIn]
    | some result =>
      obtain ⟨hports, hmarks⟩ :
          (classifyStep tonumber context acc (some result)).1.peerPorts = _ ∧
            (classifyStep tonumber context acc (some result)).2 = _ := peerPorts_step acc result
      rw [List.foldl_cons]
      have hnd₁ : (classifyStep tonumber context acc (some result)).1.peerPorts.Nodup := by
        rw [hports]
        refine hnd.append nodup_extraPorts fun p hp hp' => ?_
        exact (mem_extraPorts.mp hp').2 ((hseen p).mp hp)
      have hmem₁ : ∀ p, p ∈ (classifyStep tonumber context acc (some result)).1.peerPorts ↔
          p ∈ acc.1.peerPorts ∨
            ∃ a ∈ result.serverInfo.peerPorts.getD [], a.port tonumber = some p := by
        intro p
        rw [hports, List.mem_append, mem_extraPorts, hseen p]
        tauto
      obtain ⟨hnd', hmem⟩ := ih hnd₁ fun p => by
        rw [hmem₁, hmarks, mem_extraPorts_seen, hseen p]
      refine ⟨hnd', fun p => ?_⟩
      rw [hmem p, hmem₁ p, or_assoc]
      refine or_congr_right ?_
      simp [AdvertisedIn]

/-- Every server that has answered is a candidate or has been rejected. -/
theorem length_foldl (results : List (Option ProbeResult)) (acc : Classified × List Number) :
    (results.foldl (classifyStep tonumber context) acc).1.candidates.length +
        (results.foldl (classifyStep tonumber context) acc).1.rejected.length =
      acc.1.candidates.length + acc.1.rejected.length + results.countP Option.isSome := by
  induction results generalizing acc with
  | nil => rfl
  | cons result results ih =>
    rw [List.foldl_cons, ih, List.countP_cons]
    obtain ⟨classified, seenPeers⟩ := acc
    cases result with
    | none => rfl
    | some result =>
      simp only [classifyStep]
      cases evaluate (some result.serverInfo) context <;>
        simp only [List.length_append, List.length_cons, List.length_nil, Option.isSome_some, if_true]
        <;> omega

theorem length_classify (results : List (Option ProbeResult)) :
    (classify tonumber results context).candidates.length +
        (classify tonumber results context).rejected.length = results.countP Option.isSome := by
  unfold classify
  rw [length_foldl]
  simp

theorem peerPorts_classify (results : List (Option ProbeResult)) :
    (classify tonumber results context).peerPorts.Nodup ∧
      ∀ p, p ∈ (classify tonumber results context).peerPorts ↔ AdvertisedIn tonumber results p := by
  have hfold : ∀ acc : Classified × List Number, acc = (⟨[], [], []⟩, []) →
      (results.foldl (classifyStep tonumber context) acc).1.peerPorts.Nodup ∧ _ :=
    fun acc hacc => peerPorts_foldl (hacc ▸ List.nodup_nil) fun p => hacc ▸ Iff.rfl
  obtain ⟨hnd, hmem⟩ := hfold _ rfl
  exact ⟨hnd, fun p => (hmem p).trans (by simp)⟩

end Ports

/-! ## What a poll probes -/

variable {tonumber : String → Option Number} {context : PlaceContext}

/-- The ports that the settings name. -/
def configuredPorts (tonumber : String → Option Number) (preferredPort : String)
    (portRange : Option String) : List Number :=
  (tonumber preferredPort).toList ++
    (parsePortRanges portRange).flatMap fun range => range.ports.getD []

theorem length_configuredPorts_le (preferredPort : String) (portRange : Option String) :
    (configuredPorts tonumber preferredPort portRange).length ≤
      1 + (parsePortRanges portRange).length * (maxPortRangeSize + 1) := by
  have hpreferred : (tonumber preferredPort).toList.length ≤ 1 := by
    cases tonumber preferredPort <;> simp
  unfold configuredPorts
  rw [List.length_append]
  exact Nat.add_le_add hpreferred (length_flatMap_ports_le _)

/-- What is probed first: the configured ports and the known peers. -/
structure FirstPorts (tonumber : String → Option Number) (options : DiscoverOptions)
    (ports seen : List Number) : Prop where
  nodup : ports.Nodup
  marked : ∀ p ∈ ports, p ∈ seen
  origin : ∀ p ∈ ports, p ∈ configuredPorts tonumber options.preferredPort options.portRange ∨
    IsPort p
  configured : ∀ p ∈ configuredPorts tonumber options.preferredPort options.portRange, p ∈ ports
  known : ∀ p ∈ options.knownPeerPorts, IsPort p → p ∈ ports
  length_le : ports.length ≤
    (configuredPorts tonumber options.preferredPort options.portRange).length +
      options.knownPeerPorts.length

theorem firstPorts_eq_some_iff {options : DiscoverOptions} {first : List Number × List Number} :
    firstPorts tonumber options = some first ↔
      (tonumber options.preferredPort ≠ some .nan ∧
        ∀ range ∈ parsePortRanges options.portRange, range.ports ≠ none) ∧
      first =
        let preferred := (tonumber options.preferredPort).toList
        let taken := addPorts preferred preferred
          ((parsePortRanges options.portRange).flatMap fun range => range.ports.getD [])
        let extra := extraPorts tonumber (some (options.knownPeerPorts.map .number)) taken.2
        (taken.1 ++ extra.1, extra.2) := by
  have hnan : .nan ∈ (tonumber options.preferredPort).toList ↔
      tonumber options.preferredPort = some .nan := Option.mem_toList
  unfold firstPorts
  dsimp only
  rw [ne_eq, ← hnan]
  split_ifs with hmem
  · exact iff_of_false nofun fun h => h.1.1 hmem
  · simp only [Option.bind_eq_bind, Option.bind_eq_some_iff, rangePorts_eq_some_iff]
    constructor
    · rintro ⟨_, ⟨hall, rfl⟩, ⟨⟩⟩
      exact ⟨⟨hmem, hall⟩, rfl⟩
    · rintro ⟨⟨-, hall⟩, rfl⟩
      exact ⟨_, ⟨hall, rfl⟩, rfl⟩

theorem firstPorts_spec {options : DiscoverOptions} {first : List Number × List Number}
    (h : firstPorts tonumber options = some first) :
    FirstPorts tonumber options first.1 first.2 := by
  obtain ⟨-, rfl⟩ := firstPorts_eq_some_iff.mp h
  dsimp only
  have hpreferred : (tonumber options.preferredPort).toList.Nodup := by
    cases tonumber options.preferredPort <;> simp
  have hconfigured : configuredPorts tonumber options.preferredPort options.portRange =
      (tonumber options.preferredPort).toList ++
        (parsePortRanges options.portRange).flatMap fun range => range.ports.getD [] := rfl
  generalize (tonumber options.preferredPort).toList = preferred at *
  generalize (parsePortRanges options.portRange).flatMap (fun range => range.ports.getD []) =
    ranges at *
  have hnd : (addPorts preferred preferred ranges).1.Nodup :=
    nodup_addPorts hpreferred fun _ hp => hp
  have hmem : ∀ p, p ∈ (addPorts preferred preferred ranges).1 ↔
      p ∈ preferred ∨ p ∈ ranges ∧ p ∉ preferred := fun p => mem_addPorts
  have hseen : ∀ p, p ∈ (addPorts preferred preferred ranges).2 ↔ p ∈ preferred ∨ p ∈ ranges :=
    fun p => mem_addPorts_seen
  have hlen : (addPorts preferred preferred ranges).1.length ≤ preferred.length + ranges.length :=
    length_addPorts_le
  generalize addPorts preferred preferred ranges = first at *
  have hfirst : ∀ p, p ∈ preferred ∨ p ∈ ranges → p ∈ first.1 := by
    intro p hp
    rw [hmem]
    by_cases hpref : p ∈ preferred
    · exact .inl hpref
    · exact .inr ⟨hp.resolve_left hpref, hpref⟩
  have hmarked : ∀ p ∈ first.1, p ∈ first.2 := by
    intro p hp
    rw [hseen]
    exact ((hmem p).mp hp).imp_right And.left
  have hextra : ∀ p,
      p ∈ (extraPorts tonumber (some (options.knownPeerPorts.map .number)) first.2).1 ↔ _ :=
    fun p => mem_extraPorts
  have hextraSeen : ∀ p,
      p ∈ (extraPorts tonumber (some (options.knownPeerPorts.map .number)) first.2).2 ↔ _ :=
    fun p => mem_extraPorts_seen
  have hextraNodup :
      (extraPorts tonumber (some (options.knownPeerPorts.map .number)) first.2).1.Nodup :=
    nodup_extraPorts
  have hextraLen : (extraPorts tonumber (some (options.knownPeerPorts.map .number)) first.2).1.length ≤
      options.knownPeerPorts.length := by
    rw [extraPorts_eq]
    refine length_addPorts_le.trans ?_
    rw [List.length_nil, Nat.zero_add]
    exact (List.length_filterMap_le _ _).trans (by simp)
  generalize extraPorts tonumber (some (options.knownPeerPorts.map .number)) first.2 = extra at *
  exact
    { nodup := hnd.append hextraNodup fun p hp hp' => ((hextra p).mp hp').2 (hmarked p hp)
      marked := by
        intro p hp
        rw [hextraSeen]
        rcases List.mem_append.mp hp with hp | hp
        · exact .inl (hmarked p hp)
        · exact .inr ((hextra p).mp hp).1
      origin := by
        intro p hp
        rw [hconfigured]
        rcases List.mem_append.mp hp with hp | hp
        · exact .inl (List.mem_append.mpr (((hmem p).mp hp).imp_right And.left))
        · obtain ⟨⟨a, -, ha⟩, -⟩ := (hextra p).mp hp
          exact .inr (port_eq_some ha)
      configured := by
        intro p hp
        rw [hconfigured] at hp
        exact List.mem_append_left _ (hfirst p (List.mem_append.mp hp))
      known := by
        intro p hp hport
        by_cases hseen' : p ∈ first.2
        · exact List.mem_append_left _ (hfirst p ((hseen p).mp hseen'))
        · exact List.mem_append_right _ ((hextra p).mpr
            ⟨⟨.number p, List.mem_map_of_mem hp, port_number hport⟩, hseen'⟩)
      length_le := by
        rw [hconfigured, List.length_append, List.length_append]
        omega }

theorem discover_eq_some_iff {options : DiscoverOptions} {answers : Answers} {poll : Poll} :
    discover tonumber options answers = some poll ↔
      ∃ first, firstPorts tonumber options = some first ∧
        poll =
          let results := first.1.map answers.first
          let peerPorts := collectPeerPorts tonumber results first.2 []
          ⟨first.1 ++ peerPorts,
            classify tonumber (results ++ peerPorts.map answers.second) options.context⟩ := by
  unfold discover
  simp only [Option.bind_eq_bind, Option.bind_eq_some_iff, Option.some.injEq]
  exact exists_congr fun first => and_congr_right fun _ => eq_comm

/-- One poll: no port twice, peers are ports, and the cap holds for the peers of this poll. -/
theorem discover_spec {options : DiscoverOptions} {answers : Answers} {poll : Poll}
    (h : discover tonumber options answers = some poll) :
    poll.probed.Nodup ∧
      (∀ p ∈ poll.probed,
        p ∈ configuredPorts tonumber options.preferredPort options.portRange ∨ IsPort p) ∧
      (∀ p ∈ options.knownPeerPorts, IsPort p → p ∈ poll.probed) ∧
      poll.probed.length ≤
        (configuredPorts tonumber options.preferredPort options.portRange).length +
          options.knownPeerPorts.length + maxPeerPorts := by
  obtain ⟨first, hfirst, rfl⟩ := discover_eq_some_iff.mp h
  obtain ⟨hnd, hmarked, horigin, -, hknown, hlen⟩ := firstPorts_spec hfirst
  obtain ⟨hnd', hlen', hmem⟩ :
      (collectPeerPorts tonumber (first.1.map answers.first) first.2 []).Nodup ∧ _ ∧ _ :=
    collectPeerPorts_spec List.nodup_nil (fun p hp => absurd hp List.not_mem_nil) (Nat.zero_le _)
  dsimp only
  generalize collectPeerPorts tonumber (first.1.map answers.first) first.2 [] = peers at *
  have hpeers : ∀ p ∈ peers, p ∉ first.2 ∧ IsPort p :=
    fun p hp => (hmem p hp).resolve_left List.not_mem_nil
  refine ⟨hnd.append hnd' fun p hp hp' => (hpeers p hp').1 (hmarked p hp), fun p hp => ?_,
    fun p hp hport => List.mem_append_left _ (hknown p hp hport), ?_⟩
  · exact (List.mem_append.mp hp).elim (horigin p) fun hp => .inr (hpeers p hp).2
  · rw [List.length_append]
    omega

/-! ## What a run of polls probes -/

/-- The servers that run during a poll advertise at most `n` ports between them. -/
def PollInput.AdvertisesAtMost (tonumber : String → Option Number) (n : ℕ) (input : PollInput) :
    Prop :=
  ∃ ports : List Number, ports.length ≤ n ∧
    ∀ q result, input.answers.first q = some result ∨ input.answers.second q = some result →
      ∀ a ∈ result.serverInfo.peerPorts.getD [], ∀ p, a.port tonumber = some p → p ∈ ports

/-- The settings let a poll get as far as the first probe: the preferred port is not NaN, and the loop
over each range comes to its end. -/
def PollInput.Starts (tonumber : String → Option Number) (input : PollInput) : Prop :=
  tonumber input.preferredPort ≠ some .nan ∧ ∀ range ∈ parsePortRanges input.portRange,
    ∃ rounds ports, loopPorts range.high rounds range.low = some ports

theorem discover_isSome_iff {input : PollInput} (known : List Number) :
    (discover tonumber ⟨input.portRange, input.preferredPort, known, input.context⟩
      input.answers).isSome = true ↔ input.Starts tonumber := by
  have hranges : (∀ range ∈ parsePortRanges input.portRange, range.ports ≠ none) ↔
      ∀ range ∈ parsePortRanges input.portRange,
        ∃ rounds ports, loopPorts range.high rounds range.low = some ports := by
    refine forall₂_congr fun range hrange => ?_
    constructor
    · intro h
      obtain ⟨ports, hports⟩ := Option.ne_none_iff_exists'.mp h
      exact ⟨_, ports, hports⟩
    · rintro ⟨rounds, ports, h⟩
      exact (parsePortRanges_parsed _ range hrange).ends h
  unfold PollInput.Starts
  rw [← hranges, Option.isSome_iff_exists]
  constructor
  · rintro ⟨poll, h⟩
    obtain ⟨first, hfirst, -⟩ := discover_eq_some_iff.mp h
    exact (firstPorts_eq_some_iff.mp hfirst).1
  · exact fun h => ⟨_, discover_eq_some_iff.mpr ⟨_, firstPorts_eq_some_iff.mpr ⟨h, rfl⟩, rfl⟩⟩

/-- What is learned on a poll is advertised by the servers of the poll. -/
theorem length_peerPorts_discover {input : PollInput} {n : ℕ}
    (hn : input.AdvertisesAtMost tonumber n) {known : List Number} {poll : Poll}
    (h : discover tonumber ⟨input.portRange, input.preferredPort, known, input.context⟩
      input.answers = some poll) : poll.classified.peerPorts.length ≤ n := by
  obtain ⟨ports, hlen, hports⟩ := hn
  obtain ⟨first, -, rfl⟩ := discover_eq_some_iff.mp h
  dsimp only
  generalize collectPeerPorts tonumber _ first.2 [] = peers
  obtain ⟨hnd, hmem⟩ : (classify tonumber (first.1.map input.answers.first ++
      peers.map input.answers.second) input.context).peerPorts.Nodup ∧ _ := peerPorts_classify _
  refine (List.subperm_of_subset hnd fun p hp => ?_).length_le.trans hlen
  obtain ⟨result, hresult, a, ha, hport⟩ := (hmem p).mp hp
  rcases List.mem_append.mp hresult with hresult | hresult
  · obtain ⟨q, -, hq⟩ := List.mem_map.mp hresult
    exact hports q result (.inl hq) a ha p hport
  · obtain ⟨q, -, hq⟩ := List.mem_map.mp hresult
    exact hports q result (.inr hq) a ha p hport

/-- A run in which the servers of each poll advertise few ports probes few ports on each poll. In
every run a poll gets to its probes exactly if the settings let it, no port is probed twice in one
poll, and peers are only probed on ports. -/
theorem probed_of_run (tonumber : String → Option Number) (c : ℕ) (inputs : List PollInput)
    (h : ∀ input ∈ inputs, input.AdvertisesAtMost tonumber (c * maxPeerPorts)) :
    ∀ e ∈ runPolls tonumber [] inputs,
      (e.2.isSome = true ↔ e.1.Starts tonumber) ∧
      ∀ poll, e.2 = some poll →
        poll.probed.Nodup ∧
        (∀ p ∈ poll.probed,
          p ∈ configuredPorts tonumber e.1.preferredPort e.1.portRange ∨ IsPort p) ∧
        poll.probed.length ≤ 1 + (parsePortRanges e.1.portRange).length * (maxPortRangeSize + 1) +
          (c + 1) * maxPeerPorts := by
  suffices hrun : ∀ known : List Number, known.length ≤ c * maxPeerPorts →
      ∀ e ∈ runPolls tonumber known inputs, (e.2.isSome = true ↔ e.1.Starts tonumber) ∧
        ∀ poll, e.2 = some poll → poll.probed.Nodup ∧
          (∀ p ∈ poll.probed,
            p ∈ configuredPorts tonumber e.1.preferredPort e.1.portRange ∨ IsPort p) ∧
          poll.probed.length ≤ 1 + (parsePortRanges e.1.portRange).length * (maxPortRangeSize + 1) +
            (c + 1) * maxPeerPorts from hrun [] (Nat.zero_le _)
  induction inputs with
  | nil => exact fun _ _ e he => absurd he List.not_mem_nil
  | cons input inputs ih =>
    intro known hknown e he
    rcases List.mem_cons.mp he with rfl | he
    · refine ⟨discover_isSome_iff known, fun poll hpoll => ?_⟩
      obtain ⟨hnd, horigin, -, hlen⟩ := discover_spec hpoll
      refine ⟨hnd, horigin, hlen.trans ?_⟩
      have hconfigured :
          (configuredPorts tonumber input.preferredPort input.portRange).length ≤ _ :=
        length_configuredPorts_le _ _
      rw [Nat.add_one_mul]
      dsimp only
      omega
    · refine ih (fun i hi => h i (List.mem_cons_of_mem _ hi)) _ ?_ e he
      unfold learnedPorts
      split
      · next poll hpoll =>
        split_ifs
        · exact length_peerPorts_discover (h input List.mem_cons_self) hpoll
        · exact hknown
      · exact hknown

/-- A server that advertises ports, and what else a list may hold. -/
def advertiser (port : String) (peerPorts : List Advertised) : ProbeResult where
  host := "localhost"
  port := port
  baseUrl := "http://localhost:" ++ port
  serverInfo :=
    { sessionId := "", protocolVersion := 5, projectName := "", projectId := none
      projectPath := none, expectedPlaceIds := none, unexpectedPlaceIds := none, gameId := none
      placeId := none, autoConnect := none, peerPorts := some peerPorts }

/-- A server in the range, which knows of another one. -/
def near : ProbeResult :=
  advertiser "34872" [.number (.finite 40001), .text "40003", .number (.finite 70000), .other]

def far : ProbeResult := advertiser "40001" [.number (.finite 34872)]

/-- Both are there; then both have stopped; then the setting names a port at which doubles are no
longer told apart. -/
def peerPolls : List PollInput :=
  let context := ⟨none, none, none⟩
  [⟨some "34872-34873", "34872", context, fun port => if port = .finite 34872 then near else none,
      fun port => if port = .finite 40001 then far else none⟩,
    ⟨some "34872-34873", "34872", context, fun _ => none, fun _ => none⟩,
    ⟨some "9007199254740992", "34872", context, fun _ => none, fun _ => none⟩]

/-- `tonumber` of the texts of the polls. -/
def numeral (text : String) : Option Number :=
  if text = "34872" then some (.finite 34872)
  else if text = "40003" then some (.finite 40003)
  else none

theorem peerPolls_advertise :
    ∀ input ∈ peerPolls, input.AdvertisesAtMost numeral (1 * maxPeerPorts) := by
  have hports : ∀ result ∈ [near, far], ∀ a ∈ result.serverInfo.peerPorts.getD [],
      ∀ p ∈ (a.port numeral).toList, p ∈ [.finite 40001, .finite 40003, .finite 34872] := by
    decide +kernel
  intro input hinput
  refine ⟨[.finite 40001, .finite 40003, .finite 34872], by decide, ?_⟩
  intro q result hanswer a ha p hp
  have hresult : result ∈ [near, far] := by
    simp only [peerPolls, List.mem_cons, List.not_mem_nil, or_false] at hinput
    rcases hinput with rfl | rfl | rfl
    · dsimp only at hanswer
      rcases hanswer with hanswer | hanswer
      · split_ifs at hanswer
        exact Option.some.inj hanswer ▸ List.mem_cons_self
      · split_ifs at hanswer
        exact Option.some.inj hanswer ▸ List.mem_cons_of_mem _ List.mem_cons_self
    · rcases hanswer with hanswer | hanswer <;> cases hanswer
    · rcases hanswer with hanswer | hanswer <;> cases hanswer
  exact hports result hresult a ha p (Option.mem_toList.mpr hp)

theorem probed_of_run_peers :
    (runPolls numeral [] peerPolls).map (fun e => e.2.map Poll.probed) =
      [some [.finite 34872, .finite 34873, .finite 40001, .finite 40003],
        some [.finite 34872, .finite 34873, .finite 40001, .finite 40003],
        none] ∧
    ∀ e ∈ runPolls numeral [] peerPolls,
      (e.2.isSome = true ↔ e.1.Starts numeral) ∧
      ∀ poll, e.2 = some poll →
        poll.probed.Nodup ∧
        (∀ p ∈ poll.probed,
          p ∈ configuredPorts numeral e.1.preferredPort e.1.portRange ∨ IsPort p) ∧
        poll.probed.length ≤ 1 + (parsePortRanges e.1.portRange).length * (maxPortRangeSize + 1) +
          (1 + 1) * maxPeerPorts :=
  ⟨by decide +kernel, probed_of_run numeral 1 peerPolls peerPolls_advertise⟩

/-! ## A port scan -/

/-- The first ports, as many as `count`. -/
def manyPorts (count : ℕ) : List Advertised :=
  (List.range count).map fun n => .number (.finite (n + 1 : ℕ))

/-- A poll with the default settings that a server answers, or that nothing answers. -/
def scanPoll (answer : Option ProbeResult) : PollInput where
  portRange := none
  preferredPort := ""
  context := ⟨none, none, none⟩
  answers := ⟨fun _ => answer, fun _ => none⟩

theorem exists_scanPoll (answer : Option ProbeResult) (known : List Number) :
    ∃ poll, discover (fun _ => none) ⟨none, "", known, ⟨none, none, none⟩⟩
      (scanPoll answer).answers = some poll := by
  have hranges : ∀ range ∈ parsePortRanges none, range.ports ≠ none := by decide +kernel
  refine Option.isSome_iff_exists.mp ((@discover_isSome_iff _ (scanPoll answer) known).mpr ?_)
  refine ⟨nofun, fun range hrange => ?_⟩
  obtain ⟨ports, hports⟩ := Option.ne_none_iff_exists'.mp (hranges range hrange)
  exact ⟨_, ports, hports⟩

/-- After a poll that such a server has answered, the next one probes all that it advertises. -/
theorem advertised_probed {count : ℕ} (hcount : count ≤ 65535) :
    ∃ e ∈ runPolls (fun _ => none) []
        [scanPoll (advertiser "34872" (manyPorts count)), scanPoll none],
      e.1.portRange = none ∧ ∃ poll, e.2 = some poll ∧ count ≤ poll.probed.length := by
  obtain ⟨poll, hpoll⟩ := exists_scanPoll (some (advertiser "34872" (manyPorts count))) []
  obtain ⟨poll', hpoll'⟩ := exists_scanPoll none (learnedPorts [] (some poll))
  have hmem : (scanPoll none, some poll') ∈ runPolls (fun _ => none) []
      [scanPoll (advertiser "34872" (manyPorts count)), scanPoll none] := by
    refine List.mem_cons_of_mem _ (List.mem_cons.mpr (.inl (Prod.ext rfl ?_)))
    rw [← hpoll', ← hpoll]
    rfl
  refine ⟨_, hmem, rfl, poll', rfl, ?_⟩
  obtain ⟨hnd, -, hprobed, -⟩ := discover_spec hpoll'
  have hknown : ∀ n : ℕ, n < count → .finite (n + 1 : ℕ) ∈ learnedPorts [] (some poll) := by
    intro n hn
    obtain ⟨first, hfirst, rfl⟩ := discover_eq_some_iff.mp hpoll
    -- the first poll finds the server on a port of the default ranges
    have hconfigured : .finite 34370 ∈ configuredPorts (fun _ => none) "" none := by decide +kernel
    have hresult : ∀ peers : List Number, some (advertiser "34872" (manyPorts count)) ∈
        first.1.map (scanPoll (advertiser "34872" (manyPorts count))).answers.first ++
          peers.map (scanPoll (advertiser "34872" (manyPorts count))).answers.second :=
      fun peers => List.mem_append_left _ (List.mem_map.mpr
        ⟨.finite 34370, (firstPorts_spec hfirst).configured _ hconfigured, rfl⟩)
    unfold learnedPorts
    dsimp only
    rw [length_classify, if_pos (List.countP_pos_iff.mpr ⟨_, hresult _, rfl⟩)]
    refine ((peerPorts_classify _).2 _).mpr ⟨_, hresult _, .number (.finite (n + 1 : ℕ)), ?_, ?_⟩
    · exact List.mem_map.mpr ⟨n, List.mem_range.mpr hn, rfl⟩
    · exact port_number ⟨n + 1, by omega, by omega, rfl⟩
  have hall : (List.range count).map (fun n => Number.finite (n + 1 : ℕ)) ⊆ poll'.probed := by
    intro p hp
    obtain ⟨n, hn, rfl⟩ := List.mem_map.mp hp
    have hn := List.mem_range.mp hn
    exact hprobed _ (hknown n hn) ⟨n + 1, by omega, by omega, rfl⟩
  have hnodup : ((List.range count).map fun n => Number.finite (n + 1 : ℕ)).Nodup :=
    List.nodup_range.map fun a b hab => by
      have hcast : ((a + 1 : ℕ) : ℚ) = (b + 1 : ℕ) := Number.finite.inj hab
      have : a + 1 = b + 1 := by exact_mod_cast hcast
      omega
  have hlen := (List.subperm_of_subset hnodup hall).length_le
  rw [List.length_map, List.length_range] at hlen
  exact hlen

/-- No constant short of what allows for nearly every port there is bounds what a poll probes. -/
theorem not_probed_bounded : ¬∃ c ≤ 4091, ∀ inputs, ∀ e ∈ runPolls (fun _ => none) [] inputs,
    ∀ poll, e.2 = some poll → poll.probed.length ≤
      1 + (parsePortRanges e.1.portRange).length * (maxPortRangeSize + 1) + c * maxPeerPorts := by
  rintro ⟨c, hc, h⟩
  obtain ⟨e, he, hrange, poll, hpoll, hlen⟩ := advertised_probed (Nat.le_refl 65535)
  have hbound := h _ e he poll hpoll
  have hranges : (parsePortRanges none).length = 2 := by decide
  rw [hrange, hranges] at hbound
  unfold maxPortRangeSize maxPeerPorts at hbound
  omega

end AutoConnect

end Roxo.Plugin
