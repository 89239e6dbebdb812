import Roxo.Cli.Mcp
import Roxo.Library.Transition

/-!
# The children of the MCP server

`roxo_serve_start` spawns a child and polls the registry until the child advertises itself.
Dropping the handle of a child does not kill it, so a child that is neither waited on nor stored is
lost. This happens exactly when the registry cannot be read during the wait, when the session is at
a port that another child is stored under, and when killing or reaping a child fails
(`owned_iff`).
-/

namespace Roxo.Mcp

open AssocMap Transition

structure McpServer where
  spawned : Map UInt16 Child
  /-- What the current `roxo_serve_start` call waits on, with its project. -/
  waiting : Option (PathBuf × Child)
  /-- The children that have been spawned. -/
  made : List Child
  /-- The children that have been waited for until they had ended. -/
  reaped : List Child

namespace McpServer

def new : McpServer := ⟨∅, none, [], []⟩

/-- Notes that waiting for a child has come back. -/
def reap (server : McpServer) (child : Child) (result : Except String Unit) : McpServer :=
  match result with
  | .ok () => { server with reaped := child :: server.reaped }
  | .error _ => server

/-! ## Starting -/

def pluginDefaultPortRanges : List (UInt16 × UInt16) := [(34370, 34379), (34872, 34881)]

/-- What a started session is reported with: it is in the scan range of the plugin. -/
def scanned (port : UInt16) : Bool :=
  pluginDefaultPortRanges.any fun range => range.1 ≤ port && port ≤ range.2

/-- The first half of `tool_serve_start`, up to the loop. -/
def serveStart (server : McpServer) (arguments : Json) (spawn : Except String UInt32) :
    McpServer × Except String Unit :=
  match projectOf arguments with
  | none => (server, .error "The 'project' argument is required")
  | some project =>
    match spawn with
    | .error err => (server, .error err)
    | .ok pid =>
      let child : Child := ⟨server.made.length, pid⟩
      ({ server with waiting := some (project, child), made := child :: server.made }, .ok ())

/-- One round of the loop, with what follows it; no result while the loop goes on. -/
def pollStart (server : McpServer) (project : PathBuf) (child : Child)
    (listing : Except String (List SessionBeacon)) (expired : Bool) (signal : Signal) :
    McpServer × Option (Except String (SessionBeacon × Bool)) :=
  match listing with
  | .error err => ({ server with waiting := none }, some (.error err))
  | .ok sessions =>
    match sessions.find? fun session => session.pid = child.pid with
    | some session =>
      ({ server with waiting := none, spawned := server.spawned.insert session.port child },
        some (.ok (session, scanned session.port)))
    | none =>
      if expired then
        (({ server with waiting := none }).reap child signal.wait,
          some (.error ("The server for '" ++ project.display ++ "' did not start within 20s. " ++
            "The project may have failed to load, or the port may already be in use. Run " ++
            "`roxo serve` on it directly to see the error.")))
      else (server, none)

/-! ## Stopping -/

/-- `tool_serve_stop`. A child that cannot be killed is not waited for. -/
def serveStop (server : McpServer) (arguments : Json) (signal : Signal) :
    McpServer × Except String UInt16 :=
  let (spawned, result) := toolServeStop server.spawned arguments signal
  let server' := { server with spawned }
  match (portOf arguments).bind server.spawned.lookup with
  | none => (server', result)
  | some child =>
    match signal.kill with
    | .ok () => (server'.reap child signal.wait, result)
    | .error _ => (server', result)

/-- `stop_all`, when the server is dropped. -/
def stopAll (server : McpServer) (signals : Child → Signal) : McpServer :=
  server.spawned.entries.foldl (fun server entry => server.reap entry.2 (signals entry.2).wait)
    { server with spawned := ∅ }

/-! ## Runs -/

/-- What happens next. One call is served after the other. -/
inductive McpEvent where
  | serveStart (arguments : Json) (spawn : Except String UInt32)
  /-- A round of the loop of `tool_serve_start`. -/
  | poll (listing : Except String (List SessionBeacon)) (expired : Bool) (signal : Signal)
  | serveStop (arguments : Json) (signal : Signal)
  | stopAll (signals : Child → Signal)

/-- The step of an event, if it can happen. -/
def step (server : McpServer) : McpEvent → Option McpServer
  | .serveStart arguments spawn =>
    if server.waiting.isSome then none else some (server.serveStart arguments spawn).1
  | .poll listing expired signal =>
    match server.waiting with
    | some (project, child) => some (server.pollStart project child listing expired signal).1
    | none => none
  | .serveStop arguments signal =>
    if server.waiting.isSome then none else some (server.serveStop arguments signal).1
  | .stopAll signals => if server.waiting.isSome then none else some (server.stopAll signals)

def Act (server : McpServer) (e : McpEvent) (server' : McpServer) : Prop :=
  server.step e = some server'

/-- The child is waited on in the current call, or stored, or has been killed and reaped. -/
def Kept (server : McpServer) (child : Child) : Prop :=
  (∃ project, server.waiting = some (project, child)) ∨
    (∃ port, server.spawned.lookup port = some child) ∨ child ∈ server.reaped

/-- No child is lost. -/
def Owned (server : McpServer) : Prop := ∀ child ∈ server.made, server.Kept child

/-- What a round of the loop has to find: the registry can be read, no other child is stored at
the port of the session, and the child is reaped when it is given up. -/
def CarefulPoll (server : McpServer) (child : Child) (listing : Except String (List SessionBeacon))
    (expired : Bool) (signal : Signal) : Prop :=
  match listing with
  | .error _ => False
  | .ok sessions =>
    match sessions.find? fun session => session.pid = child.pid with
    | some session => server.spawned.lookup session.port = none
    | none => expired = true → signal.wait = .ok ()

/-- The registry can be read during a wait, a session is stored at a port where no other child is,
and children can be killed and reaped when they are to be. -/
def Careful (server : McpServer) : McpEvent → Prop
  | .serveStart _ _ => True
  | .poll listing expired signal => ∀ project child, server.waiting = some (project, child) →
      server.CarefulPoll child listing expired signal
  | .serveStop arguments signal => ∀ child,
      (portOf arguments).bind server.spawned.lookup = some child →
        signal.kill = .ok () ∧ signal.wait = .ok ()
  | .stopAll signals => ∀ port child, server.spawned.lookup port = some child →
      (signals child).wait = .ok ()

/-! ## What the functions change -/

variable {server server' : McpServer} {child : Child} {c : Child} {e : McpEvent}

@[simp] theorem reap_spawned (result : Except String Unit) :
    (server.reap child result).spawned = server.spawned := by
  unfold reap
  split <;> rfl

@[simp] theorem reap_waiting (result : Except String Unit) :
    (server.reap child result).waiting = server.waiting := by
  unfold reap
  split <;> rfl

@[simp] theorem reap_made (result : Except String Unit) :
    (server.reap child result).made = server.made := by
  unfold reap
  split <;> rfl

theorem mem_reap_reaped {result : Except String Unit} :
    c ∈ (server.reap child result).reaped ↔
      c ∈ server.reaped ∨ c = child ∧ result = .ok () := by
  unfold reap
  split
  · simp [or_comm]
  · simp

/-- A stored child is taken out and reaped, unless that fails. -/
theorem serveStop_cases (server : McpServer) (arguments : Json) (signal : Signal) :
    (((portOf arguments).bind server.spawned.lookup = none ∧
        (server.serveStop arguments signal).1 = server) ∨
      ∃ port child, (portOf arguments).bind server.spawned.lookup = some child ∧
        server.spawned.lookup port = some child ∧
        (server.serveStop arguments signal).1 =
          { server with
            spawned := server.spawned.erase port
            reaped := if signal.kill = .ok () ∧ signal.wait = .ok () then child :: server.reaped
              else server.reaped }) := by
  unfold serveStop portOf
  cases hn : (arguments.get "port").bind Json.asU64 with
  | none =>
    refine .inl ⟨rfl, ?_⟩
    unfold toolServeStop
    rw [hn]
    rfl
  | some n =>
    rw [Option.map_some, Option.bind_some]
    cases hl : server.spawned.lookup n.toUInt16 with
    | none =>
      refine .inl ⟨rfl, ?_⟩
      unfold toolServeStop
      simp only [hn, hl]
    | some child =>
      refine .inr ⟨n.toUInt16, child, rfl, hl, ?_⟩
      unfold toolServeStop reap
      simp only [hn, hl]
      cases hk : signal.kill with
      | error err => simp
      | ok u =>
        cases hw : signal.wait with
        | error err => simp
        | ok v => simp

theorem stopAll_eq (server : McpServer) (signals : Child → Signal) :
    (server.stopAll signals).spawned = ∅ ∧ (server.stopAll signals).waiting = server.waiting ∧
      (server.stopAll signals).made = server.made ∧
      ∀ c, c ∈ (server.stopAll signals).reaped ↔ c ∈ server.reaped ∨
        ∃ port, server.spawned.lookup port = some c ∧ (signals c).wait = .ok () := by
  have hfold : ∀ (l : List (Σ _ : UInt16, Child)) (start : McpServer),
      (l.foldl (fun server entry => server.reap entry.2 (signals entry.2).wait) start).spawned =
          start.spawned ∧
        (l.foldl (fun server entry => server.reap entry.2 (signals entry.2).wait) start).waiting =
          start.waiting ∧
        (l.foldl (fun server entry => server.reap entry.2 (signals entry.2).wait) start).made =
          start.made ∧
        ∀ c, c ∈ (l.foldl (fun server entry => server.reap entry.2 (signals entry.2).wait)
            start).reaped ↔ c ∈ start.reaped ∨ ∃ port, ⟨port, c⟩ ∈ l ∧ (signals c).wait = .ok () := by
    intro l
    induction l with
    | nil => simp
    | cons entry l ih =>
      intro start
      obtain ⟨hspawned, hwaiting, hmade, hreaped⟩ :=
        ih (start.reap entry.2 (signals entry.2).wait)
      rw [List.foldl_cons]
      refine ⟨hspawned.trans (reap_spawned _), hwaiting.trans (reap_waiting _),
        hmade.trans (reap_made _), fun c => ?_⟩
      rw [hreaped, mem_reap_reaped, or_assoc]
      refine or_congr Iff.rfl ?_
      constructor
      · rintro (⟨rfl, hok⟩ | ⟨port, hmem, hok⟩)
        · exact ⟨entry.1, List.mem_cons_self, hok⟩
        · exact ⟨port, List.mem_cons_of_mem _ hmem, hok⟩
      · rintro ⟨port, hmem, hok⟩
        rcases List.mem_cons.mp hmem with rfl | hmem
        · exact .inl ⟨rfl, hok⟩
        · exact .inr ⟨port, hmem, hok⟩
  obtain ⟨hspawned, hwaiting, hmade, hreaped⟩ :=
    hfold server.spawned.entries { server with spawned := ∅ }
  refine ⟨hspawned, hwaiting, hmade, fun c => (hreaped c).trans (or_congr Iff.rfl ?_)⟩
  exact exists_congr fun port => and_congr_left' AList.mem_lookup_iff.symm

/-! ## The invariant -/

/-- Handles are not reused, and every child is in one place at most. -/
structure Inv (server : McpServer) : Prop where
  handles : ∀ c ∈ server.made, c.handle < server.made.length
  waiting : ∀ project c, server.waiting = some (project, c) →
    c ∈ server.made ∧ c ∉ server.reaped ∧ ∀ port, server.spawned.lookup port ≠ some c
  stored : ∀ port c, server.spawned.lookup port = some c → c ∈ server.made ∧ c ∉ server.reaped
  storedOnce : ∀ port port' c, server.spawned.lookup port = some c →
    server.spawned.lookup port' = some c → port = port'
  reaped : ∀ c ∈ server.reaped, c ∈ server.made

theorem inv_new : Inv new where
  handles _ h := absurd h List.not_mem_nil
  waiting _ _ h := nomatch h
  stored port c h := by
    rw [show new.spawned = ∅ from rfl, AList.lookup_empty] at h
    cases h
  storedOnce port port' c h := by
    rw [show new.spawned = ∅ from rfl, AList.lookup_empty] at h
    cases h
  reaped _ h := absurd h List.not_mem_nil

theorem owned_new : Owned new := fun _ h => absurd h List.not_mem_nil

/-- Starting. -/
theorem Inv.serveStart (h : Inv server) (hwait : server.waiting = none) (arguments : Json)
    (spawn : Except String UInt32) : Inv (server.serveStart arguments spawn).1 ∧
      (Owned server → Owned (server.serveStart arguments spawn).1) := by
  unfold McpServer.serveStart
  split
  · exact ⟨h, id⟩
  · next project hproject =>
    split
    · exact ⟨h, id⟩
    · next pid =>
      have hfresh : (⟨server.made.length, pid⟩ : Child) ∉ server.made := fun hmem =>
        Nat.lt_irrefl _ (h.handles _ hmem)
      refine ⟨?_, fun ho c hc => ?_⟩
      · refine
          { handles := fun c hc => ?_, waiting := fun project' c hc => ?_
            stored := fun port c hc => ?_, storedOnce := h.storedOnce, reaped := fun c hc => ?_ }
        · rcases List.mem_cons.mp hc with rfl | hc
          · exact Nat.lt_succ_self _
          · exact Nat.lt_succ_of_lt (h.handles c hc)
        · obtain ⟨-, rfl⟩ := Prod.mk.inj (Option.some.inj hc)
          exact ⟨List.mem_cons_self, fun hr => hfresh (h.reaped _ hr),
            fun port hs => hfresh (h.stored port _ hs).1⟩
        · exact ⟨List.mem_cons_of_mem _ (h.stored port c hc).1, (h.stored port c hc).2⟩
        · exact List.mem_cons_of_mem _ (h.reaped c hc)
      · rcases List.mem_cons.mp hc with rfl | hc
        · exact .inl ⟨project, rfl⟩
        · rcases ho c hc with ⟨project', hw⟩ | hkept
          · rw [hwait] at hw
            cases hw
          · exact .inr hkept

/-- The child waited on is stored, in place of another one if there is one. -/
theorem Inv.store (h : Inv server) (hmade : child ∈ server.made) (hnot : child ∉ server.reaped)
    (hfree : ∀ port, server.spawned.lookup port ≠ some child)
    (hother : ∀ c, server.Kept c → c = child ∨
      (∃ port, server.spawned.lookup port = some c) ∨ c ∈ server.reaped) (port : UInt16) :
    Inv { server with waiting := none, spawned := server.spawned.insert port child } ∧
      (Owned server →
        (Owned { server with waiting := none, spawned := server.spawned.insert port child } ↔
          server.spawned.lookup port = none)) := by
  have hlookup : ∀ q c, (server.spawned.insert port child).lookup q = some c →
      q = port ∧ c = child ∨ q ≠ port ∧ server.spawned.lookup q = some c := by
    intro q c hs
    by_cases hq : q = port
    · rw [hq, AList.lookup_insert] at hs
      exact .inl ⟨hq, (Option.some.inj hs).symm⟩
    · rw [AList.lookup_insert_ne hq] at hs
      exact .inr ⟨hq, hs⟩
  refine ⟨?_, fun ho => ⟨fun ho' => ?_, fun hnone c hc => ?_⟩⟩
  · refine
      { handles := h.handles, waiting := by intro _ _ hw; cases hw
        stored := fun q c hs => ?_, storedOnce := fun q q' c hs hs' => ?_, reaped := h.reaped }
    · rcases hlookup q c hs with ⟨-, rfl⟩ | ⟨-, hs⟩
      · exact ⟨hmade, hnot⟩
      · exact h.stored q c hs
    · rcases hlookup q c hs with ⟨hq, hc⟩ | ⟨-, hold⟩ <;>
        rcases hlookup q' c hs' with ⟨hq', hc'⟩ | ⟨-, hold'⟩
      · exact hq.trans hq'.symm
      · exact absurd (hc ▸ hold') (hfree q')
      · exact absurd (hc' ▸ hold) (hfree q)
      · exact h.storedOnce q q' c hold hold'
  · -- the child stored at the port before is lost
    cases hold : server.spawned.lookup port with
    | none => rfl
    | some c =>
      have hne : c ≠ child := fun hc => hfree port (hc ▸ hold)
      rcases ho' c (h.stored port c hold).1 with ⟨_, hw⟩ | ⟨q, hs⟩ | hr
      · cases hw
      · rcases hlookup q c hs with ⟨-, hc⟩ | ⟨hq, hs⟩
        · exact absurd hc hne
        · exact absurd (h.storedOnce q port c hs hold) hq
      · exact absurd hr (h.stored port c hold).2
  · rcases hother c (ho c hc) with rfl | ⟨q, hs⟩ | hr
    · exact .inr (.inl ⟨port, AList.lookup_insert _⟩)
    · have hq : q ≠ port := by
        rintro rfl
        rw [hnone] at hs
        cases hs
      exact .inr (.inl ⟨q, by rw [← hs]; exact AList.lookup_insert_ne hq⟩)
    · exact .inr (.inr hr)

/-- The child waited on is given up. -/
theorem Inv.giveUp (h : Inv server) (hmade : child ∈ server.made) (hnot : child ∉ server.reaped)
    (hfree : ∀ port, server.spawned.lookup port ≠ some child)
    (hother : ∀ c, server.Kept c → c = child ∨
      (∃ port, server.spawned.lookup port = some c) ∨ c ∈ server.reaped)
    (result : Except String Unit) :
    Inv (({ server with waiting := none } : McpServer).reap child result) ∧ (Owned server →
      (Owned (({ server with waiting := none } : McpServer).reap child result) ↔
        (true = true → result = .ok ()))) := by
  refine ⟨?_, fun ho => ⟨fun ho' _ => ?_, fun hok c hc => ?_⟩⟩
  · refine
      { handles := by simpa using h.handles, waiting := by intro _ _ hw; simp at hw
        stored := fun q c hs => ?_, storedOnce := fun q q' c hs hs' => ?_, reaped := fun c hr => ?_ }
    · rw [reap_spawned] at hs
      obtain ⟨hc, hr⟩ := h.stored q c hs
      refine ⟨by simpa using hc, fun hmem => ?_⟩
      rcases mem_reap_reaped.mp hmem with hmem | ⟨rfl, -⟩
      · exact hr hmem
      · exact hfree q hs
    · rw [reap_spawned] at hs hs'
      exact h.storedOnce q q' c hs hs'
    · rw [reap_made]
      rcases mem_reap_reaped.mp hr with hr | ⟨rfl, -⟩
      · exact h.reaped c hr
      · exact hmade
  · rcases ho' child (by simpa using hmade) with ⟨_, hw⟩ | ⟨q, hs⟩ | hr
    · simp at hw
    · rw [reap_spawned] at hs
      exact absurd hs (hfree q)
    · rcases mem_reap_reaped.mp hr with hr | ⟨-, hok⟩
      · exact absurd hr hnot
      · exact hok
  · rw [reap_made] at hc
    rcases hother c (ho c hc) with rfl | ⟨q, hs⟩ | hr
    · exact .inr (.inr (mem_reap_reaped.mpr (.inr ⟨rfl, hok rfl⟩)))
    · exact .inr (.inl ⟨q, by rw [reap_spawned]; exact hs⟩)
    · exact .inr (.inr (mem_reap_reaped.mpr (.inl hr)))

/-- A round of the loop. -/
theorem Inv.pollStart (h : Inv server) {project : PathBuf}
    (hwait : server.waiting = some (project, child)) (listing : Except String (List SessionBeacon))
    (expired : Bool) (signal : Signal) :
    Inv (server.pollStart project child listing expired signal).1 ∧ (Owned server →
      (Owned (server.pollStart project child listing expired signal).1 ↔
        server.CarefulPoll child listing expired signal)) := by
  obtain ⟨hmade, hnot, hfree⟩ := h.waiting project child hwait
  have hother : ∀ c, server.Kept c → c = child ∨
      (∃ port, server.spawned.lookup port = some c) ∨ c ∈ server.reaped := by
    rintro c (⟨project', hw⟩ | hkept)
    · rw [hwait] at hw
      exact .inl (Prod.mk.inj (Option.some.inj hw)).2.symm
    · exact .inr hkept
  unfold McpServer.pollStart CarefulPoll
  cases listing with
  | error err =>
    -- the handle is dropped
    refine ⟨{ h with waiting := by intro _ _ hw; cases hw }, fun _ => iff_of_false (fun ho => ?_) id⟩
    rcases ho child hmade with ⟨_, hw⟩ | ⟨port, hs⟩ | hr
    · cases hw
    · exact hfree port hs
    · exact hnot hr
  | ok sessions =>
    dsimp only
    cases sessions.find? fun session => session.pid = child.pid with
    | some session => exact h.store hmade hnot hfree hother session.port
    | none =>
      cases expired with
      | false => exact ⟨h, fun ho => iff_of_true ho (by intro he; cases he)⟩
      | true => exact h.giveUp hmade hnot hfree hother signal.wait

/-- `roxo_serve_stop`. -/
theorem Inv.serveStop (h : Inv server) (hwait : server.waiting = none) (arguments : Json)
    (signal : Signal) : Inv (server.serveStop arguments signal).1 ∧ (Owned server →
      (Owned (server.serveStop arguments signal).1 ↔
        Careful server (.serveStop arguments signal))) := by
  rcases serveStop_cases server arguments signal with
    ⟨hnone, heq⟩ | ⟨port, child, hsome, hport, heq⟩
  · rw [heq]
    refine ⟨h, fun ho => iff_of_true ho fun child hsome => ?_⟩
    rw [hnone] at hsome
    cases hsome
  · obtain ⟨hmade, hnot⟩ := h.stored port child hport
    have hcareful : Careful server (.serveStop arguments signal) ↔
        signal.kill = .ok () ∧ signal.wait = .ok () := by
      refine ⟨fun hc => hc child hsome, fun hok c hc => hok⟩
    have hlookup : ∀ q c, (server.spawned.erase port).lookup q = some c →
        q ≠ port ∧ server.spawned.lookup q = some c := by
      intro q c hs
      have hq : q ≠ port := by
        rintro rfl
        rw [AList.lookup_erase] at hs
        cases hs
      rw [AList.lookup_erase_ne hq] at hs
      exact ⟨hq, hs⟩
    rw [hcareful, heq]
    by_cases hok : signal.kill = .ok () ∧ signal.wait = .ok ()
    · rw [if_pos hok]
      refine ⟨?_, fun ho => iff_of_true (fun c hc => ?_) hok⟩
      · refine
          { handles := h.handles, waiting := by intro _ _ hw; rw [hwait] at hw; cases hw
            stored := fun q c hs => ?_
            storedOnce := fun q q' c hs hs' =>
              h.storedOnce q q' c (hlookup q c hs).2 (hlookup q' c hs').2
            reaped := fun c hr => ?_ }
        · obtain ⟨hq, hold⟩ := hlookup q c hs
          refine ⟨(h.stored q c hold).1, fun hr => ?_⟩
          rcases List.mem_cons.mp hr with hc | hr
          · exact hq (h.storedOnce q port child (hc ▸ hold) hport)
          · exact (h.stored q c hold).2 hr
        · rcases List.mem_cons.mp hr with rfl | hr
          · exact hmade
          · exact h.reaped c hr
      · rcases ho c hc with ⟨_, hw⟩ | ⟨q, hs⟩ | hr
        · rw [hwait] at hw
          cases hw
        · by_cases hq : q = port
          · rw [hq, hport] at hs
            cases hs
            exact .inr (.inr List.mem_cons_self)
          · exact .inr (.inl ⟨q, by rw [← hs]; exact AList.lookup_erase_ne hq⟩)
        · exact .inr (.inr (List.mem_cons_of_mem _ hr))
    · rw [if_neg hok]
      refine ⟨?_, fun _ => iff_of_false (fun ho' => ?_) hok⟩
      · exact
          { handles := h.handles, waiting := by intro _ _ hw; rw [hwait] at hw; cases hw
            stored := fun q c hs => h.stored q c (hlookup q c hs).2
            storedOnce := fun q q' c hs hs' =>
              h.storedOnce q q' c (hlookup q c hs).2 (hlookup q' c hs').2
            reaped := h.reaped }
      · rcases ho' child hmade with ⟨_, hw⟩ | ⟨q, hs⟩ | hr
        · rw [hwait] at hw
          cases hw
        · obtain ⟨hq, hs⟩ := hlookup q child hs
          exact hq (h.storedOnce q port child hs hport)
        · exact hnot hr

/-- Dropping the server. -/
theorem Inv.stopAll (h : Inv server) (hwait : server.waiting = none) (signals : Child → Signal) :
    Inv (server.stopAll signals) ∧ (Owned server →
      (Owned (server.stopAll signals) ↔ Careful server (.stopAll signals))) := by
  obtain ⟨hspawned, hwaiting, hmade, hreaped⟩ := stopAll_eq server signals
  have hempty : ∀ port c, (server.stopAll signals).spawned.lookup port ≠ some c := by
    intro port c hs
    rw [hspawned, AList.lookup_empty] at hs
    cases hs
  have hnowait : ∀ project c, (server.stopAll signals).waiting ≠ some (project, c) := by
    intro project c hw
    rw [hwaiting, hwait] at hw
    cases hw
  refine ⟨?_, fun ho => ⟨fun ho' port c hs => ?_, fun hok c hc => ?_⟩⟩
  · refine
      { handles := hmade ▸ h.handles, waiting := fun project c hw => absurd hw (hnowait project c)
        stored := fun port c hs => absurd hs (hempty port c)
        storedOnce := fun port _ c hs _ => absurd hs (hempty port c), reaped := fun c hr => ?_ }
    rw [hmade]
    rcases (hreaped c).mp hr with hr | ⟨port, hs, -⟩
    · exact h.reaped c hr
    · exact (h.stored port c hs).1
  · obtain ⟨hc, hnot⟩ := h.stored port c hs
    rcases ho' c (hmade ▸ hc) with ⟨project, hw⟩ | ⟨q, hq⟩ | hr
    · exact absurd hw (hnowait project c)
    · exact absurd hq (hempty q c)
    · rcases (hreaped c).mp hr with hr | ⟨_, _, hwaited⟩
      · exact absurd hr hnot
      · exact hwaited
  · rw [hmade] at hc
    rcases ho c hc with ⟨project, hw⟩ | ⟨port, hs⟩ | hr
    · rw [hwait] at hw
      cases hw
    · exact .inr (.inr ((hreaped c).mpr (.inr ⟨port, hs, hok port c hs⟩)))
    · exact .inr (.inr ((hreaped c).mpr (.inl hr)))

/-- An event keeps the invariant, and keeps every child owned exactly if it is careful. -/
theorem Inv.act (h : Inv server) (hact : Act server e server') :
    Inv server' ∧ (Owned server → (Owned server' ↔ Careful server e)) := by
  unfold Act McpServer.step at hact
  cases hwait : server.waiting with
  | some waiting =>
    obtain ⟨project, child⟩ := waiting
    cases e with
    | poll listing expired signal =>
      rw [hwait] at hact
      cases hact
      refine ⟨(h.pollStart hwait listing expired signal).1, fun ho =>
        ((h.pollStart hwait listing expired signal).2 ho).trans ⟨fun hc project' c hw => ?_,
          fun hc => hc project child hwait⟩⟩
      rw [hwait] at hw
      cases hw
      exact hc
    | _ =>
      rw [hwait] at hact
      cases hact
  | none =>
    cases e with
    | serveStart arguments spawn =>
      rw [hwait] at hact
      cases hact
      exact ⟨(h.serveStart hwait arguments spawn).1, fun ho =>
        iff_of_true ((h.serveStart hwait arguments spawn).2 ho) trivial⟩
    | poll listing expired signal =>
      rw [hwait] at hact
      cases hact
    | serveStop arguments signal =>
      rw [hwait] at hact
      cases hact
      exact h.serveStop hwait arguments signal
    | stopAll signals =>
      rw [hwait] at hact
      cases hact
      exact h.stopAll hwait signals

end McpServer

open McpServer

/-- After `stop_all` every child has been killed and reaped. -/
def NoneRunning (event : McpEvent) (server : McpServer) : Prop :=
  (∃ signals, event = .stopAll signals) → ∀ child ∈ server.made, child ∈ server.reaped

/-- Where no child is lost, none is left by `stop_all`. -/
theorem McpServer.Owned.noneRunning {server server' : McpServer} {e : McpEvent}
    (hact : Act server e server') (ho : Owned server') : NoneRunning e server' := by
  rintro ⟨signals, rfl⟩ child hc
  unfold Act McpServer.step at hact
  cases hwait : server.waiting with
  | some waiting =>
    rw [hwait] at hact
    cases hact
  | none =>
    rw [hwait] at hact
    cases hact
    obtain ⟨hspawned, hwaiting, -, -⟩ := stopAll_eq server signals
    rcases ho child hc with ⟨project, hw⟩ | ⟨port, hs⟩ | hr
    · rw [hwaiting, hwait] at hw
      cases hw
    · rw [hspawned, AList.lookup_empty] at hs
      cases hs
    · exact hr

/-- In every run, no child is lost at any moment, and none is left running by `stop_all`, if and
only if every event is careful. -/
theorem owned_iff (run : List (McpEvent × McpServer)) (h : Run Act new run) :
    (∀ x ∈ run, Owned x.2 ∧ NoneRunning x.1 x.2) ↔ Run (When Act Careful) new run := by
  have hiff : (∀ x ∈ run, Owned x.2) ↔ Run (When Act Careful) new run :=
    h.forall_iff (I := Inv) (fun _ _ _ hi hact => (hi.act hact).1)
      (fun _ _ _ hi ho hact => (hi.act hact).2 ho) inv_new owned_new
  rw [← hiff]
  refine ⟨fun hall x hx => (hall x hx).1, fun hall x hx => ⟨hall x hx, ?_⟩⟩
  obtain ⟨server, hact⟩ := h.exists_act x hx
  exact (hall x hx).noneRunning hact

/-! ## Two runs -/

def placeArguments : Json :=
  .object [("project", .string "/place"), ("port", .number (.posInt 34872))]

def placeSession : SessionBeacon where
  sessionId := "a"
  pid := 7
  address := "127.0.0.1"
  port := 34872
  projectName := "place"
  projectId := "place"
  projectPath := .ofString "/place"
  autoConnect := "auto"
  serverVersion := "1.0.0"
  startedAt := 0

def started : McpServer := (new.serveStart placeArguments (.ok 7)).1

/-- The registry cannot be read during the wait: the child is lost. -/
theorem not_owned_unreadable :
    ¬ ∀ run, Run Act new run → ∀ x ∈ run, Owned x.2 ∧ NoneRunning x.1 x.2 := by
  intro hall
  have hrun : Run Act new
      [(.serveStart placeArguments (.ok 7), started),
        (.poll (.error "denied") false ⟨.ok (), .ok ()⟩, { started with waiting := none })] :=
    .cons rfl (.cons rfl (.nil _))
  have howned := (hall _ hrun _ (.tail _ (.head _))).1 ⟨0, 7⟩ List.mem_cons_self
  rcases howned with ⟨_, hw⟩ | ⟨port, hs⟩ | hr
  · cases hw
  · cases hs
  · cases hr

def stored : McpServer :=
  { started with waiting := none, spawned := (∅ : Map _ _).insert 34872 ⟨0, 7⟩ }

/-- The child is waited on for one round, stored and stopped. -/
def startAndStop : List (McpEvent × McpServer) :=
  [(.serveStart placeArguments (.ok 7), started),
    (.poll (.ok []) false ⟨.ok (), .ok ()⟩, started),
    (.poll (.ok [placeSession]) false ⟨.ok (), .ok ()⟩, stored),
    (.serveStop placeArguments ⟨.ok (), .ok ()⟩,
      (stored.serveStop placeArguments ⟨.ok (), .ok ()⟩).1),
    (.stopAll fun _ => ⟨.ok (), .ok ()⟩,
      (stored.serveStop placeArguments ⟨.ok (), .ok ()⟩).1.stopAll fun _ => ⟨.ok (), .ok ()⟩)]

theorem run_startAndStop : Run Act new startAndStop :=
  .cons rfl (.cons rfl (.cons rfl (.cons rfl (.cons rfl (.nil _)))))

theorem owned_startAndStop :
    Run Act new startAndStop ∧ ∀ x ∈ startAndStop, Owned x.2 ∧ NoneRunning x.1 x.2 := by
  refine ⟨run_startAndStop, (owned_iff startAndStop run_startAndStop).mpr ?_⟩
  refine .cons ⟨rfl, trivial⟩ (.cons ⟨rfl, ?_⟩ (.cons ⟨rfl, ?_⟩ (.cons ⟨rfl, ?_⟩
    (.cons ⟨rfl, ?_⟩ (.nil _)))))
  · intro project child hw he
    cases he
  · intro project child hw
    cases hw
    exact AList.lookup_empty _
  · exact fun _ _ => ⟨rfl, rfl⟩
  · exact fun _ _ _ => rfl

end Roxo.Mcp
