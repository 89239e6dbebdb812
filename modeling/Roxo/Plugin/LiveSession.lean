import Mathlib.Data.List.Basic
import Roxo.Library.Transition

/-!
# The session of the plugin

`App` keeps one session in `serveSession`. Discovery looks at the field before its probes and starts
a session after them, a click starts one at any time, and every session that disconnects clears the
field, whichever session it holds. The steps here are the pieces of code that run without yielding.
-/

namespace Roxo.Plugin

open Transition

inductive Status where
  | notStarted
  | connecting
  | connected
  | disconnected
  deriving DecidableEq, Repr

/-- What the promise of `start` waits for. Stopping a session does not cancel it. -/
inductive Awaits where
  /-- The response to `connect` or the initial sync. -/
  | sync
  /-- The end of the WebSocket. -/
  | webSocket
  | nothing
  deriving DecidableEq, Repr

structure ServeSession where
  status : Status
  awaits : Awaits
  deriving DecidableEq, Repr

/-- A session that has been constructed. -/
def ServeSession.new : ServeSession := ⟨.notStarted, .sync⟩

/-- The sessions that have been constructed, the one that `App` holds, and how many rounds of
discovery are on their way. -/
structure App where
  serveSession : Option ℕ
  sessions : List ServeSession
  rounds : ℕ
  deriving DecidableEq, Repr

/-- How `startSession` and `start` go. -/
structure Start where
  /-- The sync lock can be claimed. -/
  claimedLock : Bool
  /-- `connect` is rejected before `start` returns. -/
  failsAtOnce : Bool

namespace App

def init : App := ⟨none, [], 0⟩

/-- `__setStatus`, with the callback that `startSession` has set. -/
def setStatus (app : App) (i : ℕ) (status : Status) : App :=
  { app with
    sessions := app.sessions.modify i fun session => { session with status }
    serveSession := if status = .disconnected then none else app.serveSession }

def stopInternal (app : App) (i : ℕ) : App := app.setStatus i .disconnected

/-- The promise of `start` goes on to wait for something else. -/
def await (app : App) (i : ℕ) (awaits : Awaits) : App :=
  { app with sessions := app.sessions.modify i fun session => { session with awaits } }

/-- The session has been disconnected, or does not exist. -/
def isDisconnected (app : App) (i : ℕ) : Bool :=
  app.sessions[i]?.all fun session => session.status = .disconnected

/-- The `catch` at the end of `start`. -/
def caught (app : App) (i : ℕ) : App :=
  let app := app.await i .nothing
  if app.isDisconnected i then app else app.stopInternal i

def start (app : App) (i : ℕ) (failsAtOnce : Bool) : App :=
  let app := app.setStatus i .connecting
  if failsAtOnce then app.caught i else app

def startSession (app : App) (how : Start) : App :=
  if how.claimedLock then
    let i := app.sessions.length
    let app := { app with sessions := app.sessions ++ [ServeSession.new] }
    let app := app.start i how.failsAtOnce
    { app with serveSession := some i }
  else app

def endSession (app : App) : App :=
  match app.serveSession with
  | none => app
  | some i => { app.stopInternal i with serveSession := none }

/-- `tryAutoConnect` up to the probes. It may be turned off, or the lock taken. -/
def tryAutoConnect (app : App) (allowed : Bool) : App :=
  if allowed ∧ app.serveSession = none then { app with rounds := app.rounds + 1 } else app

/-- The probes of a round have come back. -/
def discovered (app : App) (chosen : Option Start) : App :=
  if app.rounds = 0 then app
  else
    let app := { app with rounds := app.rounds - 1 }
    match chosen with
    | some how => app.startSession how
    | none => app

/-- The initial sync is done. -/
def synced (app : App) (i : ℕ) : App :=
  if app.sessions[i]?.any fun session => session.awaits = .sync then
    (app.setStatus i .connected).await i .webSocket
  else app

/-- What the promise of `start` waits for has failed or ended. -/
def failed (app : App) (i : ℕ) : App :=
  if app.sessions[i]?.any fun session => session.awaits ≠ .nothing then app.caught i else app

end App

inductive AppEvent where
  | tryAutoConnect (allowed : Bool)
  | discovered (chosen : Option Start)
  | startSession (how : Start)
  | endSession
  | synced (i : ℕ)
  | failed (i : ℕ)

namespace App

def step (app : App) : AppEvent → App
  | .tryAutoConnect allowed => app.tryAutoConnect allowed
  | .discovered chosen => app.discovered chosen
  | .startSession how => app.startSession how
  | .endSession => app.endSession
  | .synced i => app.synced i
  | .failed i => app.failed i

def Act (app : App) (e : AppEvent) (app' : App) : Prop := app.step e = app'

/-! ## One live session -/

/-- The session is in a status other than `Disconnected`. -/
def Live (app : App) (i : ℕ) : Prop :=
  ∃ session, app.sessions[i]? = some session ∧ session.status ≠ .disconnected

/-- At most one session is live, and `serveSession` is that one, or else `none`. -/
structure OneLive (app : App) : Prop where
  unique : ∀ i j, app.Live i → app.Live j → i = j
  held : ∀ i, app.serveSession = some i → app.Live i
  none_of : app.serveSession = none → ∀ i, ¬app.Live i

/-- The session is started with no other in place, and does not fail before it is. -/
def StartsAlone (app : App) (how : Start) : Prop :=
  how.claimedLock = true → app.serveSession = none ∧ how.failsAtOnce = false

/-- The step starts a session alone, if it starts one, and resumes none that has been stopped. -/
def Orderly (app : App) : AppEvent → Prop
  | .discovered (some how) => app.rounds ≠ 0 → app.StartsAlone how
  | .startSession how => app.StartsAlone how
  | .synced i => ∀ session, app.sessions[i]? = some session → session.awaits = .sync →
      session.status ≠ .disconnected
  | _ => True

theorem oneLive_iff {app : App} :
    app.OneLive ↔ ∀ i, app.Live i ↔ app.serveSession = some i := by
  constructor
  · intro h i
    constructor
    · intro hi
      cases hs : app.serveSession with
      | none => exact absurd hi (h.none_of hs i)
      | some j => rw [h.unique i j hi (h.held j hs)]
    · exact h.held i
  · intro h
    refine ⟨fun i j hi hj => ?_, fun i => (h i).mpr, fun hs i hi => ?_⟩
    · have hij := ((h i).mp hi).symm.trans ((h j).mp hj)
      exact Option.some.inj hij
    · rw [(h i).mp hi] at hs
      cases hs

theorem init_oneLive : init.OneLive := by
  refine oneLive_iff.mpr fun i => ?_
  simp [Live, init]

variable {app : App}

/-! ### Which sessions are live after the pieces of a step -/

theorem live_setStatus (i j : ℕ) (status : Status) : (app.setStatus i status).Live j ↔
    if j = i then i < app.sessions.length ∧ status ≠ .disconnected else app.Live j := by
  unfold Live setStatus
  simp only [List.getElem?_modify, Option.map_eq_map, Option.map_eq_some_iff]
  by_cases hij : j = i
  · subst hij
    simp only [if_true]
    constructor
    · rintro ⟨_, ⟨session, hs, rfl⟩, hne⟩
      exact ⟨(List.getElem?_eq_some_iff.mp hs).1, hne⟩
    · rintro ⟨hlt, hne⟩
      exact ⟨_, ⟨_, List.getElem?_eq_getElem hlt, rfl⟩, hne⟩
  · simp [hij, Ne.symm hij]

theorem live_await (i j : ℕ) (awaits : Awaits) : (app.await i awaits).Live j ↔ app.Live j := by
  unfold Live await
  simp only [List.getElem?_modify, Option.map_eq_map, Option.map_eq_some_iff]
  constructor
  · rintro ⟨_, ⟨session, hs, rfl⟩, hne⟩
    exact ⟨session, hs, by split_ifs at hne <;> exact hne⟩
  · rintro ⟨session, hs, hne⟩
    exact ⟨_, ⟨session, hs, rfl⟩, by split_ifs <;> exact hne⟩

theorem isDisconnected_iff (i : ℕ) : app.isDisconnected i = true ↔ ¬app.Live i := by
  unfold isDisconnected Live
  cases app.sessions[i]? <;> simp

/-- What stopping a session leaves of a state with one live session. -/
theorem stopInternal_oneLive (h : app.OneLive) {i : ℕ} (hi : app.serveSession = some i) :
    (app.stopInternal i).OneLive := by
  refine oneLive_iff.mpr fun j => ?_
  unfold stopInternal
  rw [live_setStatus]
  have hj := oneLive_iff.mp h j
  simp only [setStatus, if_true, ne_eq, not_true_eq_false, and_false, reduceCtorEq, iff_false]
  split_ifs with hij
  · exact id
  · rw [hj, hi]
    exact fun heq => hij (Option.some.inj heq).symm

theorem await_oneLive (h : app.OneLive) (i : ℕ) (awaits : Awaits) : (app.await i awaits).OneLive := by
  refine oneLive_iff.mpr fun j => ?_
  rw [live_await]
  exact oneLive_iff.mp h j

theorem caught_oneLive (h : app.OneLive) (i : ℕ) : (app.caught i).OneLive := by
  have hawait := await_oneLive h i .nothing
  unfold caught
  dsimp only
  split_ifs with hd
  · exact hawait
  · refine stopInternal_oneLive hawait ?_
    exact (oneLive_iff.mp hawait i).mp (not_not.mp fun hn => hd ((isDisconnected_iff i).mpr hn))

theorem endSession_oneLive (h : app.OneLive) : app.endSession.OneLive := by
  unfold endSession
  cases hs : app.serveSession with
  | none => exact h
  | some i => exact stopInternal_oneLive h hs

/-! ### Starting a session -/

theorem modify_length_append (sessions : List ServeSession) (session : ServeSession)
    (f : ServeSession → ServeSession) :
    (sessions ++ [session]).modify sessions.length f = sessions ++ [f session] := by
  induction sessions with
  | nil => rfl
  | cons head sessions ih => exact congrArg (head :: ·) ih

/-- A session has been made, and `App` holds it whether it is live or not. -/
theorem startSession_eq (app : App) (how : Start) : app.startSession how =
    if how.claimedLock then
      { app with
        sessions := app.sessions ++
          [if how.failsAtOnce then ⟨.disconnected, .nothing⟩ else ⟨.connecting, .sync⟩]
        serveSession := some app.sessions.length }
    else app := by
  unfold startSession
  split_ifs with hlock hfails
  · simp [start, hfails, setStatus, caught, await, isDisconnected, stopInternal,
      modify_length_append, ServeSession.new]
  · simp [start, hfails, setStatus, modify_length_append, ServeSession.new]
  · rfl

theorem live_append (session : ServeSession) (held : Option ℕ) (j : ℕ) :
    ({ app with sessions := app.sessions ++ [session], serveSession := held } : App).Live j ↔
      app.Live j ∨ j = app.sessions.length ∧ session.status ≠ .disconnected := by
  unfold Live
  simp only [List.getElem?_append]
  split_ifs with hj
  · simp only [Nat.ne_of_lt hj, false_and, or_false]
  · rw [List.getElem?_eq_none (Nat.le_of_not_lt hj)]
    simp only [reduceCtorEq, false_and, exists_false, false_or]
    by_cases heq : j = app.sessions.length
    · simp [heq]
    · have hpos : j - app.sessions.length ≠ 0 := by omega
      obtain ⟨n, hn⟩ := Nat.exists_eq_succ_of_ne_zero hpos
      simp [heq, hn]

theorem Live.lt {i : ℕ} (h : app.Live i) : i < app.sessions.length := by
  obtain ⟨session, hs, -⟩ := h
  exact (List.getElem?_eq_some_iff.mp hs).1

theorem startSession_oneLive_iff (h : app.OneLive) (how : Start) :
    (app.startSession how).OneLive ↔ app.StartsAlone how := by
  rw [startSession_eq]
  unfold StartsAlone
  split_ifs with hlock hfails
  · -- the session is dead, and it is the one that `App` holds
    refine iff_of_false (fun hone => ?_) fun halone => ?_
    · obtain hlive | hlive := (live_append _ _ _).mp (hone.held _ rfl)
      · exact Nat.lt_irrefl _ hlive.lt
      · exact hlive.2 rfl
    · rw [(halone hlock).2] at hfails
      cases hfails
  · constructor
    · intro hone _
      refine ⟨?_, Bool.not_eq_true _ ▸ hfails⟩
      cases hs : app.serveSession with
      | none => rfl
      | some i =>
        have hlive := h.held i hs
        have hi := hone.unique i app.sessions.length ((live_append _ _ _).mpr (.inl hlive))
          ((live_append _ _ _).mpr (.inr ⟨rfl, Status.noConfusion⟩))
        exact absurd hlive.lt (hi ▸ Nat.lt_irrefl _)
    · intro halone
      refine oneLive_iff.mpr fun j => ?_
      rw [live_append]
      have hnone := h.none_of (halone hlock).1 j
      simp only [hnone, false_or, ne_eq, reduceCtorEq, not_false_eq_true, and_true,
        Option.some.injEq]
      exact eq_comm
  · simp [h, hlock]

theorem synced_oneLive_iff (h : app.OneLive) (i : ℕ) :
    (app.synced i).OneLive ↔ app.Orderly (.synced i) := by
  unfold synced Orderly
  cases hs : app.sessions[i]? with
  | none => simp [h, hs]
  | some session =>
    simp only [hs, Option.any_some, decide_eq_true_eq, Option.some.injEq, forall_eq']
    split_ifs with hawaits
    · have hlive : app.Live i ↔ session.status ≠ .disconnected := by
        unfold Live
        simp [hs]
      have hlt : i < app.sessions.length := (List.getElem?_eq_some_iff.mp hs).1
      simp only [hawaits, forall_const]
      rw [← hlive]
      constructor
      · intro hone
        have hheld := (oneLive_iff.mp hone i).mp
          ((live_await _ _ _).mpr ((live_setStatus _ _ _).mpr (by simp [hlt])))
        exact h.held i hheld
      · intro hi
        refine await_oneLive (oneLive_iff.mpr fun j => ?_) i _
        rw [live_setStatus]
        split_ifs with hij
        · subst hij
          simp only [hlt, ne_eq, reduceCtorEq, not_false_eq_true, and_self, true_iff]
          exact (oneLive_iff.mp h j).mp hi
        · exact oneLive_iff.mp h j
    · simp [h, hawaits]

/-- A step keeps the one live session exactly if it is orderly. -/
theorem step_oneLive_iff (h : app.OneLive) (e : AppEvent) :
    (app.step e).OneLive ↔ app.Orderly e := by
  cases e with
  | tryAutoConnect allowed =>
    refine iff_of_true ?_ trivial
    change (app.tryAutoConnect allowed).OneLive
    unfold tryAutoConnect
    split_ifs
    · exact ⟨h.unique, h.held, h.none_of⟩
    · exact h
  | discovered chosen =>
    change (app.discovered chosen).OneLive ↔ _
    unfold discovered
    have h' : ({ app with rounds := app.rounds - 1 } : App).OneLive :=
      ⟨h.unique, h.held, h.none_of⟩
    cases chosen with
    | none =>
      refine iff_of_true ?_ trivial
      split_ifs
      · exact h
      · exact h'
    | some how =>
      unfold Orderly
      split_ifs with hrounds
      · simp [h, hrounds]
      · simp only [ne_eq, hrounds, not_false_eq_true, forall_const]
        exact startSession_oneLive_iff h' how
  | startSession how => exact startSession_oneLive_iff h how
  | endSession => exact iff_of_true (endSession_oneLive h) trivial
  | synced i => exact synced_oneLive_iff h i
  | failed i =>
    refine iff_of_true ?_ trivial
    change (app.failed i).OneLive
    unfold failed
    split_ifs
    · exact caught_oneLive h i
    · exact h

/-- At most one session is live all along a run, and `App` holds it, exactly if every step of the run is
orderly. -/
theorem oneLive_of_run {run : List (AppEvent × App)} (h : Run Act init run) :
    (∀ x ∈ run, x.2.OneLive) ↔ Run (When Act Orderly) init run := by
  refine h.forall_iff (I := fun _ => True) (fun _ _ _ _ _ => trivial) ?_ trivial init_oneLive
  rintro app e _ - hone rfl
  exact step_oneLive_iff hone e

/-- Running steps one after the other is a run. -/
def trace : App → List AppEvent → List (AppEvent × App)
  | _, [] => []
  | app, e :: events => (e, app.step e) :: trace (app.step e) events

theorem run_trace (app : App) (events : List AppEvent) : Run Act app (app.trace events) := by
  induction events generalizing app with
  | nil => exact .nil app
  | cons e events ih => exact .cons rfl (ih _)

/-- A click on Connect while the probes are on their way, and then they choose a server. -/
def race : List AppEvent :=
  [.tryAutoConnect true, .startSession ⟨true, false⟩, .discovered (some ⟨true, false⟩)]

/-- Both sessions are live. -/
theorem not_oneLive_race : ¬∀ run, Run Act init run → ∀ x ∈ run, x.2.OneLive := by
  intro h
  have hone : (((init.step (.tryAutoConnect true)).step (.startSession ⟨true, false⟩)).step
      (.discovered (some ⟨true, false⟩))).OneLive :=
    h _ (run_trace init race) (_, _) (.tail _ (.tail _ (.head _)))
  exact absurd (hone.unique 0 1 ⟨_, rfl, by decide⟩ ⟨_, rfl, by decide⟩) (by decide)

/-- A session that is synced and then ended. -/
theorem oneLive_synced :
    (∀ x ∈ init.trace [.startSession ⟨true, false⟩, .synced 0, .endSession], x.2.OneLive) ↔
      Run (When Act Orderly) init
        (init.trace [.startSession ⟨true, false⟩, .synced 0, .endSession]) :=
  oneLive_of_run (run_trace init _)

end App

end Roxo.Plugin
