import Mathlib.Data.List.Basic
import Roxo.Library.Transition

/-!
# The message queue

A queue with a persistent history. `pushMessages` and the two halves of `subscribe` (the readiness
check under the lock of the messages, then the registration under the lock of the listeners) are
one atomic step each; `Calls` is the queue with the calls that are half-way and with what was sent
over the oneshot channels.

No wakeup is lost in a run in which no push passes a half-way call (`noLostWakeup_of_timely`). A
push that does leaves a listener waiting for messages that exist (`not_noLostWakeup`).
-/

namespace Roxo

open Transition

/-- The sender of a oneshot channel, by the number of the channel, and the cursor to wait from. -/
structure Listener where
  sender : Nat
  cursor : UInt32
deriving DecidableEq

structure MessageQueue (T : Type) where
  messages : List T
  messageListeners : List Listener
  /-- The time of the last push, or 0. -/
  lastPushAt : Nat

variable {T : Type}

/-- What `fire_listener_if_ready` sends: the current cursor and the messages from the listener's
cursor on. `none` hands the listener back. -/
def fireListenerIfReady (messages : List T) (listener : Listener) : Option (UInt32 × List T) :=
  let currentCursor := UInt32.ofNat messages.length
  if listener.cursor < currentCursor then
    some (currentCursor, messages.drop listener.cursor.toNat)
  else none

namespace MessageQueue

def new : MessageQueue T := ⟨[], [], 0⟩

def cursor (queue : MessageQueue T) : UInt32 := UInt32.ofNat queue.messages.length

/-- What a push sends to the listeners. -/
def fired (messages : List T) (listeners : List Listener) : List (Nat × UInt32 × List T) :=
  listeners.filterMap fun listener =>
    (fireListenerIfReady messages listener).map (Prod.mk listener.sender)

/-- The listeners that are not ready. -/
def remaining (messages : List T) (listeners : List Listener) : List Listener :=
  listeners.filter fun listener => (fireListenerIfReady messages listener).isNone

/-- Appends the messages and fires the listeners that are ready. -/
def pushMessages (queue : MessageQueue T) (newMessages : List T) (now : Nat) : MessageQueue T :=
  { messages := queue.messages ++ newMessages
    messageListeners := remaining (queue.messages ++ newMessages) queue.messageListeners
    lastPushAt := if newMessages.isEmpty then queue.lastPushAt else now }

/-- The second half of `subscribe`. -/
def register (queue : MessageQueue T) (listener : Listener) : MessageQueue T :=
  { queue with messageListeners := queue.messageListeners ++ [listener] }

end MessageQueue

open MessageQueue

/-! ### What is sent -/

theorem toNat_cursor_le (messages : List T) :
    (UInt32.ofNat messages.length).toNat ≤ messages.length := by
  rw [UInt32.toNat_ofNat']
  exact Nat.mod_le _ _

theorem toNat_cursor {messages : List T} (h : messages.length < UInt32.size) :
    (UInt32.ofNat messages.length).toNat = messages.length := by
  rw [UInt32.toNat_ofNat']
  exact Nat.mod_eq_of_lt h

theorem fireListenerIfReady_eq_some {messages : List T} {listener : Listener}
    {sent : UInt32 × List T} (h : fireListenerIfReady messages listener = some sent) :
    listener.cursor < sent.1 ∧ sent = (UInt32.ofNat messages.length,
      messages.drop listener.cursor.toNat) := by
  unfold fireListenerIfReady at h
  dsimp only at h
  split_ifs at h with hready
  rw [← Option.some.inj h]
  exact ⟨hready, rfl⟩

theorem fireListenerIfReady_eq_none {messages : List T} {listener : Listener} :
    fireListenerIfReady messages listener = none ↔
      ¬ listener.cursor < UInt32.ofNat messages.length := by
  unfold fireListenerIfReady
  dsimp only
  by_cases hready : listener.cursor < UInt32.ofNat messages.length
  · rw [if_pos hready]
    exact iff_of_false (Option.some_ne_none _) (not_not.mpr hready)
  · rw [if_neg hready]
    exact iff_of_true rfl hready

/-- A batch is never empty. -/
theorem fireListenerIfReady_ne_nil {messages : List T} {listener : Listener}
    {sent : UInt32 × List T} (h : fireListenerIfReady messages listener = some sent) :
    sent.2 ≠ [] := by
  obtain ⟨hready, rfl⟩ := fireListenerIfReady_eq_some h
  have hle := toNat_cursor_le messages
  have hlt := UInt32.lt_iff_toNat_lt.mp hready
  dsimp only at hlt ⊢
  rw [Ne, List.drop_eq_nil_iff]
  omega

theorem mem_remaining {messages : List T} {listeners : List Listener} {listener : Listener} :
    listener ∈ remaining messages listeners ↔
      listener ∈ listeners ∧ ¬ listener.cursor < UInt32.ofNat messages.length := by
  unfold remaining
  rw [List.mem_filter, Option.isNone_iff_eq_none, fireListenerIfReady_eq_none]

theorem mem_fired {messages : List T} {listeners : List Listener} {sender : Nat}
    {sent : UInt32 × List T} :
    (sender, sent) ∈ fired messages listeners ↔
      ∃ listener ∈ listeners, listener.sender = sender ∧
        fireListenerIfReady messages listener = some sent := by
  unfold fired
  rw [List.mem_filterMap]
  constructor
  · rintro ⟨listener, hmem, h⟩
    obtain ⟨sent', hsent, heq⟩ := Option.map_eq_some_iff.mp h
    obtain ⟨rfl, rfl⟩ := Prod.mk.inj heq
    exact ⟨listener, hmem, rfl, hsent⟩
  · rintro ⟨listener, hmem, rfl, h⟩
    exact ⟨listener, hmem, by rw [h]; rfl⟩

/-! ### Calls -/

/-- The queue and the calls around it. -/
structure Calls (T : Type) where
  queue : MessageQueue T
  /-- How many oneshot channels were made. -/
  channels : Nat
  /-- The listeners of the `subscribe` calls between the check and the registration. -/
  halfway : List Listener
  /-- What was sent, with the number of the channel. -/
  sent : List (Nat × UInt32 × List T)

/-- An atomic step of a call. -/
inductive CallEvent (T : Type) where
  | push (newMessages : List T) (now : Nat)
  /-- A `subscribe` call makes its channel and checks whether messages exist. -/
  | subscribe (cursor : UInt32)
  /-- A `subscribe` call that found none registers its listener. -/
  | register (listener : Listener)

namespace Calls

def new : Calls T := ⟨MessageQueue.new, 0, [], []⟩

def push (s : Calls T) (newMessages : List T) (now : Nat) : Calls T :=
  { s with
    queue := s.queue.pushMessages newMessages now
    sent := fired (s.queue.messages ++ newMessages) s.queue.messageListeners ++ s.sent }

def subscribe (s : Calls T) (cursor : UInt32) : Calls T :=
  let listener : Listener := ⟨s.channels, cursor⟩
  match fireListenerIfReady s.queue.messages listener with
  | some sent =>
    { s with channels := s.channels + 1, sent := (listener.sender, sent) :: s.sent }
  | none => { s with channels := s.channels + 1, halfway := listener :: s.halfway }

def register (s : Calls T) (listener : Listener) : Calls T :=
  { s with queue := s.queue.register listener, halfway := s.halfway.erase listener }

inductive Act : Calls T → CallEvent T → Calls T → Prop
  | push (s : Calls T) (newMessages : List T) (now : Nat) :
      Act s (.push newMessages now) (s.push newMessages now)
  | subscribe (s : Calls T) (cursor : UInt32) : Act s (.subscribe cursor) (s.subscribe cursor)
  | register (s : Calls T) (listener : Listener) : listener ∈ s.halfway →
      Act s (.register listener) (s.register listener)

/-- When no call is half-way, no registered listener waits for messages that exist. -/
def NoLostWakeup (s : Calls T) : Prop :=
  s.halfway = [] →
    ∀ listener ∈ s.queue.messageListeners, ¬ listener.cursor.toNat < s.queue.messages.length

/-- The condition on a step: a push appends no message that a half-way call waits for, and where
a call or a listener waits for a message that exists, the cursor of the queue says so (which it
always does for fewer than `2 ^ 32` messages). -/
def Timely (s : Calls T) : CallEvent T → Prop
  | .push newMessages _ =>
    (∀ listener ∈ s.halfway, (s.queue.messages ++ newMessages).length ≤ listener.cursor.toNat) ∧
      ∀ listener ∈ s.queue.messageListeners,
        listener.cursor.toNat < (s.queue.messages ++ newMessages).length →
          listener.cursor < UInt32.ofNat (s.queue.messages ++ newMessages).length
  | .subscribe cursor =>
    cursor.toNat < s.queue.messages.length → cursor < UInt32.ofNat s.queue.messages.length
  | .register _ => True

/-- Nobody waits for a message that exists, half-way calls included. -/
structure Waiting (s : Calls T) : Prop where
  halfway : ∀ listener ∈ s.halfway, s.queue.messages.length ≤ listener.cursor.toNat
  registered : ∀ listener ∈ s.queue.messageListeners,
    s.queue.messages.length ≤ listener.cursor.toNat

variable {s t : Calls T} {e : CallEvent T}

theorem subscribe_of_ready {cursor : UInt32} {sent : UInt32 × List T}
    (h : fireListenerIfReady s.queue.messages ⟨s.channels, cursor⟩ = some sent) :
    s.subscribe cursor =
      { s with channels := s.channels + 1, sent := (s.channels, sent) :: s.sent } := by
  unfold Calls.subscribe
  simp only [h]

theorem subscribe_of_not_ready {cursor : UInt32}
    (h : fireListenerIfReady s.queue.messages ⟨s.channels, cursor⟩ = none) :
    s.subscribe cursor =
      { s with channels := s.channels + 1, halfway := ⟨s.channels, cursor⟩ :: s.halfway } := by
  unfold Calls.subscribe
  simp only [h]

theorem Waiting.push {newMessages : List T} {now : Nat}
    (hok : s.Timely (.push newMessages now)) : (s.push newMessages now).Waiting where
  halfway := hok.1
  registered := by
    intro listener hmem
    obtain ⟨hmem, hready⟩ := mem_remaining.mp hmem
    by_contra hlt
    exact hready (hok.2 listener hmem (Nat.lt_of_not_le hlt))

theorem Waiting.subscribe {cursor : UInt32} (h : s.Waiting) (hok : s.Timely (.subscribe cursor)) :
    (s.subscribe cursor).Waiting := by
  cases hfire : fireListenerIfReady s.queue.messages ⟨s.channels, cursor⟩ with
  | some sent =>
    rw [subscribe_of_ready hfire]
    exact ⟨h.halfway, h.registered⟩
  | none =>
    rw [subscribe_of_not_ready hfire]
    refine ⟨fun listener hmem => ?_, h.registered⟩
    rcases List.mem_cons.mp hmem with rfl | hmem
    · by_contra hlt
      exact fireListenerIfReady_eq_none.mp hfire (hok (Nat.lt_of_not_le hlt))
    · exact h.halfway listener hmem

theorem Waiting.register {listener : Listener} (h : s.Waiting) (hmem : listener ∈ s.halfway) :
    (s.register listener).Waiting where
  halfway l hl := h.halfway l (List.mem_of_mem_erase hl)
  registered := by
    intro l hl
    rcases List.mem_append.mp hl with hl | hl
    · exact h.registered l hl
    · rw [List.mem_singleton.mp hl]
      exact h.halfway listener hmem

theorem Waiting.act (h : s.Waiting) (hst : When Act Timely s e t) : t.Waiting := by
  obtain ⟨hact, hok⟩ := hst
  cases hact with
  | push newMessages now => exact Waiting.push hok
  | subscribe cursor => exact h.subscribe hok
  | register listener hmem => exact h.register hmem

theorem waiting_new : (new : Calls T).Waiting :=
  ⟨fun _ h => (List.not_mem_nil h).elim, fun _ h => (List.not_mem_nil h).elim⟩

theorem Waiting.noLostWakeup (h : s.Waiting) : s.NoLostWakeup :=
  fun _ listener hmem => Nat.not_lt.mpr (h.registered listener hmem)

/-- **In a run in which no push passes a half-way call, no wakeup is lost.** -/
theorem noLostWakeup_of_timely {run : List (CallEvent T × Calls T)}
    (hrun : Run (When Act Timely) new run) : ∀ x ∈ run, x.2.NoLostWakeup :=
  fun x hx => (hrun.invariant (fun _ _ _ h hst => h.act hst) waiting_new x hx).noLostWakeup

/-- A listener registered before the push is woken. -/
theorem noLostWakeup_registered : ∃ run : List (CallEvent Bool × Calls Bool),
    (run.map Prod.fst).length = 3 ∧ Run Act new run ∧ ∀ x ∈ run, x.2.NoLostWakeup := by
  have hrun : ∃ run : List (CallEvent Bool × Calls Bool),
      (run.map Prod.fst).length = 3 ∧ Run (When Act Timely) new run :=
    ⟨_, rfl,
      .cons ⟨.subscribe new 0, fun h => (Nat.not_lt_zero _ h).elim⟩ <|
      .cons ⟨.register _ ⟨0, 0⟩ (by decide), trivial⟩ <|
      .cons ⟨.push _ [true] 7, by unfold Timely; decide⟩ <| .nil _⟩
  obtain ⟨run, hlength, hrun⟩ := hrun
  exact ⟨run, hlength, hrun.of_when, noLostWakeup_of_timely hrun⟩

/-- A message is pushed between the check and the registration of a call. -/
theorem not_noLostWakeup :
    ¬ ∀ run : List (CallEvent Bool × Calls Bool), Run Act new run → ∀ x ∈ run, x.2.NoLostWakeup := by
  intro hall
  have hrun : ∃ (run : List (CallEvent Bool × Calls Bool)) (t : Calls Bool),
      Run Act new (run ++ [(.register ⟨0, 0⟩, t)]) ∧ t.halfway = [] ∧
        t.queue.messageListeners = [⟨0, 0⟩] ∧ t.queue.messages = [true] :=
    ⟨[_, _], _,
      .cons (.subscribe new 0) <|
      .cons (.push _ [true] 7) <|
      .cons (.register _ ⟨0, 0⟩ (by decide)) <| .nil _, rfl, rfl, rfl⟩
  obtain ⟨run, t, hrun, hhalfway, hlisteners, hmessages⟩ := hrun
  refine hall _ hrun _ (List.mem_append_right _ List.mem_cons_self) hhalfway ⟨0, 0⟩ ?_ ?_
  · rw [hlisteners]; decide
  · rw [hmessages]; decide

end Calls

end Roxo
