import Mathlib.Order.Nat
import Roxo.Server.MessageQueue

/-!
# Subscribers

A subscriber loops: it subscribes with its cursor, and goes on with the cursor of the batch it
receives. The websocket task also stops waiting and subscribes again when something else happens
on its connection (`abandon`); the receiver is dropped then, with what was sent to it.

`Delivery` is the queue with any number of subscribers, in any order of steps. Every subscriber
has received exactly the messages between the cursor it started from and the cursor it is at
(`delivered_of_run`), as long as the queue is shorter than `2 ^ 32`.
-/

namespace Roxo

open Transition MessageQueue

variable {T : Type}

/-- A loop over `subscribe`. -/
structure Subscriber (T : Type) where
  /-- The cursor it started from. -/
  start : UInt32
  cursor : UInt32
  /-- The batches received so far, one after the other. -/
  received : List T
  /-- The channel whose receiver it holds. -/
  awaiting : Option Nat

namespace Subscriber

/-- The loop begins. -/
def new (cursor : UInt32) : Subscriber T := ⟨cursor, cursor, [], none⟩

/-- A batch arrives. -/
def receive (sub : Subscriber T) (newCursor : UInt32) (messages : List T) : Subscriber T :=
  if messages.isEmpty then { sub with awaiting := none }
  else
    { sub with
      cursor := newCursor
      received := sub.received ++ messages
      awaiting := none }

/-- What was received is `messages[start..cursor]`. -/
structure Delivered (messages : List T) (sub : Subscriber T) : Prop where
  start_le : sub.start ≤ sub.cursor
  cursor_le : sub.start < sub.cursor → sub.cursor.toNat ≤ messages.length
  received : sub.received = messages.extract sub.start.toNat sub.cursor.toNat

end Subscriber

structure Delivery (T : Type) where
  calls : Calls T
  subscribers : List (Subscriber T)

inductive DeliveryEvent (T : Type) where
  | push (newMessages : List T) (now : Nat)
  /-- A subscriber begins, at any cursor. -/
  | start (cursor : UInt32)
  | subscribe (subscriber : Nat)
  | register (listener : Listener)
  | receive (subscriber : Nat)
  | abandon (subscriber : Nat)

namespace Delivery

def new : Delivery T := ⟨Calls.new, []⟩

inductive Act : Delivery T → DeliveryEvent T → Delivery T → Prop
  | push (s : Delivery T) (newMessages : List T) (now : Nat) :
      Act s (.push newMessages now) { s with calls := s.calls.push newMessages now }
  | start (s : Delivery T) (cursor : UInt32) :
      Act s (.start cursor) { s with subscribers := s.subscribers ++ [.new cursor] }
  | subscribe (s : Delivery T) (i : Nat) (sub : Subscriber T) :
      s.subscribers[i]? = some sub → sub.awaiting = none →
      Act s (.subscribe i)
        { calls := s.calls.subscribe sub.cursor
          subscribers := s.subscribers.set i { sub with awaiting := some s.calls.channels } }
  | register (s : Delivery T) (listener : Listener) : listener ∈ s.calls.halfway →
      Act s (.register listener) { s with calls := s.calls.register listener }
  | receive (s : Delivery T) (i channel : Nat) (sub : Subscriber T) (newCursor : UInt32)
      (messages : List T) :
      s.subscribers[i]? = some sub → sub.awaiting = some channel →
      (channel, newCursor, messages) ∈ s.calls.sent →
      Act s (.receive i) { s with subscribers := s.subscribers.set i (sub.receive newCursor messages) }
  -- only a `subscribe` call that has returned can be given up
  | abandon (s : Delivery T) (i channel : Nat) (sub : Subscriber T) :
      s.subscribers[i]? = some sub → sub.awaiting = some channel →
      (∀ listener ∈ s.calls.halfway, listener.sender ≠ channel) →
      Act s (.abandon i) { s with subscribers := s.subscribers.set i { sub with awaiting := none } }

end Delivery

/-! ### Slices of the history -/

/-- Appending messages does not change a slice of the old ones. -/
theorem extract_append {messages newMessages : List T} {c k : Nat}
    (h : c < k → k ≤ messages.length) :
    (messages ++ newMessages).extract c k = messages.extract c k := by
  rw [List.extract_eq_take_drop, List.extract_eq_take_drop]
  by_cases hck : c < k
  · have hk := h hck
    rw [List.drop_append_of_le_length (by omega), List.take_append_of_le_length]
    rw [List.length_drop]
    omega
  · have hzero : k - c = 0 := by omega
    rw [hzero, List.take_zero, List.take_zero]

/-- Adjacent slices. -/
theorem extract_append_extract {messages : List T} {c k n : Nat} (hck : c ≤ k) (hkn : k ≤ n) :
    messages.extract c k ++ messages.extract k n = messages.extract c n := by
  simp only [List.extract_eq_take_drop]
  have hn : n - c = (k - c) + (n - k) := by omega
  have hk : c + (k - c) = k := by omega
  rw [hn, List.take_add, List.drop_drop, hk]

/-! ### The channels -/

namespace Calls

/-- What is sent over a channel to a subscriber that waits from `cursor`. -/
def Batch (messages : List T) (cursor newCursor : UInt32) (batch : List T) : Prop :=
  cursor < newCursor ∧ newCursor.toNat ≤ messages.length ∧
    batch = messages.extract cursor.toNat newCursor.toNat

/-- A channel was made for a subscriber at `cursor`. -/
structure Serves (s : Calls T) (channel : Nat) (cursor : UInt32) : Prop where
  lt : channel < s.channels
  halfway : ∀ listener ∈ s.halfway, listener.sender = channel → listener.cursor = cursor
  registered : ∀ listener ∈ s.queue.messageListeners,
    listener.sender = channel → listener.cursor = cursor
  sent : ∀ newCursor messages, (channel, newCursor, messages) ∈ s.sent →
    Batch s.queue.messages cursor newCursor messages

/-- The channels in use are ones that were made. -/
structure Made (s : Calls T) : Prop where
  halfway : ∀ listener ∈ s.halfway, listener.sender < s.channels
  registered : ∀ listener ∈ s.queue.messageListeners, listener.sender < s.channels
  sent : ∀ x ∈ s.sent, x.1 < s.channels

variable {s : Calls T}

theorem Batch.append {messages newMessages batch : List T} {cursor newCursor : UInt32}
    (h : Batch messages cursor newCursor batch) :
    Batch (messages ++ newMessages) cursor newCursor batch := by
  obtain ⟨hlt, hle, rfl⟩ := h
  refine ⟨hlt, ?_, (extract_append fun _ => hle).symm⟩
  rw [List.length_append]
  omega

/-- What the queue sends is a batch. -/
theorem batch_of_fire {messages : List T} {listener : Listener} {sent : UInt32 × List T}
    (hlength : messages.length < UInt32.size)
    (h : fireListenerIfReady messages listener = some sent) :
    Batch messages listener.cursor sent.1 sent.2 := by
  obtain ⟨hlt, rfl⟩ := fireListenerIfReady_eq_some h
  have hcursor := toNat_cursor hlength
  refine ⟨hlt, hcursor.le, ?_⟩
  dsimp only
  rw [hcursor, List.extract_eq_take_drop, List.take_of_length_le]
  exact (List.length_drop ..).le

theorem Made.push (h : s.Made) {newMessages : List T} {now : Nat} :
    (s.push newMessages now).Made where
  halfway := h.halfway
  registered listener hmem := h.registered listener (mem_remaining.mp hmem).1
  sent := by
    rintro ⟨channel, sent⟩ hmem
    rcases List.mem_append.mp hmem with hmem | hmem
    · obtain ⟨listener, hlistener, rfl, -⟩ := mem_fired.mp hmem
      exact h.registered listener hlistener
    · exact h.sent _ hmem

theorem Made.subscribe (h : s.Made) {cursor : UInt32} : (s.subscribe cursor).Made := by
  cases hfire : fireListenerIfReady s.queue.messages ⟨s.channels, cursor⟩ with
  | some sent =>
    rw [subscribe_of_ready hfire]
    refine ⟨fun l hl => Nat.lt_succ_of_lt (h.halfway l hl),
      fun l hl => Nat.lt_succ_of_lt (h.registered l hl), fun x hx => ?_⟩
    rcases List.mem_cons.mp hx with rfl | hx
    · exact Nat.lt_succ_self _
    · exact Nat.lt_succ_of_lt (h.sent x hx)
  | none =>
    rw [subscribe_of_not_ready hfire]
    refine ⟨fun l hl => ?_, fun l hl => Nat.lt_succ_of_lt (h.registered l hl),
      fun x hx => Nat.lt_succ_of_lt (h.sent x hx)⟩
    rcases List.mem_cons.mp hl with rfl | hl
    · exact Nat.lt_succ_self _
    · exact Nat.lt_succ_of_lt (h.halfway l hl)

theorem Made.register (h : s.Made) {listener : Listener} (hmem : listener ∈ s.halfway) :
    (s.register listener).Made where
  halfway l hl := h.halfway l (List.mem_of_mem_erase hl)
  registered := by
    intro l hl
    rcases List.mem_append.mp hl with hl | hl
    · exact h.registered l hl
    · rw [List.mem_singleton.mp hl]
      exact h.halfway listener hmem
  sent := h.sent

variable {channel : Nat} {cursor : UInt32}

theorem queue_subscribe : (s.subscribe cursor).queue = s.queue := by
  unfold Calls.subscribe
  dsimp only
  split <;> rfl

theorem Serves.push (h : s.Serves channel cursor) {newMessages : List T} {now : Nat}
    (hlength : (s.queue.messages ++ newMessages).length < UInt32.size) :
    (s.push newMessages now).Serves channel cursor where
  lt := h.lt
  halfway := h.halfway
  registered listener hmem := h.registered listener (mem_remaining.mp hmem).1
  sent := by
    intro newCursor messages hmem
    rcases List.mem_append.mp hmem with hmem | hmem
    · obtain ⟨listener, hlistener, hsender, hfire⟩ := mem_fired.mp hmem
      rw [← h.registered listener hlistener hsender]
      exact batch_of_fire hlength hfire
    · exact (h.sent newCursor messages hmem).append

/-- A new call leaves the older channels alone. -/
theorem Serves.subscribe (h : s.Serves channel cursor) {cursor' : UInt32} :
    (s.subscribe cursor').Serves channel cursor := by
  have hne : s.channels ≠ channel := Nat.ne_of_gt h.lt
  cases hfire : fireListenerIfReady s.queue.messages ⟨s.channels, cursor'⟩ with
  | some sent =>
    rw [subscribe_of_ready hfire]
    refine ⟨Nat.lt_succ_of_lt h.lt, h.halfway, h.registered, fun newCursor messages hmem => ?_⟩
    rcases List.mem_cons.mp hmem with heq | hmem
    · exact absurd (Prod.mk.inj heq).1.symm hne
    · exact h.sent newCursor messages hmem
  | none =>
    rw [subscribe_of_not_ready hfire]
    refine ⟨Nat.lt_succ_of_lt h.lt, fun l hl hsender => ?_, h.registered, h.sent⟩
    rcases List.mem_cons.mp hl with rfl | hl
    · exact absurd hsender hne
    · exact h.halfway l hl hsender

/-- A new call makes a channel for its cursor. -/
theorem serves_subscribe (h : s.Made) (hlength : s.queue.messages.length < UInt32.size) :
    (s.subscribe cursor).Serves s.channels cursor := by
  have hhalfway : ∀ l ∈ s.halfway, l.sender = s.channels → l.cursor = cursor :=
    fun l hl heq => absurd heq (Nat.ne_of_lt (h.halfway l hl))
  have hregistered : ∀ l ∈ s.queue.messageListeners, l.sender = s.channels → l.cursor = cursor :=
    fun l hl heq => absurd heq (Nat.ne_of_lt (h.registered l hl))
  have hsent : ∀ newCursor messages, (s.channels, newCursor, messages) ∈ s.sent →
      Batch s.queue.messages cursor newCursor messages :=
    fun _ _ hmem => absurd (h.sent _ hmem) (Nat.lt_irrefl _)
  cases hfire : fireListenerIfReady s.queue.messages ⟨s.channels, cursor⟩ with
  | some sent =>
    rw [subscribe_of_ready hfire]
    refine ⟨Nat.lt_succ_self _, hhalfway, hregistered, fun newCursor messages hmem => ?_⟩
    rcases List.mem_cons.mp hmem with heq | hmem
    · obtain ⟨-, rfl⟩ := Prod.mk.inj heq
      exact batch_of_fire hlength hfire
    · exact hsent newCursor messages hmem
  | none =>
    rw [subscribe_of_not_ready hfire]
    refine ⟨Nat.lt_succ_self _, fun l hl heq => ?_, hregistered, hsent⟩
    rcases List.mem_cons.mp hl with rfl | hl
    · rfl
    · exact hhalfway l hl heq

theorem Serves.register (h : s.Serves channel cursor) {listener : Listener}
    (hmem : listener ∈ s.halfway) : (s.register listener).Serves channel cursor where
  lt := h.lt
  halfway l hl := h.halfway l (List.mem_of_mem_erase hl)
  registered := by
    intro l hl
    rcases List.mem_append.mp hl with hl | hl
    · exact h.registered l hl
    · rw [List.mem_singleton.mp hl]
      exact h.halfway listener hmem
  sent := h.sent

end Calls

/-! ### Every subscriber -/

namespace Subscriber

open Calls

variable {sub : Subscriber T}

theorem Delivered.append {messages newMessages : List T} (h : sub.Delivered messages) :
    sub.Delivered (messages ++ newMessages) where
  start_le := h.start_le
  cursor_le hlt := by
    have hle := h.cursor_le hlt
    rw [List.length_append]
    omega
  received := by
    rw [h.received]
    exact (extract_append fun hlt => h.cursor_le (UInt32.lt_iff_toNat_lt.mpr hlt)).symm

theorem delivered_new {messages : List T} {cursor : UInt32} :
    (Subscriber.new cursor).Delivered messages where
  start_le := UInt32.le_refl cursor
  cursor_le hlt := absurd hlt (UInt32.lt_irrefl cursor)
  received := by
    show [] = messages.extract cursor.toNat cursor.toNat
    rw [List.extract_eq_take_drop, Nat.sub_self, List.take_zero]

theorem Delivered.wait {messages : List T} (h : sub.Delivered messages) (channel : Option Nat) :
    Subscriber.Delivered messages { sub with awaiting := channel } :=
  ⟨h.start_le, h.cursor_le, h.received⟩

/-- A batch continues where the last one ended. -/
theorem delivered_receive {messages batch : List T} {newCursor : UInt32}
    (h : sub.Delivered messages) (hbatch : Batch messages sub.cursor newCursor batch) :
    (sub.receive newCursor batch).Delivered messages := by
  obtain ⟨hlt, hle, rfl⟩ := hbatch
  have hstart := UInt32.le_iff_toNat_le.mp h.start_le
  have hcursor := UInt32.lt_iff_toNat_lt.mp hlt
  unfold Subscriber.receive
  split_ifs
  · exact h.wait none
  · refine ⟨UInt32.le_iff_toNat_le.mpr (hstart.trans hcursor.le), fun _ => hle, ?_⟩
    dsimp only
    rw [h.received]
    exact extract_append_extract hstart hcursor.le

end Subscriber

namespace Delivery

open Calls Subscriber

/-- What holds of a subscriber. -/
structure Sound (calls : Calls T) (sub : Subscriber T) : Prop where
  delivered : sub.Delivered calls.queue.messages
  serves : ∀ channel, sub.awaiting = some channel → calls.Serves channel sub.cursor

/-- The invariant. -/
structure Inv (s : Delivery T) : Prop where
  made : s.calls.Made
  sound : ∀ sub ∈ s.subscribers, Sound s.calls sub

variable {s t : Delivery T} {e : DeliveryEvent T} {sub : Subscriber T}

theorem Sound.push (h : Sound s.calls sub) {newMessages : List T} {now : Nat}
    (hlength : (s.calls.queue.messages ++ newMessages).length < UInt32.size) :
    Sound (s.calls.push newMessages now) sub :=
  ⟨h.delivered.append, fun channel hch => (h.serves channel hch).push hlength⟩

theorem sound_new {calls : Calls T} {cursor : UInt32} : Sound calls (.new cursor) :=
  ⟨delivered_new, fun _ h => nomatch h⟩

theorem Sound.subscribe (h : Sound s.calls sub) {cursor : UInt32} :
    Sound (s.calls.subscribe cursor) sub := by
  refine ⟨?_, fun channel hch => (h.serves channel hch).subscribe⟩
  rw [queue_subscribe]
  exact h.delivered

theorem Sound.register (h : Sound s.calls sub) {listener : Listener}
    (hmem : listener ∈ s.calls.halfway) : Sound (s.calls.register listener) sub :=
  ⟨h.delivered, fun channel hch => (h.serves channel hch).register hmem⟩

/-- Replacing one subscriber. -/
theorem sound_set {calls : Calls T} {i : Nat} (h : ∀ sub ∈ s.subscribers, Sound calls sub)
    (hsub : Sound calls sub) : ∀ sub' ∈ s.subscribers.set i sub, Sound calls sub' := by
  intro sub' hmem
  rcases List.mem_or_eq_of_mem_set hmem with hmem | rfl
  · exact h sub' hmem
  · exact hsub

theorem inv_new : (new : Delivery T).Inv where
  made := ⟨fun _ h => (List.not_mem_nil h).elim, fun _ h => (List.not_mem_nil h).elim,
    fun _ h => (List.not_mem_nil h).elim⟩
  sound _ h := (List.not_mem_nil h).elim

/-- The queue only grows. -/
theorem length_le_of_act (hst : Act s e t) :
    s.calls.queue.messages.length ≤ t.calls.queue.messages.length := by
  cases hst with
  | push newMessages now => exact List.length_append ▸ Nat.le_add_right _ _
  | subscribe i sub hi haw =>
    show _ ≤ (s.calls.subscribe sub.cursor).queue.messages.length
    rw [queue_subscribe]
  | _ => exact Nat.le_refl _

theorem Inv.act (h : s.Inv) (hst : Act s e t)
    (hlength : t.calls.queue.messages.length < UInt32.size) : t.Inv := by
  have hlength' := (length_le_of_act hst).trans_lt hlength
  cases hst with
  | push newMessages now => exact ⟨h.made.push, fun sub hsub => (h.sound sub hsub).push hlength⟩
  | start cursor =>
    refine ⟨h.made, fun sub hsub => ?_⟩
    rcases List.mem_append.mp hsub with hsub | hsub
    · exact h.sound sub hsub
    · rw [List.mem_singleton.mp hsub]
      exact sound_new
  | subscribe i sub hi haw =>
    have hsub := h.sound sub (List.mem_of_getElem? hi)
    refine ⟨h.made.subscribe, sound_set (fun sub hsub => (h.sound sub hsub).subscribe) ?_⟩
    refine ⟨hsub.subscribe.delivered.wait _, fun channel hch => ?_⟩
    rw [← Option.some.inj hch]
    exact serves_subscribe h.made hlength'
  | register listener hmem =>
    exact ⟨h.made.register hmem, fun sub hsub => (h.sound sub hsub).register hmem⟩
  | receive i channel sub newCursor messages hi haw hsent =>
    have hsub := h.sound sub (List.mem_of_getElem? hi)
    have hbatch := (hsub.serves channel haw).sent newCursor messages hsent
    refine ⟨h.made, sound_set h.sound ⟨delivered_receive hsub.delivered hbatch, ?_⟩⟩
    intro channel' hch
    have hnone : (sub.receive newCursor messages).awaiting = none := by
      unfold Subscriber.receive
      split_ifs <;> rfl
    rw [hnone] at hch
    cases hch
  | abandon i channel sub hi haw hcall =>
    have hsub := h.sound sub (List.mem_of_getElem? hi)
    exact ⟨h.made, sound_set h.sound ⟨hsub.delivered.wait _, fun _ hch => nomatch hch⟩⟩

theorem inv_of_run {run : List (DeliveryEvent T × Delivery T)} (hrun : Run Act new run) :
    ∀ x ∈ run, x.2.calls.queue.messages.length < UInt32.size → x.2.Inv := by
  refine hrun.invariant (P := fun s => s.calls.queue.messages.length < UInt32.size → s.Inv) ?_
    fun _ => inv_new
  intro s e t hs hst hlength
  exact (hs ((length_le_of_act hst).trans_lt hlength)).act hst hlength

/-- **Delivery without gaps and duplicates.** -/
theorem delivered_of_run {run : List (DeliveryEvent T × Delivery T)} (hrun : Run Act new run) :
    ∀ x ∈ run, x.2.calls.queue.messages.length < UInt32.size →
      ∀ sub ∈ x.2.subscribers, sub.Delivered x.2.calls.queue.messages :=
  fun x hx hlength sub hsub => ((inv_of_run hrun x hx hlength).sound sub hsub).delivered

/-- A subscriber that starts at 1 gets the second and the third message. -/
theorem delivered_fromOne : ∃ (run : List (DeliveryEvent Bool × Delivery Bool))
    (s : Delivery Bool), Run Act new (run ++ [(.receive 0, s)]) ∧
      s.subscribers.map Subscriber.received = [[false, true]] ∧
      ∀ sub ∈ s.subscribers, sub.Delivered s.calls.queue.messages := by
  have hrun : ∃ (run : List (DeliveryEvent Bool × Delivery Bool)) (s : Delivery Bool),
      Run Act new (run ++ [(.receive 0, s)]) ∧
        s.subscribers.map Subscriber.received = [[false, true]] ∧
        s.calls.queue.messages.length = 3 :=
    ⟨[_, _, _, _], _,
      .cons (.start new 1) <|
      .cons (.subscribe _ 0 (.new 1) rfl rfl) <|
      .cons (.register _ ⟨0, 1⟩ (by decide)) <|
      .cons (.push _ [true, false, true] 7) <|
      .cons (.receive _ 0 0 ⟨1, 1, [], some 0⟩ 3 [false, true] rfl rfl (by decide)) <| .nil _,
      rfl, rfl⟩
  obtain ⟨run, s, hrun, hreceived, hlength⟩ := hrun
  have hmem : (.receive 0, s) ∈ run ++ [(.receive 0, s)] :=
    List.mem_append_right _ List.mem_cons_self
  exact ⟨run, s, hrun, hreceived, delivered_of_run hrun _ hmem (by rw [hlength]; decide)⟩

end Delivery

end Roxo
