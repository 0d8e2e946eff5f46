import Moirae.RabbitMQ.RabbitMQPublisher

/-! Shutting the RabbitMQ publisher down, await by await: its consumers are
cancelled one after the other, the channel is closed, and only then are the
subscriptions cleared. -/
namespace Moirae.RabbitMQPublisher.Shutdown

variable {Evt : Type}

inductive ChannelState
  | none
  | open
  | closed
  deriving DecidableEq

/-- A publisher with the consumers of its work channel, the deliveries that some
worker was called with, and the invocations that are running. `atShutdown` is
what was handed over when shutdown began, if it has. -/
structure World (Evt : Type) where
  publisher : RabbitMQPublisher
  channel : ChannelState
  consumers : Nat
  delivered : Nat
  handed : List Nat
  running : List (Handling Evt)
  atShutdown : Option (List Nat)
  ended : Bool

inductive Action (Evt : Type)
  /-- `onApplicationBootstrap` begins, starts a consumer, and ends. -/
  | prepare
  | consume
  | ready
  | subscribe
  | listen
  | unsubscribe (key : Uuid)
  | deliver (content : String)
  | settle (place : Nat) (outcome : Outcome) (response : Except Thrown Unit)
  | beforeApplicationShutdown
  /-- The broker confirms that a consumer is cancelled. -/
  | cancel
  | close
  /-- What `beforeApplicationShutdown` does after its `await`. -/
  | shutDown

namespace World

def initial : World Evt :=
  { publisher := .new, channel := .none, consumers := 0, delivered := 0, handed := []
    running := [], atShutdown := none, ended := false }

/-- The worker closures that the emitter calls with the next delivery, whatever
the subscription map says. -/
def workers (throws : Nat → Uuid → Bool) (w : World Evt) : List Uuid :=
  ((w.publisher.distributor.publish fun subscriber =>
    subscriber.role = .listener && throws w.delivered subscriber.key).filter
      (·.role = .worker)).map Subscriber.key

variable [Respondable Evt] (codec : EventProcessor Evt) (throws : Nat → Uuid → Bool)

/-- The consumer callback. -/
def deliver (w : World Evt) (content : String) : World Evt :=
  match RabbitMQPublisher.consume codec w.publisher ⟨w.delivered, content⟩ with
  | (publisher, _, .error _) => { w with publisher, delivered := w.delivered + 1 }
  | (publisher, _, .ok evt) =>
      { w with
        publisher
        delivered := w.delivered + 1
        handed := if w.workers throws = [] then w.handed else w.handed ++ [w.delivered]
        running := w.running ++
          (w.workers throws).map fun worker => ⟨w.delivered, worker, evt⟩ }

/-- `acknowledgeEvent`. A closed channel throws, after the status was set. -/
def acknowledgeEvent (w : World Evt) (evt : Evt) : World Evt :=
  if w.channel = .open then
    { w with publisher := (RabbitMQPublisher.acknowledgeEvent w.publisher evt).1 }
  else { w with publisher := { w.publisher with status := .IDLE } }

def step (w : World Evt) : Action Evt → Option (World Evt)
  | .prepare =>
      if w.atShutdown = none then
        some { w with publisher := { w.publisher with status := .PREPARING }, channel := .open }
      else none
  | .consume =>
      if w.atShutdown = none ∧ w.channel = .open then
        some { w with consumers := w.consumers + 1 }
      else none
  | .ready =>
      if w.atShutdown = none then
        some { w with publisher := { w.publisher with status := .IDLE } }
      else none
  | .subscribe => some { w with publisher := w.publisher.subscribe }
  | .listen => some { w with publisher := w.publisher.listen }
  | .unsubscribe key => some { w with publisher := w.publisher.unsubscribe key }
  | .deliver content =>
      if w.channel = .open ∧ 0 < w.consumers then some (w.deliver codec throws content) else none
  | .settle place outcome response =>
      match w.running[place]? with
      | none => none
      | some handling =>
          let settled := { w with running := w.running.eraseIdx place }
          if BasePublisher.acknowledges handling.evt outcome response then
            some (settled.acknowledgeEvent handling.evt)
          else some settled
  | .beforeApplicationShutdown =>
      if w.atShutdown = none then
        some { w with
          publisher := { w.publisher with status := .SHUTTING_DOWN }
          atShutdown := some w.handed }
      else none
  | .cancel =>
      if w.atShutdown ≠ none ∧ 0 < w.consumers then
        some { w with consumers := w.consumers - 1 }
      else none
  | .close =>
      if w.atShutdown ≠ none ∧ w.consumers = 0 ∧ w.channel = .open then
        some { w with channel := .closed }
      else none
  | .shutDown =>
      if w.atShutdown ≠ none ∧ w.channel = .closed ∧ w.ended = false then
        some { w with
          publisher :=
            { w.publisher with
              distributor := w.publisher.distributor.clear
              status := .NOT_READY }
          ended := true }
      else none

omit [Respondable Evt] in
def StaysDown (w : World Evt) : Prop :=
  BasePublisher.StaysDown w.publisher.status w.handed w.atShutdown

omit [Respondable Evt] in
instance (w : World Evt) : Decidable w.StaysDown :=
  inferInstanceAs (Decidable (BasePublisher.StaysDown _ _ _))

/-- After shutdown has started, no worker closure comes to `acknowledgeEvent`,
and what is still delivered cannot be parsed or meets no worker closure on the
emitter. -/
def LetsGo (w : World Evt) : Action Evt → Prop
  | .deliver content => w.atShutdown ≠ none → ∀ evt, codec.parseEvent content = .ok evt →
      w.workers throws = []
  | .settle place outcome response =>
      w.atShutdown ≠ none → ∀ handling ∈ w.running[place]?,
        BasePublisher.acknowledges handling.evt outcome response = false
  | _ => True

variable {codec throws}

omit [Respondable Evt] in
/-- Steps that leave the status and the workers' messages alone. -/
theorem StaysDown.congr {w t : World Evt} (h : w.StaysDown)
    (hStatus : t.publisher.status = w.publisher.status) (hHanded : t.handed = w.handed)
    (hShutdown : t.atShutdown = w.atShutdown) : t.StaysDown := by
  rw [StaysDown, hStatus, hHanded, hShutdown]
  exact h

theorem staysDown_deliver_iff {w : World Evt} (h : w.StaysDown) (content : String) :
    (w.deliver codec throws content).StaysDown ↔ w.LetsGo codec throws (.deliver content) := by
  unfold deliver RabbitMQPublisher.consume
  cases hParse : codec.parseEvent content with
  | error reason =>
      refine iff_of_true (h.congr rfl rfl rfl) fun _ evt hOk => ?_
      rw [hParse] at hOk
      cases hOk
  | ok evt =>
      dsimp only
      rcases Option.eq_none_or_eq_some w.atShutdown with hRunning | ⟨before, hBegun⟩
      · exact iff_of_true (BasePublisher.staysDown_of_running hRunning) (absurd hRunning)
      · by_cases hNobody : w.workers throws = []
        · rw [if_pos hNobody]
          exact iff_of_true (h.congr rfl rfl rfl) fun _ _ _ => hNobody
        · rw [if_neg hNobody]
          refine iff_of_false (fun hDown => ?_) (fun hNot => ?_)
          · have hSame := (hDown before hBegun).2.2
            rw [← (h before hBegun).2.2] at hSame
            exact List.cons_ne_nil _ _ (List.append_right_eq_self.mp hSame)
          · exact hNobody (hNot (hBegun ▸ Option.some_ne_none before) evt hParse)

theorem status_acknowledgeEvent (w : World Evt) (evt : Evt) :
    (w.acknowledgeEvent evt).publisher.status = .IDLE ∧
      (w.acknowledgeEvent evt).atShutdown = w.atShutdown := by
  unfold acknowledgeEvent RabbitMQPublisher.acknowledgeEvent handleAcknowledge
  split
  · cases w.publisher.activeInbound.get (Respondable.uuid evt) <;> exact ⟨rfl, rfl⟩
  · exact ⟨rfl, rfl⟩

theorem staysDown_settle_iff {w t : World Evt} {place : Nat} {outcome : Outcome}
    {response : Except Thrown Unit} (h : w.StaysDown)
    (hStep : step codec throws w (.settle place outcome response) = some t) :
    t.StaysDown ↔ w.LetsGo codec throws (.settle place outcome response) := by
  rw [step] at hStep
  rw [LetsGo]
  cases hRunning : w.running[place]? with
  | none =>
      rw [hRunning] at hStep
      cases hStep
  | some handling =>
      rw [hRunning] at hStep
      dsimp only at hStep
      cases hAck : BasePublisher.acknowledges handling.evt outcome response with
      | false =>
          rw [hAck, if_neg Bool.false_ne_true] at hStep
          obtain rfl := Option.some.inj hStep
          refine iff_of_true (h.congr rfl rfl rfl) fun _ other hOther => ?_
          exact Option.some.inj hOther ▸ hAck
      | true =>
          rw [hAck, if_pos rfl] at hStep
          obtain rfl := Option.some.inj hStep
          obtain ⟨hIdle, hShutdown⟩ := status_acknowledgeEvent
            { w with running := w.running.eraseIdx place } handling.evt
          rcases Option.eq_none_or_eq_some w.atShutdown with hNone | ⟨before, hBegun⟩
          · exact iff_of_true (BasePublisher.staysDown_of_running (hShutdown.trans hNone))
              (absurd hNone)
          · refine iff_of_false (fun hDown => ?_) (fun hNot => ?_)
            · exact (hDown before (hShutdown.trans hBegun)).1 hIdle
            · have hNo := hNot (hBegun ▸ Option.some_ne_none before) handling rfl
              exact Bool.false_ne_true (hNo.symm.trans hAck)

theorem staysDown_step_iff {w t : World Evt} {action : Action Evt} (h : w.StaysDown)
    (hStep : step codec throws w action = some t) :
    t.StaysDown ↔ w.LetsGo codec throws action := by
  cases action with
  | deliver content =>
      rw [step] at hStep
      split at hStep
      · obtain rfl := Option.some.inj hStep
        exact staysDown_deliver_iff h content
      · cases hStep
  | settle place outcome response => exact staysDown_settle_iff h hStep
  | prepare | ready =>
      rw [step] at hStep
      split at hStep
      · rename_i hNone
        obtain rfl := Option.some.inj hStep
        exact iff_of_true (BasePublisher.staysDown_of_running hNone) trivial
      · cases hStep
  | consume | cancel | close =>
      rw [step] at hStep
      split at hStep
      · obtain rfl := Option.some.inj hStep
        exact iff_of_true (h.congr rfl rfl rfl) trivial
      · cases hStep
  | subscribe | listen | unsubscribe key =>
      obtain rfl := Option.some.inj hStep
      exact iff_of_true (h.congr rfl rfl rfl) trivial
  | beforeApplicationShutdown =>
      rw [step] at hStep
      split at hStep
      · obtain rfl := Option.some.inj hStep
        exact iff_of_true (BasePublisher.staysDown_begun w.handed) trivial
      · cases hStep
  | shutDown =>
      rw [step] at hStep
      split at hStep
      · obtain rfl := Option.some.inj hStep
        exact iff_of_true (BasePublisher.StaysDown.shutDown h) trivial
      · cases hStep

/-- The publisher stays down exactly if nothing that was under way at shutdown
comes to a worker or to an acknowledgement any more. -/
theorem staysDown_iff_letsGo (codec : EventProcessor Evt) (throws : Nat → Uuid → Bool)
    (actions : List (Action Evt)) :
    Runs.Always (step codec throws) StaysDown initial actions ↔
      Runs.StepsMeet (step codec throws) (LetsGo codec throws) initial actions :=
  Runs.always_iff_stepsMeet (fun _ => True) (fun _ => True) (fun _ _ _ _ _ _ => trivial)
    (fun _ _ _ _ _ h hStep => staysDown_step_iff h hStep) trivial
    (BasePublisher.staysDown_of_running rfl) (fun _ _ => trivial)

end World

end Moirae.RabbitMQPublisher.Shutdown
