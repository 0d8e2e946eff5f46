import Moirae.Core.Message
import Moirae.RabbitMQ.RabbitMQPublisher

/-! The work consumer across lost connections. `handleBootstrap` runs again on
each reopening and replaces the work channel, while the pending messages stay
tracked by the uuid of their event. -/
namespace Moirae.RabbitMQPublisher.Reopening

variable {Evt : Type}

/-- A delivery is known by its channel and its tag, which counts from 1 on each
channel. -/
structure DeliveryId where
  channel : Nat
  tag : Nat
  deriving DecidableEq

/-- An invocation of a worker closure that has not settled. -/
structure Handling (Evt : Type) where
  delivery : DeliveryId
  worker : Uuid
  evt : Evt

/-- The publisher, its current work channel with the number of deliveries made
on it, and what the broker waits for there. `started` are the deliveries that
workers were called with, `acknowledged` those the broker took as done. -/
structure World (Evt : Type) where
  publisher : RabbitMQPublisher
  channel : Nat
  channelOpen : Bool
  delivered : Nat
  unsettled : List DeliveryId
  started : List DeliveryId
  running : List (Handling Evt)
  acknowledged : List DeliveryId

inductive Action (Evt : Type)
  | prepare
  | ready
  | shutDown
  | close
  | subscribe
  | listen
  | unsubscribe (key : Uuid)
  | deliver (content : String)
  | settle (place : Nat) (outcome : Outcome) (response : Except Thrown Unit)
  /-- The connection is lost, and the channel with it. -/
  | lose
  /-- `handleBootstrap` has made a new work channel. -/
  | reopen

namespace World

def initial : World Evt :=
  { publisher := .new, channel := 0, channelOpen := true, delivered := 0, unsettled := []
    started := [], running := [], acknowledged := [] }

def called (throws : DeliveryId → Uuid → Bool) (w : World Evt) (delivery : DeliveryId) :
    List Subscriber :=
  w.publisher.distributor.publish fun subscriber =>
    subscriber.role = .listener && throws delivery subscriber.key

/-- The workers called with the delivery. -/
def workers (throws : DeliveryId → Uuid → Bool) (w : World Evt) (delivery : DeliveryId) :
    List Uuid :=
  ((w.called throws delivery).filter (·.role = .worker)).map Subscriber.key

/-- The next delivery on the current channel. -/
def next (w : World Evt) : DeliveryId := ⟨w.channel, w.delivered + 1⟩

variable [Respondable Evt] (codec : EventProcessor Evt)
  (throws : DeliveryId → Uuid → Bool)

/-- The consumer callback runs with the next delivery. -/
def deliver (w : World Evt) (content : String) : World Evt :=
  match consume codec w.publisher ⟨w.delivered + 1, content⟩ with
  | (publisher, rejected, result) =>
      let arrived :=
        { w with
          publisher
          delivered := w.delivered + 1
          unsettled := if rejected = [] then w.unsettled ++ [w.next] else w.unsettled }
      match result with
      | .error _ => arrived
      | .ok evt =>
          { arrived with
            started := if w.workers throws w.next = [] then w.started else w.started ++ [w.next]
            running := w.running ++
              (w.workers throws w.next).map fun worker => ⟨w.next, worker, evt⟩ }

/-- `ack(msg)` on the current channel settles the tag of the message there, if
that is the tag of an unsettled delivery. -/
def ack (w : World Evt) (tag : Nat) : World Evt :=
  if ⟨w.channel, tag⟩ ∈ w.unsettled then
    { w with
      unsettled := w.unsettled.erase ⟨w.channel, tag⟩
      acknowledged := w.acknowledged ++ [⟨w.channel, tag⟩] }
  else w

/-- `acknowledgeEvent`. Calling a closed channel throws, after the status was
set and before the message is forgotten. -/
def acknowledgeEvent (w : World Evt) (evt : Evt) : World Evt :=
  if w.channelOpen then
    match RabbitMQPublisher.acknowledgeEvent w.publisher evt with
    | (publisher, calls) => calls.foldl (fun w call => w.ack call.1) { w with publisher }
  else { w with publisher := { w.publisher with status := .IDLE } }

def step (w : World Evt) : Action Evt → Option (World Evt)
  | .prepare => some { w with publisher := { w.publisher with status := .PREPARING } }
  | .ready => some { w with publisher := { w.publisher with status := .IDLE } }
  | .shutDown => some { w with publisher := { w.publisher with status := .SHUTTING_DOWN } }
  | .close =>
      some { w with
        publisher :=
          { w.publisher with distributor := w.publisher.distributor.clear, status := .NOT_READY } }
  | .subscribe => some { w with publisher := w.publisher.subscribe }
  | .listen => some { w with publisher := w.publisher.listen }
  | .unsubscribe key => some { w with publisher := w.publisher.unsubscribe key }
  | .deliver content => if w.channelOpen then some (w.deliver codec throws content) else none
  | .settle place outcome response =>
      match w.running[place]? with
      | none => none
      | some handling =>
          let settled := { w with running := w.running.eraseIdx place }
          if BasePublisher.acknowledges handling.evt outcome response then
            some (settled.acknowledgeEvent handling.evt)
          else some settled
  | .lose => if w.channelOpen then some { w with channelOpen := false, unsettled := [] } else none
  | .reopen =>
      if w.channelOpen then none
      else some { w with channel := w.channel + 1, channelOpen := true, delivered := 0 }

omit [Respondable Evt] in
/-- Every acknowledged delivery had a worker, and none is at work on it any more. -/
def HandledFirst (w : World Evt) : Prop :=
  ∀ delivery ∈ w.acknowledged, delivery ∈ w.started ∧
    ∀ handling ∈ w.running, handling.delivery ≠ delivery

omit [Respondable Evt] in
instance (w : World Evt) : Decidable w.HandledFirst :=
  inferInstanceAs (Decidable (∀ delivery ∈ w.acknowledged, delivery ∈ w.started ∧
    ∀ handling ∈ w.running, handling.delivery ≠ delivery))

/-- When a worker is done, the tag remembered for the uuid of its event is not
that of another worker's delivery on the current channel, nor of a delivery that
no worker was called with. -/
def HitsOwnDelivery (w : World Evt) : Action Evt → Prop
  | .settle place outcome response =>
      match w.running[place]? with
      | none => True
      | some handling =>
          match w.publisher.activeInbound.get (Respondable.uuid handling.evt) with
          | none => True
          | some msg =>
              BasePublisher.acknowledges handling.evt outcome response = true →
                w.channelOpen = true → ⟨w.channel, msg.deliveryTag⟩ ∈ w.unsettled →
                  ⟨w.channel, msg.deliveryTag⟩ ∈ w.started ∧
                    ∀ other ∈ w.running.eraseIdx place,
                      other.delivery ≠ ⟨w.channel, msg.deliveryTag⟩
  | _ => True

omit [Respondable Evt] in
/-- The delivery was made before: on an earlier channel, or on this one. -/
def Made (w : World Evt) (delivery : DeliveryId) : Prop :=
  delivery.channel < w.channel ∨ delivery.channel = w.channel ∧ delivery.tag ≤ w.delivered

/-- The broker's records are about deliveries that were made. -/
structure Recorded (w : World Evt) : Prop where
  acknowledged : ∀ delivery ∈ w.acknowledged, w.Made delivery
  unsettled : ∀ delivery ∈ w.unsettled, w.Made delivery

omit [Respondable Evt] in
/-- The next delivery has not been made. -/
theorem not_made_next (w : World Evt) : ¬ w.Made w.next := by
  rintro (hChannel | ⟨-, hTag⟩)
  · exact Nat.lt_irrefl _ hChannel
  · exact Nat.not_succ_le_self _ hTag

omit [Respondable Evt] in
/-- A delivery of this channel stays made. -/
theorem Made.of_delivered {w t : World Evt} {delivery : DeliveryId} (h : w.Made delivery)
    (hChannel : t.channel = w.channel) (hDelivered : w.delivered ≤ t.delivered) :
    t.Made delivery := by
  rcases h with hEarlier | ⟨hSame, hTag⟩
  · exact Or.inl (hChannel ▸ hEarlier)
  · exact Or.inr ⟨hSame.trans hChannel.symm, Nat.le_trans hTag hDelivered⟩

variable {codec throws}

/-- What a delivery changes besides the publisher. -/
theorem deliver_cases (codec : EventProcessor Evt) (throws : DeliveryId → Uuid → Bool)
    (w : World Evt) (content : String) :
    (w.deliver codec throws content).acknowledged = w.acknowledged ∧
      (w.deliver codec throws content).channel = w.channel ∧
      (w.deliver codec throws content).delivered = w.delivered + 1 ∧
      (∀ d ∈ (w.deliver codec throws content).unsettled, d = w.next ∨ d ∈ w.unsettled) ∧
      (∀ d ∈ w.started, d ∈ (w.deliver codec throws content).started) ∧
      ∀ handling ∈ (w.deliver codec throws content).running,
        handling.delivery = w.next ∨ handling ∈ w.running := by
  have hUnsettled : ∀ rejected : List (Nat × Settlement),
      ∀ d ∈ (if rejected = [] then w.unsettled ++ [w.next] else w.unsettled),
        d = w.next ∨ d ∈ w.unsettled := by
    intro rejected d hd
    split at hd
    · exact (List.mem_append.mp hd).symm.imp_left List.mem_singleton.mp
    · exact Or.inr hd
  unfold deliver
  rcases consume codec w.publisher ⟨w.delivered + 1, content⟩ with
    ⟨publisher, rejected, reason | evt⟩
  · exact ⟨rfl, rfl, rfl, hUnsettled rejected, fun _ hd => hd, fun _ h => Or.inr h⟩
  · refine ⟨rfl, rfl, rfl, hUnsettled rejected, fun d hd => ?_, fun handling h => ?_⟩
    · change d ∈ if _ then w.started else w.started ++ [w.next]
      split
      · exact hd
      · exact List.mem_append_left _ hd
    · rcases List.mem_append.mp h with hOld | hNew
      · exact Or.inr hOld
      · obtain ⟨worker, -, rfl⟩ := List.mem_map.mp hNew
        exact Or.inl rfl

/-- A message is delivered under the next tag. -/
theorem Recorded.deliver {w : World Evt} (h : w.Recorded) (content : String) :
    (w.deliver codec throws content).Recorded := by
  obtain ⟨hAcknowledged, hChannel, hDelivered, hUnsettled, -, -⟩ :=
    deliver_cases codec throws w content
  have hLe : w.delivered ≤ (w.deliver codec throws content).delivered := by
    rw [hDelivered]
    exact Nat.le_succ _
  constructor
  · intro d hd
    exact (h.acknowledged d (hAcknowledged ▸ hd)).of_delivered hChannel hLe
  · intro d hd
    rcases hUnsettled d hd with rfl | hOld
    · exact Or.inr ⟨hChannel.symm, hDelivered ▸ Nat.le_refl _⟩
    · exact (h.unsettled d hOld).of_delivered hChannel hLe

/-- A new delivery is not one of those acknowledged. -/
theorem HandledFirst.deliver {w : World Evt} (h : w.HandledFirst) (hRecorded : w.Recorded)
    (content : String) : (w.deliver codec throws content).HandledFirst := by
  obtain ⟨hAcknowledged, -, -, -, hStarted, hRunning⟩ :=
    deliver_cases codec throws w content
  intro d hd
  rw [hAcknowledged] at hd
  refine ⟨hStarted d (h d hd).1, fun handling hHandling => ?_⟩
  rcases hRunning handling hHandling with hNew | hOld
  · rw [hNew]
    rintro rfl
    exact w.not_made_next (hRecorded.acknowledged _ hd)
  · exact (h d hd).2 handling hOld

/-- The delivery that acknowledging this event settles, if any. -/
def hit (w : World Evt) (evt : Evt) : Option DeliveryId :=
  match w.publisher.activeInbound.get (Respondable.uuid evt) with
  | none => none
  | some msg =>
      if w.channelOpen = true ∧ ⟨w.channel, msg.deliveryTag⟩ ∈ w.unsettled then
        some ⟨w.channel, msg.deliveryTag⟩
      else none

/-- What acknowledging changes besides the publisher. -/
theorem acknowledgeEvent_spec (w : World Evt) (evt : Evt) :
    ∃ publisher, w.acknowledgeEvent evt = match w.hit evt with
      | none => { w with publisher }
      | some delivery =>
          { w with
            publisher
            unsettled := w.unsettled.erase delivery
            acknowledged := w.acknowledged ++ [delivery] } := by
  unfold acknowledgeEvent hit RabbitMQPublisher.acknowledgeEvent handleAcknowledge
  cases hOpen : w.channelOpen with
  | false =>
      cases hMsg : w.publisher.activeInbound.get (Respondable.uuid evt) <;> exact ⟨_, rfl⟩
  | true =>
      cases hMsg : w.publisher.activeInbound.get (Respondable.uuid evt) with
      | none => exact ⟨_, rfl⟩
      | some msg =>
          refine ⟨{ w.publisher with
            status := .IDLE
            activeInbound := w.publisher.activeInbound.delete (Respondable.uuid evt) }, ?_⟩
          by_cases hUnsettled : (⟨w.channel, msg.deliveryTag⟩ : DeliveryId) ∈ w.unsettled
          · simp [ack, hUnsettled]
          · simp [ack, hUnsettled]

/-- A tag that is acknowledged was of a delivery that is not settled. -/
theorem mem_unsettled_of_hit {w : World Evt} {evt : Evt} {delivery : DeliveryId}
    (h : w.hit evt = some delivery) : delivery ∈ w.unsettled := by
  unfold hit at h
  split at h
  · cases h
  · split at h
    · rename_i hHit
      exact Option.some.inj h ▸ hHit.2
    · cases h

/-- An acknowledgement settles a delivery at most. -/
theorem Recorded.acknowledgeEvent {w : World Evt} (h : w.Recorded) (evt : Evt) :
    (w.acknowledgeEvent evt).Recorded := by
  obtain ⟨publisher, hEq⟩ := w.acknowledgeEvent_spec evt
  rw [hEq]
  cases hHit : w.hit evt with
  | none => exact ⟨h.acknowledged, h.unsettled⟩
  | some delivery =>
      refine ⟨fun d hd => ?_, fun d hd => h.unsettled d (List.mem_of_mem_erase hd)⟩
      rcases List.mem_append.mp hd with hOld | hNew
      · exact h.acknowledged d hOld
      · exact h.unsettled d (List.mem_singleton.mp hNew ▸ mem_unsettled_of_hit hHit)

/-- Acknowledging is right exactly if the delivery it settles is handled. -/
theorem handledFirst_acknowledgeEvent_iff {w : World Evt} (h : w.HandledFirst) (evt : Evt) :
    (w.acknowledgeEvent evt).HandledFirst ↔
      ∀ delivery, w.hit evt = some delivery →
        delivery ∈ w.started ∧ ∀ handling ∈ w.running, handling.delivery ≠ delivery := by
  obtain ⟨publisher, hEq⟩ := w.acknowledgeEvent_spec evt
  rw [hEq]
  cases hHit : w.hit evt with
  | none => exact iff_of_true h (by simp)
  | some delivery =>
      constructor
      · intro hNext d hd
        obtain rfl := Option.some.inj hd
        exact hNext delivery (List.mem_append_right _ (List.mem_singleton_self _))
      · intro hOwn d hd
        rcases List.mem_append.mp hd with hOld | hNew
        · exact h d hOld
        · exact hOwn d (congrArg some (List.mem_singleton.mp hNew).symm)

omit [Respondable Evt] in
/-- An invocation that ends takes nothing away. -/
theorem HandledFirst.ended {w : World Evt} (h : w.HandledFirst) (place : Nat) :
    World.HandledFirst { w with running := w.running.eraseIdx place } := by
  intro d hd
  exact ⟨(h d hd).1, fun handling hHandling =>
    (h d hd).2 handling (List.eraseIdx_subset hHandling)⟩

theorem hitsOwnDelivery_iff {w : World Evt} {place : Nat} {outcome : Outcome}
    {response : Except Thrown Unit} {handling : Handling Evt}
    (hRunning : w.running[place]? = some handling)
    (hAck : BasePublisher.acknowledges handling.evt outcome response = true) :
    w.HitsOwnDelivery (.settle place outcome response) ↔
      ∀ delivery, w.hit handling.evt = some delivery → delivery ∈ w.started ∧
        ∀ other ∈ w.running.eraseIdx place, other.delivery ≠ delivery := by
  rw [HitsOwnDelivery, hRunning, hit]
  dsimp only
  cases hMsg : w.publisher.activeInbound.get (Respondable.uuid handling.evt) with
  | none => simp
  | some msg =>
      by_cases hHit : w.channelOpen = true ∧
          (⟨w.channel, msg.deliveryTag⟩ : DeliveryId) ∈ w.unsettled
      · simp [hAck, hHit]
      · dsimp only
        rw [if_neg hHit]
        refine iff_of_true (fun _ hOpen hUnsettled => ?_) (fun d hd => ?_)
        · exact absurd ⟨hOpen, hUnsettled⟩ hHit
        · cases hd

/-- What is not acknowledged hits nothing. -/
theorem hitsOwnDelivery_of_silent {w : World Evt} {place : Nat} {outcome : Outcome}
    {response : Except Thrown Unit} {handling : Handling Evt}
    (hRunning : w.running[place]? = some handling)
    (hAck : BasePublisher.acknowledges handling.evt outcome response = false) :
    w.HitsOwnDelivery (.settle place outcome response) := by
  rw [HitsOwnDelivery, hRunning]
  dsimp only
  split
  · trivial
  · intro hYes
    rw [hAck] at hYes
    cases hYes

/-- Everything one step of a run can do. -/
inductive Stepped (codec : EventProcessor Evt) (throws : DeliveryId → Uuid → Bool)
    (w : World Evt) : Action Evt → World Evt → Prop where
  /-- The status or the subscribers change. -/
  | changed {action : Action Evt} {p : RabbitMQPublisher}
      (hInbound : p.activeInbound = w.publisher.activeInbound)
      (hOther : ∀ place outcome response, action ≠ .settle place outcome response) :
      Stepped codec throws w action { w with publisher := p }
  | delivered (content : String) :
      Stepped codec throws w (.deliver content) (w.deliver codec throws content)
  | acknowledged (place : Nat) (handling : Handling Evt) {outcome : Outcome}
      {response : Except Thrown Unit} (hRunning : w.running[place]? = some handling)
      (hAck : BasePublisher.acknowledges handling.evt outcome response = true) :
      Stepped codec throws w (.settle place outcome response)
        (World.acknowledgeEvent { w with running := w.running.eraseIdx place } handling.evt)
  | ended (place : Nat) (handling : Handling Evt) {outcome : Outcome}
      {response : Except Thrown Unit} (hRunning : w.running[place]? = some handling)
      (hAck : BasePublisher.acknowledges handling.evt outcome response = false) :
      Stepped codec throws w (.settle place outcome response)
        { w with running := w.running.eraseIdx place }
  | lost : Stepped codec throws w .lose { w with channelOpen := false, unsettled := [] }
  | reopened :
      Stepped codec throws w .reopen
        { w with channel := w.channel + 1, channelOpen := true, delivered := 0 }

theorem stepped_of_step {w t : World Evt} {a : Action Evt}
    (hStep : step codec throws w a = some t) : Stepped codec throws w a t := by
  cases a with
  | prepare | ready | shutDown | close | subscribe | listen | unsubscribe key =>
      obtain rfl := Option.some.inj hStep
      exact .changed rfl (by simp)
  | deliver content =>
      rw [step] at hStep
      split at hStep
      · obtain rfl := Option.some.inj hStep
        exact .delivered content
      · cases hStep
  | settle place outcome response =>
      rw [step] at hStep
      split at hStep
      · cases hStep
      · rename_i handling hRunning
        dsimp only at hStep
        split at hStep
        · rename_i hAck
          obtain rfl := Option.some.inj hStep
          exact .acknowledged place handling hRunning hAck
        · rename_i hAck
          obtain rfl := Option.some.inj hStep
          exact .ended place handling hRunning (eq_false_of_ne_true hAck)
  | lose =>
      rw [step] at hStep
      split at hStep
      · obtain rfl := Option.some.inj hStep
        exact .lost
      · cases hStep
  | reopen =>
      rw [step] at hStep
      split at hStep
      · cases hStep
      · obtain rfl := Option.some.inj hStep
        exact .reopened

omit [Respondable Evt] in
/-- The tags of a new channel begin again. -/
theorem Recorded.reopened {w : World Evt} (h : w.Recorded) :
    World.Recorded { w with channel := w.channel + 1, channelOpen := true, delivered := 0 } := by
  have hMade : ∀ d, w.Made d → World.Made
      { w with channel := w.channel + 1, channelOpen := true, delivered := 0 } d := by
    rintro d (hEarlier | ⟨hSame, -⟩)
    · exact Or.inl (Nat.lt_succ_of_lt hEarlier)
    · exact Or.inl (Nat.lt_succ_of_le (Nat.le_of_eq hSame))
  exact ⟨fun d hd => hMade d (h.acknowledged d hd), fun d hd => hMade d (h.unsettled d hd)⟩

/-- Each step keeps the record of the deliveries. -/
theorem Recorded.step {w t : World Evt} {a : Action Evt} (h : w.Recorded)
    (hStep : step codec throws w a = some t) : t.Recorded := by
  cases stepped_of_step hStep with
  | changed => exact ⟨h.acknowledged, h.unsettled⟩
  | delivered content => exact h.deliver content
  | acknowledged place handling =>
      have hEnded : World.Recorded { w with running := w.running.eraseIdx place } :=
        ⟨h.acknowledged, h.unsettled⟩
      exact hEnded.acknowledgeEvent handling.evt
  | ended => exact ⟨h.acknowledged, h.unsettled⟩
  | lost => exact ⟨h.acknowledged, List.forall_mem_nil _⟩
  | reopened => exact h.reopened

/-- Only an acknowledgement can be wrong, and it is exactly if it settles the
delivery of another worker or of none. -/
theorem handledFirst_step_iff {w t : World Evt} {a : Action Evt} (hRecorded : w.Recorded)
    (h : w.HandledFirst) (hStep : step codec throws w a = some t) :
    t.HandledFirst ↔ w.HitsOwnDelivery a := by
  cases stepped_of_step hStep with
  | changed hInbound hOther =>
      refine iff_of_true h ?_
      cases a with
      | settle place outcome response => exact absurd rfl (hOther place outcome response)
      | prepare | ready | shutDown | close | subscribe | listen | unsubscribe key
        | deliver content | lose | reopen => trivial
  | delivered content => exact iff_of_true (h.deliver hRecorded content) trivial
  | acknowledged place handling hRunning hAck =>
      rw [hitsOwnDelivery_iff hRunning hAck]
      exact handledFirst_acknowledgeEvent_iff (h.ended place) handling.evt
  | ended place handling hRunning hAck =>
      exact iff_of_true (h.ended place) (hitsOwnDelivery_of_silent hRunning hAck)
  | lost => exact iff_of_true h trivial
  | reopened => exact iff_of_true h trivial

/-- A delivery starts at most one worker and does not bring an event that is
being handled, and the channel is replaced only when no handler is at work. -/
def Quiet (codec : EventProcessor Evt) (throws : DeliveryId → Uuid → Bool) (w : World Evt) :
    Action Evt → Prop
  | .deliver content => (w.workers throws w.next).length ≤ 1 ∧ ∀ evt,
      codec.parseEvent content = .ok evt →
        ∀ handling ∈ w.running, Respondable.uuid handling.evt ≠ Respondable.uuid evt
  | .reopen => w.running = []
  | _ => True

/-- The messages of the running handlers are the ones tracked, each for another
event and with the tag it has on the current channel. -/
structure Tracked (w : World Evt) : Prop where
  own : ∀ handling ∈ w.running, ∃ msg,
    w.publisher.activeInbound.get (Respondable.uuid handling.evt) = some msg ∧
      handling.delivery = ⟨w.channel, msg.deliveryTag⟩
  started : ∀ handling ∈ w.running, handling.delivery ∈ w.started
  made : ∀ handling ∈ w.running, w.Made handling.delivery
  uuids : (w.running.map fun handling => Respondable.uuid handling.evt).Nodup
  deliveries : (w.running.map Handling.delivery).Nodup

/-- What a step leaves as it was, apart from invocations that are over. -/
theorem Tracked.of_sublist {w t : World Evt} (h : w.Tracked) (hChannel : t.channel = w.channel)
    (hDelivered : t.delivered = w.delivered) (hStarted : t.started = w.started)
    (hRunning : t.running.Sublist w.running)
    (hInbound : ∀ handling ∈ t.running,
      t.publisher.activeInbound.get (Respondable.uuid handling.evt) =
        w.publisher.activeInbound.get (Respondable.uuid handling.evt)) : t.Tracked where
  own handling hHandling := by
    rw [hInbound handling hHandling, hChannel]
    exact h.own handling (hRunning.subset hHandling)
  started handling hHandling := hStarted ▸ h.started handling (hRunning.subset hHandling)
  made handling hHandling :=
    (h.made handling (hRunning.subset hHandling)).of_delivered hChannel
      (Nat.le_of_eq hDelivered.symm)
  uuids := h.uuids.sublist (hRunning.map _)
  deliveries := h.deliveries.sublist (hRunning.map _)

theorem acknowledgeEvent_frame (w : World Evt) (evt : Evt) :
    (w.acknowledgeEvent evt).channel = w.channel ∧
      (w.acknowledgeEvent evt).delivered = w.delivered ∧
      (w.acknowledgeEvent evt).started = w.started ∧
      (w.acknowledgeEvent evt).running = w.running := by
  obtain ⟨publisher, hEq⟩ := w.acknowledgeEvent_spec evt
  rw [hEq]
  cases w.hit evt <;> exact ⟨rfl, rfl, rfl, rfl⟩

/-- The only message that acknowledging forgets is that of the event itself. -/
theorem get_acknowledgeEvent (w : World Evt) (evt : Evt) {uuid : String}
    (hOther : uuid ≠ Respondable.uuid evt) :
    (w.acknowledgeEvent evt).publisher.activeInbound.get uuid =
      w.publisher.activeInbound.get uuid := by
  unfold acknowledgeEvent RabbitMQPublisher.acknowledgeEvent handleAcknowledge
  split
  · cases hMsg : w.publisher.activeInbound.get (Respondable.uuid evt) with
    | none => rfl
    | some msg =>
        simp only [List.foldl_cons, List.foldl_nil, ack]
        split <;> exact KeyedMap.get_delete_ne _ hOther
  · rfl

/-- A message is tracked when no other delivery of it is. -/
theorem Tracked.deliver {w : World Evt} (h : w.Tracked) {content : String}
    (hQuiet : w.Quiet codec throws (.deliver content)) :
    (w.deliver codec throws content).Tracked := by
  obtain ⟨hWorkers, hNew⟩ := hQuiet
  have hMade : ∀ t : World Evt, t.channel = w.channel → t.delivered = w.delivered + 1 →
      ∀ handling ∈ w.running, t.Made handling.delivery := fun t hChannel hDelivered handling hOld =>
    (h.made handling hOld).of_delivered hChannel (hDelivered ▸ Nat.le_succ _)
  unfold World.deliver consume
  cases hParse : codec.parseEvent content with
  | error reason => exact ⟨h.own, h.started, hMade _ rfl rfl, h.uuids, h.deliveries⟩
  | ok evt =>
      dsimp only
      have hFresh := hNew evt hParse
      rcases hCalled : w.workers throws w.next with _ | ⟨worker, rest⟩
      · rw [if_pos rfl, List.map_nil, List.append_nil]
        refine ⟨fun handling hOld => ?_, h.started, hMade _ rfl rfl, h.uuids, h.deliveries⟩
        obtain ⟨msg, hMsg, hDelivery⟩ := h.own handling hOld
        exact ⟨msg, (KeyedMap.get_set_ne _ (hFresh handling hOld) _).trans hMsg, hDelivery⟩
      · obtain rfl : rest = [] := by
          rw [hCalled, List.length_cons] at hWorkers
          exact List.length_eq_zero_iff.mp (by omega)
        rw [if_neg (List.cons_ne_nil _ _)]
        refine ⟨?_, ?_, ?_, ?_, ?_⟩
        · intro handling hHandling
          rcases List.mem_append.mp hHandling with hOld | hLast
          · obtain ⟨msg, hMsg, hDelivery⟩ := h.own handling hOld
            exact ⟨msg, (KeyedMap.get_set_ne _ (hFresh handling hOld) _).trans hMsg, hDelivery⟩
          · obtain rfl := List.mem_singleton.mp hLast
            exact ⟨_, KeyedMap.get_set_self _ _ _, rfl⟩
        · intro handling hHandling
          rcases List.mem_append.mp hHandling with hOld | hLast
          · exact List.mem_append_left _ (h.started handling hOld)
          · obtain rfl := List.mem_singleton.mp hLast
            exact List.mem_append_right _ (List.mem_singleton_self _)
        · intro handling hHandling
          rcases List.mem_append.mp hHandling with hOld | hLast
          · exact (h.made handling hOld).of_delivered rfl (Nat.le_succ _)
          · obtain rfl := List.mem_singleton.mp hLast
            exact Or.inr ⟨rfl, Nat.le_refl _⟩
        · refine KeyedMap.nodup_map_concat h.uuids fun hMem => ?_
          obtain ⟨handling, hOld, hSame⟩ := List.mem_map.mp hMem
          exact hFresh handling hOld hSame
        · refine KeyedMap.nodup_map_concat h.deliveries fun hMem => ?_
          obtain ⟨handling, hOld, hSame⟩ := List.mem_map.mp hMem
          have hNext : handling.delivery = w.next := hSame
          exact w.not_made_next (hNext ▸ h.made handling hOld)

/-- Each step that the condition allows keeps the deliveries tracked. -/
theorem Tracked.step {w t : World Evt} {a : Action Evt} (h : w.Tracked)
    (hStep : step codec throws w a = some t) (hQuiet : w.Quiet codec throws a) : t.Tracked := by
  cases stepped_of_step hStep with
  | changed hInbound =>
      exact h.of_sublist rfl rfl rfl (.refl _) fun handling _ =>
        congrArg (·.get (Respondable.uuid handling.evt)) hInbound
  | delivered content => exact h.deliver hQuiet
  | acknowledged place handling hRunning =>
      have hErased := List.eraseIdx_sublist w.running place
      obtain ⟨hChannel, hDelivered, hStarted, hSame⟩ := acknowledgeEvent_frame
        { w with running := w.running.eraseIdx place } handling.evt
      refine h.of_sublist hChannel hDelivered hStarted (hSame ▸ hErased) fun other hOther => ?_
      rw [hSame] at hOther
      exact get_acknowledgeEvent _ _ (KeyedMap.ne_of_mem_eraseIdx h.uuids hRunning other hOther)
  | ended place =>
      exact h.of_sublist rfl rfl rfl (List.eraseIdx_sublist w.running place) fun _ _ => rfl
  | lost => exact h.of_sublist rfl rfl rfl (.refl _) fun _ _ => rfl
  | reopened =>
      have hNone : w.running = [] := hQuiet
      exact ⟨by simp [hNone], by simp [hNone], by simp [hNone], by simp [hNone], by simp [hNone]⟩

/-- A tracked delivery is acknowledged under its own tag. -/
theorem Tracked.hitsOwnDelivery {w : World Evt} (h : w.Tracked) (a : Action Evt) :
    w.HitsOwnDelivery a := by
  cases a with
  | settle place outcome response =>
      rw [HitsOwnDelivery]
      cases hRunning : w.running[place]? with
      | none => trivial
      | some handling =>
          have hMem := List.mem_of_getElem? hRunning
          obtain ⟨msg, hMsg, hDelivery⟩ := h.own handling hMem
          dsimp only
          rw [hMsg]
          intro _ _ _
          rw [← hDelivery]
          exact ⟨h.started handling hMem, KeyedMap.ne_of_mem_eraseIdx h.deliveries hRunning⟩
  | prepare | ready | shutDown | close | subscribe | listen | unsubscribe key | deliver content
    | lose | reopen => trivial

/-- Deliveries of which each has its worker and its event for itself, and a channel
that is not replaced while a worker is at it, are never taken as done early. -/
theorem handledFirst_of_quiet {actions : List (Action Evt)}
    (h : Runs.StepsMeet (step codec throws) (Quiet codec throws) initial actions) :
    Runs.Always (step codec throws) HandledFirst initial actions := by
  refine Runs.always_of_stepsMeet (fun w => w.Recorded ∧ w.Tracked ∧ w.HandledFirst)
    (fun _ => True) (fun w a t _ hInv hStep hQuiet => ?_) (fun w hInv => hInv.2.2) ?_
    (fun _ _ => trivial) h
  · obtain ⟨hRecorded, hTracked, hHandled⟩ := hInv
    exact ⟨hRecorded.step hStep, hTracked.step hStep hQuiet,
      (handledFirst_step_iff hRecorded hHandled hStep).mpr (hTracked.hitsOwnDelivery a)⟩
  · refine ⟨⟨?_, ?_⟩, ⟨?_, ?_, ?_, ?_, ?_⟩, ?_⟩ <;> simp [initial, HandledFirst]

end World

end Moirae.RabbitMQPublisher.Reopening
