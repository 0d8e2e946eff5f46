import Moirae.RabbitMQ.RabbitMQPublisher
import Moirae.Core.Message

/-! How the work consumer settles its deliveries. A delivery that arrives while
the publisher is unavailable is rejected and then handled all the same. -/
namespace Moirae.RabbitMQPublisher.World

variable {Evt : Type} [Respondable Evt] {codec : EventProcessor Evt}
  {throws : Nat → Uuid → Bool}

omit [Respondable Evt] in
/-- What the consumer calls on the channel for the next delivery. -/
def rejection (w : World Evt) : List (Nat × Settlement) :=
  if w.publisher.unavailable then [(w.delivered, .reject true)] else []

/-- The next delivery was rejected or not, and could not be parsed. -/
def dropped (w : World Evt) : World Evt :=
  { w with delivered := w.delivered + 1, settlements := w.settlements ++ w.rejection }

/-- The next delivery was rejected or not, and handed to all subscribers. -/
def handOver (throws : Nat → Uuid → Bool) (w : World Evt) (msg : Inbound) (evt : Evt) :
    World Evt :=
  { publisher :=
      { w.publisher with
        activeInbound := w.publisher.activeInbound.set (Respondable.uuid evt) msg }
    delivered := w.delivered + 1
    settlements := w.settlements ++ w.rejection
    handed := w.handed ++ [⟨w.delivered, (w.called throws).map Subscriber.key⟩]
    running := w.running ++
      ((w.called throws).filter (·.role = .worker)).map fun subscriber =>
        ⟨w.delivered, subscriber.key, evt⟩ }

/-- The invocation at this place is over and the tracked delivery acknowledged. -/
def released (w : World Evt) (place : Nat) (handling : Handling Evt) (msg : Inbound) :
    World Evt :=
  { w with
    publisher :=
      { w.publisher with
        status := .IDLE
        activeInbound := w.publisher.activeInbound.delete (Respondable.uuid handling.evt) }
    running := w.running.eraseIdx place
    settlements := w.settlements ++ [(msg.deliveryTag, .ack)] }

/-- Everything one step of a run can do. -/
inductive Stepped (codec : EventProcessor Evt) (throws : Nat → Uuid → Bool) (w : World Evt) :
    Action Evt → World Evt → Prop where
  /-- The status or the subscribers change. -/
  | changed {action : Action Evt} {p : RabbitMQPublisher}
      (hInbound : p.activeInbound = w.publisher.activeInbound) :
      Stepped codec throws w action { w with publisher := p }
  | unparsed {content : String} {reason : Thrown}
      (hParse : codec.parseEvent content = .error reason) :
      Stepped codec throws w (.deliver content) w.dropped
  | handedOver {content : String} {evt : Evt} (hParse : codec.parseEvent content = .ok evt) :
      Stepped codec throws w (.deliver content)
        (w.handOver throws ⟨w.delivered, content⟩ evt)
  | acknowledged {place : Nat} {handling : Handling Evt} {msg : Inbound} {outcome : Outcome}
      {response : Except Thrown Unit} (hRunning : w.running[place]? = some handling)
      (hAck : BasePublisher.acknowledges handling.evt outcome response = true)
      (hTracked : w.publisher.activeInbound.get (Respondable.uuid handling.evt) = some msg) :
      Stepped codec throws w (.settle place outcome response) (w.released place handling msg)
  /-- The invocation ends without a call on the channel. -/
  | ended {place : Nat} {handling : Handling Evt} {outcome : Outcome}
      {response : Except Thrown Unit} {p : RabbitMQPublisher}
      (hRunning : w.running[place]? = some handling)
      (hInbound : p.activeInbound = w.publisher.activeInbound) :
      Stepped codec throws w (.settle place outcome response)
        { w with publisher := p, running := w.running.eraseIdx place }

theorem stepped_of_step {w w' : World Evt} {action : Action Evt}
    (h : step codec throws w action = some w') : Stepped codec throws w action w' := by
  cases action with
  | prepare => cases h; exact .changed rfl
  | ready => cases h; exact .changed rfl
  | shutDown => cases h; exact .changed rfl
  | close => cases h; exact .changed rfl
  | subscribe => cases h; exact .changed rfl
  | listen => cases h; exact .changed rfl
  | unsubscribe key => cases h; exact .changed rfl
  | deliver content =>
      cases hParse : codec.parseEvent content with
      | error reason =>
          have hDropped : w' = w.dropped := by
            simpa [step, consume, hParse, dropped, rejection] using h.symm
          rw [hDropped]
          exact .unparsed hParse
      | ok evt =>
          have hHanded : w' = w.handOver throws ⟨w.delivered, content⟩ evt := by
            simpa [step, consume, hParse, handOver, rejection] using h.symm
          rw [hHanded]
          exact .handedOver hParse
  | settle place outcome response =>
      cases hRunning : w.running[place]? with
      | none => simp [step, hRunning] at h
      | some handling =>
          cases hAck : BasePublisher.acknowledges handling.evt outcome response with
          | false =>
              simp only [step, hRunning, hAck, Bool.false_eq_true, if_false,
                Option.some.injEq] at h
              rw [← h]
              exact .ended hRunning rfl
          | true =>
              cases hTracked : w.publisher.activeInbound.get (Respondable.uuid handling.evt) with
              | none =>
                  simp only [step, hRunning, hAck, if_true, acknowledgeEvent, handleAcknowledge,
                    hTracked, List.append_nil, Option.some.injEq] at h
                  rw [← h]
                  exact .ended hRunning rfl
              | some msg =>
                  simp only [step, hRunning, hAck, if_true, acknowledgeEvent, handleAcknowledge,
                    hTracked, Option.some.injEq] at h
                  rw [← h]
                  exact .acknowledged hRunning hAck hTracked

omit [Respondable Evt] in
/-- Every delivery is settled at most once, and nobody is called with one that
was rejected with requeue. -/
def SettledOnce (w : World Evt) : Prop :=
  (w.settlements.map Prod.fst).Nodup ∧
    ∀ handover ∈ w.handed, (handover.deliveryTag, .reject true) ∈ w.settlements →
      handover.called = []

omit [Respondable Evt] in
instance (w : World Evt) : Decidable w.SettledOnce :=
  inferInstanceAs (Decidable ((w.settlements.map Prod.fst).Nodup ∧
    ∀ handover ∈ w.handed, (handover.deliveryTag, .reject true) ∈ w.settlements →
      handover.called = []))

/-- A delivery arrives while the publisher is available; or its text cannot be
parsed; or the emitter has no listeners for it, and no invocation is running
for an event with the same uuid. -/
def ArrivesInTime (codec : EventProcessor Evt) (w : World Evt) : Action Evt → Prop
  | .deliver content => w.publisher.unavailable = false ∨ ∀ evt,
      codec.parseEvent content = .ok evt → w.publisher.distributor.listeners = [] ∧
        ∀ handling ∈ w.running, Respondable.uuid handling.evt ≠ Respondable.uuid evt
  | _ => True

instance (codec : EventProcessor Evt) (w : World Evt) (action : Action Evt) :
    Decidable (ArrivesInTime codec w action) :=
  match action with
  | .deliver content =>
      match hParse : codec.parseEvent content with
      | .error _ => .isTrue (Or.inr (fun evt hOk => by simp [hParse] at hOk))
      | .ok evt =>
          decidable_of_iff (w.publisher.unavailable = false ∨
              w.publisher.distributor.listeners = [] ∧
                ∀ handling ∈ w.running, Respondable.uuid handling.evt ≠ Respondable.uuid evt)
            (by simp [ArrivesInTime, hParse])
  | .prepare | .ready | .shutDown | .close | .subscribe | .listen | .unsubscribe _
  | .settle _ _ _ => .isTrue trivial

/-- The invariant: tags are drawn in order, and a delivery that is tracked for
a running invocation was not settled yet. -/
structure Settling (w : World Evt) : Prop where
  settled_lt : ∀ tag ∈ w.settlements.map Prod.fst, tag < w.delivered
  handed_lt : ∀ handover ∈ w.handed, handover.deliveryTag < w.delivered
  tracked_lt : ∀ uuid msg, w.publisher.activeInbound.get uuid = some msg →
    msg.deliveryTag < w.delivered
  tracked_once : ∀ uuid uuid' msg msg', w.publisher.activeInbound.get uuid = some msg →
    w.publisher.activeInbound.get uuid' = some msg' → msg.deliveryTag = msg'.deliveryTag →
    uuid = uuid'
  tracked_open : ∀ handling ∈ w.running, ∀ msg,
    w.publisher.activeInbound.get (Respondable.uuid handling.evt) = some msg →
    msg.deliveryTag ∉ w.settlements.map Prod.fst
  settledOnce : w.SettledOnce

theorem settling_initial : (initial : World Evt).Settling := by
  constructor <;> simp [initial, RabbitMQPublisher.new, SettledOnce]

omit [Respondable Evt] in
theorem rejection_of_available {w : World Evt} (h : w.publisher.unavailable = false) :
    w.rejection = [] := by
  simp [rejection, h]

omit [Respondable Evt] in
theorem mem_rejection {w : World Evt} {tag : Nat} (h : tag ∈ w.rejection.map Prod.fst) :
    tag = w.delivered := by
  unfold rejection at h
  split at h
  · simpa using h
  · simp at h

/-- The next tag is new, so settling it settles nothing twice. -/
theorem Settling.nodup_rejected {w : World Evt} (h : w.Settling) :
    ((w.settlements ++ w.rejection).map Prod.fst).Nodup := by
  rw [List.map_append, List.nodup_append]
  refine ⟨h.settledOnce.1, ?_, ?_⟩
  · unfold rejection
    split <;> simp
  · intro tag hTag other hOther hEq
    rw [hEq, mem_rejection hOther] at hTag
    exact Nat.lt_irrefl _ (h.settled_lt _ hTag)

theorem Settling.settled_lt_rejected {w : World Evt} (h : w.Settling) :
    ∀ tag ∈ (w.settlements ++ w.rejection).map Prod.fst, tag < w.delivered + 1 := by
  intro tag hTag
  rw [List.map_append, List.mem_append] at hTag
  rcases hTag with hOld | hNew
  · exact Nat.lt_succ_of_lt (h.settled_lt tag hOld)
  · rw [mem_rejection hNew]
    exact Nat.lt_succ_self _

omit [Respondable Evt] in
/-- Earlier deliveries are not the one that is rejected now. -/
theorem not_mem_rejected {w : World Evt} {tag : Nat}
    (hOpen : tag ∉ w.settlements.map Prod.fst) (hLt : tag < w.delivered) :
    tag ∉ (w.settlements ++ w.rejection).map Prod.fst := by
  rw [List.map_append, List.mem_append]
  rintro (hOld | hNew)
  · exact hOpen hOld
  · exact absurd (mem_rejection hNew) (Nat.ne_of_lt hLt)

theorem Settling.handed_rejected {w : World Evt} (h : w.Settling) {handover : Handover}
    (hMem : handover ∈ w.handed)
    (hRejected : (handover.deliveryTag, .reject true) ∈ w.settlements ++ w.rejection) :
    handover.called = [] := by
  rcases List.mem_append.mp hRejected with hOld | hNew
  · exact h.settledOnce.2 handover hMem hOld
  · have hTag := mem_rejection (List.mem_map_of_mem (f := Prod.fst) hNew)
    exact absurd hTag (Nat.ne_of_lt (h.handed_lt handover hMem))

theorem Settling.dropped {w : World Evt} (h : w.Settling) : w.dropped.Settling where
  settled_lt := h.settled_lt_rejected
  handed_lt := fun handover hMem => Nat.lt_succ_of_lt (h.handed_lt handover hMem)
  tracked_lt := fun uuid msg hGet => Nat.lt_succ_of_lt (h.tracked_lt uuid msg hGet)
  tracked_once := h.tracked_once
  tracked_open := fun handling hMem msg hGet =>
    not_mem_rejected (h.tracked_open handling hMem msg hGet) (h.tracked_lt _ msg hGet)
  settledOnce := ⟨h.nodup_rejected, fun _ hMem hRejected => h.handed_rejected hMem hRejected⟩

/-- What is tracked after handing the next delivery over: that delivery for the
uuid of its event, and what was tracked before for the others. -/
theorem tracked_handOver {w : World Evt} {content : String} {evt : Evt} {uuid : String}
    {msg : Inbound}
    (hGet : (w.handOver throws ⟨w.delivered, content⟩ evt).publisher.activeInbound.get uuid =
      some msg) :
    uuid = Respondable.uuid evt ∧ msg.deliveryTag = w.delivered ∨
      uuid ≠ Respondable.uuid evt ∧ w.publisher.activeInbound.get uuid = some msg := by
  change (w.publisher.activeInbound.set _ _).get uuid = some msg at hGet
  rw [KeyedMap.get_set] at hGet
  by_cases hUuid : uuid = Respondable.uuid evt
  · rw [if_pos hUuid, Option.some.injEq] at hGet
    exact Or.inl ⟨hUuid, by rw [← hGet]⟩
  · rw [if_neg hUuid] at hGet
    exact Or.inr ⟨hUuid, hGet⟩

/-- An invocation that the next delivery does not start was running before. -/
theorem running_of_handOver {w : World Evt} {content : String} {evt : Evt}
    {handling : Handling Evt}
    (hMem : handling ∈ (w.handOver throws ⟨w.delivered, content⟩ evt).running)
    (hOther : Respondable.uuid handling.evt ≠ Respondable.uuid evt ∨ w.called throws = []) :
    handling ∈ w.running := by
  rcases List.mem_append.mp hMem with hBefore | hStarted
  · exact hBefore
  · obtain ⟨subscriber, hCalled, rfl⟩ := List.mem_map.mp hStarted
    rcases hOther with hUuid | hNobody
    · exact absurd rfl hUuid
    · rw [hNobody] at hCalled
      exact absurd hCalled List.not_mem_nil

omit [Respondable Evt] in
theorem called_eq_nil {w : World Evt} (h : w.publisher.distributor.listeners = []) :
    w.called throws = [] :=
  Distributor.emitted_eq_nil_iff.mpr h

/-- An available publisher leaves the next delivery open. -/
theorem Settling.open_of_available {w : World Evt} (h : w.Settling)
    (hAvailable : w.publisher.unavailable = false) :
    w.delivered ∉ (w.settlements ++ w.rejection).map Prod.fst := by
  rw [rejection_of_available hAvailable, List.append_nil]
  exact fun hSettled => Nat.lt_irrefl _ (h.settled_lt _ hSettled)

/-- A tag is tracked for one uuid, also with the next delivery. -/
theorem Settling.tracked_once_handOver {w : World Evt} (h : w.Settling) {content : String}
    {evt : Evt} {uuid uuid' : String} {msg msg' : Inbound}
    (hGet : (w.handOver throws ⟨w.delivered, content⟩ evt).publisher.activeInbound.get uuid =
      some msg)
    (hGet' : (w.handOver throws ⟨w.delivered, content⟩ evt).publisher.activeInbound.get uuid' =
      some msg')
    (hTag : msg.deliveryTag = msg'.deliveryTag) : uuid = uuid' := by
  rcases tracked_handOver hGet with ⟨hUuid, hNew⟩ | ⟨-, hOld⟩ <;>
    rcases tracked_handOver hGet' with ⟨hUuid', hNew'⟩ | ⟨-, hOld'⟩
  · rw [hUuid, hUuid']
  · exact absurd (hTag.symm.trans hNew) (Nat.ne_of_lt (h.tracked_lt uuid' msg' hOld'))
  · exact absurd (hTag.trans hNew') (Nat.ne_of_lt (h.tracked_lt uuid msg hOld))
  · exact h.tracked_once uuid uuid' msg msg' hOld hOld' hTag

/-- What is tracked for a running invocation stays open when the next delivery
comes in time. -/
theorem Settling.tracked_open_handOver {w : World Evt} (h : w.Settling) {content : String}
    {evt : Evt}
    (hInTime : w.publisher.unavailable = false ∨ w.publisher.distributor.listeners = [] ∧
      ∀ handling ∈ w.running, Respondable.uuid handling.evt ≠ Respondable.uuid evt)
    {handling : Handling Evt}
    (hMem : handling ∈ (w.handOver throws ⟨w.delivered, content⟩ evt).running) {msg : Inbound}
    (hGet : (w.handOver throws ⟨w.delivered, content⟩ evt).publisher.activeInbound.get
      (Respondable.uuid handling.evt) = some msg) :
    msg.deliveryTag ∉ (w.settlements ++ w.rejection).map Prod.fst := by
  rcases tracked_handOver hGet with ⟨hUuid, hNew⟩ | ⟨hUuid, hOld⟩
  · -- The tracked delivery is the new one: it is open unless it was rejected.
    rcases hInTime with hAvailable | ⟨hNil, hOther⟩
    · rw [hNew]
      exact h.open_of_available hAvailable
    · have hRunning := running_of_handOver hMem (Or.inr (called_eq_nil hNil))
      exact absurd hUuid (hOther handling hRunning)
  · have hRunning := running_of_handOver hMem (Or.inl hUuid)
    exact not_mem_rejected (h.tracked_open handling hRunning msg hOld) (h.tracked_lt _ msg hOld)

/-- Handing the next delivery over, in time. -/
theorem Settling.handOver {w : World Evt} (h : w.Settling) {content : String} {evt : Evt}
    (hInTime : w.publisher.unavailable = false ∨ w.publisher.distributor.listeners = [] ∧
      ∀ handling ∈ w.running, Respondable.uuid handling.evt ≠ Respondable.uuid evt) :
    (w.handOver throws ⟨w.delivered, content⟩ evt).Settling := by
  refine ⟨h.settled_lt_rejected, ?_, ?_,
    fun _ _ _ _ hGet hGet' hTag => h.tracked_once_handOver hGet hGet' hTag,
    fun _ hMem _ hGet => h.tracked_open_handOver hInTime hMem hGet, h.nodup_rejected, ?_⟩
  · intro handover hMem
    rcases List.mem_append.mp hMem with hOld | hNew
    · exact Nat.lt_succ_of_lt (h.handed_lt handover hOld)
    · rw [List.mem_singleton.mp hNew]
      exact Nat.lt_succ_self _
  · intro uuid msg hGet
    rcases tracked_handOver hGet with ⟨-, hTag⟩ | ⟨-, hOld⟩
    · exact Nat.lt_succ_of_le (Nat.le_of_eq hTag)
    · exact Nat.lt_succ_of_lt (h.tracked_lt uuid msg hOld)
  · intro handover hMem hRejected
    rcases List.mem_append.mp hMem with hOld | hNew
    · exact h.handed_rejected hOld hRejected
    · rw [List.mem_singleton.mp hNew] at hRejected ⊢
      rcases hInTime with hAvailable | ⟨hNil, -⟩
      · exact absurd (List.mem_map_of_mem hRejected) (h.open_of_available hAvailable)
      · rw [called_eq_nil hNil]
        rfl

/-- Acknowledging what is tracked for a running invocation. -/
theorem Settling.released {w : World Evt} (h : w.Settling) {place : Nat}
    {handling : Handling Evt} {msg : Inbound} (hRunning : w.running[place]? = some handling)
    (hTracked : w.publisher.activeInbound.get (Respondable.uuid handling.evt) = some msg) :
    (w.released place handling msg).Settling := by
  have hOpen := h.tracked_open handling (List.mem_of_getElem? hRunning) msg hTracked
  have hOther : ∀ uuid msg',
      (w.released place handling msg).publisher.activeInbound.get uuid = some msg' →
      uuid ≠ Respondable.uuid handling.evt ∧ w.publisher.activeInbound.get uuid = some msg' := by
    intro uuid msg' hGet
    change (w.publisher.activeInbound.delete _).get uuid = some msg' at hGet
    exact KeyedMap.get_delete_eq_some_iff.mp hGet
  refine ⟨?_, h.handed_lt, ?_, ?_, ?_, ?_, ?_⟩
  · intro tag hTag
    change tag ∈ (w.settlements ++ [(msg.deliveryTag, Settlement.ack)]).map Prod.fst at hTag
    rw [List.map_append, List.mem_append] at hTag
    rcases hTag with hOld | hNew
    · exact h.settled_lt tag hOld
    · have hEq : tag = msg.deliveryTag := by simpa using hNew
      exact hEq ▸ h.tracked_lt _ msg hTracked
  · exact fun uuid msg' hGet => h.tracked_lt uuid msg' (hOther uuid msg' hGet).2
  · exact fun uuid uuid' msg₁ msg₂ hGet hGet' =>
      h.tracked_once uuid uuid' msg₁ msg₂ (hOther uuid msg₁ hGet).2 (hOther uuid' msg₂ hGet').2
  · intro other hMem msg' hGet
    obtain ⟨hUuid, hOld⟩ := hOther _ msg' hGet
    have hStill := h.tracked_open other (List.eraseIdx_subset hMem) msg' hOld
    change msg'.deliveryTag ∉ (w.settlements ++ [(msg.deliveryTag, Settlement.ack)]).map Prod.fst
    rw [List.map_append, List.mem_append]
    rintro (hBefore | hNow)
    · exact hStill hBefore
    · have hTag : msg'.deliveryTag = msg.deliveryTag := by simpa using hNow
      exact hUuid (h.tracked_once _ _ msg' msg hOld hTracked hTag)
  · exact KeyedMap.nodup_map_concat h.settledOnce.1 hOpen
  · intro handover hMem hRejected
    rcases List.mem_append.mp hRejected with hOld | hNow
    · exact h.settledOnce.2 handover hMem hOld
    · simp at hNow

theorem step_settling {w w' : World Evt} {action : Action Evt} (hInv : w.Settling)
    (h : step codec throws w action = some w') (hInTime : ArrivesInTime codec w action) :
    w'.Settling := by
  cases stepped_of_step h with
  | changed hInbound =>
      exact ⟨hInv.settled_lt, hInv.handed_lt, hInbound ▸ hInv.tracked_lt,
        hInbound ▸ hInv.tracked_once, hInbound ▸ hInv.tracked_open, hInv.settledOnce⟩
  | unparsed hParse => exact hInv.dropped
  | handedOver hParse => exact hInv.handOver (hInTime.imp_right (fun hAll => hAll _ hParse))
  | acknowledged hRunning hAck hTracked => exact hInv.released hRunning hTracked
  | ended hRunning hInbound =>
      refine ⟨hInv.settled_lt, hInv.handed_lt, hInbound ▸ hInv.tracked_lt,
        hInbound ▸ hInv.tracked_once, ?_, hInv.settledOnce⟩
      intro handling hMem msg hGet
      exact hInv.tracked_open handling (List.eraseIdx_subset hMem) msg (hInbound ▸ hGet)

/-- In every run whose deliveries all arrive in time, each of them is settled at
most once and a rejected one is handed to nobody. -/
theorem settledOnce_of_arrivesInTime (codec : EventProcessor Evt) (throws : Nat → Uuid → Bool)
    (as : List (Action Evt))
    (hRun : Runs.StepsMeet (step codec throws) (ArrivesInTime codec) initial as) :
    Runs.Always (step codec throws) SettledOnce initial as :=
  Runs.always_of_stepsMeet Settling (fun _ => True)
    (fun _ _ _ _ hInv hStep hInTime => step_settling hInv hStep hInTime)
    (fun _ hInv => hInv.settledOnce) settling_initial (fun _ _ => trivial) hRun

/-- A worker fails, and its message is delivered again after another one. -/
theorem settledOnce_redelivered :
    Runs.Always (step sampleCodec fun _ _ => false) SettledOnce initial
      [.prepare, .subscribe, .ready, .deliver helloSaidText,
        .settle 0 (.rejected (.value "failed")) (.ok ()), .deliver worldSaidText,
        .deliver helloSaidText, .settle 1 .resolved (.ok ()), .shutDown] :=
  settledOnce_of_arrivesInTime sampleCodec _ _ (by decide)

/-- A delivery in the preparing phase is rejected with requeue, handed to the
worker, and acknowledged once the worker is done. -/
theorem rejected_and_handled :
    ¬Runs.Always (step sampleCodec fun _ _ => false) SettledOnce initial
      [.prepare, .subscribe, .deliver helloSaidText, .settle 0 .resolved (.ok ())] := by
  decide

/-- A late delivery is handed to the emitter's listeners after its rejection. -/
theorem not_settledOnce_of_listeners {w w' : World Evt} {content : String} {evt : Evt}
    (hParse : codec.parseEvent content = .ok evt) (hLate : w.publisher.unavailable = true)
    (hListeners : w.publisher.distributor.listeners ≠ [])
    (h : step codec throws w (.deliver content) = some w') : ¬w'.SettledOnce := by
  have hHanded : w' = w.handOver throws ⟨w.delivered, content⟩ evt := by
    simpa [step, consume, hParse, handOver, rejection] using h.symm
  rw [hHanded]
  intro hOnce
  have hNobody := hOnce.2 ⟨w.delivered, (w.called throws).map Subscriber.key⟩
    (List.mem_append_right _ (List.mem_singleton_self _))
    (List.mem_append_right _ (by simp [rejection, hLate]))
  rw [List.map_eq_nil_iff] at hNobody
  exact hListeners (Distributor.emitted_eq_nil_iff.mp hNobody)

/-- A late delivery that nobody listens for replaces what was tracked for a
running invocation of the same uuid, whose success then settles it again. -/
theorem not_settledOnce_of_running {w w' : World Evt} {content : String} {evt : Evt}
    (hParse : codec.parseEvent content = .ok evt) (hLate : w.publisher.unavailable = true)
    {place : Nat} {handling : Handling Evt} (hRunning : w.running[place]? = some handling)
    (hUuid : Respondable.uuid handling.evt = Respondable.uuid evt)
    (h : step codec throws w (.deliver content) = some w') :
    ∃ w'', step codec throws w' (.settle place .resolved (.ok ())) = some w'' ∧
      ¬w''.SettledOnce := by
  have hHanded : w' = w.handOver throws ⟨w.delivered, content⟩ evt := by
    simpa [step, consume, hParse, handOver, rejection] using h.symm
  have hStill : w'.running[place]? = some handling := by
    rw [hHanded]
    obtain ⟨hLt, -⟩ := List.getElem?_eq_some_iff.mp hRunning
    exact (List.getElem?_append_left hLt).trans hRunning
  have hTracked : w'.publisher.activeInbound.get (Respondable.uuid handling.evt) =
      some ⟨w.delivered, content⟩ := by
    rw [hHanded, hUuid]
    exact KeyedMap.get_set_self _ _ _
  have hAck : BasePublisher.acknowledges handling.evt .resolved (.ok ()) = true :=
    BasePublisher.acknowledges_iff.mpr ⟨rfl, fun _ => rfl⟩
  refine ⟨w'.released place handling ⟨w.delivered, content⟩, ?_, ?_⟩
  · simp only [step, hStill, hAck, if_true, acknowledgeEvent, handleAcknowledge, hTracked]
    rfl
  · rintro ⟨hNodup, -⟩
    change ((w'.settlements ++ [(w.delivered, Settlement.ack)]).map Prod.fst).Nodup at hNodup
    rw [List.map_append, List.nodup_append] at hNodup
    refine hNodup.2.2 w.delivered ?_ w.delivered (by simp) rfl
    rw [hHanded]
    refine List.mem_map_of_mem (f := Prod.fst) (a := (w.delivered, Settlement.reject true)) ?_
    exact List.mem_append_right _ (by simp [rejection, hLate])

end Moirae.RabbitMQPublisher.World
