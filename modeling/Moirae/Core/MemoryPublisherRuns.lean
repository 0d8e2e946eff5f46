import Moirae.Core.MemoryPublisher

/-! What a run of the in-memory publisher keeps true: the linked queue holds
the waiting items, the subscription map and the emitter's listeners agree, and
one call of `advanceBus` takes the oldest item or does nothing. -/
namespace Moirae.MemoryPublisher

variable {Evt : Type} {codec : EventProcessor Evt} {throws : Nat → Uuid → Bool}

/-- The queue is well linked, its keys were drawn before, and no item in it is
the empty text. -/
def QueueSound (p : MemoryPublisher) : Prop :=
  ∃ entries, p.queue.Holds entries ∧ (∀ key ∈ entries.map Prod.fst, key < p.uuids) ∧
    ∀ item ∈ entries.map Prod.snd, item ≠ ""

/-- The emitter holds the closures of the live subscriptions, each under the
key it was given. -/
structure SubscribersSound (p : MemoryPublisher) : Prop where
  consistent : p.distributor.Consistent
  keyed : ∀ entry ∈ p.distributor.subscriptions.entries, entry.2.key = entry.1
  drawn : ∀ entry ∈ p.distributor.subscriptions.entries, entry.1 < p.uuids

/-- No closure is on the emitter twice. -/
theorem SubscribersSound.listeners_nodup {p : MemoryPublisher} (h : p.SubscribersSound) :
    p.distributor.listeners.Nodup := by
  have hKeys : (p.distributor.subscriptions.entries.map Prod.snd).map Subscriber.key =
      p.distributor.subscriptions.entries.map Prod.fst := by
    rw [List.map_map]
    exact List.map_congr_left h.keyed
  rw [h.consistent]
  exact List.Nodup.of_map Subscriber.key (hKeys ▸ p.distributor.subscriptions.distinct)

/-- A new subscription takes a key that nobody has. -/
theorem SubscribersSound.subscribeAs {p : MemoryPublisher} (h : p.SubscribersSound)
    (role : Role) : (p.subscribeAs role).SubscribersSound := by
  have hFresh : p.distributor.subscriptions.get p.uuids = none := by
    by_contra hSome
    obtain ⟨subscriber, hGet⟩ := Option.ne_none_iff_exists'.mp hSome
    have hLt := h.drawn _ (KeyedMap.mem_entries_iff_get.mpr hGet)
    exact Nat.lt_irrefl _ hLt
  have hEntry : ∀ entry ∈ (p.subscribeAs role).distributor.subscriptions.entries,
      entry = (p.uuids, ⟨p.uuids, role⟩) ∨ entry ∈ p.distributor.subscriptions.entries := by
    rintro ⟨key, subscriber⟩ hMem
    have hSet := (KeyedMap.mem_set_entries _ _ _ _ _).mp hMem
    by_cases hKey : key = p.uuids
    · rw [if_pos hKey] at hSet
      exact Or.inl (Prod.ext hKey hSet)
    · rw [if_neg hKey] at hSet
      exact Or.inr hSet
  refine ⟨h.consistent.subscribe hFresh _, ?_, ?_⟩
  · intro entry hMem
    rcases hEntry entry hMem with rfl | hOld
    · rfl
    · exact h.keyed entry hOld
  · intro entry hMem
    rcases hEntry entry hMem with rfl | hOld
    · exact Nat.lt_succ_self _
    · exact Nat.lt_succ_of_lt (h.drawn entry hOld)

/-- No subscription comes from one that ends. -/
theorem unsubscribe_entries_subset (p : MemoryPublisher) (key : Uuid) :
    (p.unsubscribe key).distributor.subscriptions.entries ⊆
      p.distributor.subscriptions.entries := by
  change (p.distributor.unsubscribe key).subscriptions.entries ⊆ _
  unfold Distributor.unsubscribe
  split
  · exact List.Subset.refl _
  · exact List.filter_subset_self _

/-- There are no more listeners than before. -/
theorem unsubscribe_count_le (p : MemoryPublisher) (key : Uuid) :
    (p.unsubscribe key).distributor.listenerCount ≤ p.distributor.listenerCount := by
  change (p.distributor.unsubscribe key).listenerCount ≤ _
  unfold Distributor.unsubscribe
  split
  · exact Nat.le_refl _
  · exact List.length_filter_le _ _

/-- A subscription ends on the emitter and in the map. -/
theorem SubscribersSound.unsubscribe {p : MemoryPublisher} (h : p.SubscribersSound)
    (key : Uuid) : (p.unsubscribe key).SubscribersSound :=
  ⟨h.consistent.unsubscribe h.listeners_nodup key,
    fun entry hMem => h.keyed entry (unsubscribe_entries_subset p key hMem),
    fun entry hMem => h.drawn entry (unsubscribe_entries_subset p key hMem)⟩

/-- The queue is empty at first. -/
theorem queueSound_bootstrapped (nodeId : Option String) :
    (bootstrapped nodeId).QueueSound :=
  ⟨[], Queue.holds_new, by simp, by simp⟩

/-- A subscription draws a key and leaves the queue alone. -/
theorem queueSound_subscribeAs {p : MemoryPublisher} (h : p.QueueSound) (role : Role) :
    (p.subscribeAs role).QueueSound := by
  obtain ⟨entries, hHolds, hKeys, hItems⟩ := h
  exact ⟨entries, hHolds, fun key hKey => Nat.lt_succ_of_lt (hKeys key hKey), hItems⟩

/-- Nobody has subscribed at first. -/
theorem subscribersSound_bootstrapped (nodeId : Option String) :
    (bootstrapped nodeId).SubscribersSound :=
  ⟨Distributor.consistent_new, List.forall_mem_nil _,
    List.forall_mem_nil _⟩

/-- Nothing is taken from the queue without a listener or while not idle. -/
theorem advanceBus_blocked {p : MemoryPublisher}
    (h : p.distributor.listenerCount = 0 ∨ p.status ≠ .IDLE) :
    p.advanceBus codec = (p, .nothing) := if_pos h

/-- An item was taken from the queue. -/
def took (p : MemoryPublisher) (queue : Queue String) : MemoryPublisher :=
  { p with queue, status := .ACTIVE }

/-- What a call of `advanceBus` comes to: it does nothing, or it takes the oldest
item and is active then, whether the item can be parsed or not. -/
inductive Advances (codec : EventProcessor Evt) (p : MemoryPublisher) :
    MemoryPublisher × Advance Evt → Prop where
  | nothing (h : p.distributor.listenerCount = 0 ∨ p.status ≠ .IDLE ∨ p.queue.contents = []) :
      Advances codec p (p, .nothing)
  | emitted {item : String} {rest : List String} {queue : Queue String} {evt : Evt}
      (hCount : p.distributor.listenerCount ≠ 0) (hIdle : p.status = .IDLE)
      (hNext : p.queue.contents = item :: rest) (hParse : codec.parseEvent item = .ok evt)
      (hRest : queue.contents = rest) (hQueue : (p.took queue).QueueSound) :
      Advances codec p (p.took queue, .emitted item evt)
  | threw {item : String} {rest : List String} {queue : Queue String} {reason : Thrown}
      (hCount : p.distributor.listenerCount ≠ 0) (hIdle : p.status = .IDLE)
      (hNext : p.queue.contents = item :: rest) (hParse : codec.parseEvent item = .error reason)
      (hRest : queue.contents = rest) (hQueue : (p.took queue).QueueSound) :
      Advances codec p (p.took queue, .threw reason)

/-- The bus advances in one of these ways. -/
theorem advances_advanceBus {p : MemoryPublisher} (hq : p.QueueSound) :
    Advances codec p (p.advanceBus codec) := by
  by_cases hBlocked : p.distributor.listenerCount = 0 ∨ p.status ≠ .IDLE
  · rw [advanceBus_blocked hBlocked]
    exact .nothing (hBlocked.imp_right Or.inl)
  · obtain ⟨hCount, hIdle⟩ := not_or.mp hBlocked
    rw [not_not] at hIdle
    obtain ⟨entries, hHolds, hKeys, hItems⟩ := hq
    unfold advanceBus
    rw [if_neg hBlocked]
    cases entries with
    | nil =>
        rw [hHolds.dequeue_nil]
        exact .nothing (Or.inr (Or.inr hHolds.contents_eq))
    | cons entry entries =>
        obtain ⟨key, item⟩ := entry
        obtain ⟨hFirst, hRest⟩ := hHolds.dequeue_cons
        have hText : item ≠ "" := hItems item List.mem_cons_self
        have hDequeue : p.queue.dequeue = (some item, p.queue.dequeue.2) := by rw [← hFirst]
        have hQueue : (p.took p.queue.dequeue.2).QueueSound :=
          ⟨entries, hRest, fun other hOther => hKeys other (List.mem_cons_of_mem _ hOther),
            fun other hOther => hItems other (List.mem_cons_of_mem _ hOther)⟩
        rw [hDequeue]
        cases hParse : codec.parseEvent item with
        | ok evt =>
            simp only [hText, if_false, hParse]
            exact .emitted hCount hIdle hHolds.contents_eq hParse hRest.contents_eq hQueue
        | error reason =>
            simp only [hText, if_false, hParse]
            exact .threw hCount hIdle hHolds.contents_eq hParse hRest.contents_eq hQueue

/-- Enqueueing never meets a missing last element. What follows is a call of
`advanceBus` when the item is alone in the queue, and nothing otherwise. -/
theorem handlePublish_eq (codec : EventProcessor Evt) {p : MemoryPublisher}
    (hq : p.QueueSound) {item : String} (hItem : item ≠ "") :
    ∃ queue, queue.contents = p.queue.contents ++ [item] ∧
      QueueSound { p with queue, uuids := p.uuids + 1 } ∧
      p.handlePublish codec item =
        if p.queue.contents = [] then
          advanceBus codec { p with queue, uuids := p.uuids + 1 }
        else ({ p with queue, uuids := p.uuids + 1 }, .nothing) := by
  obtain ⟨entries, hHolds, hKeys, hItems⟩ := hq
  have hFresh : p.uuids ∉ entries.map Prod.fst := fun hMem =>
    Nat.lt_irrefl _ (hKeys _ hMem)
  obtain ⟨queue, hEnqueue, hHolds'⟩ := hHolds.enqueue hFresh item
  refine ⟨queue, ?_, ⟨entries ++ [(p.uuids, item)], hHolds', ?_, ?_⟩, ?_⟩
  · rw [hHolds'.contents_eq, hHolds.contents_eq, List.map_append]
    rfl
  · intro key hKey
    rw [List.map_append, List.mem_append] at hKey
    rcases hKey with hOld | hNew
    · exact Nat.lt_succ_of_lt (hKeys key hOld)
    · have hEq : key = p.uuids := by simpa using hNew
      exact hEq ▸ Nat.lt_succ_self _
  · intro other hOther
    rw [List.map_append, List.mem_append] at hOther
    rcases hOther with hOld | hNew
    · exact hItems other hOld
    · have hEq : other = item := by simpa using hNew
      exact hEq ▸ hItem
  · have hSize : queue.size = 1 ↔ p.queue.contents = [] := by
      rw [hHolds'.size_eq, hHolds.contents_eq, List.length_append, List.map_eq_nil_iff,
        ← List.length_eq_zero_iff]
      simp
    unfold handlePublish
    simp only [hEnqueue, hSize]

namespace World

/-- The item is the next delivery, to all workers the emitter calls. -/
def handOver (throws : Nat → Uuid → Bool) (w : World Evt) (queue : Queue String)
    (item : String) (evt : Evt) : World Evt :=
  { w with
    publisher := { w.publisher with queue, status := .ACTIVE }
    handed := w.handed ++ [⟨item, w.startedWorkers throws⟩]
    running := w.running ++
      (w.startedWorkers throws).map fun worker => ⟨w.handed.length, worker, evt⟩ }

/-- The item could not be parsed: it is gone, and the publisher stays active. -/
def dropped (w : World Evt) (queue : Queue String) : World Evt :=
  { w with publisher := { w.publisher with queue, status := .ACTIVE } }

/-- What an advance of the bus comes to. -/
inductive Advanced (codec : EventProcessor Evt) (throws : Nat → Uuid → Bool) (w : World Evt) :
    World Evt → Prop where
  | nothing (h : w.publisher.distributor.listenerCount = 0 ∨ w.publisher.status ≠ .IDLE ∨
      w.waiting = []) : Advanced codec throws w w
  | handed {item : String} {rest : List String} {queue : Queue String} {evt : Evt}
      (hCount : w.publisher.distributor.listenerCount ≠ 0)
      (hIdle : w.publisher.status = .IDLE) (hNext : w.waiting = item :: rest)
      (hParse : codec.parseEvent item = .ok evt) (hRest : queue.contents = rest)
      (hQueue : QueueSound { w.publisher with queue, status := .ACTIVE }) :
      Advanced codec throws w (w.handOver throws queue item evt)
  | unreadable {item : String} {rest : List String} {queue : Queue String}
      (hCount : w.publisher.distributor.listenerCount ≠ 0)
      (hIdle : w.publisher.status = .IDLE) (hNext : w.waiting = item :: rest)
      (hParse : ¬ codec.CanParse item) (hRest : queue.contents = rest)
      (hQueue : QueueSound { w.publisher with queue, status := .ACTIVE }) :
      Advanced codec throws w (w.dropped queue)

/-- Where the bus can advance, the item it takes can be parsed. -/
def NextReadable (codec : EventProcessor Evt) (w : World Evt) : Prop :=
  w.publisher.distributor.listenerCount ≠ 0 → w.publisher.status = .IDLE →
    ∀ item ∈ w.waiting.head?, codec.CanParse item

/-- What is taken now can be parsed. -/
theorem NextReadable.canParse {w : World Evt} (h : w.NextReadable codec) {item : String}
    {rest : List String} (hCount : w.publisher.distributor.listenerCount ≠ 0)
    (hIdle : w.publisher.status = .IDLE) (hNext : w.waiting = item :: rest) :
    codec.CanParse item := by
  apply h hCount hIdle
  rw [hNext]
  rfl

/-- The item that the bus takes when it advances. -/
def next (w : World Evt) : Option String :=
  if w.publisher.distributor.listenerCount ≠ 0 ∧ w.publisher.status = .IDLE then
    w.waiting.head?
  else none

/-- What the bus takes can be parsed. -/
theorem nextReadable_iff {w : World Evt} :
    w.NextReadable codec ↔ ∀ item ∈ w.next, codec.CanParse item := by
  rw [NextReadable, next]
  by_cases hReady : w.publisher.distributor.listenerCount ≠ 0 ∧ w.publisher.status = .IDLE
  · rw [if_pos hReady]
    exact ⟨fun h => h hReady.1 hReady.2, fun h _ _ => h⟩
  · rw [if_neg hReady]
    exact iff_of_true (fun hCount hIdle => absurd ⟨hCount, hIdle⟩ hReady)
      (fun item hNone => absurd hNone (Option.not_mem_none item))

/-- What `advanceBus` does to a world. -/
theorem advanced_advanceBus {w : World Evt} (hq : w.publisher.QueueSound) :
    Advanced codec throws w (w.record throws (advanceBus codec w.publisher)) := by
  have hAdvances : Advances codec w.publisher _ := advances_advanceBus hq
  generalize advanceBus codec w.publisher = result at hAdvances ⊢
  cases hAdvances with
  | nothing hStopped => exact .nothing hStopped
  | emitted hCount hIdle hNext hParse hRest hQueue =>
      exact .handed hCount hIdle hNext hParse hRest hQueue
  | threw hCount hIdle hNext hParse hRest hQueue =>
      apply Advanced.unreadable hCount hIdle hNext _ hRest hQueue
      rw [EventProcessor.canParse_iff, hParse]
      exact Bool.false_ne_true

variable [Respondable Evt]

/-- The item was put into the queue. -/
def enqueued (w : World Evt) (queue : Queue String) (item : String) : World Evt :=
  { w with
    publisher := { w.publisher with queue, uuids := w.publisher.uuids + 1 }
    published := w.published ++ [item] }

/-- The invocation at this place is over and its delivery acknowledged. -/
def released (w : World Evt) (place : Nat) (handling : Handling Evt) : World Evt :=
  { w with
    publisher := { w.publisher with status := .IDLE }
    running := w.running.eraseIdx place
    acknowledged := w.acknowledged ++ [handling.delivery] }

/-- Everything one step of a run can do. -/
inductive Stepped (codec : EventProcessor Evt) (throws : Nat → Uuid → Bool) (w : World Evt) :
    Action Evt → World Evt → Prop where
  | unsent {event : Evt} {reason : Thrown}
      (hError : serialized codec w.publisher event = .error reason) :
      Stepped codec throws w (.publish event) w
  | queued {event : Evt} {item : String} {queue : Queue String}
      (hText : serialized codec w.publisher event = .ok item) (hBehind : w.waiting ≠ [])
      (hQueue : queue.contents = w.waiting ++ [item])
      (hSound : QueueSound (w.enqueued queue item).publisher) :
      Stepped codec throws w (.publish event) (w.enqueued queue item)
  | sent {event : Evt} {item : String} {queue : Queue String} {w' : World Evt}
      (hText : serialized codec w.publisher event = .ok item) (hAlone : w.waiting = [])
      (hQueue : queue.contents = [item])
      (hSound : QueueSound (w.enqueued queue item).publisher)
      (hAdvance : Advanced codec throws (w.enqueued queue item) w') :
      Stepped codec throws w (.publish event) w'
  | subscribed : Stepped codec throws w .subscribe { w with publisher := w.publisher.subscribe }
  | listening : Stepped codec throws w .listen { w with publisher := w.publisher.listen }
  | unsubscribed (key : Uuid) :
      Stepped codec throws w (.unsubscribe key)
        { w with publisher := w.publisher.unsubscribe key }
  | acknowledged {place : Nat} {handling : Handling Evt} {outcome : Outcome}
      {response : Except Thrown Unit} {w' : World Evt}
      (hRunning : w.running[place]? = some handling)
      (hAck : BasePublisher.acknowledges handling.evt outcome response = true)
      (hAdvance : Advanced codec throws (w.released place handling) w') :
      Stepped codec throws w (.settle place outcome response) w'
  | unacknowledged {place : Nat} {handling : Handling Evt} {outcome : Outcome}
      {response : Except Thrown Unit}
      (hRunning : w.running[place]? = some handling)
      (hAck : BasePublisher.acknowledges handling.evt outcome response = false) :
      Stepped codec throws w (.settle place outcome response)
        { w with running := w.running.eraseIdx place }

omit [Respondable Evt] in
/-- Recording a result reads the listeners of the publisher and nothing else of
it. -/
theorem record_publisher (w : World Evt) {p : MemoryPublisher}
    (h : p.distributor = w.publisher.distributor) (result : MemoryPublisher × Advance Evt) :
    record throws { w with publisher := p } result = record throws w result := by
  obtain ⟨publisher, advance⟩ := result
  cases advance with
  | nothing => rfl
  | threw reason => rfl
  | emitted item evt => simp only [record, startedWorkers, h]

omit [Respondable Evt] in
/-- The account of what was published is not read. -/
theorem record_published (w : World Evt) (published : List String)
    (result : MemoryPublisher × Advance Evt) :
    record throws { w with published } result = { record throws w result with published } := by
  obtain ⟨publisher, advance⟩ := result
  cases advance <;> rfl

/-- A text that was made goes into the queue, and the bus advances. -/
theorem step_publish_ok {w : World Evt} {event : Evt} {item : String} (queue : Queue String)
    (hText : serialized codec w.publisher event = .ok item) :
    step codec throws w (.publish event) =
      some (record throws (w.enqueued queue item) (handlePublish codec w.publisher item)) := by
  simp only [step, publish, hText]
  rw [← record_published]
  exact congrArg some (record_publisher (p := (w.enqueued queue item).publisher) _ rfl _).symm

/-- Every possible step is one of these. -/
theorem stepped_of_step (hText : codec.WritesText) {w w' : World Evt} {action : Action Evt}
    (hq : w.publisher.QueueSound) (h : step codec throws w action = some w') :
    Stepped codec throws w action w' := by
  cases action with
  | publish event =>
      cases hItem : serialized codec w.publisher event with
      | error reason =>
          have hSame : w' = w := by
            simpa [step, publish, hItem, record] using h.symm
          rw [hSame]
          exact .unsent hItem
      | ok item =>
          obtain ⟨queue, hQueue, hSound, hPublish⟩ :=
            handlePublish_eq codec hq (hText _ _ hItem)
          rw [step_publish_ok queue hItem, Option.some.injEq, hPublish] at h
          rw [← h]
          by_cases hAlone : w.publisher.queue.contents = []
          · have hContents : queue.contents = [item] := by
              rw [hQueue]
              exact congrArg (· ++ [item]) hAlone
            refine .sent hItem hAlone hContents hSound ?_
            rw [if_pos hAlone]
            exact advanced_advanceBus (w := w.enqueued queue item) hSound
          · rw [if_neg hAlone]
            exact .queued hItem hAlone hQueue hSound
  | subscribe =>
      cases h
      exact .subscribed
  | listen =>
      cases h
      exact .listening
  | unsubscribe key =>
      cases h
      exact .unsubscribed key
  | settle place outcome response =>
      cases hRunning : w.running[place]? with
      | none => simp [step, hRunning] at h
      | some handling =>
          cases hAck : BasePublisher.acknowledges handling.evt outcome response with
          | false =>
              simp only [step, hRunning, hAck, Bool.false_eq_true, if_false,
                Option.some.injEq] at h
              rw [← h]
              exact .unacknowledged hRunning hAck
          | true =>
              simp only [step, hRunning, hAck, if_true, Option.some.injEq] at h
              refine .acknowledged hRunning hAck ?_
              have hRecord : record throws (w.released place handling)
                  (acknowledgeEvent codec w.publisher) = w' := by
                rw [← h]
                exact record_publisher
                  { w with
                    running := w.running.eraseIdx place
                    acknowledged := w.acknowledged ++ [handling.delivery] }
                  (p := { w.publisher with status := .IDLE }) rfl _
              rw [← hRecord]
              exact advanced_advanceBus (w := w.released place handling) hq

/-- What holds in every state of a run, whatever the actions. -/
structure Sound (w : World Evt) : Prop where
  queue : w.publisher.QueueSound
  subscribers : w.publisher.SubscribersSound

omit [Respondable Evt] in
/-- Both hold when the publisher is new. -/
theorem sound_initial (nodeId : Option String) : (initial nodeId : World Evt).Sound :=
  ⟨queueSound_bootstrapped nodeId, subscribersSound_bootstrapped nodeId⟩

omit [Respondable Evt] in
/-- An advance keeps the queue and the subscriptions sound. -/
theorem Advanced.sound {w w' : World Evt} (h : Advanced codec throws w w')
    (hSound : w.Sound) : w'.Sound := by
  cases h with
  | nothing => exact hSound
  | handed hCount hIdle hNext hParse hRest hQueue
  | unreadable hCount hIdle hNext hParse hRest hQueue =>
      have hSubs := hSound.subscribers
      exact ⟨hQueue, hSubs.consistent, hSubs.keyed, hSubs.drawn⟩

omit [Respondable Evt] in
/-- The queue is no matter of the subscriptions. -/
theorem subscribersSound_enqueued {w : World Evt} (h : w.publisher.SubscribersSound)
    (queue : Queue String) (item : String) :
    (w.enqueued queue item).publisher.SubscribersSound :=
  ⟨h.consistent, h.keyed, fun entry hMem => Nat.lt_succ_of_lt (h.drawn entry hMem)⟩

/-- Each step keeps the queue and the subscriptions sound. -/
theorem step_sound (hText : codec.WritesText) {w w' : World Evt} {action : Action Evt}
    (hSound : w.Sound) (h : step codec throws w action = some w') : w'.Sound := by
  have hSubs := hSound.subscribers
  cases stepped_of_step hText hSound.queue h with
  | unsent => exact hSound
  | queued hItem hBehind hQueue hItems =>
      exact ⟨hItems, subscribersSound_enqueued hSubs _ _⟩
  | sent hItem hAlone hQueue hItems hAdvance =>
      exact hAdvance.sound ⟨hItems, subscribersSound_enqueued hSubs _ _⟩
  | subscribed => exact ⟨queueSound_subscribeAs hSound.queue _, hSubs.subscribeAs _⟩
  | listening => exact ⟨queueSound_subscribeAs hSound.queue _, hSubs.subscribeAs _⟩
  | unsubscribed key => exact ⟨hSound.queue, hSubs.unsubscribe key⟩
  | acknowledged hRunning hAck hAdvance =>
      exact hAdvance.sound ⟨hSound.queue, hSubs.consistent, hSubs.keyed, hSubs.drawn⟩
  | unacknowledged => exact ⟨hSound.queue, hSubs⟩

/-- The item that the step takes from the queue, if it takes one. -/
def takes (codec : EventProcessor Evt) (w : World Evt) : Action Evt → Option String
  | .publish event =>
      if w.publisher.distributor.listenerCount ≠ 0 ∧ w.publisher.status = .IDLE ∧
          w.waiting = [] then
        (serialized codec w.publisher event).toOption
      else none
  | .settle place outcome response => do
      let handling ← w.running[place]?
      if w.publisher.distributor.listenerCount ≠ 0 ∧
          BasePublisher.acknowledges handling.evt outcome response = true then
        w.waiting.head?
      else none
  | _ => none

/-- What the step takes from the queue can be parsed. -/
def TakesReadable (codec : EventProcessor Evt) (w : World Evt) (action : Action Evt) : Prop :=
  ∀ item ∈ w.takes codec action, codec.CanParse item

instance (codec : EventProcessor Evt) (w : World Evt) (action : Action Evt) :
    Decidable (w.TakesReadable codec action) :=
  inferInstanceAs (Decidable (∀ item ∈ w.takes codec action, codec.CanParse item))

/-- A message that finds the queue empty is the next to be taken. -/
theorem takes_publish {w : World Evt} {event : Evt} {item : String} {queue : Queue String}
    (hItem : serialized codec w.publisher event = .ok item) (hAlone : w.waiting = [])
    (hQueue : queue.contents = [item]) :
    w.takes codec (.publish event) = (w.enqueued queue item).next := by
  have hWaiting : (w.enqueued queue item).waiting = [item] := hQueue
  rw [next, hWaiting]
  change _ = if w.publisher.distributor.listenerCount ≠ 0 ∧ w.publisher.status = .IDLE then
    [item].head? else none
  simp [takes, hItem, hAlone, Except.toOption]

/-- When a delivery is acknowledged the next message is taken. -/
theorem takes_settle {w : World Evt} {place : Nat} {handling : Handling Evt}
    {outcome : Outcome} {response : Except Thrown Unit}
    (hRunning : w.running[place]? = some handling)
    (hAck : BasePublisher.acknowledges handling.evt outcome response = true) :
    w.takes codec (.settle place outcome response) = (w.released place handling).next := by
  simp [takes, next, released, waiting, hRunning, hAck]

theorem takesReadable_publish_iff {w : World Evt} {event : Evt} {item : String}
    {queue : Queue String} (hItem : serialized codec w.publisher event = .ok item)
    (hAlone : w.waiting = []) (hQueue : queue.contents = [item]) :
    w.TakesReadable codec (.publish event) ↔ (w.enqueued queue item).NextReadable codec := by
  rw [TakesReadable, takes_publish hItem hAlone hQueue, nextReadable_iff]

theorem takesReadable_settle_iff {w : World Evt} {place : Nat} {handling : Handling Evt}
    {outcome : Outcome} {response : Except Thrown Unit}
    (hRunning : w.running[place]? = some handling)
    (hAck : BasePublisher.acknowledges handling.evt outcome response = true) :
    w.TakesReadable codec (.settle place outcome response) ↔
      (w.released place handling).NextReadable codec := by
  rw [TakesReadable, takes_settle hRunning hAck, nextReadable_iff]

/-! ## Runs in which everything can be parsed -/

/-- The text of an event that is published can be parsed. -/
def WritesReadable (codec : EventProcessor Evt) (w : World Evt) : Action Evt → Prop
  | .publish event => ∀ text, serialized codec w.publisher event = .ok text → codec.CanParse text
  | _ => True

/-- Everything that waits can be parsed. -/
def Readable (codec : EventProcessor Evt) (w : World Evt) : Prop :=
  ∀ item ∈ w.waiting, codec.CanParse item

omit [Respondable Evt] in
/-- When all that waits can be parsed, the next text can. -/
theorem Readable.nextReadable {w : World Evt} (h : w.Readable codec) : w.NextReadable codec :=
  fun _ _ item hItem => h item (List.mem_of_mem_head? hItem)

omit [Respondable Evt] in
/-- A text that can be parsed joins those that wait. -/
theorem Readable.enqueued {w : World Evt} (h : w.Readable codec) {queue : Queue String}
    {item : String} (hQueue : queue.contents = w.waiting ++ [item])
    (hItem : codec.CanParse item) : (w.enqueued queue item).Readable codec := by
  intro other hOther
  have hMem : other ∈ w.waiting ++ [item] := hQueue ▸ hOther
  rcases List.mem_append.mp hMem with hOld | hNew
  · exact h other hOld
  · rw [List.mem_singleton.mp hNew]
    exact hItem

omit [Respondable Evt] in
/-- An advance takes a text away. -/
theorem Advanced.readable {w w' : World Evt} (h : Advanced codec throws w w')
    (hReadable : w.Readable codec) : w'.Readable codec := by
  cases h with
  | nothing => exact hReadable
  | handed hCount hIdle hNext hParse hRest hQueue
  | unreadable hCount hIdle hNext hParse hRest hQueue =>
      intro other hOther
      apply hReadable other
      rw [hNext]
      exact List.mem_cons_of_mem _ (hRest ▸ hOther)

/-- All that waits can be parsed, as long as what is published can. -/
theorem step_readable (hText : codec.WritesText) {w w' : World Evt} {action : Action Evt}
    (hSound : w.Sound) (hReadable : w.Readable codec) (hWrites : w.WritesReadable codec action)
    (h : step codec throws w action = some w') : w'.Readable codec := by
  cases stepped_of_step hText hSound.queue h with
  | unsent => exact hReadable
  | queued hItem hBehind hQueue hItems => exact hReadable.enqueued hQueue (hWrites _ hItem)
  | sent hItem hAlone hQueue hItems hAdvance =>
      refine hAdvance.readable (hReadable.enqueued ?_ (hWrites _ hItem))
      rw [hQueue, hAlone, List.nil_append]
  | subscribed => exact hReadable
  | listening => exact hReadable
  | unsubscribed key => exact hReadable
  | acknowledged hRunning hAck hAdvance =>
      exact hAdvance.readable (w := w.released _ _) hReadable
  | unacknowledged => exact hReadable

/-- The texts handed over are the first ones published, in order. -/
def InSequence (w : World Evt) : Prop :=
  w.handed.map Delivery.item ++ w.waiting = w.published

omit [Respondable Evt] in
/-- An advance hands over the first of what waits. -/
theorem Advanced.inSequence {w w' : World Evt} (h : Advanced codec throws w w')
    (hReadable : w.Readable codec) (hOrder : w.InSequence) : w'.InSequence := by
  cases h with
  | nothing => exact hOrder
  | @handed item rest queue evt hCount hIdle hNext hParse hRest hQueue =>
      rw [InSequence, hNext] at hOrder
      change (w.handed ++ [Delivery.mk item (w.startedWorkers throws)]).map Delivery.item ++
        queue.contents = w.published
      rw [hRest, List.map_append, List.append_assoc]
      exact hOrder
  | unreadable hCount hIdle hNext hParse =>
      exact absurd (hReadable.nextReadable.canParse hCount hIdle hNext) hParse

omit [Respondable Evt] in
/-- A new text comes last. -/
theorem InSequence.enqueued {w : World Evt} (h : w.InSequence) {queue : Queue String}
    {item : String} (hQueue : queue.contents = w.waiting ++ [item]) :
    (w.enqueued queue item).InSequence := by
  change w.handed.map Delivery.item ++ queue.contents = w.published ++ [item]
  rw [hQueue, ← h, List.append_assoc]

/-- Deliveries come in the order of the publications. -/
theorem step_inSequence (hText : codec.WritesText) {w w' : World Evt} {action : Action Evt}
    (hSound : w.Sound) (hReadable : w.Readable codec) (hWrites : w.WritesReadable codec action)
    (hOrder : w.InSequence) (h : step codec throws w action = some w') : w'.InSequence := by
  cases stepped_of_step hText hSound.queue h with
  | unsent => exact hOrder
  | queued hItem hBehind hQueue hItems => exact hOrder.enqueued hQueue
  | @sent _ item queue _ hItem hAlone hQueue hItems hAdvance =>
      have hContents : queue.contents = w.waiting ++ [item] := by
        rw [hQueue, hAlone, List.nil_append]
      exact hAdvance.inSequence (hReadable.enqueued hContents (hWrites _ hItem))
        (hOrder.enqueued hContents)
  | subscribed => exact hOrder
  | listening => exact hOrder
  | unsubscribed key => exact hOrder
  | acknowledged hRunning hAck hAdvance =>
      exact hAdvance.inSequence (w := w.released _ _) hReadable hOrder
  | unacknowledged => exact hOrder

/-! ## The account of a step -/

/-- The text that the step publishes, if it publishes one. -/
def sends (codec : EventProcessor Evt) (w : World Evt) : Action Evt → Option String
  | .publish event => (serialized codec w.publisher event).toOption
  | _ => none

/-- What is published joins what waits, what is taken leaves it, and it is handed
over if it can be parsed. -/
structure Accounted (codec : EventProcessor Evt) (w : World Evt) (action : Action Evt)
    (w' : World Evt) : Prop where
  published : w'.published = w.published ++ (w.sends codec action).toList
  waiting : w.waiting ++ (w.sends codec action).toList =
    (w.takes codec action).toList ++ w'.waiting
  handed : w'.handed.map Delivery.item = w.handed.map Delivery.item ++
    (w.takes codec action).toList.filter (codec.CanParse ·)

/-- A step that neither publishes nor takes anything. -/
theorem Accounted.of_same {w w' : World Evt} {action : Action Evt}
    (hSends : w.sends codec action = none) (hTakes : w.takes codec action = none)
    (hPublished : w'.published = w.published) (hWaiting : w'.waiting = w.waiting)
    (hHanded : w'.handed = w.handed) : Accounted codec w action w' := by
  refine ⟨?_, ?_, ?_⟩
  · rw [hSends, hPublished, Option.toList_none, List.append_nil]
  · rw [hSends, hTakes, hWaiting, Option.toList_none, List.append_nil, List.nil_append]
  · rw [hTakes, hHanded, Option.toList_none, List.filter_nil, List.append_nil]

/-- What waits are the last texts published. -/
theorem Accounted.waiting_suffix {w w' : World Evt} {action : Action Evt}
    (h : Accounted codec w action w') (hSuffix : w.waiting <:+ w.published) :
    w'.waiting <:+ w'.published := by
  obtain ⟨before, hBefore⟩ := hSuffix
  refine ⟨before ++ (w.takes codec action).toList, ?_⟩
  rw [h.published, ← hBefore, List.append_assoc, List.append_assoc, h.waiting]

/-- As many deliveries are made as texts are taken that can be parsed. -/
theorem Accounted.length_handed {w w' : World Evt} {action : Action Evt}
    (h : Accounted codec w action w') :
    w'.handed.length = w.handed.length +
      ((w.takes codec action).toList.filter (codec.CanParse ·)).length := by
  have hLength := congrArg List.length h.handed
  rwa [List.length_append, List.length_map, List.length_map] at hLength

omit [Respondable Evt] in
/-- An advance takes the next item, and hands it over if it can be parsed. -/
theorem Advanced.accounted {w w' : World Evt} (h : Advanced codec throws w w') :
    w'.published = w.published ∧ w.waiting = w.next.toList ++ w'.waiting ∧
      w'.handed.map Delivery.item =
        w.handed.map Delivery.item ++ w.next.toList.filter (codec.CanParse ·) := by
  cases h with
  | nothing hStopped =>
      have hNext : w.next = none := by
        rw [next]
        rcases hStopped with hCount | hStatus | hEmpty
        · exact if_neg fun hReady => hReady.1 hCount
        · exact if_neg fun hReady => hStatus hReady.2
        · rw [hEmpty]
          exact ite_self _
      rw [hNext]
      exact ⟨rfl, rfl, (List.append_nil _).symm⟩
  | @handed item rest queue evt hCount hIdle hFirst hParse hRest hQueue =>
      have hNext : w.next = some item := by
        rw [next, if_pos ⟨hCount, hIdle⟩, hFirst, List.head?_cons]
      have hKept : [item].filter (codec.CanParse ·) = [item] :=
        List.filter_eq_self.mpr (by simpa using ⟨evt, hParse⟩)
      rw [hNext, Option.toList_some, hKept]
      exact ⟨rfl, hFirst.trans (congrArg (item :: ·) hRest.symm), List.map_append⟩
  | @unreadable item rest queue hCount hIdle hFirst hParse hRest hQueue =>
      have hNext : w.next = some item := by
        rw [next, if_pos ⟨hCount, hIdle⟩, hFirst, List.head?_cons]
      have hLost : [item].filter (codec.CanParse ·) = [] :=
        List.filter_eq_nil_iff.mpr (by simpa using hParse)
      rw [hNext, Option.toList_some, hLost]
      exact ⟨rfl, hFirst.trans (congrArg (item :: ·) hRest.symm), (List.append_nil _).symm⟩

/-- Every step has its account. -/
theorem step_accounted (hText : codec.WritesText) {w w' : World Evt} {action : Action Evt}
    (hSound : w.Sound) (h : step codec throws w action = some w') :
    Accounted codec w action w' := by
  cases stepped_of_step hText hSound.queue h with
  | unsent hError =>
      refine .of_same ?_ ?_ rfl rfl rfl <;> simp [sends, takes, hError, Except.toOption]
  | @queued event item queue hItem hBehind hQueue =>
      have hSends : w.sends codec (.publish event) = some item := by
        simp [sends, hItem, Except.toOption]
      have hTakes : w.takes codec (.publish event) = none := by simp [takes, hBehind]
      refine ⟨?_, ?_, ?_⟩
      · rw [hSends]
        rfl
      · rw [hSends, hTakes]
        exact hQueue.symm
      · rw [hTakes]
        exact (List.append_nil _).symm
  | @sent event item queue _ hItem hAlone hQueue hItems hAdvance =>
      have hSends : w.sends codec (.publish event) = some item := by
        simp [sends, hItem, Except.toOption]
      obtain ⟨hPublished, hWaiting, hHanded⟩ := hAdvance.accounted
      rw [← takes_publish hItem hAlone hQueue] at hWaiting hHanded
      refine ⟨?_, ?_, hHanded⟩
      · rw [hPublished, hSends]
        rfl
      · rw [← hWaiting, hSends, hAlone]
        exact hQueue.symm
  | subscribed | listening | unsubscribed => exact .of_same rfl rfl rfl rfl rfl
  | acknowledged hRunning hAck hAdvance =>
      obtain ⟨hPublished, hWaiting, hHanded⟩ := hAdvance.accounted
      rw [← takes_settle hRunning hAck] at hWaiting hHanded
      refine ⟨?_, ?_, hHanded⟩
      · rw [hPublished]
        exact (List.append_nil _).symm
      · rw [← hWaiting]
        exact List.append_nil _
  | unacknowledged hRunning hAck =>
      refine .of_same rfl ?_ rfl rfl rfl
      simp [takes, hRunning, hAck]

end World

end Moirae.MemoryPublisher
