import Moirae.Core.MemoryPublisherRuns

/-! The in-memory publisher with listeners of any behaviour. One emitter calls
the closures of a delivery, in the order in which they came and all with the one
parsed message: what a listener changes in it, at once or later, everybody else
who has it sees, and a listener that throws ends the emit. -/
namespace Moirae

namespace MemoryPublisher

variable {codec : EventProcessor Evt}

/-- The workers that are subscribed, in the order in which they came. -/
def workerKeys (p : MemoryPublisher) : List Uuid :=
  (p.distributor.subscriptions.entries.filter (·.2.role = .worker)).map Prod.fst

/-- No worker is subscribed twice under one key. -/
theorem nodup_workerKeys (p : MemoryPublisher) : p.workerKeys.Nodup :=
  p.distributor.subscriptions.distinct.sublist (List.filter_sublist.map Prod.fst)

/-- The emitter has the closures of the workers under their keys. -/
theorem map_key_workers {p : MemoryPublisher} (h : p.SubscribersSound) :
    (p.distributor.listeners.filter (·.role = .worker)).map Subscriber.key = p.workerKeys := by
  rw [h.consistent, List.filter_map, List.map_map, workerKeys]
  apply List.map_congr_left
  intro entry hEntry
  exact h.keyed entry (List.mem_of_mem_filter hEntry)

/-- Without listeners there are no workers. -/
theorem workerKeys_eq_nil {p : MemoryPublisher} (h : p.distributor.listenerCount = 0) :
    p.workerKeys = [] := by
  have hEntries : p.distributor.subscriptions.entries = [] := List.eq_nil_of_length_eq_zero h
  rw [workerKeys, hEntries]
  rfl

/-- A new subscription comes last. -/
theorem entries_subscribeAs {p : MemoryPublisher} (h : p.SubscribersSound) (role : Role) :
    (p.subscribeAs role).distributor.subscriptions.entries =
      p.distributor.subscriptions.entries ++ [(p.uuids, ⟨p.uuids, role⟩)] := by
  have hFresh : p.distributor.subscriptions.get p.uuids = none := by
    rw [Option.eq_none_iff_forall_ne_some]
    intro subscriber hGet
    exact Nat.lt_irrefl _ (h.drawn _ (KeyedMap.mem_entries_iff_get.mpr hGet))
  change (p.distributor.subscriptions.set p.uuids ⟨p.uuids, role⟩).entries = _
  exact KeyedMap.entries_set_of_new hFresh _

/-- A new worker comes last. -/
theorem workerKeys_subscribe {p : MemoryPublisher} (h : p.SubscribersSound) :
    p.subscribe.workerKeys = p.workerKeys ++ [p.uuids] := by
  rw [workerKeys, subscribe, entries_subscribeAs h, List.filter_append, List.map_append]
  rfl

/-- A listener is no worker. -/
theorem workerKeys_listen {p : MemoryPublisher} (h : p.SubscribersSound) :
    p.listen.workerKeys = p.workerKeys := by
  rw [workerKeys, listen, entries_subscribeAs h, List.filter_append, List.map_append]
  exact List.append_nil _

/-- Only the subscription with this key ends. -/
theorem workerKeys_unsubscribe {p : MemoryPublisher} {key : Uuid} (h : key ∉ p.workerKeys) :
    (p.unsubscribe key).workerKeys = p.workerKeys := by
  change ((p.distributor.unsubscribe key).subscriptions.entries.filter _).map _ = _
  unfold Distributor.unsubscribe
  split
  · rfl
  · rw [workerKeys]
    congr 1
    change (p.distributor.subscriptions.entries.filter _).filter _ = _
    rw [List.filter_filter]
    apply List.filter_congr
    intro entry hEntry
    by_cases hRole : entry.2.role = .worker
    · have hNe : entry.1 ≠ key := by
        rintro rfl
        exact h (List.mem_map_of_mem (List.mem_filter.mpr ⟨hEntry, decide_eq_true hRole⟩))
      simp [hRole, hNe]
    · simp [hRole]

end MemoryPublisher

namespace Listening

variable {Evt : Type}

/-- What the functions passed to `listen` do when they are called: how the one
under this key leaves the message of the delivery, and whether it throws. -/
structure ListenerFns (Evt : Type) where
  rewrites : Nat → Uuid → Evt → Evt
  throws : Nat → Uuid → Evt → Bool

/-- What the worker functions do to the message before their first `await`, by
delivery and number of the worker. -/
abbrev WorkerFns (Evt : Type) := Nat → Nat → Evt → Evt

/-- The emitter goes through the closures with the message. The workers called
come out with the message as it was then, and last how it is left. A worker
closure is `async` and never throws. -/
def emit (workers : WorkerFns Evt) (fns : ListenerFns Evt) (delivery : Nat) :
    Nat → List Subscriber → Evt → List (Uuid × Evt) × Evt
  | _, [], evt => ([], evt)
  | number, ⟨key, .worker⟩ :: subscribers, evt =>
      let (called, left) :=
        emit workers fns delivery (number + 1) subscribers (workers delivery number evt)
      ((key, evt) :: called, left)
  | number, ⟨key, .listener⟩ :: subscribers, evt =>
      let rewritten := fns.rewrites delivery key evt
      if fns.throws delivery key evt then ([], rewritten)
      else emit workers fns delivery number subscribers rewritten

/-- The workers are called in the order in which they came, up to some point. -/
theorem emit_prefix (workers : WorkerFns Evt) (fns : ListenerFns Evt) (delivery number : Nat)
    (subscribers : List Subscriber) (evt : Evt) :
    (emit workers fns delivery number subscribers evt).1.map Prod.fst <+:
      (subscribers.filter (·.role = .worker)).map Subscriber.key := by
  induction subscribers generalizing number evt with
  | nil => exact List.prefix_rfl
  | cons subscriber subscribers ih =>
      obtain ⟨key, role⟩ := subscriber
      cases role with
      | worker => exact List.cons_prefix_cons.mpr ⟨rfl, ih _ _⟩
      | listener =>
          rw [emit]
          split
          · exact List.nil_prefix
          · exact ih _ _

/-- A call of a worker that has not settled: its number, its delivery, and the
message as it is now. -/
structure Handling (Evt : Type) where
  call : Nat
  delivery : Nat
  evt : Evt

/-- What can be seen of the workers: one was called with a message, or it
acknowledged the one it was called with. -/
inductive Seen (Worker Evt : Type)
  | called (worker : Worker) (evt : Evt)
  | acknowledged (call : Nat)
  deriving DecidableEq

/-- A publisher at work: how many deliveries and calls of workers there were,
what was seen of them, and the calls still running. -/
structure World (Evt : Type) where
  publisher : MemoryPublisher
  delivered : Nat
  calls : Nat
  log : List (Seen Uuid Evt)
  running : List (Handling Evt)

inductive Action (Evt : Type)
  | publish (event : Evt)
  | subscribe
  | listen
  | unsubscribe (key : Uuid)
  /-- Somebody who was called with the message of this delivery changes it. -/
  | rewrite (delivery : Nat) (change : Evt → Evt)
  /-- The running call at this place settles; the response is sent, if there is
  one to send, with the given result. -/
  | settle (place : Nat) (outcome : Outcome) (response : Except Thrown Unit)

namespace World

def initial (nodeId : Option String) : World Evt :=
  { publisher := .bootstrapped nodeId, delivered := 0, calls := 0, log := [], running := [] }

/-- The items in the queue, first to last. -/
def waiting (w : World Evt) : List String := w.publisher.queue.contents

section Step

variable (codec : EventProcessor Evt) (workers : WorkerFns Evt) (fns : ListenerFns Evt)

/-- What the emitter does when the message is handed over now. -/
def emitted (w : World Evt) (evt : Evt) : List (Uuid × Evt) × Evt :=
  emit workers fns w.delivered 0 w.publisher.distributor.listeners evt

/-- The message is the next delivery: the calls it leads to are running, all with
the message as the emit left it. -/
def handOver (w : World Evt) (publisher : MemoryPublisher) (evt : Evt) : World Evt :=
  let (called, left) := w.emitted workers fns evt
  { publisher
    delivered := w.delivered + 1
    calls := w.calls + called.length
    log := w.log ++ called.map fun call => .called call.1 call.2
    running := w.running ++
      (List.range' w.calls called.length).map fun call => ⟨call, w.delivered, left⟩ }

/-- Record what an advance of the bus did. -/
def record (w : World Evt) : MemoryPublisher × Advance Evt → World Evt
  | (publisher, .emitted _ evt) => w.handOver workers fns publisher evt
  | (publisher, _) => { w with publisher }

variable [Respondable Evt]

/-- The settling call comes to `acknowledgeEvent`. It reads the message then. -/
def acknowledges (w : World Evt) (place : Nat) (outcome : Outcome)
    (response : Except Thrown Unit) : Bool :=
  w.running[place]?.any fun handling =>
    BasePublisher.acknowledges handling.evt outcome response

def step (w : World Evt) : Action Evt → Option (World Evt)
  | .publish event => some (record workers fns w (w.publisher.publish codec event))
  | .subscribe => some { w with publisher := w.publisher.subscribe }
  | .listen => some { w with publisher := w.publisher.listen }
  | .unsubscribe key => some { w with publisher := w.publisher.unsubscribe key }
  | .rewrite delivery change =>
      some { w with
        running := w.running.map fun handling =>
          if handling.delivery = delivery then { handling with evt := change handling.evt }
          else handling }
  | .settle place outcome response =>
      match w.running[place]? with
      | none => none
      | some handling =>
          let settled := { w with running := w.running.eraseIdx place }
          if w.acknowledges place outcome response then
            some (record workers fns
              { settled with log := w.log ++ [.acknowledged handling.call] }
              (w.publisher.acknowledgeEvent codec))
          else some settled

end Step

/-- What is seen of the workers, who are known by their numbers. -/
def number (keys : List Uuid) : Seen Uuid Evt → Seen Nat Evt
  | .called worker evt => .called (keys.idxOf worker) evt
  | .acknowledged call => .acknowledged call

def view (w : World Evt) : List (Seen Nat Evt) := w.log.map (number w.publisher.workerKeys)

/-- The closures on the emitter are those of the subscriptions, the queue is well
linked, and only workers that are subscribed were called. -/
structure Sound (w : World Evt) : Prop where
  queue : w.publisher.QueueSound
  subscribers : w.publisher.SubscribersSound
  called : ∀ worker evt, .called worker evt ∈ w.log → worker ∈ w.publisher.workerKeys

/-- Nobody is subscribed and nothing waits. -/
theorem sound_initial (nodeId : Option String) : (initial nodeId : World Evt).Sound where
  queue := MemoryPublisher.queueSound_bootstrapped nodeId
  subscribers := MemoryPublisher.subscribersSound_bootstrapped nodeId
  called := fun _ _ hMem => absurd hMem List.not_mem_nil

section Emit

variable {codec : EventProcessor Evt} {workers : WorkerFns Evt} {fns : ListenerFns Evt}
  {w : World Evt}

/-- The message as each worker gets it that the emitter reaches. -/
def reached (workers : WorkerFns Evt) (fns : ListenerFns Evt) (w : World Evt) (evt : Evt) :
    List Evt :=
  (w.emitted workers fns evt).1.map Prod.snd

variable (workers fns) in
/-- The calls reach the workers in their order, up to the first listener that throws. -/
theorem prefix_of_emitted (h : w.publisher.SubscribersSound) (evt : Evt) :
    (w.emitted workers fns evt).1.map Prod.fst <+: w.publisher.workerKeys := by
  rw [← MemoryPublisher.map_key_workers h]
  exact emit_prefix workers fns w.delivered 0 _ evt

/-- Without workers nobody is reached. -/
theorem emitted_eq_nil (h : w.publisher.SubscribersSound) (hNone : w.publisher.workerKeys = [])
    (evt : Evt) : (w.emitted workers fns evt).1 = [] := by
  have hPrefix := prefix_of_emitted workers fns h evt
  rw [hNone, List.prefix_nil] at hPrefix
  exact List.map_eq_nil_iff.mp hPrefix

/-- Without workers no call reaches one. -/
theorem reached_eq_nil (h : w.publisher.SubscribersSound) (hNone : w.publisher.workerKeys = [])
    (evt : Evt) : w.reached workers fns evt = [] := by
  rw [reached, emitted_eq_nil h hNone]
  rfl

/-- The workers that are called are numbered from the first one on. -/
theorem map_number_called {keys : List Uuid} (hKeys : keys.Nodup) {called : List (Uuid × Evt)}
    (h : called.map Prod.fst <+: keys) :
    (called.map fun call => Seen.called call.1 call.2).map (number keys) =
      (called.map Prod.snd).zipIdx.map fun call => .called call.2 call.1 := by
  apply List.ext_getElem
  · simp
  · intro i hi hi'
    have hLength : i < called.length := by simpa using hi
    have hInside : i < (called.map Prod.fst).length := by simpa using hLength
    have hKey := h.getElem hInside
    rw [List.getElem_map] at hKey
    simp [number, hKey, hKeys.idxOf_getElem]

/-- Those that are reached see the message as it is when it is their turn. -/
theorem view_handOver (h : w.Sound) (publisher : MemoryPublisher)
    (hSame : publisher.distributor = w.publisher.distributor) (evt : Evt) :
    (w.handOver workers fns publisher evt).view =
      w.view ++ (w.reached workers fns evt).zipIdx.map fun call => .called call.2 call.1 := by
  have hKeys : publisher.workerKeys = w.publisher.workerKeys := by
    rw [MemoryPublisher.workerKeys, MemoryPublisher.workerKeys, hSame]
  have hNumbers := map_number_called (MemoryPublisher.nodup_workerKeys _)
    (prefix_of_emitted workers fns h.subscribers evt)
  change (w.log ++ _).map (number publisher.workerKeys) = _
  rw [hKeys, List.map_append]
  exact congrArg (w.view ++ ·) hNumbers

/-- The hand-over of a message keeps the invariant. -/
theorem handOver_sound (h : w.Sound) (publisher : MemoryPublisher)
    (hSame : publisher.distributor = w.publisher.distributor) (hQueue : publisher.QueueSound)
    (hUuids : publisher.uuids = w.publisher.uuids) (evt : Evt) :
    (w.handOver workers fns publisher evt).Sound where
  queue := hQueue
  subscribers := by
    obtain ⟨hConsistent, hKeyed, hDrawn⟩ := h.subscribers
    constructor
    · exact hSame ▸ hConsistent
    · exact hSame ▸ hKeyed
    · change ∀ entry ∈ publisher.distributor.subscriptions.entries, entry.1 < publisher.uuids
      rw [hSame, hUuids]
      exact hDrawn
  called := by
    have hKeys : publisher.workerKeys = w.publisher.workerKeys := by
      rw [MemoryPublisher.workerKeys, MemoryPublisher.workerKeys, hSame]
    intro worker evt' hMem
    change worker ∈ publisher.workerKeys
    rw [hKeys]
    rcases List.mem_append.mp hMem with hOld | hNew
    · exact h.called worker evt' hOld
    · obtain ⟨call, hCall, hEq⟩ := List.mem_map.mp hNew
      obtain ⟨rfl, -⟩ := Seen.called.inj hEq
      apply (prefix_of_emitted workers fns h.subscribers evt).subset
      exact List.mem_map_of_mem hCall

/-- Recording a result reads the listeners of the publisher and nothing else of
it. -/
theorem record_publisher (w : World Evt) {p : MemoryPublisher}
    (h : p.distributor = w.publisher.distributor) (result : MemoryPublisher × Advance Evt) :
    record workers fns { w with publisher := p } result = record workers fns w result := by
  obtain ⟨publisher, advance⟩ := result
  cases advance with
  | nothing => rfl
  | threw reason => rfl
  | emitted item evt => simp only [record, handOver, emitted, h]

/-- The bus of the publisher advances. -/
def advance (codec : EventProcessor Evt) (workers : WorkerFns Evt) (fns : ListenerFns Evt)
    (w : World Evt) : World Evt :=
  record workers fns w (w.publisher.advanceBus codec)

/-- The message that is handed over when the bus advances now. -/
def next (codec : EventProcessor Evt) (w : World Evt) : Option Evt :=
  if w.publisher.distributor.listenerCount ≠ 0 ∧ w.publisher.status = .IDLE then
    w.waiting.head?.bind fun item => (codec.parseEvent item).toOption
  else none

/-- Nothing is handed over. -/
theorem next_of_stopped (h : w.publisher.distributor.listenerCount = 0 ∨
    w.publisher.status ≠ .IDLE ∨ w.publisher.queue.contents = []) : w.next codec = none := by
  rcases h with hNone | hBusy | hEmpty
  · simp [next, hNone]
  · simp [next, hBusy]
  · simp [next, waiting, hEmpty]

/-- The first text that waits is handed over. -/
theorem next_of_ready {item : String} {rest : List String} {evt : Evt}
    (hCount : w.publisher.distributor.listenerCount ≠ 0) (hIdle : w.publisher.status = .IDLE)
    (hNext : w.publisher.queue.contents = item :: rest)
    (hParse : codec.parseEvent item = .ok evt) : w.next codec = some evt := by
  simp [next, waiting, hCount, hIdle, hNext, hParse, Except.toOption]

/-- A text that cannot be parsed is not handed over. -/
theorem next_of_unreadable {item : String} {rest : List String} {reason : Thrown}
    (hNext : w.publisher.queue.contents = item :: rest)
    (hParse : codec.parseEvent item = .error reason) : w.next codec = none := by
  simp [next, waiting, hNext, hParse, Except.toOption]

/-- The bus does not advance while it is active or has nothing. -/
theorem advance_of_stopped (h : w.Sound)
    (hStopped : w.publisher.status ≠ .IDLE ∨ w.waiting = []) :
    w.advance codec workers fns = w := by
  have hAdvances : MemoryPublisher.Advances codec w.publisher _ :=
    MemoryPublisher.advances_advanceBus h.queue
  rw [advance]
  generalize w.publisher.advanceBus codec = result at hAdvances ⊢
  cases hAdvances with
  | nothing => rfl
  | emitted hCount hIdle hNext | threw hCount hIdle hNext =>
      rcases hStopped with hBusy | hEmpty
      · exact absurd hIdle hBusy
      · exact absurd (hEmpty.symm.trans hNext) (List.cons_ne_nil _ _).symm

/-- A bus that can advance takes the first item, and hands it over if it can be
parsed. -/
theorem advance_of_ready (codec : EventProcessor Evt) (workers : WorkerFns Evt)
    (fns : ListenerFns Evt) (h : w.Sound) {item : String} {rest : List String}
    (hCount : w.publisher.distributor.listenerCount ≠ 0) (hIdle : w.publisher.status = .IDLE)
    (hNext : w.waiting = item :: rest) :
    ∃ queue, queue.contents = rest ∧ (w.publisher.took queue).QueueSound ∧
      (∀ evt, codec.parseEvent item = .ok evt → w.advance codec workers fns =
        w.handOver workers fns (w.publisher.took queue) evt) ∧
      ∀ reason, codec.parseEvent item = .error reason → w.advance codec workers fns =
        { w with publisher := w.publisher.took queue } := by
  have hAdvances : MemoryPublisher.Advances codec w.publisher _ :=
    MemoryPublisher.advances_advanceBus h.queue
  rw [advance]
  generalize w.publisher.advanceBus codec = result at hAdvances ⊢
  cases hAdvances with
  | nothing hStopped =>
      rcases hStopped with hNone | hBusy | hEmpty
      · exact absurd hNone hCount
      · exact absurd hIdle hBusy
      · exact absurd (hEmpty.symm.trans hNext) (List.cons_ne_nil _ _).symm
  | @emitted own rest' queue evt _ _ hOwn hParse hRest hQueue =>
      obtain ⟨rfl, rfl⟩ := List.cons.inj (hOwn.symm.trans hNext)
      refine ⟨queue, hRest, hQueue, fun evt' hEvt => ?_, fun reason hReason => ?_⟩
      · obtain rfl := Except.ok.inj (hParse.symm.trans hEvt)
        rfl
      · rw [hParse] at hReason
        cases hReason
  | @threw own rest' queue reason _ _ hOwn hParse hRest hQueue =>
      obtain ⟨rfl, rfl⟩ := List.cons.inj (hOwn.symm.trans hNext)
      refine ⟨queue, hRest, hQueue, fun evt hEvt => ?_, fun reason' hReason => rfl⟩
      rw [hParse] at hEvt
      cases hEvt

/-- The item was put into the queue. -/
def enqueued (w : World Evt) (queue : Queue String) : World Evt :=
  { w with publisher := { w.publisher with queue, uuids := w.publisher.uuids + 1 } }

/-- A text joins the queue. -/
theorem Sound.enqueued (h : w.Sound) {queue : Queue String}
    (hQueue : (w.enqueued queue).publisher.QueueSound) : (w.enqueued queue).Sound where
  queue := hQueue
  subscribers := ⟨h.subscribers.consistent, h.subscribers.keyed,
    fun entry hEntry => Nat.lt_succ_of_lt (h.subscribers.drawn entry hEntry)⟩
  called := h.called

/-- The call at this place is over and acknowledged. -/
def released (w : World Evt) (place : Nat) (handling : Handling Evt) : World Evt :=
  { w with
    publisher := { w.publisher with status := .IDLE }
    running := w.running.eraseIdx place
    log := w.log ++ [.acknowledged handling.call] }

/-- A delivery ends. -/
theorem Sound.released (h : w.Sound) (place : Nat) (handling : Handling Evt) :
    (w.released place handling).Sound where
  queue := h.queue
  subscribers := ⟨h.subscribers.consistent, h.subscribers.keyed, h.subscribers.drawn⟩
  called := by
    intro worker evt hMem
    rcases List.mem_append.mp hMem with hOld | hNew
    · exact h.called worker evt hOld
    · cases List.mem_singleton.mp hNew

variable [Respondable Evt]

/-- Publishing puts the text into the queue, and the bus advances if it is alone
there. -/
theorem step_publish (workers : WorkerFns Evt) (fns : ListenerFns Evt) (hText : codec.WritesText)
    (h : w.Sound) {event : Evt} {item : String}
    (hItem : w.publisher.serialized codec event = .ok item) :
    ∃ queue, queue.contents = w.waiting ++ [item] ∧ (w.enqueued queue).Sound ∧
      step codec workers fns w (.publish event) = some
        (if w.waiting = [] then (w.enqueued queue).advance codec workers fns
        else w.enqueued queue) := by
  obtain ⟨queue, hContents, hQueue, hPublish⟩ :=
    MemoryPublisher.handlePublish_eq codec h.queue (hText _ _ hItem)
  refine ⟨queue, hContents, h.enqueued hQueue, ?_⟩
  simp only [step, MemoryPublisher.publish, hItem, hPublish]
  congr 1
  by_cases hAlone : w.publisher.queue.contents = []
  · have hWaiting : w.waiting = [] := hAlone
    rw [if_pos hAlone, if_pos hWaiting]
    exact (record_publisher (p := (w.enqueued queue).publisher) w rfl _).symm
  · have hWaiting : w.waiting ≠ [] := hAlone
    rw [if_neg hAlone, if_neg hWaiting]
    rfl

/-- What cannot be written is not published. -/
theorem step_publish_error {event : Evt} {reason : Thrown}
    (hItem : w.publisher.serialized codec event = .error reason) :
    step codec workers fns w (.publish event) = some w := by
  simp only [step, MemoryPublisher.publish, hItem]
  rfl

/-- A call that settles releases its message, or is over without a trace. -/
theorem step_settle {place : Nat} {handling : Handling Evt} {outcome : Outcome}
    {response : Except Thrown Unit} (hRunning : w.running[place]? = some handling) :
    step codec workers fns w (.settle place outcome response) = some
      (if w.acknowledges place outcome response then
        (w.released place handling).advance codec workers fns
      else { w with running := w.running.eraseIdx place }) := by
  simp only [step, hRunning]
  by_cases hAck : w.acknowledges place outcome response = true
  · rw [if_pos hAck, if_pos hAck]
    exact congrArg some (record_publisher
      { w with
        running := w.running.eraseIdx place
        log := w.log ++ [.acknowledged handling.call] }
      (p := { w.publisher with status := .IDLE }) rfl _).symm
  · rw [if_neg hAck, if_neg hAck]

/-- The message that the step hands over. -/
def handsOver (codec : EventProcessor Evt) (w : World Evt) : Action Evt → Option Evt
  | .publish event =>
      if w.publisher.distributor.listenerCount ≠ 0 ∧ w.publisher.status = .IDLE ∧
          w.waiting = [] then
        (w.publisher.serialized codec event).toOption.bind fun item =>
          (codec.parseEvent item).toOption
      else none
  | .settle place outcome response =>
      if w.publisher.distributor.listenerCount ≠ 0 ∧
          w.acknowledges place outcome response = true then
        w.waiting.head?.bind fun item => (codec.parseEvent item).toOption
      else none
  | _ => none

/-- A message that finds the queue empty is handed over at once. -/
theorem handsOver_publish {event : Evt} {item : String} {queue : Queue String}
    (hItem : w.publisher.serialized codec event = .ok item) (hAlone : w.waiting = [])
    (hQueue : queue.contents = [item]) :
    w.handsOver codec (.publish event) = (w.enqueued queue).next codec := by
  have hWaiting : (w.enqueued queue).waiting = [item] := hQueue
  rw [handsOver, next, hWaiting, hItem]
  simp only [hAlone, and_true]
  rfl

/-- An acknowledgement hands the next message over. -/
theorem handsOver_settle (handling : Handling Evt) {place : Nat} {outcome : Outcome}
    {response : Except Thrown Unit} (hAck : w.acknowledges place outcome response = true) :
    w.handsOver codec (.settle place outcome response) =
      (w.released place handling).next codec := by
  simp [handsOver, next, hAck, released, waiting]

end Emit

end World

end Listening

end Moirae
