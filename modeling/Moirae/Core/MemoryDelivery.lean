import Moirae.Core.MemoryPublisherRuns
import Moirae.Core.Message

/-! What a bootstrapped in-memory publisher delivers: in which order, how many
messages at a time, and when a waiting message is left behind. -/
namespace Moirae.MemoryPublisher.World

variable {Evt : Type} {codec : EventProcessor Evt} {throws : Nat → Uuid → Bool}

/-- The messages that workers were called with, in order. -/
def handedToWorkers (w : World Evt) : List String :=
  w.handed.flatMap fun delivery => delivery.workers.map fun _ => delivery.item

/-- The places of the deliveries that no worker has acknowledged. -/
def unacknowledged (w : World Evt) : List Nat :=
  (List.range w.handed.length).filter (· ∉ w.acknowledged)

def WorkerSubscribed (w : World Evt) : Prop :=
  ∃ entry ∈ w.publisher.distributor.subscriptions.entries, entry.2.role = .worker

instance (w : World Evt) : Decidable w.WorkerSubscribed :=
  inferInstanceAs
    (Decidable (∃ entry ∈ w.publisher.distributor.subscriptions.entries, entry.2.role = .worker))

def OnlyWorkers (p : MemoryPublisher) : Prop :=
  ∀ entry ∈ p.distributor.subscriptions.entries, entry.2.role = .worker

/-- A worker comes. -/
theorem onlyWorkers_subscribe {p : MemoryPublisher} (h : OnlyWorkers p) :
    OnlyWorkers p.subscribe := by
  rintro ⟨key, subscriber⟩ hMem
  have hSet := (KeyedMap.mem_set_entries _ _ _ _ _).mp hMem
  split at hSet
  · rw [hSet]
  · exact h _ hSet

/-- A worker goes. -/
theorem onlyWorkers_unsubscribe {p : MemoryPublisher} (h : OnlyWorkers p) (key : Uuid) :
    OnlyWorkers (p.unsubscribe key) := fun entry hMem =>
  h entry (unsubscribe_entries_subset p key hMem)

/-- A worker that has come is subscribed. -/
theorem workerSubscribed_subscribe (w : World Evt) :
    WorkerSubscribed { w with publisher := w.publisher.subscribe } := by
  refine ⟨(w.publisher.uuids, ⟨w.publisher.uuids, .worker⟩), ?_, rfl⟩
  refine (KeyedMap.mem_set_entries _ _ _ _ _).mpr ?_
  rw [if_pos rfl]

/-- Without listeners no worker is subscribed. -/
theorem not_workerSubscribed {w : World Evt}
    (h : w.publisher.distributor.listenerCount = 0) : ¬w.WorkerSubscribed := by
  rintro ⟨entry, hMem, -⟩
  have hNil : w.publisher.distributor.subscriptions.entries = [] :=
    List.eq_nil_of_length_eq_zero h
  rw [hNil] at hMem
  exact absurd hMem List.not_mem_nil

/-- With workers only, every live subscription is called. -/
theorem startedWorkers_of_onlyWorkers {w : World Evt} (hSubs : w.publisher.SubscribersSound)
    (hWorkers : OnlyWorkers w.publisher) :
    w.startedWorkers throws = w.publisher.distributor.subscriptions.entries.map Prod.fst := by
  have hRole : ∀ subscriber ∈ w.publisher.distributor.listeners, subscriber.role = .worker := by
    intro subscriber hMem
    rw [hSubs.consistent] at hMem
    obtain ⟨entry, hEntry, rfl⟩ := List.mem_map.mp hMem
    exact hWorkers entry hEntry
  rw [startedWorkers, Distributor.publish, Distributor.emitted_eq_self]
  · rw [List.filter_eq_self.mpr (fun subscriber hMem => decide_eq_true (hRole subscriber hMem)),
      hSubs.consistent, List.map_map]
    exact List.map_congr_left hSubs.keyed
  · intro subscriber hMem
    simp [hRole subscriber hMem]

/-- All that was handed over is acknowledged. -/
theorem unacknowledged_eq_nil_iff {w : World Evt} :
    w.unacknowledged = [] ↔ ∀ place < w.handed.length, place ∈ w.acknowledged := by
  simp [unacknowledged, List.filter_eq_nil_iff]

/-! ## One worker at a time -/

/-- The phases of a publisher with one worker. It is active while a delivery is
in flight, and stays so for good when that invocation never acknowledges. -/
inductive InFlight (w : World Evt) : Prop
  | rest (hIdle : w.publisher.status = .IDLE) (hNone : w.running = [])
      (hAll : ∀ place < w.handed.length, place ∈ w.acknowledged)
  | busy (last : Nat) (hActive : w.publisher.status = .ACTIVE)
      (hLength : w.handed.length = last + 1)
      (hBefore : ∀ place < last, place ∈ w.acknowledged)
      (hRunning : ∀ handling ∈ w.running, handling.delivery = last)
      (hSingle : w.running.length ≤ 1)

/-- The invariant of runs with at most one worker. -/
structure OneAtATime (w : World Evt) : Prop where
  sound : w.Sound
  workers : OnlyWorkers w.publisher
  atMostOne : w.publisher.distributor.listenerCount ≤ 1
  fifo : w.handedToWorkers ++ w.waiting = w.published
  inFlight : w.InFlight

/-- One delivery at most is in flight. -/
theorem InFlight.unacknowledged_length {w : World Evt} (h : w.InFlight) :
    w.unacknowledged.length ≤ 1 := by
  cases h with
  | rest hIdle hNone hAll =>
      rw [unacknowledged_eq_nil_iff.mpr hAll]
      exact Nat.zero_le _
  | busy last hActive hLength hBefore hRunning hSingle =>
      have hFront : (List.range last).filter (· ∉ w.acknowledged) = [] := by
        refine List.filter_eq_nil_iff.mpr (fun place hPlace => ?_)
        simpa using hBefore place (List.mem_range.mp hPlace)
      rw [unacknowledged, hLength, List.range_succ, List.filter_append, hFront, List.nil_append]
      exact List.length_filter_le _ _

/-- The phase is about the status, the deliveries and the invocations only. -/
theorem InFlight.congr {w w' : World Evt} (h : w.InFlight)
    (hStatus : w'.publisher.status = w.publisher.status) (hHanded : w'.handed = w.handed)
    (hAcknowledged : w'.acknowledged = w.acknowledged) (hRunning : w'.running = w.running) :
    w'.InFlight := by
  cases h with
  | rest hIdle hNone hAll =>
      refine .rest (hStatus.trans hIdle) (hRunning.trans hNone) ?_
      rw [hHanded, hAcknowledged]
      exact hAll
  | busy last hActive hLength hBefore hDelivery hSingle =>
      refine .busy last (hStatus.trans hActive) ?_ ?_ ?_ ?_
      · rw [hHanded]
        exact hLength
      · rw [hAcknowledged]
        exact hBefore
      · rw [hRunning]
        exact hDelivery
      · rw [hRunning]
        exact hSingle

/-- Nothing is lost, duplicated or reordered, and at most one delivery is
unacknowledged. -/
def InOrder (w : World Evt) : Prop :=
  w.handedToWorkers ++ w.waiting = w.published ∧ w.unacknowledged.length ≤ 1

/-- One delivery at a time is one in order. -/
theorem OneAtATime.inOrder {w : World Evt} (h : w.OneAtATime) : w.InOrder :=
  ⟨h.fifo, h.inFlight.unacknowledged_length⟩

/-- Handing the next item over keeps the order and starts one invocation. -/
theorem Advanced.oneAtATime {w w' : World Evt} (h : Advanced codec throws w w')
    (hRead : w.NextReadable codec) (hInv : w.OneAtATime) : w'.OneAtATime := by
  have hSound := h.sound hInv.sound
  cases h with
  | nothing => exact hInv
  | @handed item rest queue evt hCount hIdle hNext hParse hRest hQueue =>
      have hOne : w.publisher.distributor.subscriptions.entries.length = 1 := by
        have hLe := hInv.atMostOne
        rw [Distributor.listenerCount, KeyedMap.size] at hLe hCount
        omega
      obtain ⟨entry, hEntry⟩ := List.length_eq_one_iff.mp hOne
      have hStarted : w.startedWorkers throws = [entry.1] := by
        rw [startedWorkers_of_onlyWorkers hInv.sound.subscribers hInv.workers, hEntry]
        rfl
      refine ⟨hSound, hInv.workers, hInv.atMostOne, ?_, ?_⟩
      · have hOrder := hInv.fifo
        rw [hNext] at hOrder
        have hHanded : (w.handOver throws queue item evt).handedToWorkers =
            w.handedToWorkers ++ [item] := by
          simp [handedToWorkers, handOver, hStarted]
        have hWaiting : (w.handOver throws queue item evt).waiting = rest := hRest
        rw [hHanded, hWaiting, List.append_assoc]
        exact hOrder
      · cases hInv.inFlight with
        | busy last hActive => exact absurd (hIdle.symm.trans hActive) (by decide)
        | rest _ hNone hAll =>
            refine .busy w.handed.length rfl ?_ hAll ?_ ?_
            · exact List.length_append
            · intro handling hMem
              have hOnly : handling = ⟨w.handed.length, entry.1, evt⟩ := by
                simpa [handOver, hNone, hStarted] using hMem
              rw [hOnly]
            · simp [handOver, hNone, hStarted]
  | unreadable hCount hIdle hNext hParse =>
      exact absurd (hRead.canParse hCount hIdle hNext) hParse

/-- An item that cannot be parsed is lost, and nothing else is. -/
theorem Advanced.inOrder_iff {w w' : World Evt} (h : Advanced codec throws w w')
    (hInv : w.OneAtATime) : w'.InOrder ↔ w.NextReadable codec := by
  constructor
  · intro hOrder hCount hIdle item hItem
    cases h with
    | nothing hStopped =>
        rcases hStopped with hNone | hStatus | hEmpty
        · exact absurd hNone hCount
        · exact absurd hIdle hStatus
        · rw [hEmpty] at hItem
          cases hItem
    | handed _ _ hNext hParse =>
        rw [hNext] at hItem
        obtain rfl := Option.some.inj hItem
        exact ⟨_, hParse⟩
    | @unreadable _ rest queue _ _ hNext hParse hRest =>
        have hBefore : w.handedToWorkers ++ w.waiting = w.published := hInv.fifo
        have hAfter : w.handedToWorkers ++ queue.contents = w.published := hOrder.1
        have hSame := List.append_cancel_left (hBefore.trans hAfter.symm)
        rw [hNext, hRest] at hSame
        exact absurd hSame (List.cons_ne_self _ _)
  · exact fun hRead => (h.oneAtATime hRead hInv).inOrder

variable [Respondable Evt]

/-- At most one worker at a time: a worker subscribes only when nobody else is
subscribed, and there are no listeners. -/
def OneWorker (w : World Evt) : Action Evt → Prop
  | .subscribe => w.publisher.distributor.listenerCount = 0
  | .listen => False
  | _ => True

omit [Respondable Evt] in
/-- Nothing was handed over. -/
theorem oneAtATime_initial (nodeId : Option String) :
    (initial nodeId : World Evt).OneAtATime :=
  { sound := sound_initial nodeId
    workers := List.forall_mem_nil _
    atMostOne := Nat.zero_le 1
    fifo := rfl
    inFlight := .rest rfl rfl (fun _ hPlace => absurd hPlace (Nat.not_lt_zero _)) }

omit [Respondable Evt] in
/-- A new item at the end of the queue keeps the order; `InFlight` does not look
at the queue. -/
theorem OneAtATime.enqueued {w : World Evt} (h : w.OneAtATime) {queue : Queue String}
    {item : String} (hQueue : queue.contents = w.waiting ++ [item])
    (hItems : QueueSound (w.enqueued queue item).publisher) :
    (w.enqueued queue item).OneAtATime := by
  refine ⟨⟨hItems, subscribersSound_enqueued h.sound.subscribers _ _⟩, h.workers, h.atMostOne,
    ?_, h.inFlight.congr rfl rfl rfl rfl⟩
  change w.handedToWorkers ++ queue.contents = w.published ++ [item]
  rw [hQueue, ← h.fifo, List.append_assoc]

omit [Respondable Evt] in
/-- The one invocation in flight ends, acknowledged. -/
theorem OneAtATime.released {w : World Evt} (h : w.OneAtATime) {place : Nat}
    {handling : Handling Evt} (hRunning : w.running[place]? = some handling) :
    (w.released place handling).OneAtATime := by
  have hMem := List.mem_of_getElem? hRunning
  have hSubs := h.sound.subscribers
  refine ⟨⟨h.sound.queue, hSubs.consistent, hSubs.keyed, hSubs.drawn⟩, h.workers, h.atMostOne,
    h.fifo, ?_⟩
  cases h.inFlight with
  | rest hIdle hNone hAll =>
      rw [hNone] at hMem
      exact absurd hMem List.not_mem_nil
  | busy last hActive hLength hBefore hDelivery hSingle =>
      refine .rest rfl ?_ ?_
      · obtain ⟨hLt, -⟩ := List.getElem?_eq_some_iff.mp hRunning
        refine List.eq_nil_of_length_eq_zero ?_
        change (w.running.eraseIdx place).length = 0
        rw [List.length_eraseIdx_of_lt hLt]
        omega
      · intro other hOther
        have hCases : other < last ∨ other = last := by
          have hLt : other < w.handed.length := hOther
          omega
        refine List.mem_append.mpr ?_
        rcases hCases with hLt | rfl
        · exact Or.inl (hBefore other hLt)
        · exact Or.inr (by rw [hDelivery handling hMem]; exact List.mem_singleton_self _)

/-- Every step with at most one worker that takes no unreadable item keeps the
invariant. -/
theorem step_oneAtATime (hText : codec.WritesText) {w w' : World Evt} {action : Action Evt}
    (hInv : w.OneAtATime) (hOne : OneWorker w action) (hRead : TakesReadable codec w action)
    (h : step codec throws w action = some w') : w'.OneAtATime := by
  have hSound := step_sound hText hInv.sound h
  cases stepped_of_step hText hInv.sound.queue h with
  | unsent => exact hInv
  | queued hItem hBehind hQueue hItems => exact hInv.enqueued hQueue hItems
  | sent hItem hAlone hQueue hItems hAdvance =>
      apply hAdvance.oneAtATime ((takesReadable_publish_iff hItem hAlone hQueue).mp hRead)
      apply hInv.enqueued _ hItems
      rw [hQueue, hAlone, List.nil_append]
  | subscribed =>
      refine ⟨hSound, onlyWorkers_subscribe hInv.workers, ?_, hInv.fifo,
        hInv.inFlight.congr rfl rfl rfl rfl⟩
      have hSize : w.publisher.distributor.subscriptions.size = 0 := hOne
      change (w.publisher.distributor.subscriptions.set _ _).size ≤ 1
      rw [KeyedMap.size_set]
      split <;> omega
  | listening => exact False.elim hOne
  | unsubscribed key =>
      have hCount : (w.publisher.unsubscribe key).distributor.listenerCount ≤ 1 :=
        Nat.le_trans (unsubscribe_count_le w.publisher key) hInv.atMostOne
      exact ⟨hSound, onlyWorkers_unsubscribe hInv.workers key, hCount, hInv.fifo,
        hInv.inFlight.congr rfl rfl rfl rfl⟩
  | acknowledged hRunning hAck hAdvance =>
      apply hAdvance.oneAtATime ((takesReadable_settle_iff hRunning hAck).mp hRead)
      exact hInv.released hRunning
  | @unacknowledged place handling outcome response hRunning hAck =>
      refine ⟨hSound, hInv.workers, hInv.atMostOne, hInv.fifo, ?_⟩
      cases hInv.inFlight with
      | rest hIdle hNone hAll =>
          rw [hNone] at hRunning
          simp at hRunning
      | busy last hActive hLength hBefore hDelivery hSingle =>
          refine .busy last hActive hLength hBefore ?_ ?_
          · exact fun other hOther => hDelivery other (List.eraseIdx_subset hOther)
          · exact Nat.le_trans (List.length_eraseIdx_le _ _) hSingle

/-- Taking an item that cannot be parsed is the one way to lose a message. -/
theorem step_inOrder_iff (hText : codec.WritesText) {w w' : World Evt} {action : Action Evt}
    (hInv : w.OneAtATime) (hOne : OneWorker w action)
    (h : step codec throws w action = some w') :
    w'.InOrder ↔ TakesReadable codec w action := by
  constructor
  · intro hOrder
    cases stepped_of_step hText hInv.sound.queue h with
    | unsent hError =>
        intro item hItem
        simp [takes, hError, Except.toOption] at hItem
    | queued hItem hBehind =>
        intro item hTaken
        simp [takes, hBehind] at hTaken
    | sent hItem hAlone hQueue hItems hAdvance =>
        refine (takesReadable_publish_iff hItem hAlone hQueue).mpr ?_
        refine (hAdvance.inOrder_iff (hInv.enqueued ?_ hItems)).mp hOrder
        rw [hQueue, hAlone, List.nil_append]
    | acknowledged hRunning hAck hAdvance =>
        refine (takesReadable_settle_iff hRunning hAck).mpr ?_
        exact (hAdvance.inOrder_iff (hInv.released hRunning)).mp hOrder
    | unacknowledged hRunning hAck =>
        intro item hTaken
        simp [takes, hRunning, hAck] at hTaken
    | subscribed | listening | unsubscribed =>
        intro item hTaken
        cases hTaken
  · exact fun hRead => (step_oneAtATime hText hInv hOne hRead h).inOrder

/-- In a run with at most one worker at a time, whatever the workers and the
publishing code do, messages are handed over in the order published, once each
and one at a time, exactly if every item taken from the queue can be parsed: the
item is taken before it is parsed, and nobody gets it when that throws. -/
theorem inOrder_iff_takesReadable (hText : codec.WritesText) (throws : Nat → Uuid → Bool)
    (nodeId : Option String) (as : List (Action Evt))
    (hRun : Runs.StepsMeet (step codec throws) OneWorker (initial nodeId) as) :
    Runs.Always (step codec throws) InOrder (initial nodeId) as ↔
      Runs.StepsMeet (step codec throws) (TakesReadable codec) (initial nodeId) as := by
  apply Runs.always_iff_stepsMeet_given OneAtATime _ _ (oneAtATime_initial nodeId)
    (oneAtATime_initial nodeId).inOrder hRun
  · intro w action w' hOne hInv _ hStep hOrder
    exact step_oneAtATime hText hInv hOne ((step_inOrder_iff hText hInv hOne hStep).mp hOrder) hStep
  · intro w action w' hOne hInv _ hStep
    exact step_inOrder_iff hText hInv hOne hStep

instance (w : World Evt) (action : Action Evt) : Decidable (OneWorker w action) := by
  cases action <;> unfold OneWorker <;> infer_instance

instance (w : World Evt) : Decidable w.InOrder := inferInstanceAs (Decidable (_ ∧ _))

/-- No subscriber's closure throws. -/
def noneThrow : Nat → Uuid → Bool := fun _ _ => false

/-- A worker publishes while its message is in flight, is replaced, and the
message is acknowledged; the next worker fails. -/
theorem inOrder_iff_takesReadable_replaced_worker :
    Runs.Always (step sampleCodec noneThrow) InOrder (initial none)
        [.subscribe, .publish helloSaid, .publish worldSaid, .unsubscribe 0, .subscribe,
          .settle 0 .resolved (.ok ()), .settle 0 (.rejected (.value "failed")) (.ok ())] ↔
      Runs.StepsMeet (step sampleCodec noneThrow) (TakesReadable sampleCodec) (initial none)
        [.subscribe, .publish helloSaid, .publish worldSaid, .unsubscribe 0, .subscribe,
          .settle 0 .resolved (.ok ()), .settle 0 (.rejected (.value "failed")) (.ok ())] :=
  inOrder_iff_takesReadable sampleCodec_writesText noneThrow none _ (by decide)

/-- A message whose constructor throws without arguments is lost. -/
theorem unreadable_message_lost :
    brittleCodec.WritesText ∧
      Runs.StepsMeet (step brittleCodec noneThrow) OneWorker (initial none)
        [.subscribe, .publish helloSaid] ∧
      ¬Runs.Always (step brittleCodec noneThrow) InOrder (initial none)
        [.subscribe, .publish helloSaid] :=
  ⟨brittleCodec_writesText, by decide, by decide⟩

/-! ## Messages left waiting -/

/-- With a worker subscribed and every delivery acknowledged, nothing waits. -/
def NoneStranded (w : World Evt) : Prop :=
  w.WorkerSubscribed → w.unacknowledged = [] → w.waiting = []

omit [Respondable Evt] in
instance (w : World Evt) : Decidable w.NoneStranded :=
  inferInstanceAs (Decidable (w.WorkerSubscribed → w.unacknowledged = [] → w.waiting = []))

/-- Publishing, workers coming and going, and workers that succeed. -/
def Succeeding : Action Evt → Prop
  | .listen => False
  | .settle _ outcome response => outcome = .resolved ∧ response = .ok ()
  | _ => True

/-- A worker that succeeds acknowledges. -/
theorem acknowledges_of_succeeding {place : Nat} {evt : Evt} {outcome : Outcome}
    {response : Except Thrown Unit}
    (h : Succeeding (.settle place outcome response : Action Evt)) :
    BasePublisher.acknowledges evt outcome response = true := by
  obtain ⟨rfl, rfl⟩ := h
  exact BasePublisher.acknowledges_iff.mpr ⟨rfl, fun _ => rfl⟩

/-- Nothing waits when a worker subscribes, or something else is there to move
it: another worker, or a delivery still to be acknowledged. -/
def SubscribesInTime (w : World Evt) : Action Evt → Prop
  | .subscribe => w.WorkerSubscribed ∨ w.unacknowledged ≠ [] ∨ w.waiting = []
  | _ => True

/-- The invariant of runs in which every worker succeeds: while the publisher is
active, its last delivery is not acknowledged yet. -/
structure Flowing (w : World Evt) : Prop where
  sound : w.Sound
  workers : OnlyWorkers w.publisher
  acknowledged_lt : ∀ place ∈ w.acknowledged, place < w.handed.length
  running_lt : ∀ handling ∈ w.running, handling.delivery < w.handed.length
  status : w.publisher.status = .IDLE ∨
    ∃ last, w.handed.length = last + 1 ∧ last ∉ w.acknowledged

omit [Respondable Evt] in
/-- Nothing waits. -/
theorem flowing_initial (nodeId : Option String) : (initial nodeId : World Evt).Flowing :=
  { sound := sound_initial nodeId
    workers := List.forall_mem_nil _
    acknowledged_lt := List.forall_mem_nil _
    running_lt := List.forall_mem_nil _
    status := Or.inl rfl }

omit [Respondable Evt] in
/-- The last delivery is in flight. -/
theorem unacknowledged_ne_nil {w : World Evt} {last : Nat} (hLength : w.handed.length = last + 1)
    (hNot : last ∉ w.acknowledged) : w.unacknowledged ≠ [] := fun hNil =>
  hNot (unacknowledged_eq_nil_iff.mp hNil last (by omega))

omit [Respondable Evt] in
/-- An advance keeps the bus flowing when the next text can be parsed. -/
theorem Advanced.flowing {w w' : World Evt} (h : Advanced codec throws w w')
    (hRead : w.NextReadable codec) (hInv : w.Flowing) : w'.Flowing := by
  have hSound := h.sound hInv.sound
  cases h with
  | nothing => exact hInv
  | @handed item rest queue evt hCount hIdle hNext hParse hRest hQueue =>
      have hLength : (w.handOver throws queue item evt).handed.length = w.handed.length + 1 :=
        List.length_append
      refine ⟨hSound, hInv.workers, ?_, ?_, Or.inr ⟨w.handed.length, hLength, ?_⟩⟩
      · intro place hPlace
        rw [hLength]
        exact Nat.lt_succ_of_lt (hInv.acknowledged_lt place hPlace)
      · intro handling hMem
        rw [hLength]
        rcases List.mem_append.mp hMem with hOld | hNew
        · exact Nat.lt_succ_of_lt (hInv.running_lt handling hOld)
        · obtain ⟨worker, -, rfl⟩ := List.mem_map.mp hNew
          exact Nat.lt_succ_self _
      · exact fun hMem => Nat.lt_irrefl _ (hInv.acknowledged_lt _ hMem)
  | unreadable hCount hIdle hNext hParse =>
      exact absurd (hRead.canParse hCount hIdle hNext) hParse

omit [Respondable Evt] in
/-- The bus stops only with nothing waiting, nobody subscribed, or a delivery
that is still to be acknowledged. -/
theorem Advanced.noneStranded {w w' : World Evt} (h : Advanced codec throws w w')
    (hRead : w.NextReadable codec) (hInv : w.Flowing) : w'.NoneStranded := by
  have hFlowing := h.flowing hRead hInv
  cases h with
  | nothing hStopped =>
      intro hWorker hAll
      rcases hStopped with hCount | hStatus | hEmpty
      · exact absurd hWorker (not_workerSubscribed hCount)
      · obtain ⟨last, hLength, hNot⟩ := hInv.status.resolve_left hStatus
        exact absurd hAll (unacknowledged_ne_nil hLength hNot)
      · exact hEmpty
  | unreadable hCount hIdle hNext hParse =>
      exact absurd (hRead.canParse hCount hIdle hNext) hParse
  | handed =>
      intro hWorker hAll
      have hBusy := hFlowing.status.resolve_left (fun hIdle : ESState.ACTIVE = .IDLE =>
        absurd hIdle (by decide))
      obtain ⟨last, hLength, hNot⟩ := hBusy
      exact absurd hAll (unacknowledged_ne_nil hLength hNot)

omit [Respondable Evt] in
/-- A text joins the queue. -/
theorem Flowing.enqueued {w : World Evt} (h : w.Flowing) {queue : Queue String}
    {item : String} (hItems : QueueSound (w.enqueued queue item).publisher) :
    (w.enqueued queue item).Flowing :=
  ⟨⟨hItems, subscribersSound_enqueued h.sound.subscribers _ _⟩, h.workers, h.acknowledged_lt,
    h.running_lt, h.status⟩

omit [Respondable Evt] in
/-- A delivery is acknowledged. -/
theorem Flowing.released {w : World Evt} (h : w.Flowing) {place : Nat}
    {handling : Handling Evt} (hRunning : w.running[place]? = some handling) :
    (w.released place handling).Flowing := by
  have hSubs := h.sound.subscribers
  refine ⟨⟨h.sound.queue, hSubs.consistent, hSubs.keyed, hSubs.drawn⟩, h.workers, ?_, ?_,
    Or.inl rfl⟩
  · intro other hOther
    rcases List.mem_append.mp hOther with hOld | hNew
    · exact h.acknowledged_lt other hOld
    · rw [List.mem_singleton.mp hNew]
      exact h.running_lt handling (List.mem_of_getElem? hRunning)
  · exact fun other hOther => h.running_lt other (List.eraseIdx_subset hOther)

omit [Respondable Evt] in
/-- A change of the subscriptions alone keeps the invariant. -/
theorem Flowing.resubscribed {w : World Evt} (h : w.Flowing) {p : MemoryPublisher}
    (hSound : Sound { w with publisher := p }) (hWorkers : OnlyWorkers p)
    (hStatus : p.status = w.publisher.status) : Flowing { w with publisher := p } :=
  ⟨hSound, hWorkers, h.acknowledged_lt, h.running_lt, hStatus ▸ h.status⟩

/-- The bus flows on as long as handlers succeed and texts can be parsed. -/
theorem step_flowing (hText : codec.WritesText) {w w' : World Evt} {action : Action Evt}
    (hAction : Succeeding action) (hRead : TakesReadable codec w action) (hInv : w.Flowing)
    (h : step codec throws w action = some w') : w'.Flowing := by
  have hSound := step_sound hText hInv.sound h
  cases stepped_of_step hText hInv.sound.queue h with
  | unsent => exact hInv
  | queued hItem hBehind hQueue hItems => exact hInv.enqueued hItems
  | sent hItem hAlone hQueue hItems hAdvance =>
      apply hAdvance.flowing ((takesReadable_publish_iff hItem hAlone hQueue).mp hRead)
      exact hInv.enqueued hItems
  | subscribed => exact hInv.resubscribed hSound (onlyWorkers_subscribe hInv.workers) rfl
  | listening => exact False.elim hAction
  | unsubscribed key =>
      exact hInv.resubscribed hSound (onlyWorkers_unsubscribe hInv.workers key) rfl
  | acknowledged hRunning hAck hAdvance =>
      apply hAdvance.flowing ((takesReadable_settle_iff hRunning hAck).mp hRead)
      exact hInv.released hRunning
  | unacknowledged hRunning hAck =>
      rw [acknowledges_of_succeeding hAction] at hAck
      exact absurd hAck (by decide)

/-- Among the steps that take nothing unreadable, subscribing is the one that can
leave a message stranded. -/
theorem step_noneStranded_iff (hText : codec.WritesText) {w w' : World Evt}
    {action : Action Evt} (hAction : Succeeding action) (hRead : TakesReadable codec w action)
    (hInv : w.Flowing) (hNone : w.NoneStranded) (h : step codec throws w action = some w') :
    w'.NoneStranded ↔ SubscribesInTime w action := by
  cases stepped_of_step hText hInv.sound.queue h with
  | unsent => exact iff_of_true hNone trivial
  | queued hItem hBehind hQueue hItems =>
      refine iff_of_true (fun hWorker hAll => ?_) trivial
      exact absurd (hNone hWorker hAll) hBehind
  | sent hItem hAlone hQueue hItems hAdvance =>
      have hNext := (takesReadable_publish_iff hItem hAlone hQueue).mp hRead
      exact iff_of_true (hAdvance.noneStranded hNext (hInv.enqueued hItems)) trivial
  | subscribed =>
      constructor
      · intro hAfter
        by_cases hAll : w.unacknowledged = []
        · exact Or.inr (Or.inr (hAfter (workerSubscribed_subscribe w) hAll))
        · exact Or.inr (Or.inl hAll)
      · rintro (hWorker | hSome | hEmpty) _ hAll
        · exact hNone hWorker hAll
        · exact absurd hAll hSome
        · exact hEmpty
  | listening => exact False.elim hAction
  | unsubscribed key =>
      refine iff_of_true (fun hWorker hAll => hNone ?_ hAll) trivial
      obtain ⟨entry, hMem, hRole⟩ := hWorker
      exact ⟨entry, unsubscribe_entries_subset _ key hMem, hRole⟩
  | acknowledged hRunning hAck hAdvance =>
      have hNext := (takesReadable_settle_iff hRunning hAck).mp hRead
      exact iff_of_true (hAdvance.noneStranded hNext (hInv.released hRunning)) trivial
  | unacknowledged hRunning hAck =>
      rw [acknowledges_of_succeeding hAction] at hAck
      exact absurd hAck (by decide)

/-- Among the runs with successful workers that take nothing unreadable, those
without a stranded message are the ones where every worker subscribes in time. -/
theorem noneStranded_iff_subscribesInTime (hText : codec.WritesText)
    (throws : Nat → Uuid → Bool) (nodeId : Option String) (as : List (Action Evt))
    (hActions : ∀ action ∈ as, Succeeding action)
    (hRead : Runs.StepsMeet (step codec throws) (TakesReadable codec) (initial nodeId) as) :
    Runs.Always (step codec throws) NoneStranded (initial nodeId) as ↔
      Runs.StepsMeet (step codec throws) SubscribesInTime (initial nodeId) as := by
  have hSucceeding : Runs.StepsMeet (step codec throws) (fun _ action => Succeeding action)
      (initial nodeId) as := Runs.stepsMeet_of_mem fun action hAction _ => hActions action hAction
  refine Runs.always_iff_stepsMeet_given Flowing ?_ ?_ (flowing_initial nodeId)
    (fun hWorker => absurd hWorker (not_workerSubscribed rfl)) (hSucceeding.and hRead)
  · intro w action w' hGiven hInv _ hStep _
    exact step_flowing hText hGiven.1 hGiven.2 hInv hStep
  · intro w action w' hGiven hInv hNone hStep
    exact step_noneStranded_iff hText hGiven.1 hGiven.2 hInv hNone hStep

/-- The item the step takes can be parsed, and a worker that subscribes does so
in time. -/
def Flows (codec : EventProcessor Evt) (w : World Evt) (action : Action Evt) : Prop :=
  TakesReadable codec w action ∧ SubscribesInTime w action

/-- Along a run with successful workers no message is left stranded, if every
item taken from the queue can be parsed and every worker subscribes in time:
`subscribe` does not advance the bus, so what was published before the first
worker came waits for a later event, and a publisher whose item could not be
parsed stays active with nothing in flight. Given the first, the second is
needed too. -/
theorem noneStranded_of_flows (hText : codec.WritesText)
    (throws : Nat → Uuid → Bool) (nodeId : Option String) (as : List (Action Evt))
    (hActions : ∀ action ∈ as, Succeeding action) :
    (Runs.StepsMeet (step codec throws) (Flows codec) (initial nodeId) as →
        Runs.Always (step codec throws) NoneStranded (initial nodeId) as) ∧
      (Runs.StepsMeet (step codec throws) (TakesReadable codec) (initial nodeId) as →
        Runs.Always (step codec throws) NoneStranded (initial nodeId) as →
        Runs.StepsMeet (step codec throws) (Flows codec) (initial nodeId) as) := by
  constructor
  · intro hFlows
    have hRead := hFlows.imp fun _ _ h => h.1
    have hInTime := hFlows.imp fun _ _ h => h.2
    exact (noneStranded_iff_subscribesInTime hText throws nodeId as hActions hRead).mpr hInTime
  · intro hRead hNone
    refine hRead.and ?_
    exact (noneStranded_iff_subscribesInTime hText throws nodeId as hActions hRead).mp hNone

instance (w : World Evt) (action : Action Evt) : Decidable (SubscribesInTime w action) := by
  cases action <;> unfold SubscribesInTime <;> infer_instance

instance (w : World Evt) (action : Action Evt) : Decidable (Flows codec w action) :=
  inferInstanceAs (Decidable (_ ∧ _))

theorem noneStranded_of_flows_early_worker :
    Runs.Always (step sampleCodec noneThrow) NoneStranded (initial none)
      [.subscribe, .publish helloSaid, .publish worldSaid, .settle 0 .resolved (.ok ())] :=
  (noneStranded_of_flows sampleCodec_writesText noneThrow none _
    (by simp [Succeeding])).1 (by decide)

/-- A message published before the first worker subscribes is left waiting. -/
theorem stranded_before_subscribe :
    (∀ action ∈ [Action.publish helloSaid, .subscribe], Succeeding action) ∧
      ¬Runs.Always (step sampleCodec noneThrow) NoneStranded (initial none)
        [.publish helloSaid, .subscribe] :=
  ⟨by simp [Succeeding], by decide⟩

end Moirae.MemoryPublisher.World
