import Moirae.Core.MemoryDelivery

/-! An in-memory publisher whose only subscriber is one worker that acknowledges
whatever it is handed, as a bus subscribes to its publisher. -/
namespace Moirae.MemoryPublisher.World

variable {Evt : Type} {codec : EventProcessor Evt} {throws : Nat → Uuid → Bool}

/-- The publisher is at rest with nothing in the queue, or the last delivery is
the one in flight, or an item that could not be parsed has left it active for
good. -/
inductive Phase (w : World Evt) : Prop
  | rest (hIdle : w.publisher.status = .IDLE) (hNone : w.running = []) (hEmpty : w.waiting = [])
  | busy (last : Nat) (worker : Uuid) (evt : Evt) (hActive : w.publisher.status = .ACTIVE)
      (hLength : w.handed.length = last + 1) (hRunning : w.running = [⟨last, worker, evt⟩])
  | jammed (hActive : w.publisher.status = .ACTIVE) (hNone : w.running = [])

/-- The invariant of every run. -/
structure Attended (w : World Evt) : Prop where
  sound : w.Sound
  worker : ∃ key, w.publisher.distributor.subscriptions.entries = [(key, ⟨key, .worker⟩)]
  phase : w.Phase

/-- The invariant of the runs in which what is published can be parsed: whatever
waits does so behind the delivery in flight. -/
structure Served (codec : EventProcessor Evt) (w : World Evt) : Prop where
  attended : w.Attended
  readable : w.Readable codec
  order : w.InSequence
  prompt : w.running = [] → w.publisher.status = .IDLE ∧ w.waiting = []

/-- What is in the queue was published and not handed over. -/
theorem InSequence.length_eq {w : World Evt} (h : w.InSequence) :
    w.handed.length + w.waiting.length = w.published.length := by
  rw [← h, List.length_append, List.length_map]

/-- The handler that is running is that of the last delivery. -/
theorem Attended.length_of_running {w : World Evt} (h : w.Attended) {delivery : Nat}
    (hRunning : delivery ∈ w.running.map Handling.delivery) :
    w.handed.length = delivery + 1 := by
  obtain ⟨handling, hMem, rfl⟩ := List.mem_map.mp hRunning
  cases h.phase with
  | rest hIdle hNone | jammed hActive hNone =>
      rw [hNone] at hMem
      exact absurd hMem List.not_mem_nil
  | busy last worker evt hActive hLength hOnly =>
      rw [hOnly] at hMem
      obtain rfl := List.mem_singleton.mp hMem
      exact hLength

theorem startedWorkers_of_worker {w : World Evt} (hSound : w.Sound) {key : Uuid}
    (hEntries : w.publisher.distributor.subscriptions.entries = [(key, ⟨key, .worker⟩)]) :
    w.startedWorkers throws = [key] := by
  have hOnly : OnlyWorkers w.publisher := by
    intro entry hMem
    rw [hEntries] at hMem
    rw [List.mem_singleton.mp hMem]
  rw [startedWorkers_of_onlyWorkers hSound.subscribers hOnly, hEntries]
  rfl

/-- An idle publisher with its worker takes the next item, if there is one. -/
theorem Advanced.attended {w w' : World Evt} (h : Advanced codec throws w w')
    (hSound : w.Sound)
    (hWorker : ∃ key, w.publisher.distributor.subscriptions.entries = [(key, ⟨key, .worker⟩)])
    (hIdle : w.publisher.status = .IDLE) (hNone : w.running = []) :
    w'.Attended ∧ w'.published = w.published := by
  have hSound' := h.sound hSound
  obtain ⟨key, hEntries⟩ := hWorker
  cases h with
  | nothing hStopped =>
      have hEmpty : w.waiting = [] := by
        rcases hStopped with hCount | hStatus | hEmpty
        · rw [Distributor.listenerCount, KeyedMap.size, hEntries] at hCount
          cases hCount
        · exact absurd hIdle hStatus
        · exact hEmpty
      exact ⟨⟨hSound', ⟨key, hEntries⟩, .rest hIdle hNone hEmpty⟩, rfl⟩
  | @handed item rest queue evt hCount hIdle' hNext hParse hRest hQueue =>
      refine ⟨⟨hSound', ⟨key, hEntries⟩, ?_⟩, rfl⟩
      refine .busy w.handed.length key evt rfl List.length_append ?_
      rw [handOver, hNone, startedWorkers_of_worker hSound hEntries]
      rfl
  | unreadable => exact ⟨⟨hSound', ⟨key, hEntries⟩, .jammed rfl hNone⟩, rfl⟩

/-- If the item can be parsed, the worker is handed it. -/
theorem Advanced.served {w w' : World Evt} (h : Advanced codec throws w w')
    (hSound : w.Sound) (hReadable : w.Readable codec) (hOrder : w.InSequence)
    (hWorker : ∃ key, w.publisher.distributor.subscriptions.entries = [(key, ⟨key, .worker⟩)])
    (hIdle : w.publisher.status = .IDLE) (hNone : w.running = []) :
    w'.Served codec ∧ w'.handed.length = w.handed.length + if w.waiting = [] then 0 else 1 := by
  obtain ⟨hAttended, -⟩ := h.attended hSound hWorker hIdle hNone
  have hReadable' := h.readable hReadable
  have hOrder' := h.inSequence hReadable hOrder
  obtain ⟨key, hEntries⟩ := hWorker
  cases h with
  | nothing hStopped =>
      have hEmpty : w.waiting = [] := by
        rcases hStopped with hCount | hStatus | hEmpty
        · rw [Distributor.listenerCount, KeyedMap.size, hEntries] at hCount
          cases hCount
        · exact absurd hIdle hStatus
        · exact hEmpty
      refine ⟨⟨hAttended, hReadable', hOrder', fun _ => ⟨hIdle, hEmpty⟩⟩, ?_⟩
      rw [if_pos hEmpty, Nat.add_zero]
  | @handed item rest queue evt hCount hIdle' hNext hParse hRest hQueue =>
      refine ⟨⟨hAttended, hReadable', hOrder', fun hNobody => ?_⟩, ?_⟩
      · rw [handOver, hNone, startedWorkers_of_worker hSound hEntries] at hNobody
        cases hNobody
      · rw [if_neg (by rw [hNext]; exact List.cons_ne_nil item rest)]
        exact List.length_append
  | unreadable hCount hIdle' hNext hParse =>
      exact absurd (hReadable.nextReadable.canParse hCount hIdle' hNext) hParse

variable [Respondable Evt]

/-- A query that is published behind a delivery in flight stays in the queue. -/
theorem Attended.publish (hText : codec.WritesText) {w w' : World Evt} {event : Evt}
    (h : w.Attended) (hStep : step codec throws w (.publish event) = some w') :
    w'.Attended ∧ (w.running ≠ [] → w'.running = w.running ∧ w'.handed = w.handed) := by
  have hSound' := step_sound hText h.sound hStep
  cases stepped_of_step hText h.sound.queue hStep with
  | unsent hError => exact ⟨h, fun _ => ⟨rfl, rfl⟩⟩
  | @queued _ item queue hItem hBehind hQueue hItems =>
      refine ⟨⟨hSound', h.worker, ?_⟩, fun _ => ⟨rfl, rfl⟩⟩
      cases h.phase with
      | rest hIdle hNone hEmpty => exact absurd hEmpty hBehind
      | busy last worker evt hActive hLength hRunning =>
          exact .busy last worker evt hActive hLength hRunning
      | jammed hActive hNone => exact .jammed hActive hNone
  | @sent _ item queue _ hItem hAlone hQueue hItems hAdvance =>
      have hEnqueued : (w.enqueued queue item).Sound :=
        ⟨hItems, subscribersSound_enqueued h.sound.subscribers _ _⟩
      have hStays : w.publisher.status = .ACTIVE → w' = w.enqueued queue item := by
        intro hActive
        cases hAdvance with
        | nothing => rfl
        | handed _ hIdle | unreadable _ hIdle =>
            have hStatus : w.publisher.status = .IDLE := hIdle
            rw [hActive] at hStatus
            cases hStatus
      cases h.phase with
      | rest hIdle hNone hEmpty =>
          exact ⟨(hAdvance.attended hEnqueued h.worker hIdle hNone).1,
            fun hSome => absurd hNone hSome⟩
      | busy last worker evt hActive hLength hRunning =>
          rw [hStays hActive]
          exact ⟨⟨hEnqueued, h.worker, .busy last worker evt hActive hLength hRunning⟩,
            fun _ => ⟨rfl, rfl⟩⟩
      | jammed hActive hNone =>
          rw [hStays hActive]
          exact ⟨⟨hEnqueued, h.worker, .jammed hActive hNone⟩, fun hSome => absurd hNone hSome⟩

/-- With every worker resolving, a settling one leaves nothing running. -/
theorem Attended.released (hText : codec.WritesText) {w w' : World Evt} {place : Nat}
    (h : w.Attended)
    (hStep : step codec throws w (.settle place .resolved (.ok ())) = some w') :
    ∃ handling, (w.released place handling).Sound ∧ w.running.eraseIdx place = [] ∧
      Advanced codec throws (w.released place handling) w' := by
  cases stepped_of_step hText h.sound.queue hStep with
  | @acknowledged _ handling _ _ _ hRunning hAck hAdvance =>
      have hSubs := h.sound.subscribers
      refine ⟨handling, ⟨h.sound.queue, hSubs.consistent, hSubs.keyed, hSubs.drawn⟩, ?_, hAdvance⟩
      cases h.phase with
      | rest hIdle hNone | jammed hActive hNone => rw [hNone, List.eraseIdx_nil]
      | busy last worker evt hActive hLength hOnly =>
          rw [hOnly] at hRunning ⊢
          obtain rfl : place = 0 := by
            simpa using (List.getElem?_eq_some_iff.mp hRunning).1
          rfl
  | unacknowledged hRunning hAck =>
      rw [BasePublisher.acknowledges_iff.mpr ⟨rfl, fun _ => rfl⟩] at hAck
      cases hAck

/-- The delivery in flight is acknowledged. -/
theorem Attended.settle (hText : codec.WritesText) {w w' : World Evt} {place : Nat}
    (h : w.Attended)
    (hStep : step codec throws w (.settle place .resolved (.ok ())) = some w') :
    w'.Attended ∧ w'.published = w.published := by
  obtain ⟨handling, hReleased, hNone, hAdvance⟩ := h.released hText hStep
  exact hAdvance.attended hReleased h.worker rfl hNone

/-- What is published can be parsed: nothing jams the publisher. -/
theorem Served.publish (hText : codec.WritesText) {w w' : World Evt} {event : Evt}
    (h : w.Served codec) (hWrites : w.WritesReadable codec (.publish event))
    (hStep : step codec throws w (.publish event) = some w') : w'.Served codec := by
  have hSound := h.attended.sound
  have hReadable := step_readable hText hSound h.readable hWrites hStep
  have hOrder := step_inSequence hText hSound h.readable hWrites h.order hStep
  obtain ⟨hAttended, hSame⟩ := h.attended.publish hText hStep
  by_cases hNone : w.running = []
  · obtain ⟨hIdle, hEmpty⟩ := h.prompt hNone
    cases stepped_of_step hText hSound.queue hStep with
    | unsent => exact h
    | queued hItem hBehind => exact absurd hEmpty hBehind
    | @sent _ item queue _ hItem hAlone hQueue hItems hAdvance =>
        have hContents : queue.contents = w.waiting ++ [item] := by
          rw [hQueue, hAlone, List.nil_append]
        exact (hAdvance.served ⟨hItems, subscribersSound_enqueued hSound.subscribers _ _⟩
          (h.readable.enqueued hContents (hWrites _ hItem)) (h.order.enqueued hContents)
          h.attended.worker hIdle hNone).1
  · refine ⟨hAttended, hReadable, hOrder, fun hNobody => ?_⟩
    rw [(hSame hNone).1] at hNobody
    exact absurd hNobody hNone

/-- The delivery in flight is acknowledged; the next one takes its place. -/
theorem Served.settle (hText : codec.WritesText) {w w' : World Evt} {place : Nat}
    (h : w.Served codec)
    (hStep : step codec throws w (.settle place .resolved (.ok ())) = some w') :
    w'.Served codec ∧ w'.handed.length = w.handed.length + if w.waiting = [] then 0 else 1 := by
  obtain ⟨handling, hReleased, hNone, hAdvance⟩ := h.attended.released hText hStep
  exact hAdvance.served hReleased h.readable h.order h.attended.worker rfl hNone

end Moirae.MemoryPublisher.World
