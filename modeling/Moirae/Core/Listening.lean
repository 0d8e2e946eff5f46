import Moirae.Core.ListenerCalls
import Moirae.Core.Message

/-! Two runs of one in-memory publisher that publish, subscribe workers and
complete handlers alike, each with listeners of its own. -/
namespace Moirae.Listening

variable {Evt : Type}

namespace World

/-- Nothing is handed to a worker any more, and nothing ever was. -/
structure Dead (w : World Evt) : Prop where
  sound : w.Sound
  running : w.running = []
  stopped : w.publisher.status ≠ .IDLE ∨ w.waiting ≠ []
  unseen : w.log = []

/-- There is no worker, and so nothing was seen of one. -/
structure Deserted (w : World Evt) : Prop where
  workers : w.publisher.workerKeys = []
  running : w.running = []
  unseen : w.log = []

variable {codec : EventProcessor Evt} {workers : WorkerFns Evt} {fns : ListenerFns Evt}
  {w w' : World Evt}

/-- A message that is handed to listeners alone leaves the publisher active for
good. -/
theorem Deserted.handOver (h : w.Deserted) (hSound : w.Sound) {publisher : MemoryPublisher}
    {evt : Evt} (hStatus : publisher.status = .ACTIVE)
    (hAfter : (w.handOver workers fns publisher evt).Sound) :
    (w.handOver workers fns publisher evt).Dead := by
  have hNobody : (w.emitted workers fns evt).1 = [] :=
    emitted_eq_nil hSound.subscribers h.workers evt
  have hLog : (w.handOver workers fns publisher evt).log =
      w.log ++ (w.emitted workers fns evt).1.map fun call => .called call.1 call.2 := rfl
  have hRunning : (w.handOver workers fns publisher evt).running = w.running ++
      (List.range' w.calls (w.emitted workers fns evt).1.length).map fun call =>
        ⟨call, w.delivered, (w.emitted workers fns evt).2⟩ := rfl
  constructor
  · exact hAfter
  · rw [hRunning, h.running, hNobody]
    rfl
  · refine Or.inl ?_
    change publisher.status ≠ .IDLE
    rw [hStatus]
    exact ESState.noConfusion
  · rw [hLog, h.unseen, hNobody]
    rfl

/-- A text is taken from the queue, and the bus is active. -/
theorem Sound.active (h : w.Sound) {queue : Queue String}
    (hQueue : (w.publisher.took queue).QueueSound) :
    Sound { w with publisher := w.publisher.took queue } :=
  ⟨hQueue, ⟨h.subscribers.consistent, h.subscribers.keyed, h.subscribers.drawn⟩, h.called⟩

/-- A text that is taken while nobody listens is lost, and the bus stays active. -/
theorem Deserted.active (h : w.Deserted) (hSound : w.Sound) {queue : Queue String}
    (hQueue : (w.publisher.took queue).QueueSound) :
    Dead { w with publisher := w.publisher.took queue } :=
  ⟨hSound.active hQueue, h.running, Or.inl ESState.noConfusion, h.unseen⟩

/-- A bus that nobody listens to is dead when something waits. -/
theorem Deserted.advance (h : w.Deserted) (hSound : w.Sound) (hWaiting : w.waiting ≠ []) :
    (w.advance codec workers fns).Dead := by
  have hAdvances : MemoryPublisher.Advances codec w.publisher _ :=
    MemoryPublisher.advances_advanceBus hSound.queue
  rw [World.advance]
  generalize w.publisher.advanceBus codec = result at hAdvances ⊢
  cases hAdvances with
  | nothing => exact ⟨hSound, h.running, Or.inr hWaiting, h.unseen⟩
  | @emitted item rest queue evt hCount hIdle hNext hParse hRest hQueue =>
      exact h.handOver hSound rfl
        (World.handOver_sound hSound (w.publisher.took queue) rfl hQueue rfl evt)
  | threw hCount hIdle hNext hParse hRest hQueue => exact h.active hSound hQueue

/-- A worker comes. -/
theorem Sound.subscribe (h : w.Sound) :
    Sound { w with publisher := w.publisher.subscribe } where
  queue := MemoryPublisher.queueSound_subscribeAs h.queue _
  subscribers := h.subscribers.subscribeAs _
  called := by
    intro worker evt hMem
    rw [MemoryPublisher.workerKeys_subscribe h.subscribers]
    exact List.mem_append_left _ (h.called worker evt hMem)

/-- A listener comes. -/
theorem Sound.listen (h : w.Sound) : Sound { w with publisher := w.publisher.listen } where
  queue := MemoryPublisher.queueSound_subscribeAs h.queue _
  subscribers := h.subscribers.subscribeAs _
  called := by
    intro worker evt hMem
    rw [MemoryPublisher.workerKeys_listen h.subscribers]
    exact h.called worker evt hMem

/-- A listener goes. -/
theorem Sound.unsubscribe (h : w.Sound) {key : Uuid} (hKey : key ∉ w.publisher.workerKeys) :
    Sound { w with publisher := w.publisher.unsubscribe key } where
  queue := h.queue
  subscribers := h.subscribers.unsubscribe key
  called := by
    intro worker evt hMem
    rw [MemoryPublisher.workerKeys_unsubscribe hKey]
    exact h.called worker evt hMem

end World

/-! ## Pairs of runs -/

/-- Two runs of one publisher. -/
structure Pair (Evt : Type) where
  left : World Evt
  right : World Evt

def start (nodeId : Option String) : Pair Evt := ⟨.initial nodeId, .initial nodeId⟩

/-- Both runs publish, subscribe workers and complete handlers; each has its own
listeners come and go. -/
inductive PairAction (Evt : Type)
  | both (action : Action Evt)
  | left (action : Action Evt)
  | right (action : Action Evt)

/-- Publishing, subscribing a worker, and a worker that changes its message or
settles. -/
def Shared : Action Evt → Prop
  | .publish _ | .subscribe | .rewrite _ _ | .settle _ _ _ => True
  | .listen | .unsubscribe _ => False

/-- A listener comes or goes, or changes a message it was called with. -/
def Listens (w : World Evt) : Action Evt → Prop
  | .listen | .rewrite _ _ => True
  | .unsubscribe key => key ∉ w.publisher.workerKeys
  | .publish _ | .subscribe | .settle _ _ _ => False

instance : DecidablePred (@Shared Evt)
  | .publish _ | .subscribe | .rewrite _ _ | .settle _ _ _ => isTrue trivial
  | .listen | .unsubscribe _ => isFalse id

instance (w : World Evt) : DecidablePred (Listens w)
  | .listen | .rewrite _ _ => isTrue trivial
  | .unsubscribe key => inferInstanceAs (Decidable (key ∉ w.publisher.workerKeys))
  | .publish _ | .subscribe | .settle _ _ _ => isFalse id

namespace Pair

variable [Respondable Evt] (codec : EventProcessor Evt) (workers : WorkerFns Evt)
  (left right : ListenerFns Evt)

def step (p : Pair Evt) : PairAction Evt → Option (Pair Evt)
  | .both action =>
      if Shared action then
        match p.left.step codec workers left action, p.right.step codec workers right action with
        | some l, some r => some ⟨l, r⟩
        | _, _ => none
      else none
  | .left action =>
      if Listens p.left action then
        (p.left.step codec workers left action).map fun l => { p with left := l }
      else none
  | .right action =>
      if Listens p.right action then
        (p.right.step codec workers right action).map fun r => { p with right := r }
      else none

/-- The workers cannot tell the two runs apart. -/
def Same (p : Pair Evt) : Prop := p.left.view = p.right.view

/-- If the step settles a call, it acknowledges in both runs or in neither. -/
def AcknowledgesAlike (p : Pair Evt) : Action Evt → Prop
  | .settle place outcome response =>
      p.left.acknowledges place outcome response = p.right.acknowledges place outcome response
  | _ => True

/-- What the step hands over comes to the same workers in both runs, each of them
with the same message, and the step acknowledges alike. -/
def Undisturbed (p : Pair Evt) : PairAction Evt → Prop
  | .both action => p.AcknowledgesAlike action ∧ ∀ evt ∈ p.left.handsOver codec action,
      p.left.reached workers left evt = p.right.reached workers right evt
  | .left _ | .right _ => True

end Pair

/-- The two runs are at the same point. -/
structure InStep (l r : World Evt) : Prop where
  left : l.Sound
  right : r.Sound
  nodeId : l.publisher.nodeId = r.publisher.nodeId
  status : l.publisher.status = r.publisher.status
  waiting : l.waiting = r.waiting
  view : l.view = r.view
  calls : l.calls = r.calls
  running : l.running.map Handling.call = r.running.map Handling.call
  workers : l.publisher.workerKeys.length = r.publisher.workerKeys.length
  deserted : l.publisher.workerKeys = [] → l.Deserted ∧ r.Deserted

/-- The two runs are at the same point, or no worker is called in either. -/
def Linked (l r : World Evt) : Prop := InStep l r ∨ l.Dead ∧ r.Dead

variable {codec : EventProcessor Evt} {workers : WorkerFns Evt} {left right fns : ListenerFns Evt}
  {l r l' r' : World Evt} {p t : Pair Evt}

/-- Neither of the two comes first. -/
theorem InStep.symm (h : InStep l r) : InStep r l where
  left := h.right
  right := h.left
  nodeId := h.nodeId.symm
  status := h.status.symm
  waiting := h.waiting.symm
  view := h.view.symm
  calls := h.calls.symm
  running := h.running.symm
  workers := h.workers.symm
  deserted := by
    intro hNone
    have hLeft : l.publisher.workerKeys = [] :=
      List.eq_nil_of_length_eq_zero (by rw [h.workers, hNone]; rfl)
    exact (h.deserted hLeft).symm

/-- Both runs hand the message to the same workers in the same shape. -/
theorem InStep.handOver (h : InStep l r) {ql qr : Queue String} {evt : Evt}
    (hQueue : ql.contents = qr.contents)
    (hLeft : (l.publisher.took ql).QueueSound)
    (hRight : (r.publisher.took qr).QueueSound)
    (hReached : l.reached workers left evt = r.reached workers right evt) :
    InStep (l.handOver workers left (l.publisher.took ql) evt)
      (r.handOver workers right (r.publisher.took qr) evt) := by
  have hLength :
      (l.emitted workers left evt).1.length = (r.emitted workers right evt).1.length := by
    have hLengths := congrArg List.length hReached
    rwa [World.reached, World.reached, List.length_map, List.length_map] at hLengths
  have hAfterLeft : (l.handOver workers left (l.publisher.took ql) evt).Sound :=
    World.handOver_sound h.left (l.publisher.took ql) rfl hLeft rfl evt
  have hAfterRight : (r.handOver workers right (r.publisher.took qr) evt).Sound :=
    World.handOver_sound h.right (r.publisher.took qr) rfl hRight rfl evt
  have hViewLeft : (l.handOver workers left (l.publisher.took ql) evt).view = _ :=
    World.view_handOver h.left (l.publisher.took ql) rfl evt
  have hViewRight : (r.handOver workers right (r.publisher.took qr) evt).view = _ :=
    World.view_handOver h.right (r.publisher.took qr) rfl evt
  constructor
  · exact hAfterLeft
  · exact hAfterRight
  · exact h.nodeId
  · rfl
  · exact hQueue
  · rw [hViewLeft, hViewRight, h.view, hReached]
  · change l.calls + (l.emitted workers left evt).1.length =
      r.calls + (r.emitted workers right evt).1.length
    rw [h.calls, hLength]
  · change (l.running ++ List.map _ (List.range' l.calls _)).map Handling.call =
      (r.running ++ List.map _ (List.range' r.calls _)).map Handling.call
    rw [List.map_append, List.map_append, List.map_map, List.map_map, h.running, h.calls]
    exact congrArg (fun n => r.running.map Handling.call ++ List.map id (List.range' r.calls n))
      hLength
  · exact h.workers
  · intro hNone
    obtain ⟨hDesertedLeft, hDesertedRight⟩ := h.deserted hNone
    have hDeadLeft := hDesertedLeft.handOver h.left rfl hAfterLeft
    have hDeadRight := hDesertedRight.handOver h.right rfl hAfterRight
    exact ⟨⟨hDesertedLeft.workers, hDeadLeft.running, hDeadLeft.unseen⟩,
      ⟨hDesertedRight.workers, hDeadRight.running, hDeadRight.unseen⟩⟩

/-- Neither run hands anything over. -/
theorem InStep.active (h : InStep l r) {ql qr : Queue String} (hQueue : ql.contents = qr.contents)
    (hLeft : (l.publisher.took ql).QueueSound)
    (hRight : (r.publisher.took qr).QueueSound) :
    InStep { l with publisher := l.publisher.took ql }
      { r with publisher := r.publisher.took qr } where
  left := h.left.active hLeft
  right := h.right.active hRight
  nodeId := h.nodeId
  status := rfl
  waiting := hQueue
  view := h.view
  calls := h.calls
  running := h.running
  workers := h.workers
  deserted := by
    intro hNone
    obtain ⟨⟨hl, hl', hl''⟩, ⟨hr, hr', hr''⟩⟩ := h.deserted hNone
    exact ⟨⟨hl, hl', hl''⟩, ⟨hr, hr', hr''⟩⟩

/-- One run reaches other workers than the other one, or with another message. -/
theorem InStep.view_ne (h : InStep l r) {ql qr : Queue String} {evt : Evt}
    (hReached : l.reached workers left evt ≠ r.reached workers right evt) :
    (l.handOver workers left (l.publisher.took ql) evt).view ≠
      (r.handOver workers right (r.publisher.took qr) evt).view := by
  have hViewLeft : (l.handOver workers left (l.publisher.took ql) evt).view = _ :=
    World.view_handOver h.left (l.publisher.took ql) rfl evt
  have hViewRight : (r.handOver workers right (r.publisher.took qr) evt).view = _ :=
    World.view_handOver h.right (r.publisher.took qr) rfl evt
  have hCalled : Function.Injective fun call : Evt × Nat =>
      (Seen.called call.2 call.1 : Seen Nat Evt) := by
    rintro ⟨evt, number⟩ ⟨evt', number'⟩ hSame
    obtain ⟨rfl, rfl⟩ := Seen.called.inj hSame
    rfl
  intro hSame
  rw [hViewLeft, hViewRight, h.view] at hSame
  have hZip := List.map_injective_iff.mpr hCalled (List.append_cancel_left hSame)
  apply hReached
  rw [← List.zipIdx_map_fst 0 (l.reached workers left evt), hZip, List.zipIdx_map_fst]

/-- Without workers nothing is ever handed to one, whatever the listeners do. -/
theorem InStep.advance_deserted (h : InStep l r) (hNone : l.publisher.workerKeys = []) :
    Linked (l.advance codec workers left) (r.advance codec workers right) := by
  obtain ⟨hLeft, hRight⟩ := h.deserted hNone
  by_cases hEmpty : l.waiting = []
  · have hEmptyRight : r.waiting = [] := h.waiting.symm.trans hEmpty
    rw [World.advance_of_stopped h.left (Or.inr hEmpty),
      World.advance_of_stopped h.right (Or.inr hEmptyRight)]
    exact Or.inl h
  · have hSomeRight : r.waiting ≠ [] := fun hNil => hEmpty (h.waiting.trans hNil)
    exact Or.inr ⟨hLeft.advance h.left hEmpty, hRight.advance h.right hSomeRight⟩

/-- With workers in both runs, both busses advance or neither does. -/
theorem InStep.advance_worker (codec : EventProcessor Evt) (workers : WorkerFns Evt)
    (left right : ListenerFns Evt) (h : InStep l r)
    (hLeft : l.publisher.distributor.listenerCount ≠ 0)
    (hRight : r.publisher.distributor.listenerCount ≠ 0) :
    ((∀ evt ∈ l.next codec, l.reached workers left evt = r.reached workers right evt) →
        InStep (l.advance codec workers left) (r.advance codec workers right)) ∧
      ((∃ evt ∈ l.next codec, l.reached workers left evt ≠ r.reached workers right evt) →
        (l.advance codec workers left).view ≠ (r.advance codec workers right).view) := by
  by_cases hStopped : l.publisher.status ≠ .IDLE ∨ l.waiting = []
  · have hStoppedRight : r.publisher.status ≠ .IDLE ∨ r.waiting = [] := by
      rw [← h.status, ← h.waiting]
      exact hStopped
    have hNext : l.next codec = none := World.next_of_stopped (Or.inr hStopped)
    rw [World.advance_of_stopped h.left hStopped, World.advance_of_stopped h.right hStoppedRight]
    exact ⟨fun _ => h, by simp [hNext]⟩
  · obtain ⟨hIdle, hSome⟩ := not_or.mp hStopped
    rw [not_not] at hIdle
    obtain ⟨item, rest, hOwn⟩ := List.exists_cons_of_ne_nil hSome
    obtain ⟨ql, hRest, hQueue, hReadLeft, hThrewLeft⟩ :=
      World.advance_of_ready codec workers left h.left hLeft hIdle hOwn
    obtain ⟨qr, hRest', hQueue', hReadRight, hThrewRight⟩ :=
      World.advance_of_ready codec workers right h.right hRight (h.status.symm.trans hIdle)
        (h.waiting.symm.trans hOwn)
    cases hParse : codec.parseEvent item with
    | error reason =>
        have hNext : l.next codec = none := World.next_of_unreadable hOwn hParse
        rw [hThrewLeft reason hParse, hThrewRight reason hParse]
        exact ⟨fun _ => h.active (hRest.trans hRest'.symm) hQueue hQueue', by simp [hNext]⟩
    | ok evt =>
        have hNext : l.next codec = some evt := World.next_of_ready hLeft hIdle hOwn hParse
        rw [hReadLeft evt hParse, hReadRight evt hParse]
        constructor
        · intro hReached
          exact h.handOver (hRest.trans hRest'.symm) hQueue hQueue' (hReached evt hNext)
        · rintro ⟨evt', hEvt, hReached⟩
          obtain rfl := Option.some.inj (hNext.symm.trans hEvt)
          exact h.view_ne hReached

/-- Two runs at the same point whose busses both advance: they stay linked if the
message reaches the same workers alike, and differ otherwise. -/
theorem InStep.advance (h : InStep l r) :
    ((∀ evt ∈ l.next codec, l.reached workers left evt = r.reached workers right evt) →
        Linked (l.advance codec workers left) (r.advance codec workers right)) ∧
      ((∃ evt ∈ l.next codec, l.reached workers left evt ≠ r.reached workers right evt) →
        (l.advance codec workers left).view ≠ (r.advance codec workers right).view) := by
  by_cases hNone : l.publisher.workerKeys = []
  · refine ⟨fun _ => h.advance_deserted hNone, ?_⟩
    rintro ⟨evt, -, hReached⟩
    refine absurd ?_ hReached
    rw [World.reached_eq_nil h.left.subscribers hNone,
      World.reached_eq_nil h.right.subscribers (h.deserted hNone).2.workers]
  · have hNoneRight : r.publisher.workerKeys ≠ [] := by
      intro hNil
      exact hNone (h.symm.deserted hNil).2.workers
    obtain ⟨hInStep, hApart⟩ := h.advance_worker codec workers left right
      (fun hCount => hNone (MemoryPublisher.workerKeys_eq_nil hCount))
      (fun hCount => hNoneRight (MemoryPublisher.workerKeys_eq_nil hCount))
    exact ⟨fun hReached => Or.inl (hInStep hReached), hApart⟩

/-- A new worker was not called before, so nobody's number changes. -/
theorem World.view_subscribe {w : World Evt} (h : w.Sound) :
    World.view { w with publisher := w.publisher.subscribe } = w.view := by
  apply List.map_congr_left
  intro seen hSeen
  cases seen with
  | acknowledged call => rfl
  | called worker evt =>
      change Seen.called (w.publisher.subscribe.workerKeys.idxOf worker) evt = _
      rw [MemoryPublisher.workerKeys_subscribe h.subscribers,
        List.idxOf_append_of_mem (h.called worker evt hSeen)]
      rfl

/-- A worker comes on both sides. -/
theorem InStep.subscribe (h : InStep l r) :
    InStep { l with publisher := l.publisher.subscribe }
      { r with publisher := r.publisher.subscribe } where
  left := h.left.subscribe
  right := h.right.subscribe
  nodeId := h.nodeId
  status := h.status
  waiting := h.waiting
  view := by rw [World.view_subscribe h.left, World.view_subscribe h.right, h.view]
  calls := h.calls
  running := h.running
  workers := by
    rw [MemoryPublisher.workerKeys_subscribe h.left.subscribers,
      MemoryPublisher.workerKeys_subscribe h.right.subscribers, List.length_append,
      List.length_append, h.workers]
    rfl
  deserted := by
    rw [MemoryPublisher.workerKeys_subscribe h.left.subscribers]
    exact fun hNone => absurd hNone (List.append_ne_nil_of_right_ne_nil _ (List.cons_ne_nil _ _))

/-- Changing messages leaves the running calls under way. -/
theorem InStep.rewrite (h : InStep l r) (delivery : Nat) (change : Evt → Evt) :
    InStep { l with
      running := l.running.map fun handling =>
        if handling.delivery = delivery then { handling with evt := change handling.evt }
        else handling } r where
  left := ⟨h.left.queue, h.left.subscribers, h.left.called⟩
  right := h.right
  nodeId := h.nodeId
  status := h.status
  waiting := h.waiting
  view := h.view
  calls := h.calls
  running := by
    rw [← h.running, List.map_map]
    apply List.map_congr_left
    intro handling _
    change Handling.call (if _ then _ else _) = _
    split <;> rfl
  workers := h.workers
  deserted := by
    intro hNone
    obtain ⟨hLeft, hRight⟩ := h.deserted hNone
    refine ⟨⟨hNone, ?_, hLeft.unseen⟩, hRight⟩
    change l.running.map _ = []
    rw [hLeft.running]
    rfl

/-- A text joins both queues. -/
theorem InStep.enqueued (h : InStep l r) {ql qr : Queue String} {item : String}
    (hl : ql.contents = l.waiting ++ [item]) (hr : qr.contents = r.waiting ++ [item])
    (hLeft : (l.enqueued ql).Sound) (hRight : (r.enqueued qr).Sound) :
    InStep (l.enqueued ql) (r.enqueued qr) where
  left := hLeft
  right := hRight
  nodeId := h.nodeId
  status := h.status
  waiting := by
    change ql.contents = qr.contents
    rw [hl, hr, h.waiting]
  view := h.view
  calls := h.calls
  running := h.running
  workers := h.workers
  deserted := by
    intro hNone
    obtain ⟨⟨hl, hl', hl''⟩, ⟨hr, hr', hr''⟩⟩ := h.deserted hNone
    exact ⟨⟨hl, hl', hl''⟩, ⟨hr, hr', hr''⟩⟩

/-- The same execution ends on both sides. -/
theorem map_call_eraseIdx (h : l.running.map Handling.call = r.running.map Handling.call)
    (place : Nat) : (l.running.eraseIdx place).map Handling.call =
      (r.running.eraseIdx place).map Handling.call := by
  rw [← List.eraseIdx_map, ← List.eraseIdx_map, h]

/-- The call at a place is over in both runs. -/
theorem InStep.erased (h : InStep l r) (place : Nat) :
    InStep { l with running := l.running.eraseIdx place }
      { r with running := r.running.eraseIdx place } where
  left := ⟨h.left.queue, h.left.subscribers, h.left.called⟩
  right := ⟨h.right.queue, h.right.subscribers, h.right.called⟩
  nodeId := h.nodeId
  status := h.status
  waiting := h.waiting
  view := h.view
  calls := h.calls
  running := map_call_eraseIdx h.running place
  workers := h.workers
  deserted := by
    intro hNone
    obtain ⟨⟨hl, hl', hl''⟩, ⟨hr, hr', hr''⟩⟩ := h.deserted hNone
    refine ⟨⟨hl, ?_, hl''⟩, ⟨hr, ?_, hr''⟩⟩
    · change l.running.eraseIdx place = []
      rw [hl', List.eraseIdx_nil]
    · change r.running.eraseIdx place = []
      rw [hr', List.eraseIdx_nil]

/-- A delivery ends on both sides. -/
theorem InStep.released (h : InStep l r) {place : Nat} {handling handling' : Handling Evt}
    (hRunning : l.running[place]? = some handling) (hCall : handling.call = handling'.call) :
    InStep (l.released place handling) (r.released place handling') where
  left := h.left.released place handling
  right := h.right.released place handling'
  nodeId := h.nodeId
  status := rfl
  waiting := h.waiting
  view := by
    change (l.log ++ [_]).map (World.number l.publisher.workerKeys) =
      (r.log ++ [_]).map (World.number r.publisher.workerKeys)
    rw [List.map_append, List.map_append, hCall]
    exact congrArg (· ++ [Seen.acknowledged handling'.call]) h.view
  calls := h.calls
  running := map_call_eraseIdx h.running place
  workers := h.workers
  deserted := by
    intro hNone
    have hNobody := (h.deserted hNone).1.running
    rw [hNobody] at hRunning
    cases hRunning

/-- The calls at one place are the same call. -/
theorem InStep.call_eq (h : InStep l r) {place : Nat} {handling handling' : Handling Evt}
    (hLeft : l.running[place]? = some handling) (hRight : r.running[place]? = some handling') :
    handling.call = handling'.call := by
  have hAt := congrArg (·[place]?) h.running
  simpa [hLeft, hRight] using hAt

variable [Respondable Evt]

/-- Publishing keeps the two runs together unless it hands the message over and
they are disturbed. -/
theorem InStep.publish (hText : codec.WritesText) (h : InStep l r) {event : Evt}
    (hl : l.step codec workers left (.publish event) = some l')
    (hr : r.step codec workers right (.publish event) = some r') :
    ((∀ evt ∈ l.handsOver codec (.publish event),
        l.reached workers left evt = r.reached workers right evt) → Linked l' r') ∧
      ((∃ evt ∈ l.handsOver codec (.publish event),
        l.reached workers left evt ≠ r.reached workers right evt) → l'.view ≠ r'.view) := by
  have hSame : r.publisher.serialized codec event = l.publisher.serialized codec event := by
    rw [MemoryPublisher.serialized, MemoryPublisher.serialized, h.nodeId]
  cases hItem : l.publisher.serialized codec event with
  | error reason =>
      rw [World.step_publish_error hItem] at hl
      rw [World.step_publish_error (hSame.trans hItem)] at hr
      cases hl
      cases hr
      have hNone : l.handsOver codec (.publish event) = none := by
        simp [World.handsOver, hItem, Except.toOption]
      exact ⟨fun _ => Or.inl h, by simp [hNone]⟩
  | ok item =>
      obtain ⟨ql, hQueueLeft, hSoundLeft, hLeft⟩ :=
        World.step_publish workers left hText h.left hItem
      obtain ⟨qr, hQueueRight, hSoundRight, hRight⟩ :=
        World.step_publish workers right hText h.right (hSame.trans hItem)
      obtain rfl := Option.some.inj (hLeft.symm.trans hl)
      obtain rfl := Option.some.inj (hRight.symm.trans hr)
      have hEnqueued := h.enqueued hQueueLeft hQueueRight hSoundLeft hSoundRight
      by_cases hAlone : l.waiting = []
      · rw [if_pos hAlone, if_pos (h.waiting.symm.trans hAlone)]
        rw [World.handsOver_publish hItem hAlone (by rw [hQueueLeft, hAlone, List.nil_append])]
        exact hEnqueued.advance
      · have hBehind : r.waiting ≠ [] := fun hNil => hAlone (h.waiting.trans hNil)
        rw [if_neg hAlone, if_neg hBehind]
        have hNone : l.handsOver codec (.publish event) = none := by
          simp [World.handsOver, hAlone]
        exact ⟨fun _ => Or.inl hEnqueued, by simp [hNone]⟩

omit [Respondable Evt] in
/-- Advancing only adds to what was seen. -/
theorem World.log_advance (codec : EventProcessor Evt) (workers : WorkerFns Evt)
    (fns : ListenerFns Evt) (w : World Evt) :
    w.log <+: (w.advance codec workers fns).log := by
  rw [advance]
  generalize w.publisher.advanceBus codec = result
  obtain ⟨publisher, advance⟩ := result
  cases advance with
  | nothing => exact List.prefix_rfl
  | threw reason => exact List.prefix_rfl
  | emitted item evt => exact List.prefix_append _ _

omit [Respondable Evt] in
/-- An acknowledgement that is missing in the other run is seen. -/
theorem InStep.view_ne_released (h : InStep l r) {place : Nat} {handling : Handling Evt}
    {w : World Evt} (hLog : w.log = r.log) :
    ((l.released place handling).advance codec workers left).view ≠ w.view := by
  intro hSame
  have hLengths := congrArg List.length hSame
  have hViews := congrArg List.length h.view
  have hMore := (World.log_advance codec workers left (l.released place handling)).length_le
  have hReleased : (l.released place handling).log.length = l.log.length + 1 :=
    List.length_append
  simp only [World.view, List.length_map] at hLengths hViews
  rw [hLog] at hLengths
  omega

/-- A worker that settles keeps the two runs together unless it acknowledges in
one of them only, or the next message is handed over and they are disturbed. -/
theorem InStep.settle (h : InStep l r) {place : Nat} {outcome : Outcome}
    {response : Except Thrown Unit}
    (hl : l.step codec workers left (.settle place outcome response) = some l')
    (hr : r.step codec workers right (.settle place outcome response) = some r') :
    (l.acknowledges place outcome response = r.acknowledges place outcome response →
      ((∀ evt ∈ l.handsOver codec (.settle place outcome response),
          l.reached workers left evt = r.reached workers right evt) → Linked l' r') ∧
        ((∃ evt ∈ l.handsOver codec (.settle place outcome response),
          l.reached workers left evt ≠ r.reached workers right evt) → l'.view ≠ r'.view)) ∧
      (l.acknowledges place outcome response ≠ r.acknowledges place outcome response →
        l'.view ≠ r'.view) := by
  cases hLeft : l.running[place]? with
  | none => simp [World.step, hLeft] at hl
  | some handling =>
      cases hRight : r.running[place]? with
      | none => simp [World.step, hRight] at hr
      | some handling' =>
          rw [World.step_settle hLeft, Option.some.injEq] at hl
          rw [World.step_settle hRight, Option.some.injEq] at hr
          have hReleased := h.released hLeft (h.call_eq hLeft hRight)
          cases hAck : l.acknowledges place outcome response <;>
            cases hAckRight : r.acknowledges place outcome response <;>
            simp only [hAck, hAckRight, Bool.false_eq_true, if_true, if_false] at hl hr <;>
            subst hl hr
          case false.false =>
            have hNone : l.handsOver codec (.settle place outcome response) = none := by
              simp [World.handsOver, hAck]
            exact ⟨fun _ => ⟨fun _ => Or.inl (h.erased place), by simp [hNone]⟩,
              fun hNot => absurd rfl hNot⟩
          case false.true =>
            exact ⟨fun hSame => absurd hSame (by decide),
              fun _ => (h.symm.view_ne_released rfl).symm⟩
          case true.false =>
            exact ⟨fun hSame => absurd hSame (by decide), fun _ => h.view_ne_released rfl⟩
          case true.true =>
            rw [World.handsOver_settle handling hAck]
            exact ⟨fun _ => hReleased.advance, fun hNot => absurd rfl hNot⟩

/-- Where nothing is ever handed over, nothing ever is. -/
theorem World.Dead.step (hText : codec.WritesText) {w w' : World Evt} (h : w.Dead)
    {action : Action Evt} (hAction : Shared action ∨ Listens w action)
    (hStep : w.step codec workers fns action = some w') : w'.Dead := by
  cases action with
  | publish event =>
      cases hItem : w.publisher.serialized codec event with
      | error reason =>
          rw [World.step_publish_error hItem] at hStep
          cases hStep
          exact h
      | ok item =>
          obtain ⟨queue, hQueue, hSound, hPublish⟩ :=
            World.step_publish workers fns hText h.sound hItem
          obtain rfl := Option.some.inj (hPublish.symm.trans hStep)
          have hEnqueued : (w.enqueued queue).Dead := by
            refine ⟨hSound, h.running, Or.inr ?_, h.unseen⟩
            change queue.contents ≠ []
            rw [hQueue]
            exact List.append_ne_nil_of_right_ne_nil _ (List.cons_ne_nil _ _)
          by_cases hAlone : w.waiting = []
          · have hBusy : w.publisher.status ≠ .IDLE :=
              h.stopped.resolve_right fun hSome => hSome hAlone
            rw [if_pos hAlone, World.advance_of_stopped hSound (Or.inl hBusy)]
            exact hEnqueued
          · rw [if_neg hAlone]
            exact hEnqueued
  | subscribe =>
      cases hStep
      exact ⟨h.sound.subscribe, h.running, h.stopped, h.unseen⟩
  | listen =>
      cases hStep
      exact ⟨h.sound.listen, h.running, h.stopped, h.unseen⟩
  | unsubscribe key =>
      cases hStep
      have hKey : key ∉ w.publisher.workerKeys := hAction.resolve_left id
      exact ⟨h.sound.unsubscribe hKey, h.running, h.stopped, h.unseen⟩
  | rewrite delivery change =>
      cases hStep
      refine ⟨⟨h.sound.queue, h.sound.subscribers, h.sound.called⟩, ?_, h.stopped, h.unseen⟩
      change w.running.map _ = []
      rw [h.running]
      rfl
  | settle place outcome response => simp [World.step, h.running] at hStep

/-- What both runs do keeps them linked if they are not disturbed, and the
workers can tell them apart from then on if they are. -/
theorem InStep.both (hText : codec.WritesText) (h : InStep l r) {action : Action Evt}
    (hShared : Shared action) (hl : l.step codec workers left action = some l')
    (hr : r.step codec workers right action = some r') :
    (Pair.Undisturbed codec workers left right ⟨l, r⟩ (.both action) → Linked l' r') ∧
      (¬ Pair.Undisturbed codec workers left right ⟨l, r⟩ (.both action) →
        l'.view ≠ r'.view) := by
  cases action with
  | publish event =>
      obtain ⟨hLinked, hApart⟩ := h.publish hText hl hr
      refine ⟨fun hAlike => hLinked hAlike.2, fun hNot => hApart ?_⟩
      by_contra hNone
      push Not at hNone
      exact hNot ⟨trivial, hNone⟩
  | settle place outcome response =>
      obtain ⟨hSame, hOther⟩ := h.settle hl hr
      refine ⟨fun hAlike => (hSame hAlike.1).1 hAlike.2, fun hNot => ?_⟩
      by_cases hAck : l.acknowledges place outcome response = r.acknowledges place outcome response
      · apply (hSame hAck).2
        by_contra hNone
        push Not at hNone
        exact hNot ⟨hAck, hNone⟩
      · exact hOther hAck
  | subscribe =>
      cases hl
      cases hr
      refine ⟨fun _ => Or.inl h.subscribe, fun hNot => absurd ⟨trivial, ?_⟩ hNot⟩
      exact fun evt hEvt => absurd hEvt (Option.not_mem_none evt)
  | rewrite delivery change =>
      cases hl
      cases hr
      refine ⟨fun _ => Or.inl ?_, fun hNot => absurd ⟨trivial, ?_⟩ hNot⟩
      · exact ((h.rewrite delivery change).symm.rewrite delivery change).symm
      · exact fun evt hEvt => absurd hEvt (Option.not_mem_none evt)
  | listen | unsubscribe => exact False.elim hShared

section SampleListeners

/-- Every listener throws at every message. -/
def throwing : ListenerFns Message where
  rewrites _ _ evt := evt
  throws _ _ _ := true

end SampleListeners

end Moirae.Listening
