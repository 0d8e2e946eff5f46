import Moirae.Core.EventSource
import Moirae.Core.MemoryPublisherRuns

/-! Runs of the in-memory store with subscribers that act while an event is
handed to them: they may read, append, subscribe and unsubscribe before the
call that reached them goes on. -/
namespace Moirae.MemoryStore

variable {Data : Type}

/-- Synchronous code that is under way. -/
inductive Frame (Data : Type)
  /-- The loop of `appendToStream`, with the events still to come. -/
  | appending (batch : Nat) (rest : List (IEvent Data))
  /-- The listeners are being called with an event. -/
  | delivering

/-- The store, its own publisher, and the code under way, innermost first. A
call of `appendToStream` is known by its number; `pushed` are the events pushed
to the streams and `origins` the batches of the texts published, in order. -/
structure World (Data : Type) where
  bus : MemoryPublisher.World (IEvent Data)
  store : MemoryStore Data
  frames : List (Frame Data)
  batches : List (List (IEvent Data))
  pushed : List (Nat × IEvent Data)
  origins : List Nat

inductive Action (Data : Type)
  | appendToStream (eventList : List (IEvent Data))
  /-- The innermost loop comes to its next event. -/
  | turn
  /-- The innermost code under way ends. -/
  | leave
  | subscribe
  | listen
  | unsubscribe (key : Uuid)
  | settle (place : Nat) (outcome : Outcome) (response : Except Thrown Unit)

namespace World

variable (codec : EventProcessor (IEvent Data)) (throws : Nat → Uuid → Bool)

def bootstrapped (nodeId : Option String) : World Data :=
  { bus := .initial nodeId, store := .bootstrapped, frames := [], batches := [], pushed := []
    origins := [] }

/-- Code outside the store may act: between two tasks of the event loop, or as a
subscriber that was just called. -/
def OthersAct (w : World Data) : Prop :=
  w.frames = [] ∨ w.frames.head? matches some .delivering

instance (w : World Data) : Decidable w.OthersAct := inferInstanceAs (Decidable (_ ∨ _))

/-- The bus takes a step; what it hands over is delivered before the frames that
are there go on. -/
def advanced (w : World Data) (bus : MemoryPublisher.World (IEvent Data))
    (frames : List (Frame Data)) : World Data :=
  { w with
    bus
    frames := if w.bus.handed.length < bus.handed.length then .delivering :: frames else frames }

/-- After a turn of the loop: the event is pushed, and published if it can be
serialised. -/
def turned (w : World Data) (batch : Nat) (event : IEvent Data) (rest : List (IEvent Data))
    (frames : List (Frame Data)) (bus : MemoryPublisher.World (IEvent Data)) : World Data :=
  let sent := match MemoryPublisher.serialized codec w.bus.publisher event with
    | .error _ => []
    | .ok _ => [batch]
  { w.advanced bus (.appending batch rest :: frames) with
    store := w.store.push event
    pushed := w.pushed ++ [(batch, event)]
    origins := w.origins ++ sent }

/-- Subscribing and unsubscribing, by the code outside the store. -/
def resubscribe (w : World Data) (action : MemoryPublisher.Action (IEvent Data)) :
    Option (World Data) :=
  if w.OthersAct then
    (MemoryPublisher.World.step codec throws w.bus action).map fun bus => { w with bus }
  else none

/-- One step of a run. The loop of `appendToStream` pushes and publishes event by
event. Promises settle between two tasks, when no code is under way. -/
def step (w : World Data) : Action Data → Option (World Data)
  | .appendToStream eventList =>
      if w.OthersAct then some
        { w with
          frames := .appending w.batches.length eventList :: w.frames
          batches := w.batches ++ [eventList] }
      else none
  | .turn =>
      match w.frames with
      | .appending batch (event :: rest) :: frames =>
          (MemoryPublisher.World.step codec throws w.bus (.publish event)).map
            (w.turned codec batch event rest frames)
      | _ => none
  | .leave =>
      match w.frames with
      | .appending _ [] :: frames => some { w with frames }
      | .delivering :: frames => some { w with frames }
      | _ => none
  | .subscribe => w.resubscribe codec throws .subscribe
  | .listen => w.resubscribe codec throws .listen
  | .unsubscribe key => w.resubscribe codec throws (.unsubscribe key)
  | .settle place outcome response =>
      match w.frames with
      | [] => (MemoryPublisher.World.step codec throws w.bus
          (.settle place outcome response)).map fun bus => w.advanced bus []
      | _ => none

/-- The texts taken from the queue so far, each with the batch it comes from. -/
def taken (w : World Data) : List (Nat × String) :=
  (w.origins.zip w.bus.published).take (w.bus.published.length - w.bus.waiting.length)

/-- Those of them that were handed over: what cannot be parsed is taken from the
queue all the same, and reaches nobody. -/
def delivered (w : World Data) : List (Nat × String) :=
  w.taken.filter (codec.CanParse ·.2)

/-- Deliveries and streams fit together: what waits are the last texts published,
the deliveries made so far are the other ones that can be parsed, the streams have
the events pushed, and each batch of which an event was delivered is whole. -/
structure Intact (w : World Data) : Prop where
  reads : ∀ streamId, w.store.readFromStream streamId =
    (EventSource.entries w.pushed streamId).map Prod.snd
  order : w.bus.waiting <:+ w.bus.published
  traced : w.origins.length = w.bus.published.length
  handed : w.bus.handed.map MemoryPublisher.Delivery.item = (w.delivered codec).map Prod.snd
  whole : ∀ entry ∈ w.delivered codec, ∀ events, w.batches[entry.1]? = some events →
    EventSource.Whole w.pushed entry.1 events

/-- The publisher hands over at once what is published to it now. -/
def ReadyFor (w : World Data) (event : IEvent Data) : Prop :=
  (∃ text, MemoryPublisher.serialized codec w.bus.publisher event = .ok text ∧
    codec.CanParse text) ∧
    w.bus.waiting = [] ∧ w.bus.publisher.status = .IDLE ∧
    w.bus.publisher.distributor.listenerCount ≠ 0

/-- Only the last event of a batch is handed over by the loop itself. -/
def DeliversLast (w : World Data) : Action Data → Prop
  | .turn => match w.frames with
    | .appending _ (event :: rest) :: _ => w.ReadyFor codec event → rest = []
    | _ => True
  | _ => True

/-- The loop of this batch is the innermost code, with events still to come. -/
def Unfinished (w : World Data) (batch : Nat) : Prop :=
  ∃ event rest frames, w.frames = .appending batch (event :: rest) :: frames

/-- What carries the induction, as long as every delivery was of a whole batch:
a loop that was interrupted by a delivery had no event left. -/
structure Sound (w : World Data) : Prop where
  bus : w.bus.Sound
  suspended : ∀ frame ∈ w.frames.tail, ∀ batch rest, frame = .appending batch rest → rest = []
  loop : ∀ batch event rest frames, w.frames = .appending batch (event :: rest) :: frames →
    ∃ done before, w.batches[batch]? = some (done ++ event :: rest) ∧
      w.pushed = before ++ EventSource.tagged batch done ∧ ∀ entry ∈ before, entry.1 ≠ batch
  finished : ∀ batch events, w.batches[batch]? = some events → ¬ w.Unfinished batch →
    EventSource.tagged batch events <:+: w.pushed
  numbered : ∀ entry ∈ w.pushed, entry.1 < w.batches.length
  known : ∀ batch ∈ w.origins, batch < w.batches.length

theorem sound_bootstrapped (nodeId : Option String) : (bootstrapped nodeId : World Data).Sound where
  bus := MemoryPublisher.World.sound_initial nodeId
  suspended := by simp [bootstrapped]
  loop := by simp [bootstrapped]
  finished := by simp [bootstrapped]
  numbered := by simp [bootstrapped]
  known := by simp [bootstrapped]

theorem intact_bootstrapped (nodeId : Option String) :
    (bootstrapped nodeId : World Data).Intact codec where
  reads := fun _ => rfl
  order := List.suffix_refl _
  traced := rfl
  handed := rfl
  whole := List.forall_mem_nil _

variable {codec throws} {w : World Data}

theorem not_unfinished_of_othersAct (h : w.OthersAct) (batch : Nat) : ¬ w.Unfinished batch := by
  rintro ⟨event, rest, frames, hFrames⟩
  rw [OthersAct, hFrames] at h
  simp at h

/-- While others act, no frame has events left. -/
theorem Sound.all_suspended (h : w.Sound) (hOthers : w.OthersAct) :
    ∀ frame ∈ w.frames, ∀ batch rest, frame = .appending batch rest → rest = [] := by
  intro frame hFrame batch rest hEq
  cases hFrames : w.frames with
  | nil => simp [hFrames] at hFrame
  | cons head tail =>
      rw [hFrames, List.mem_cons] at hFrame
      rcases hFrame with rfl | hTail
      · rw [OthersAct, hFrames, hEq] at hOthers
        simp at hOthers
      · exact h.suspended frame (hFrames ▸ hTail) batch rest hEq

theorem unfinished_iff {batch other : Nat} {event : IEvent Data} {rest : List (IEvent Data)}
    {frames : List (Frame Data)} (hFrames : w.frames = .appending batch (event :: rest) :: frames) :
    w.Unfinished other ↔ other = batch := by
  constructor
  · rintro ⟨next, rest', frames', hHead⟩
    rw [hFrames] at hHead
    exact (Frame.appending.inj (List.cons.inj hHead).1).1.symm
  · rintro rfl
    exact ⟨event, rest, frames, hFrames⟩

/-- The texts that a step of the bus takes join the texts taken before. -/
theorem Intact.taken_next (h : w.Intact codec) {t : World Data}
    {action : MemoryPublisher.Action (IEvent Data)} {batches : List Nat}
    (hAccount : MemoryPublisher.World.Accounted codec w.bus action t.bus)
    (hOrigins : t.origins = w.origins ++ batches)
    (hLength : batches.length = (w.bus.sends codec action).toList.length) :
    ∃ more, t.taken = w.taken ++ more ∧ more.map Prod.snd = (w.bus.takes codec action).toList ∧
      (w.bus.waiting = [] → ∀ entry ∈ more, entry.1 ∈ batches) := by
  obtain ⟨before, hBefore⟩ := h.order
  let sent := (w.bus.sends codec action).toList
  let texts := (w.bus.takes codec action).toList
  have hPublished : t.bus.published = before ++ (texts ++ t.bus.waiting) := by
    rw [hAccount.published, ← hBefore, List.append_assoc, hAccount.waiting]
  have hZip : t.origins.zip t.bus.published =
      w.origins.zip w.bus.published ++ batches.zip sent := by
    rw [hOrigins, hAccount.published, List.zip_append h.traced]
  have hSnd : (t.origins.zip t.bus.published).map Prod.snd = t.bus.published := by
    refine List.map_snd_zip (Nat.le_of_eq ?_)
    rw [hOrigins, hAccount.published, List.length_append, List.length_append, h.traced, hLength]
  have hOld : w.bus.published.length - w.bus.waiting.length = before.length := by
    rw [← hBefore, List.length_append, Nat.add_sub_cancel_right]
  have hNew : t.bus.published.length - t.bus.waiting.length = before.length + texts.length := by
    rw [hPublished, List.length_append, List.length_append]
    omega
  have hZipLength : (w.origins.zip w.bus.published).length =
      before.length + w.bus.waiting.length := by
    rw [List.length_zip, h.traced, Nat.min_self, ← hBefore, List.length_append]
  refine ⟨((t.origins.zip t.bus.published).drop before.length).take texts.length, ?_, ?_, ?_⟩
  · rw [taken, taken, hNew, hOld, List.take_add, hZip,
      List.take_append_of_le_length (by omega)]
  · rw [List.map_take, List.map_drop, hSnd, hPublished, List.drop_left, List.take_left]
  · intro hEmpty entry hEntry
    rw [hEmpty, List.length_nil, Nat.add_zero] at hZipLength
    rw [hZip, ← hZipLength, List.drop_left] at hEntry
    exact (List.of_mem_zip (List.mem_of_mem_take hEntry)).1

/-- Those that can be parsed are delivered. -/
theorem Intact.delivered_next (h : w.Intact codec) {t : World Data}
    {action : MemoryPublisher.Action (IEvent Data)} {batches : List Nat}
    (hAccount : MemoryPublisher.World.Accounted codec w.bus action t.bus)
    (hOrigins : t.origins = w.origins ++ batches)
    (hLength : batches.length = (w.bus.sends codec action).toList.length) :
    ∃ more, t.delivered codec = w.delivered codec ++ more ∧
      more.map Prod.snd = (w.bus.takes codec action).toList.filter (codec.CanParse ·) ∧
      (w.bus.waiting = [] → ∀ entry ∈ more, entry.1 ∈ batches) := by
  obtain ⟨more, hTaken, hTexts, hFrom⟩ := h.taken_next hAccount hOrigins hLength
  refine ⟨more.filter (codec.CanParse ·.2), ?_, ?_, ?_⟩
  · rw [delivered, hTaken, List.filter_append, ← delivered]
  · rw [← hTexts, List.filter_map]
    rfl
  · exact fun hEmpty entry hEntry => hFrom hEmpty entry (List.mem_of_mem_filter hEntry)

/-- A step of the bus is safe when what it hands over is of whole batches. -/
theorem Intact.next (h : w.Intact codec) {t : World Data}
    {action : MemoryPublisher.Action (IEvent Data)} {batches : List Nat}
    (hAccount : MemoryPublisher.World.Accounted codec w.bus action t.bus)
    (hOrigins : t.origins = w.origins ++ batches)
    (hLength : batches.length = (w.bus.sends codec action).toList.length)
    (hReads : ∀ streamId, t.store.readFromStream streamId =
      (EventSource.entries t.pushed streamId).map Prod.snd)
    (hBatches : t.batches = w.batches) (hPushed : w.pushed <+: t.pushed)
    (hWhole : (∃ text ∈ w.bus.takes codec action, codec.CanParse text) → ∀ batch,
      (w.bus.waiting = [] → batch ∈ batches) → ∀ events, w.batches[batch]? = some events →
        EventSource.Whole t.pushed batch events) : t.Intact codec := by
  obtain ⟨more, hDelivered, hTexts, hFrom⟩ := h.delivered_next hAccount hOrigins hLength
  refine ⟨hReads, hAccount.waiting_suffix h.order, ?_, ?_, ?_⟩
  · rw [hOrigins, hAccount.published, List.length_append, List.length_append, h.traced, hLength]
  · rw [hAccount.handed, h.handed, hDelivered, List.map_append, hTexts]
  · intro entry hEntry events hEvents
    rw [hBatches] at hEvents
    rw [hDelivered, List.mem_append] at hEntry
    rcases hEntry with hOld | hNew
    · obtain ⟨extra, hExtra⟩ := hPushed
      rw [← hExtra]
      exact (h.whole entry hOld events hEvents).append extra
    · have hText : entry.2 ∈ (w.bus.takes codec action).toList.filter (codec.CanParse ·) :=
        hTexts ▸ List.mem_map_of_mem hNew
      obtain ⟨hTakes, hParse⟩ := List.mem_filter.mp hText
      exact hWhole ⟨entry.2, Option.mem_toList.mp hTakes, of_decide_eq_true hParse⟩ entry.1
        (fun hEmpty => hFrom hEmpty entry hNew) events hEvents

theorem Sound.appendToStream (h : w.Sound) (hOthers : w.OthersAct)
    (eventList : List (IEvent Data)) :
    World.Sound
      { w with
        frames := .appending w.batches.length eventList :: w.frames
        batches := w.batches ++ [eventList] } where
  bus := h.bus
  suspended := h.all_suspended hOthers
  loop := by
    intro batch event rest frames hFrames
    obtain ⟨hFrame, -⟩ := List.cons.inj hFrames
    obtain ⟨rfl, rfl⟩ := Frame.appending.inj hFrame
    refine ⟨[], w.pushed, by simp, by simp [EventSource.tagged], ?_⟩
    exact fun entry hEntry => Nat.ne_of_lt (h.numbered entry hEntry)
  finished := by
    intro batch events hEvents hFinished
    rw [List.getElem?_append] at hEvents
    split at hEvents
    · exact h.finished batch events hEvents (not_unfinished_of_othersAct hOthers batch)
    · rename_i hLength
      have hLast : batch = w.batches.length := by
        have hBound := (List.getElem?_eq_some_iff.mp hEvents).1
        simp at hBound
        omega
      subst hLast
      have hList : eventList = events := by simpa using hEvents
      subst hList
      cases eventList with
      | nil => exact ⟨[], w.pushed, rfl⟩
      | cons event rest => exact absurd ⟨event, rest, w.frames, rfl⟩ hFinished
  numbered := by
    intro entry hEntry
    rw [List.length_append]
    exact Nat.lt_add_right _ (h.numbered entry hEntry)
  known := by
    intro batch hBatch
    rw [List.length_append]
    exact Nat.lt_add_right _ (h.known batch hBatch)

/-- What is delivered is of batches that were given to `appendToStream`. -/
theorem Sound.lt_of_delivered (h : w.Sound) {entry : Nat × String}
    (hEntry : entry ∈ w.delivered codec) : entry.1 < w.batches.length :=
  h.known entry.1 (List.of_mem_zip (List.mem_of_mem_take (List.mem_of_mem_filter hEntry))).1

theorem Intact.appendToStream (h : w.Intact codec) (hSound : w.Sound)
    (frames : List (Frame Data)) (eventList : List (IEvent Data)) :
    World.Intact codec { w with frames, batches := w.batches ++ [eventList] } where
  reads := h.reads
  order := h.order
  traced := h.traced
  handed := h.handed
  whole := by
    intro entry hEntry events hEvents
    have hOld : (w.batches ++ [eventList])[entry.1]? = some events := hEvents
    rw [List.getElem?_append_left (hSound.lt_of_delivered hEntry)] at hOld
    exact h.whole entry hEntry events hOld

theorem Sound.leave (h : w.Sound) {frame : Frame Data} {frames : List (Frame Data)}
    (hFrames : w.frames = frame :: frames)
    (hDone : ∀ batch rest, frame = .appending batch rest → rest = []) :
    World.Sound { w with frames } := by
  have hTail : ∀ f ∈ frames, ∀ batch rest, f = .appending batch rest → rest = [] := by
    intro f hf
    refine h.suspended f ?_
    rw [hFrames]
    exact hf
  have hFinished : ∀ batch, ¬ w.Unfinished batch := by
    rintro batch ⟨event, rest, others, hOther⟩
    rw [hFrames] at hOther
    exact List.cons_ne_nil _ _ (hDone batch _ (List.cons.inj hOther).1)
  exact
    { bus := h.bus
      suspended := fun f hf => hTail f (List.mem_of_mem_tail hf)
      loop := by
        intro batch event rest others hOther
        have hHead : frames = .appending batch (event :: rest) :: others := hOther
        have hEmpty := hTail (.appending batch (event :: rest)) (by simp [hHead]) batch _ rfl
        cases hEmpty
      finished := fun batch events hEvents _ => h.finished batch events hEvents (hFinished batch)
      numbered := h.numbered
      known := h.known }

/-- A step of the bus outside the loops. -/
theorem Sound.of_bus (h : w.Sound) (hOthers : w.OthersAct)
    {bus : MemoryPublisher.World (IEvent Data)} (hBus : bus.Sound)
    {frames : List (Frame Data)} (hFrames : frames = w.frames ∨ frames = .delivering :: w.frames) :
    World.Sound { w with bus, frames } := by
  have hAll := h.all_suspended hOthers
  have hMem : ∀ f ∈ frames, ∀ batch rest, f = .appending batch rest → rest = [] := by
    intro f hf batch rest hEq
    rcases hFrames with rfl | rfl
    · exact hAll f hf batch rest hEq
    · rcases List.mem_cons.mp hf with rfl | hOld
      · cases hEq
      · exact hAll f hOld batch rest hEq
  exact
    { bus := hBus
      suspended := fun f hf => hMem f (List.mem_of_mem_tail hf)
      loop := by
        intro batch event rest others hOther
        have hHead : frames = .appending batch (event :: rest) :: others := hOther
        have hEmpty := hMem (.appending batch (event :: rest)) (by simp [hHead]) batch _ rfl
        cases hEmpty
      finished := fun batch events hEvents _ =>
        h.finished batch events hEvents (not_unfinished_of_othersAct hOthers batch)
      numbered := h.numbered
      known := h.known }

theorem entries_singleton (batch : Nat) (event : IEvent Data) (streamId : String) :
    (EventSource.entries [(batch, event)] streamId).map Prod.snd =
      [event].filter (·.streamId = streamId) := by
  by_cases hStream : event.streamId = streamId <;> simp [EventSource.entries, hStream]

/-- The publisher is ready exactly if it takes the text at once and can parse it. -/
theorem readyFor_iff {event : IEvent Data} :
    w.ReadyFor codec event ↔
      ∃ text ∈ w.bus.takes codec (.publish event), codec.CanParse text := by
  rw [ReadyFor, MemoryPublisher.World.takes]
  split
  · rename_i hReady
    cases MemoryPublisher.serialized codec w.bus.publisher event with
    | error reason => simp [Except.toOption]
    | ok text => simp [Except.toOption, hReady]
  · rename_i hBlocked
    refine iff_of_false ?_ (by simp)
    rintro ⟨-, hWaiting, hIdle, hCount⟩
    exact hBlocked ⟨hCount, hIdle, hWaiting⟩

/-- A turn makes a delivery exactly if the publisher is ready. -/
theorem handed_lt_iff {event : IEvent Data} {bus : MemoryPublisher.World (IEvent Data)}
    (hAccount : MemoryPublisher.World.Accounted codec w.bus (.publish event) bus) :
    w.bus.handed.length < bus.handed.length ↔ w.ReadyFor codec event := by
  rw [hAccount.length_handed, Nat.lt_add_right_iff_pos, List.length_pos_iff_exists_mem,
    readyFor_iff]
  simp only [List.mem_filter, Option.mem_toList, Option.mem_def, decide_eq_true_eq]

/-- The text that a turn publishes is one of its batch. -/
theorem origins_turned (batch : Nat) (event : IEvent Data) (rest : List (IEvent Data))
    (frames : List (Frame Data)) (bus : MemoryPublisher.World (IEvent Data)) :
    (w.turned codec batch event rest frames bus).origins =
      w.origins ++ (w.bus.sends codec (.publish event)).toList.map fun _ => batch := by
  rw [turned, MemoryPublisher.World.sends]
  cases MemoryPublisher.serialized codec w.bus.publisher event <;> rfl

/-- What the loop has pushed of its batch after the turn. -/
theorem pushed_turned {before : List (Nat × IEvent Data)} {batch : Nat}
    {done : List (IEvent Data)} (event : IEvent Data)
    (hPushed : w.pushed = before ++ EventSource.tagged batch done) :
    w.pushed ++ [(batch, event)] = before ++ EventSource.tagged batch (done ++ [event]) := by
  rw [hPushed, List.append_assoc]
  simp [EventSource.tagged]

theorem pushed_of_last {before : List (Nat × IEvent Data)} {batch : Nat}
    {done : List (IEvent Data)} (event : IEvent Data)
    (hPushed : w.pushed = before ++ EventSource.tagged batch done) :
    EventSource.tagged batch (done ++ [event]) <:+: w.pushed ++ [(batch, event)] := by
  rw [pushed_turned event hPushed]
  exact (List.suffix_append _ _).isInfix

/-- After an event that is handed over, no event of its batch may be left. -/
theorem rest_eq_nil_of_intact (h : w.Intact codec) (hSound : w.Sound)
    {batch : Nat} {event : IEvent Data} {rest : List (IEvent Data)}
    {frames : List (Frame Data)} (hFrames : w.frames = .appending batch (event :: rest) :: frames)
    {bus : MemoryPublisher.World (IEvent Data)}
    (hAccount : MemoryPublisher.World.Accounted codec w.bus (.publish event) bus)
    (hIntact : (w.turned codec batch event rest frames bus).Intact codec)
    (hReady : w.ReadyFor codec event) : rest = [] := by
  obtain ⟨done, before, hBatch, hPushed, hBefore⟩ := hSound.loop batch event rest frames hFrames
  obtain ⟨text, hTakes, hParse⟩ := readyFor_iff.mp hReady
  obtain ⟨more, hDelivered, hTexts, hFrom⟩ := h.delivered_next
    (t := w.turned codec batch event rest frames bus) hAccount
    (origins_turned batch event rest frames bus) (List.length_map _)
  have hText : text ∈ more.map Prod.snd := by
    rw [hTexts]
    exact List.mem_filter.mpr ⟨Option.mem_toList.mpr hTakes, decide_eq_true hParse⟩
  obtain ⟨entry, hEntry, -⟩ := List.mem_map.mp hText
  obtain ⟨-, -, hOwn⟩ := List.mem_map.mp (hFrom hReady.2.1 entry hEntry)
  have hMem : entry ∈ (w.turned codec batch event rest frames bus).delivered codec := by
    rw [hDelivered]
    exact List.mem_append_right _ hEntry
  have hWhole := hIntact.whole entry hMem _ (hOwn ▸ hBatch)
  cases rest with
  | nil => rfl
  | cons next rest' =>
      rw [List.append_cons, ← hOwn] at hWhole
      exact absurd hWhole (EventSource.not_whole_of_pending (pushed_turned event hPushed) hBefore)

/-- A turn is safe exactly if it hands nothing over before the end of the batch. -/
theorem turned_intact_iff (h : w.Intact codec) (hSound : w.Sound)
    {batch : Nat} {event : IEvent Data} {rest : List (IEvent Data)}
    {frames : List (Frame Data)} (hFrames : w.frames = .appending batch (event :: rest) :: frames)
    {bus : MemoryPublisher.World (IEvent Data)}
    (hAccount : MemoryPublisher.World.Accounted codec w.bus (.publish event) bus) :
    (w.turned codec batch event rest frames bus).Intact codec ↔
      (w.ReadyFor codec event → rest = []) := by
  constructor
  · exact rest_eq_nil_of_intact h hSound hFrames hAccount
  · intro hLast
    refine h.next (t := w.turned codec batch event rest frames bus) hAccount
      (origins_turned batch event rest frames bus) (List.length_map _) ?_ rfl
      (List.prefix_append _ _) ?_
    · intro streamId
      change (w.store.push event).readFromStream streamId =
        (EventSource.entries (w.pushed ++ [(batch, event)]) streamId).map Prod.snd
      rw [readFromStream_push, EventSource.entries_append, List.map_append, h.reads,
        entries_singleton]
    · intro hTaken other hOther events hEvents
      obtain ⟨done, before, hBatch, hPushed, -⟩ :=
        hSound.loop batch event rest frames hFrames
      have hReady : w.ReadyFor codec event := readyFor_iff.mpr hTaken
      obtain ⟨-, -, rfl⟩ := List.mem_map.mp (hOther hReady.2.1)
      obtain rfl := Option.some.inj (hBatch.symm.trans hEvents)
      obtain rfl := hLast hReady
      exact EventSource.whole_of_infix (pushed_of_last event hPushed)

/-- A delivery stands before the loop only when the loop has no event left. -/
theorem frames_turned (batch : Nat) {event : IEvent Data} {rest : List (IEvent Data)}
    (frames : List (Frame Data)) {bus : MemoryPublisher.World (IEvent Data)}
    (hAccount : MemoryPublisher.World.Accounted codec w.bus (.publish event) bus)
    (hLast : w.ReadyFor codec event → rest = []) :
    (w.turned codec batch event rest frames bus).frames =
        .delivering :: .appending batch rest :: frames ∧ rest = [] ∨
      (w.turned codec batch event rest frames bus).frames = .appending batch rest :: frames := by
  change (if w.bus.handed.length < bus.handed.length then _ else _) = _ ∧ _ ∨
    (if w.bus.handed.length < bus.handed.length then _ else _) = _
  by_cases hMore : w.bus.handed.length < bus.handed.length
  · exact Or.inl ⟨if_pos hMore, hLast ((handed_lt_iff hAccount).mp hMore)⟩
  · exact Or.inr (if_neg hMore)

/-- A batch whose loop is over is in the streams as a whole, the one of the last
turn included. -/
theorem finished_turned (hSound : w.Sound)
    {batch : Nat} {event : IEvent Data} {rest : List (IEvent Data)}
    {frames : List (Frame Data)} (hFrames : w.frames = .appending batch (event :: rest) :: frames)
    {bus : MemoryPublisher.World (IEvent Data)}
    (hAccount : MemoryPublisher.World.Accounted codec w.bus (.publish event) bus)
    (hLast : w.ReadyFor codec event → rest = []) {b : Nat} {events : List (IEvent Data)}
    (hEvents : w.batches[b]? = some events)
    (hFinished : ¬(w.turned codec batch event rest frames bus).Unfinished b) :
    EventSource.tagged b events <:+: (w.turned codec batch event rest frames bus).pushed := by
  obtain ⟨done, before, hBatch, hPushed, -⟩ := hSound.loop batch event rest frames hFrames
  by_cases hSame : b = batch
  · subst hSame
    rw [hBatch] at hEvents
    obtain rfl := Option.some.inj hEvents
    have hDone : rest = [] := by
      rcases frames_turned b frames hAccount hLast with ⟨-, hDone⟩ | hNext
      · exact hDone
      · cases rest with
        | nil => rfl
        | cons next rest' => exact absurd ((unfinished_iff hNext).mpr rfl) hFinished
    subst hDone
    exact pushed_of_last event hPushed
  · have hOther : ¬ w.Unfinished b := mt (unfinished_iff hFrames).mp hSame
    exact (hSound.finished b events hEvents hOther).trans (List.prefix_append _ _).isInfix

theorem Sound.turned (hText : codec.WritesText) (hSound : w.Sound)
    {batch : Nat} {event : IEvent Data} {rest : List (IEvent Data)}
    {frames : List (Frame Data)} (hFrames : w.frames = .appending batch (event :: rest) :: frames)
    {bus : MemoryPublisher.World (IEvent Data)}
    (hStep : MemoryPublisher.World.step codec throws w.bus (.publish event) = some bus)
    (hLast : w.ReadyFor codec event → rest = []) :
    (w.turned codec batch event rest frames bus).Sound := by
  obtain ⟨done, before, hBatch, hPushed, hBefore⟩ := hSound.loop batch event rest frames hFrames
  have hPushed' := pushed_turned event hPushed
  have hLength : batch < w.batches.length := (List.getElem?_eq_some_iff.mp hBatch).1
  have hTail : ∀ f ∈ frames, ∀ b events, f = .appending b events → events = [] := by
    intro f hf
    refine hSound.suspended f ?_
    rw [hFrames]
    exact hf
  have hAccount := MemoryPublisher.World.step_accounted hText hSound.bus hStep
  have hNext := frames_turned batch frames hAccount hLast
  refine ⟨MemoryPublisher.World.step_sound hText hSound.bus hStep, ?_, ?_, ?_, ?_, ?_⟩
  · rcases hNext with ⟨hNext, rfl⟩ | hNext
    · rw [hNext]
      intro f hf b events hEq
      rcases List.mem_cons.mp hf with rfl | hOld
      · exact (Frame.appending.inj hEq).2.symm
      · exact hTail f hOld b events hEq
    · rw [hNext]
      exact hTail
  · intro b next others frames' hHead
    rcases hNext with ⟨hNext, -⟩ | hNext
    · rw [hNext] at hHead
      cases (List.cons.inj hHead).1
    · rw [hNext] at hHead
      obtain ⟨rfl, rfl⟩ := Frame.appending.inj (List.cons.inj hHead).1
      refine ⟨done ++ [event], before, ?_, hPushed', hBefore⟩
      rw [← List.append_cons]
      exact hBatch
  · intro b events hEvents hFinished
    exact finished_turned hSound hFrames hAccount hLast hEvents hFinished
  · intro entry hEntry
    rcases List.mem_append.mp hEntry with hOld | hNew
    · exact hSound.numbered entry hOld
    · rw [List.mem_singleton.mp hNew]
      exact hLength
  · intro b hOrigin
    rcases List.mem_append.mp hOrigin with hOld | hNew
    · exact hSound.known b hOld
    · split at hNew
      · cases hNew
      · rw [List.mem_singleton.mp hNew]
        exact hLength

/-- Outside the loops every batch is whole, so whatever the bus hands over then is
safe. -/
theorem Intact.of_bus (h : w.Intact codec) (hSound : w.Sound) (hOthers : w.OthersAct)
    {action : MemoryPublisher.Action (IEvent Data)}
    {bus : MemoryPublisher.World (IEvent Data)} (hSends : w.bus.sends codec action = none)
    (hAccount : MemoryPublisher.World.Accounted codec w.bus action bus)
    (frames : List (Frame Data)) : World.Intact codec { w with bus, frames } := by
  refine h.next (t := { w with bus, frames }) hAccount (List.append_nil _).symm ?_ h.reads rfl
    (List.prefix_refl _) ?_
  · rw [hSends]
    rfl
  · intro _ batch _ events hEvents
    exact EventSource.whole_of_infix
      (hSound.finished batch events hEvents (not_unfinished_of_othersAct hOthers batch))

/-- A settled worker may make the bus hand on the next event, with no loop under
way. -/
theorem settled_intact (hText : codec.WritesText) (h : w.Intact codec) (hSound : w.Sound)
    (hFrames : w.frames = []) {place : Nat} {outcome : Outcome}
    {response : Except Thrown Unit} {bus : MemoryPublisher.World (IEvent Data)}
    (hStep : MemoryPublisher.World.step codec throws w.bus (.settle place outcome response) =
      some bus) :
    (w.advanced bus []).Intact codec ∧ (w.advanced bus []).Sound := by
  have hOthers : w.OthersAct := Or.inl hFrames
  have hAccount := MemoryPublisher.World.step_accounted hText hSound.bus hStep
  refine ⟨h.of_bus hSound hOthers rfl hAccount _, ?_⟩
  refine hSound.of_bus hOthers (MemoryPublisher.World.step_sound hText hSound.bus hStep) ?_
  rw [hFrames]
  by_cases hMore : w.bus.handed.length < bus.handed.length
  · exact Or.inr (if_pos hMore)
  · exact Or.inl (if_neg hMore)

/-- Changing the subscriptions hands nothing over. -/
theorem resubscribed_intact (hText : codec.WritesText) (h : w.Intact codec) (hSound : w.Sound)
    {action : MemoryPublisher.Action (IEvent Data)} {t : World Data}
    (hSends : w.bus.sends codec action = none)
    (hStep : w.resubscribe codec throws action = some t) : t.Intact codec ∧ t.Sound := by
  rw [resubscribe] at hStep
  split at hStep
  case isFalse => cases hStep
  rename_i hOthers
  obtain ⟨bus, hBus, rfl⟩ := Option.map_eq_some_iff.mp hStep
  have hAccount := MemoryPublisher.World.step_accounted hText hSound.bus hBus
  exact ⟨h.of_bus hSound hOthers hSends hAccount w.frames,
    hSound.of_bus hOthers (MemoryPublisher.World.step_sound hText hSound.bus hBus) (Or.inl rfl)⟩

/-- One step: only a turn of a loop can hand an event over too early. -/
theorem step_spec (hText : codec.WritesText) {w t : World Data} {a : Action Data}
    (h : w.Intact codec) (hSound : w.Sound) (hStep : step codec throws w a = some t) :
    (t.Intact codec ↔ w.DeliversLast codec a) ∧ (t.Intact codec → t.Sound) := by
  cases a with
  | appendToStream eventList =>
      rw [step] at hStep
      split at hStep
      · rename_i hOthers
        obtain rfl := Option.some.inj hStep
        exact ⟨iff_of_true (h.appendToStream hSound _ eventList) trivial,
          fun _ => hSound.appendToStream hOthers eventList⟩
      · cases hStep
  | turn =>
      rw [step] at hStep
      split at hStep
      · rename_i batch event rest frames hFrames
        obtain ⟨bus, hBus, rfl⟩ := Option.map_eq_some_iff.mp hStep
        have hAccount := MemoryPublisher.World.step_accounted hText hSound.bus hBus
        have hIff := turned_intact_iff h hSound hFrames hAccount
        have hMeets : w.DeliversLast codec .turn ↔ (w.ReadyFor codec event → rest = []) := by
          rw [DeliversLast, hFrames]
        exact ⟨hIff.trans hMeets.symm, fun hIntact =>
          hSound.turned hText hFrames hBus (hIff.mp hIntact)⟩
      · cases hStep
  | leave =>
      rw [step] at hStep
      have hIntact : ∀ frames, World.Intact codec { w with frames } := fun frames =>
        ⟨h.reads, h.order, h.traced, h.handed, h.whole⟩
      split at hStep
      · rename_i batch frames hFrames
        obtain rfl := Option.some.inj hStep
        refine ⟨iff_of_true (hIntact _) trivial, fun _ => hSound.leave hFrames ?_⟩
        rintro b rest hEq
        exact (Frame.appending.inj hEq).2.symm
      · rename_i frames hFrames
        obtain rfl := Option.some.inj hStep
        refine ⟨iff_of_true (hIntact _) trivial, fun _ => hSound.leave hFrames ?_⟩
        rintro b rest hEq
        cases hEq
      · cases hStep
  | subscribe | listen | unsubscribe key =>
      obtain ⟨hIntact, hNext⟩ := resubscribed_intact hText h hSound rfl hStep
      exact ⟨iff_of_true hIntact trivial, fun _ => hNext⟩
  | settle place outcome response =>
      rw [step] at hStep
      split at hStep
      · rename_i hFrames
        obtain ⟨bus, hBus, rfl⟩ := Option.map_eq_some_iff.mp hStep
        obtain ⟨hIntact, hNext⟩ := settled_intact hText h hSound hFrames hBus
        exact ⟨iff_of_true hIntact trivial, fun _ => hNext⟩
      · cases hStep

/-- In a run of the in-memory store, with whatever the subscribers do, every
event is handed over with its whole batch in the streams exactly if the loop of
`appendToStream` hands over nothing but last events. -/
theorem intact_iff_deliversLast (hText : codec.WritesText) (throws : Nat → Uuid → Bool)
    (nodeId : Option String) (actions : List (Action Data)) :
    Runs.Always (step codec throws) (Intact codec) (bootstrapped nodeId) actions ↔
      Runs.StepsMeet (step codec throws) (DeliversLast codec) (bootstrapped nodeId) actions := by
  refine Runs.always_iff_stepsMeet_while Sound (fun _ => True) ?_ ?_
    (sound_bootstrapped nodeId) (intact_bootstrapped codec nodeId) (fun _ _ => trivial)
  · intro w a t _ hSound h hStep hIntact
    exact (step_spec hText h hSound hStep).2 hIntact
  · intro w a t _ hSound h hStep
    exact (step_spec hText h hSound hStep).1

end World

end Moirae.MemoryStore
