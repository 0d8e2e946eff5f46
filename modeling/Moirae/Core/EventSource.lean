import Moirae.Core.MemoryPublisher
import Moirae.Core.MemoryStore

/-! What a call of `appendToStream` comes to when publishing may fail, and the
in-memory store's `appendToStream` over any publisher. -/
namespace Moirae

/-- How a publisher answers `publish`, and the state it is in afterwards. -/
abbrev Publish (Publisher Data : Type) : Type :=
  Publisher → IEvent Data → Publisher × Except Thrown Unit

namespace EventSource

variable {Publisher Data : Type}

/-- A finished call: the streams before and after it, its result, and the events
that the publisher took from it, in order. -/
structure Appended (Data : Type) where
  before : String → List (IEvent Data)
  after : String → List (IEvent Data)
  result : Except Thrown (List (IEvent Data))
  handed : List (IEvent Data)

/-- All or nothing: a resolved call has stored every event in its stream (stored
events are known by their uuid) and handed each to the publisher once, a
rejected one has stored nothing. -/
def Appended.AllOrNothing (eventList : List (IEvent Data)) (call : Appended Data) : Prop :=
  match call.result with
  | .ok _ => (∀ event ∈ eventList, event.uuid ∈ (call.after event.streamId).map IEvent.uuid) ∧
      call.handed = eventList
  | .error _ => call.after = call.before

/-- Publishing the events one after the other succeeds for each. -/
def AllPublish (publish : Publish Publisher Data) : Publisher → List (IEvent Data) → Prop
  | _, [] => True
  | publisher, event :: events =>
      (publish publisher event).2 = .ok () ∧
        AllPublish publish (publish publisher event).1 events

/-- The events that were taken, when publishing goes on after a failure. -/
def publishEach (publish : Publish Publisher Data) :
    Publisher → List (IEvent Data) → Publisher × List (IEvent Data)
  | publisher, [] => (publisher, [])
  | publisher, event :: events =>
      let published := publish publisher event
      let (last, handed) := publishEach publish published.1 events
      match published.2 with
      | .ok _ => (last, event :: handed)
      | .error _ => (last, handed)

theorem publishEach_sublist (publish : Publish Publisher Data) (publisher : Publisher)
    (events : List (IEvent Data)) : (publishEach publish publisher events).2.Sublist events := by
  induction events generalizing publisher with
  | nil => exact List.Sublist.refl []
  | cons event events ih =>
      rw [publishEach]
      cases hResult : (publish publisher event).2 with
      | ok _ => simpa [hResult] using ih (publish publisher event).1
      | error reason => simpa [hResult] using (ih (publish publisher event).1).cons event

/-- Every event was taken exactly if no publishing failed. -/
theorem publishEach_eq_iff {publish : Publish Publisher Data} {publisher : Publisher}
    {events : List (IEvent Data)} :
    (publishEach publish publisher events).2 = events ↔
      AllPublish publish publisher events := by
  induction events generalizing publisher with
  | nil => exact iff_of_true rfl trivial
  | cons event events ih =>
      rw [publishEach, AllPublish]
      cases (publish publisher event).2 with
      | ok _ => simp [ih]
      | error reason =>
          have hShort : (publishEach publish (publish publisher event).1 events).2.length ≤
              events.length := (publishEach_sublist publish _ events).length_le
          have hNe : (publishEach publish (publish publisher event).1 events).2 ≠
              event :: events := by
            intro hEq
            rw [hEq, List.length_cons] at hShort
            omega
          simp [hNe]

/-- Publishing that stops at the first failure. -/
def publishUntil (publish : Publish Publisher Data) :
    Publisher → List (IEvent Data) → Publisher × List (IEvent Data) × Option Thrown
  | publisher, [] => (publisher, [], none)
  | publisher, event :: events =>
      let published := publish publisher event
      match published.2 with
      | .error reason => (published.1, [], some reason)
      | .ok _ =>
          let (last, handed, failure) := publishUntil publish published.1 events
          (last, event :: handed, failure)

theorem publishUntil_failure_iff {publish : Publish Publisher Data} {publisher : Publisher}
    {events : List (IEvent Data)} :
    (publishUntil publish publisher events).2.2 = none ↔
      AllPublish publish publisher events := by
  induction events generalizing publisher with
  | nil => exact iff_of_true rfl trivial
  | cons event events ih =>
      rw [publishUntil, AllPublish]
      cases (publish publisher event).2 with
      | ok _ => simp [ih]
      | error reason => simp

theorem publishUntil_handed (publish : Publish Publisher Data) {publisher : Publisher}
    {events : List (IEvent Data)}
    (h : (publishUntil publish publisher events).2.2 = none) :
    (publishUntil publish publisher events).2.1 = events := by
  induction events generalizing publisher with
  | nil => rfl
  | cons event events ih =>
      rw [publishUntil] at h ⊢
      cases hResult : (publish publisher event).2 with
      | ok _ =>
          simp only [hResult] at h ⊢
          rw [ih h]
      | error reason => simp [hResult] at h

/-! ## Batches in streams -/

/-- The events of a batch, marked with its number. -/
def tagged (batch : Nat) (events : List (IEvent Data)) : List (Nat × IEvent Data) :=
  events.map fun event => (batch, event)

/-- The marked events of one stream. -/
def entries (filed : List (Nat × IEvent Data)) (streamId : String) :
    List (Nat × IEvent Data) :=
  filed.filter (·.2.streamId = streamId)

theorem entries_append (filed more : List (Nat × IEvent Data)) (streamId : String) :
    entries (filed ++ more) streamId = entries filed streamId ++ entries more streamId :=
  List.filter_append ..

/-- The whole batch is filed, and in each stream it is one block in its order. -/
def Whole (filed : List (Nat × IEvent Data)) (batch : Nat) (events : List (IEvent Data)) :
    Prop :=
  ∀ streamId, entries (tagged batch events) streamId <:+: entries filed streamId

theorem whole_of_infix {filed : List (Nat × IEvent Data)} {batch : Nat}
    {events : List (IEvent Data)} (h : tagged batch events <:+: filed) :
    Whole filed batch events := fun _ => h.filter _

theorem Whole.append {filed : List (Nat × IEvent Data)} {batch : Nat}
    {events : List (IEvent Data)} (h : Whole filed batch events)
    (more : List (Nat × IEvent Data)) : Whole (filed ++ more) batch events := by
  intro streamId
  rw [entries_append]
  exact (h streamId).trans (List.prefix_append _ _).isInfix

/-- A batch whose next event is still to be filed is not whole: its stream has
one event of the batch too few. -/
theorem not_whole_of_pending {filed before : List (Nat × IEvent Data)} {batch : Nat}
    {done rest : List (IEvent Data)} {next : IEvent Data}
    (hFiled : filed = before ++ tagged batch done) (hBefore : ∀ entry ∈ before, entry.1 ≠ batch) :
    ¬ Whole filed batch (done ++ next :: rest) := by
  intro h
  have hLength := ((h next.streamId).sublist.filter (·.1 = batch)).length_le
  have hOwn : ∀ events : List (IEvent Data),
      (entries (tagged batch events) next.streamId).filter (·.1 = batch) =
        entries (tagged batch events) next.streamId := by
    intro events
    refine List.filter_eq_self.mpr (fun entry hEntry => ?_)
    obtain ⟨event, -, rfl⟩ := List.mem_map.mp (List.mem_of_mem_filter hEntry)
    simp
  have hOld : (entries before next.streamId).filter (·.1 = batch) = [] := by
    refine List.filter_eq_nil_iff.mpr (fun entry hEntry => ?_)
    simpa using hBefore entry (List.mem_of_mem_filter hEntry)
  rw [hFiled, hOwn, entries_append, List.filter_append, hOld, List.nil_append, hOwn] at hLength
  have hNext : tagged batch (done ++ next :: rest) =
      tagged batch done ++ (batch, next) :: tagged batch rest := by
    simp [tagged]
  rw [hNext, entries_append, List.length_append] at hLength
  have hHere : (entries ((batch, next) :: tagged batch rest) next.streamId).length =
      (entries (tagged batch rest) next.streamId).length + 1 := by
    simp [entries]
  omega

end EventSource

namespace MemoryStore

variable {Publisher Data : Type}

theorem readFromStream_push (store : MemoryStore Data) (event : IEvent Data)
    (streamId : String) :
    (store.push event).readFromStream streamId =
      store.readFromStream streamId ++ [event].filter (·.streamId = streamId) := by
  change ((store.streams.set event.streamId _).get streamId).getD [] = _
  rw [KeyedMap.get_set]
  by_cases hStream : streamId = event.streamId
  · subst hStream
    simp
  · simp [hStream, Ne.symm hStream, readFromStream]

/-- Appending adds the events of the list to their streams, in order. -/
theorem readFromStream_appendToStream (store : MemoryStore Data)
    (eventList : List (IEvent Data)) (streamId : String) :
    (store.appendToStream eventList).readFromStream streamId =
      store.readFromStream streamId ++ eventList.filter (·.streamId = streamId) := by
  induction eventList generalizing store with
  | nil => simp [appendToStream]
  | cons event eventList ih =>
      change ((store.push event).appendToStream eventList).readFromStream streamId = _
      rw [ih, readFromStream_push, List.append_assoc, ← List.filter_append,
        List.singleton_append]

/-- A call of `appendToStream` on a publisher that leaves the streams alone. The
results of `Promise.allSettled` are not looked at, so it always resolves. -/
def appended (publish : Publish Publisher Data) (store : MemoryStore Data)
    (publisher : Publisher) (eventList : List (IEvent Data)) : EventSource.Appended Data :=
  { before := store.readFromStream
    after := (store.appendToStream eventList).readFromStream
    result := .ok eventList
    handed := (EventSource.publishEach publish publisher eventList).2 }

theorem appended_allOrNothing_iff (publish : Publish Publisher Data) (store : MemoryStore Data)
    (publisher : Publisher) (eventList : List (IEvent Data)) :
    (store.appended publish publisher eventList).AllOrNothing eventList ↔
      EventSource.AllPublish publish publisher eventList := by
  rw [← EventSource.publishEach_eq_iff]
  refine and_iff_right ?_
  intro event hEvent
  change event.uuid ∈ ((store.appendToStream eventList).readFromStream _).map IEvent.uuid
  rw [readFromStream_appendToStream]
  refine List.mem_map_of_mem (List.mem_append_right _ ?_)
  exact List.mem_filter.mpr ⟨hEvent, by simp⟩

end MemoryStore

/-- Events are not answered, so the fields for responses are never set on them. -/
instance {Data : Type} : Respondable (IEvent Data) where
  name := IEvent.name
  uuid := IEvent.uuid
  disableResponse := fun _ => false
  responseKey := fun _ => none
  routingKey := fun _ => none
  setRoutingKey := fun _ event => event

namespace MemoryPublisher

variable {Data : Type}

/-- `publish` as its caller sees it: it rejects if anything in it throws. -/
def publishing (codec : EventProcessor (IEvent Data)) : Publish MemoryPublisher Data :=
  fun publisher event =>
    match publish codec publisher event with
    | (publisher, .threw reason) => (publisher, .error reason)
    | (publisher, _) => (publisher, .ok ())

end MemoryPublisher

end Moirae
