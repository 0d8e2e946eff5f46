import Moirae.Core.AggregateRoot

/-! The event store in memory, and the factory that populates aggregates from
it. -/
namespace Moirae

/-- Every event is in the stream whose id it has. `sent` are the events given
to `publish`, in order. -/
structure MemoryStore (Data : Type) where
  streams : KeyedMap String (List (IEvent Data))
  filed : ∀ entry ∈ streams.entries, ∀ event ∈ entry.2, event.streamId = entry.1
  sent : List (IEvent Data)

namespace MemoryStore

variable {Data : Type}

/-- The store after `onApplicationBootstrap`. -/
def bootstrapped : MemoryStore Data :=
  ⟨.empty, fun _ hEntry => absurd hEntry List.not_mem_nil, []⟩

def readFromStream (store : MemoryStore Data) (streamId : String) : List (IEvent Data) :=
  (store.streams.get streamId).getD []

theorem streamId_of_mem {store : MemoryStore Data} {streamId : String} {event : IEvent Data}
    (h : event ∈ store.readFromStream streamId) : event.streamId = streamId := by
  unfold readFromStream at h
  cases hGet : store.streams.get streamId with
  | none => simp [hGet] at h
  | some events =>
      rw [hGet] at h
      exact store.filed _ (KeyedMap.mem_entries_iff_get.mpr hGet) event h

/-- One turn of `appendToStream`. -/
def push (store : MemoryStore Data) (event : IEvent Data) : MemoryStore Data where
  streams := store.streams.set event.streamId (store.readFromStream event.streamId ++ [event])
  filed := by
    rintro ⟨streamId, events⟩ hEntry other hOther
    have hSet := (KeyedMap.mem_set_entries _ _ _ _ _).mp hEntry
    split at hSet
    · next hSame =>
        rw [hSet, List.mem_append] at hOther
        rcases hOther with hOld | hNew
        · rw [hSame]
          exact streamId_of_mem hOld
        · rw [List.mem_singleton.mp hNew, hSame]
    · exact store.filed _ hSet other hOther
  sent := store.sent ++ [event]

def appendToStream (store : MemoryStore Data) (eventList : List (IEvent Data)) :
    MemoryStore Data :=
  eventList.foldl push store

/-- Fields of events are assigned: the events in the store are the same objects. -/
def assign (store : MemoryStore Data) (f : IEvent Data → IEvent Data)
    (hFiled : ∀ event, (f event).streamId = event.streamId) : MemoryStore Data where
  streams := store.streams.mapValues (List.map f)
  filed := by
    intro entry hEntry other hOther
    obtain ⟨old, hOld, rfl⟩ := List.mem_map.mp hEntry
    obtain ⟨event, hEvent, rfl⟩ := List.mem_map.mp hOther
    rw [hFiled]
    exact store.filed old hOld event hEvent
  sent := store.sent.map f

theorem assign_id {store : MemoryStore Data} {f : IEvent Data → IEvent Data}
    (hFiled : ∀ event, (f event).streamId = event.streamId) (h : ∀ event, f event = event) :
    store.assign f hFiled = store := by
  obtain rfl : f = id := funext h
  obtain ⟨streams, hStreams, sent⟩ := store
  have hSame : streams.mapValues (List.map id) = streams := by
    apply KeyedMap.ext'
    change streams.entries.map _ = streams.entries
    simp
  simp only [assign, hSame, List.map_id]

end MemoryStore

namespace AggregateFactory

variable {State Data : Type} (cls : AggregateClass State Data)

/-- Apply the events of a stream to a new aggregate. -/
def replay (root : AggregateRoot State Data) (events : List (IEvent Data)) :
    Except Thrown (AggregateRoot State Data) :=
  events.foldlM (fun root event => root.apply cls event true) root

def mergeContext (store : MemoryStore Data) (streamId : String) :
    Except Thrown (AggregateRoot State Data) :=
  match replay cls (.new cls streamId) (store.readFromStream streamId) with
  | .error reason => .error reason
  | .ok aggregate => .ok { aggregate with commitFn := true }

variable {cls}

/-- What replaying events leaves behind besides the state. -/
theorem replay_spec {root root' : AggregateRoot State Data} {events : List (IEvent Data)}
    (h : replay cls root events = .ok root') :
    root'.streamId = root.streamId ∧
      root'.eventHistory = root.eventHistory ++ events.map (AggregateRoot.filed root.streamId) ∧
      root'.uncommittedStart =
        if events = [] then root.uncommittedStart else root'.eventHistory.length := by
  induction events generalizing root with
  | nil =>
      cases h
      simp
  | cons event events ih =>
      rw [replay, List.foldlM_cons] at h
      cases hApply : root.apply cls event true with
      | error reason =>
          rw [hApply] at h
          cases h
      | ok root₁ =>
          rw [hApply] at h
          obtain ⟨hStream, hHistory, hStart⟩ := ih h
          obtain ⟨-, handler, -, rfl⟩ := AggregateRoot.apply_eq_ok_iff.mp hApply
          refine ⟨hStream, ?_, ?_⟩
          · rw [hHistory]
            simp [AggregateRoot.handled]
          · rw [hStart, if_neg (List.cons_ne_nil _ _)]
            split
            · next hNil =>
                rw [hHistory, hNil]
                simp [AggregateRoot.handled, AggregateRoot.uncommittedStart]
            · rfl

/-- An aggregate obtained from the store: it belongs to the stream it was read
from, can commit, and counts all of its history as committed. -/
theorem mergeContext_spec {store : MemoryStore Data} {streamId : String}
    {root : AggregateRoot State Data} (h : mergeContext cls store streamId = .ok root) :
    root.streamId = streamId ∧ root.commitFn = true ∧
      root.uncommittedStart = root.eventHistory.length := by
  unfold mergeContext at h
  cases hReplay : replay cls (.new cls streamId) (store.readFromStream streamId) with
  | error reason => simp [hReplay] at h
  | ok aggregate =>
      rw [hReplay] at h
      obtain rfl := Except.ok.inj h
      obtain ⟨hStream, hHistory, hStart⟩ := replay_spec hReplay
      refine ⟨hStream, rfl, ?_⟩
      change aggregate.uncommittedStart = aggregate.eventHistory.length
      rw [hStart]
      split
      · next hNil =>
          rw [hHistory, hNil]
          rfl
      · rfl

end AggregateFactory

end Moirae
