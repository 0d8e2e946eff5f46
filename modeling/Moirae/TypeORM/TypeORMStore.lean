import Moirae.Collections.Traversal
import Moirae.Core.EventSource

/-! The event store over a table: `appendToStream` saves the whole list first
and publishes afterwards. -/
namespace Moirae

/-- The table of `EventStore` entities in the order of the generated `$order`.
The `$uuid` column is unique. -/
structure EventTable (Data : Type) where
  rows : List (IEvent Data)
  unique : (rows.map IEvent.uuid).Nodup

/-- What `class-transformer` makes of an event on its way to the table and back.
Both directions may throw; a plain object keeps the fields. -/
structure EventTransformer (Data : Type) where
  instanceToPlain : IEvent Data → Except Thrown (IEvent Data)
  plainToInstance : IEvent Data → Except Thrown (IEvent Data)
  keeps : ∀ event plain, instanceToPlain event = .ok plain →
    plain.streamId = event.streamId ∧ plain.uuid = event.uuid

namespace EventTable

variable {Data : Type}

def empty : EventTable Data := ⟨[], List.nodup_nil⟩

/-- The rows that `find` returns for a stream id, in ascending `$order`. -/
def stream (table : EventTable Data) (streamId : String) : List (IEvent Data) :=
  table.rows.filter (·.streamId = streamId)

def uniqueError : Thrown :=
  .error "QueryFailedError" "UNIQUE constraint failed: event_store.uuid"

/-- `Repository.save` of a list runs in one transaction: a fault of the
database, or a uuid that is there already, and nothing is saved. -/
def save (fault : Option Thrown) (table : EventTable Data) (plains : List (IEvent Data)) :
    Except Thrown (EventTable Data) :=
  match fault with
  | some reason => .error reason
  | none =>
      if h : ((table.rows ++ plains).map IEvent.uuid).Nodup then .ok ⟨table.rows ++ plains, h⟩
      else .error uniqueError

theorem rows_save {fault : Option Thrown} {table saved : EventTable Data}
    {plains : List (IEvent Data)} (h : table.save fault plains = .ok saved) :
    saved.rows = table.rows ++ plains := by
  unfold save at h
  split at h
  · cases h
  · split at h
    · rw [← Except.ok.inj h]
    · cases h

theorem stream_save {fault : Option Thrown} {table saved : EventTable Data}
    {plains : List (IEvent Data)} (h : table.save fault plains = .ok saved)
    (streamId : String) :
    saved.stream streamId =
      table.stream streamId ++ plains.filter (·.streamId = streamId) := by
  rw [stream, rows_save h, List.filter_append]
  rfl

/-- Saving at least one row changes what is read from its stream. -/
theorem stream_ne_of_save {fault : Option Thrown} {table saved : EventTable Data}
    {plains : List (IEvent Data)} (h : table.save fault plains = .ok saved)
    (hSome : plains ≠ []) : saved.stream ≠ table.stream := by
  obtain ⟨plain, rest, rfl⟩ := List.exists_cons_of_ne_nil hSome
  intro hSame
  have hStream := stream_save h plain.streamId
  rw [hSame] at hStream
  have hLength := congrArg List.length hStream
  simp at hLength

end EventTable

namespace TypeORMStore

variable {Publisher Data : Type}

/-- What `appendToStream` does to the table and the publisher, its result, and
the events that were handed over. -/
def appendToStream (transformer : EventTransformer Data) (publish : Publish Publisher Data)
    (fault : Option Thrown) (table : EventTable Data) (publisher : Publisher)
    (eventList : List (IEvent Data)) :
    EventTable Data × Publisher × Except Thrown (List (IEvent Data)) × List (IEvent Data) :=
  match eventList.mapM transformer.instanceToPlain with
  | .error reason => (table, publisher, .error reason, [])
  | .ok plains => match table.save fault plains with
    | .error reason => (table, publisher, .error reason, [])
    | .ok saved => match EventSource.publishUntil publish publisher eventList with
      | (publisher, handed, some reason) => (saved, publisher, .error reason, handed)
      | (publisher, handed, none) =>
          (saved, publisher, plains.mapM transformer.plainToInstance, handed)

def appended (transformer : EventTransformer Data) (publish : Publish Publisher Data)
    (fault : Option Thrown) (table : EventTable Data) (publisher : Publisher)
    (eventList : List (IEvent Data)) : EventSource.Appended Data :=
  let (table', _, result, handed) :=
    appendToStream transformer publish fault table publisher eventList
  { before := table.stream, after := table'.stream, result, handed }

/-- The list gets as far as the table. -/
def Saves (transformer : EventTransformer Data) (fault : Option Thrown)
    (table : EventTable Data) (eventList : List (IEvent Data)) : Prop :=
  ∃ plains saved, eventList.mapM transformer.instanceToPlain = .ok plains ∧
    table.save fault plains = .ok saved

/-- The plain objects of the list can be made instances again. -/
def Restores (transformer : EventTransformer Data) (eventList : List (IEvent Data)) : Prop :=
  ∃ plains instances, eventList.mapM transformer.instanceToPlain = .ok plains ∧
    plains.mapM transformer.plainToInstance = .ok instances

variable {transformer : EventTransformer Data} {publish : Publish Publisher Data}
  {fault : Option Thrown} {table saved : EventTable Data} {publisher : Publisher}
  {eventList plains : List (IEvent Data)}

theorem ne_nil_of_mapM (hPlains : eventList.mapM transformer.instanceToPlain = .ok plains)
    (hSome : eventList ≠ []) : plains ≠ [] := by
  rintro rfl
  have hMap := Traversal.mapM_eq_ok_iff.mp hPlains
  exact hSome (List.map_eq_nil_iff.mp hMap)

/-- After saving, each event of the list is in the stream it names. -/
theorem mem_stream_of_saved (hPlains : eventList.mapM transformer.instanceToPlain = .ok plains)
    (hSave : table.save fault plains = .ok saved) {event : IEvent Data}
    (hEvent : event ∈ eventList) :
    event.uuid ∈ (saved.stream event.streamId).map IEvent.uuid := by
  obtain ⟨plain, hPlain⟩ := Traversal.exists_ok_iff.mp ⟨plains, hPlains⟩ event hEvent
  obtain ⟨hStream, hUuid⟩ := transformer.keeps event plain hPlain
  have hMem : plain ∈ plains := (Traversal.mem_iff hPlains).mpr ⟨event, hEvent, hPlain⟩
  rw [EventTable.stream_save hSave, ← hUuid]
  refine List.mem_map_of_mem (List.mem_append_right _ ?_)
  exact List.mem_filter.mpr ⟨hMem, decide_eq_true hStream⟩

/-- Nothing reached the table, and the call was rejected. -/
theorem appended_of_not_saves (h : ¬ Saves transformer fault table eventList) :
    (appended transformer publish fault table publisher eventList).AllOrNothing eventList := by
  unfold appended appendToStream
  cases hPlains : eventList.mapM transformer.instanceToPlain with
  | error reason => rfl
  | ok plains =>
      cases hSave : table.save fault plains with
      | error reason => simp [hSave, EventSource.Appended.AllOrNothing]
      | ok saved => exact absurd ⟨plains, saved, hPlains, hSave⟩ h

/-- The list is saved, so all depends on what comes after. -/
theorem appended_of_saved (hPlains : eventList.mapM transformer.instanceToPlain = .ok plains)
    (hSave : table.save fault plains = .ok saved) :
    (appended transformer publish fault table publisher eventList).AllOrNothing eventList ↔
      EventSource.AllPublish publish publisher eventList ∧
        ∃ instances, plains.mapM transformer.plainToInstance = .ok instances := by
  have hChanged : eventList ≠ [] → saved.stream ≠ table.stream := fun hSome =>
    EventTable.stream_ne_of_save hSave (ne_nil_of_mapM hPlains hSome)
  unfold appended appendToStream
  simp only [hPlains, hSave]
  rw [← EventSource.publishUntil_failure_iff]
  rcases hPublished : EventSource.publishUntil publish publisher eventList with
    ⟨publisher', handed, failure⟩
  cases failure with
  | some reason =>
      have hSome : eventList ≠ [] := by
        rintro rfl
        cases hPublished
      simp [EventSource.Appended.AllOrNothing, hChanged hSome]
  | none =>
      have hHanded : handed = eventList := by
        have hAll : (EventSource.publishUntil publish publisher eventList).2.1 = eventList :=
          EventSource.publishUntil_handed publish (by rw [hPublished])
        rw [hPublished] at hAll
        exact hAll
      cases hInstances : plains.mapM transformer.plainToInstance with
      | error reason =>
          have hSome : eventList ≠ [] := by
            rintro rfl
            cases hPlains
            cases hInstances
          simp [EventSource.Appended.AllOrNothing, hChanged hSome]
      | ok instances =>
          refine iff_of_true ⟨?_, hHanded⟩ ⟨rfl, instances, rfl⟩
          intro event hEvent
          exact mem_stream_of_saved hPlains hSave hEvent

/-- The list is all or nothing if it does not reach the table, or if after that
nothing fails any more. -/
theorem appended_allOrNothing_iff (transformer : EventTransformer Data)
    (publish : Publish Publisher Data) (fault : Option Thrown) (table : EventTable Data)
    (publisher : Publisher) (eventList : List (IEvent Data)) :
    (appended transformer publish fault table publisher eventList).AllOrNothing eventList ↔
      (Saves transformer fault table eventList →
        EventSource.AllPublish publish publisher eventList ∧
          Restores transformer eventList) := by
  by_cases hSaves : Saves transformer fault table eventList
  · obtain ⟨plains, saved, hPlains, hSave⟩ := id hSaves
    have hRestores : Restores transformer eventList ↔
        ∃ instances, plains.mapM transformer.plainToInstance = .ok instances := by
      constructor
      · rintro ⟨plains', instances, hPlains', hInstances⟩
        rw [hPlains] at hPlains'
        obtain rfl := Except.ok.inj hPlains'
        exact ⟨instances, hInstances⟩
      · rintro ⟨instances, hInstances⟩
        exact ⟨plains, instances, hPlains, hInstances⟩
    rw [appended_of_saved hPlains hSave, hRestores]
    exact ⟨fun h _ => h, fun h => h hSaves⟩
  · exact iff_of_true (appended_of_not_saves hSaves) fun h => absurd h hSaves

end TypeORMStore

end Moirae
