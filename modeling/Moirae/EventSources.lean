import Moirae.Core.MemoryStoreRuns
import Moirae.Core.Message
import Moirae.TypeORM.TypeORMStoreRuns

/-! The two event sources side by side: what a batch leaves behind when
publishing fails, and what subscribers find in the streams. -/
namespace Moirae.EventSources

variable {Publisher Data : Type}

/-- When a call of `appendToStream` is all or nothing. The in-memory store
swallows the failures of publishing, the table is written before them. -/
theorem allOrNothing_iff_publishes (publish : Publish Publisher Data) (publisher : Publisher)
    (eventList : List (IEvent Data)) :
    (∀ store : MemoryStore Data,
      (store.appended publish publisher eventList).AllOrNothing eventList ↔
        EventSource.AllPublish publish publisher eventList) ∧
    ∀ (transformer : EventTransformer Data) (fault : Option Thrown) (table : EventTable Data),
      (TypeORMStore.appended transformer publish fault table publisher
          eventList).AllOrNothing eventList ↔
        (TypeORMStore.Saves transformer fault table eventList →
          EventSource.AllPublish publish publisher eventList ∧
            TypeORMStore.Restores transformer eventList) :=
  ⟨fun store => store.appended_allOrNothing_iff publish publisher eventList,
    fun transformer fault table => TypeORMStore.appended_allOrNothing_iff transformer publish
      fault table publisher eventList⟩

/-- An event whose data refer to themselves. -/
def circularEvent : IEvent String :=
  ⟨none, "circular", none, "HelloSaidEvent", "hello-1", 0, "e1"⟩

def helloSaid : IEvent String := { circularEvent with data := "hello" }

def circularCodec : EventProcessor (IEvent String) where
  serializeEvent := fun _ => .error (.error "TypeError" "Converting circular structure to JSON")
  parseEvent := fun _ => .ok circularEvent

def copyingTransformer : EventTransformer String where
  instanceToPlain := .ok
  plainToInstance := .ok
  keeps := by
    rintro event plain hPlain
    cases hPlain
    exact ⟨rfl, rfl⟩

/-- A publisher whose channel to the broker was closed. -/
def closedChannel : Publish Unit String := fun publisher _ =>
  (publisher, .error (.error "IllegalOperationError" "Channel closed"))

/-- The in-memory store resolves although the event was not published, and the
other one rejects although the event is in the table. -/
theorem unpublished_event_stored :
    ¬ (MemoryStore.bootstrapped.appended (MemoryPublisher.publishing circularCodec)
        (.bootstrapped none) [circularEvent]).AllOrNothing [circularEvent] ∧
      ¬ (TypeORMStore.appended copyingTransformer closedChannel none .empty ()
        [helloSaid]).AllOrNothing [helloSaid] := by
  constructor
  · rintro ⟨-, hHanded⟩
    cases hHanded
  · intro hSame
    have hStream := congrFun hSame "hello-1"
    cases hStream

/-- Delivery of whole batches. The table has the whole batch before the first
event is published; the in-memory store publishes event by event, so its loop
must not meet a publisher that is ready before the last one. -/
theorem intact_iff {codec : EventProcessor (IEvent Data)} (hText : codec.WritesText)
    (throws : Nat → Uuid → Bool) (nodeId : Option String)
    (transformer : EventTransformer Data) :
    (∀ actions, Runs.Always (MemoryStore.World.step codec throws)
        (MemoryStore.World.Intact codec) (.bootstrapped nodeId) actions ↔
      Runs.StepsMeet (MemoryStore.World.step codec throws)
        (MemoryStore.World.DeliversLast codec) (.bootstrapped nodeId) actions) ∧
    ∀ actions, Runs.Always (TypeORMStore.World.step transformer)
      TypeORMStore.World.Intact .initial actions :=
  ⟨MemoryStore.World.intact_iff_deliversLast hText throws nodeId,
    TypeORMStore.World.always_intact transformer⟩

def worldSaid : IEvent String :=
  ⟨none, "world", none, "WorldSaidEvent", "hello-1", 0, "e2"⟩

def eventCodec : EventProcessor (IEvent String) :=
  .ofTexts [(EventSources.helloSaid, helloSaidText), (worldSaid, worldSaidText)]

theorem eventCodec_writesText : eventCodec.WritesText :=
  EventProcessor.ofTexts_writesText (by decide)

/-- The subscriber appends the next event while it is called with the first one;
in the table, one transaction fails before the other is delivered. -/
theorem intact_iff_single_events :
    (Runs.Always (MemoryStore.World.step eventCodec fun _ _ => false)
        (MemoryStore.World.Intact eventCodec) (.bootstrapped none)
        [.subscribe, .appendToStream [EventSources.helloSaid], .turn,
          .appendToStream [worldSaid], .turn, .leave, .leave, .leave,
          .settle 0 .resolved (.ok ())] ↔
      Runs.StepsMeet (MemoryStore.World.step eventCodec fun _ _ => false)
        (MemoryStore.World.DeliversLast eventCodec) (.bootstrapped none)
        [.subscribe, .appendToStream [EventSources.helloSaid], .turn,
          .appendToStream [worldSaid], .turn, .leave, .leave, .leave,
          .settle 0 .resolved (.ok ())]) ∧
    Runs.Always (TypeORMStore.World.step copyingTransformer)
      TypeORMStore.World.Intact .initial
      [.appendToStream [EventSources.helloSaid],
        .appendToStream [EventSources.helloSaid, worldSaid], .save 1 none, .save 0 none,
        .publish 1 (.ok ()), .deliver 0] :=
  ⟨(intact_iff eventCodec_writesText _ none copyingTransformer).1 _,
    (intact_iff eventCodec_writesText (fun _ _ => false) none copyingTransformer).2 _⟩

/-- The subscriber is called with the first of two events, and the stream ends
with it. -/
theorem delivered_before_batch :
    ∃ w, Runs.exec (MemoryStore.World.step eventCodec fun _ _ => false) (.bootstrapped none)
        [.subscribe, .appendToStream [EventSources.helloSaid, worldSaid], .turn] = some w ∧
      w.store.readFromStream "hello-1" = [EventSources.helloSaid] ∧
      ¬ Runs.Always (MemoryStore.World.step eventCodec fun _ _ => false)
        (MemoryStore.World.Intact eventCodec) (.bootstrapped none)
        [.subscribe, .appendToStream [EventSources.helloSaid, worldSaid], .turn] := by
  refine ⟨_, rfl, by decide, fun h => ?_⟩
  have hWhole := (h.last rfl).whole (0, helloSaidText) (by decide)
    [EventSources.helloSaid, worldSaid] rfl
  have hLength := (hWhole "hello-1").length_le
  revert hLength
  decide

end Moirae.EventSources
