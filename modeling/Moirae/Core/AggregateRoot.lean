import Moirae.Core.BasePublisher
import Moirae.Core.Event

/-! Aggregates: applying events, listing the uncommitted ones, and rolling a
transaction back. -/
namespace Moirae

/-- A class that extends `AggregateRoot`: what its constructor sets up, and the
methods its `Apply` and `Rollback` decorators name for each event. The state is
that of the class itself, the `deleted` mark included. -/
structure AggregateClass (State Data : Type) where
  name : String
  initial : State
  deleted : State → Bool
  applyHandler : String → Option (State → IEvent Data → State)
  rollbackHandler : String → Option (State → IEvent Data → IEvent Data)

structure AggregateRoot (State Data : Type) where
  streamId : String
  eventHistory : List (IEvent Data)
  /-- The constructor leaves it undefined. -/
  lastCommittedIndex : Option Nat
  updatedAt : Option Nat
  /-- Is the commit function set? -/
  commitFn : Bool
  state : State

namespace AggregateRoot

variable {State Data : Type} (cls : AggregateClass State Data)

/-- `new Aggregate(streamId)`. -/
def new (streamId : String) : AggregateRoot State Data :=
  { streamId, eventHistory := [], lastCommittedIndex := none, updatedAt := none
    commitFn := false, state := cls.initial }

def aggregateDeletedError (root : AggregateRoot State Data) : Thrown :=
  .error "AggregateDeletedError" ("Unable to apply event. Aggregate " ++ cls.name ++ ":" ++
    root.streamId ++ " has been marked as deleted")

def unhandledEventError (event : IEvent Data) : Thrown :=
  .error "UnhandledEventError"
    ("Aggregate " ++ cls.name ++ " cannot handle event: " ++ event.name)

def unavailableCommitError : Thrown :=
  .error "UnavailableCommitError" ("Commit function is not set for " ++ cls.name)

/-- Without an index the start is `NaN`, which is not beyond the end, and which
`slice` takes for zero. -/
def uncommittedEventHistory (root : AggregateRoot State Data) : List (IEvent Data) :=
  match root.lastCommittedIndex with
  | none => root.eventHistory
  | some lastCommittedIndex =>
      let uncommittedStart := lastCommittedIndex + 1
      if uncommittedStart ≥ root.eventHistory.length then []
      else root.eventHistory.drop uncommittedStart

/-- The event as it is kept: in the stream of the aggregate, unless it has one. -/
def filed (streamId : String) (event : IEvent Data) : IEvent Data :=
  if event.streamId = "" then { event with streamId } else event

/-- The aggregate once the handler of the event ran. -/
def handled (root : AggregateRoot State Data) (handler : State → IEvent Data → State)
    (event : IEvent Data) (fromHistory : Bool) : AggregateRoot State Data :=
  { root with
    state := handler root.state event
    eventHistory := root.eventHistory ++ [filed root.streamId event]
    lastCommittedIndex :=
      if fromHistory then some root.eventHistory.length else root.lastCommittedIndex
    updatedAt := some event.timestamp }

def apply (root : AggregateRoot State Data) (event : IEvent Data) (fromHistory : Bool) :
    Except Thrown (AggregateRoot State Data) :=
  if cls.deleted root.state && !fromHistory then .error (aggregateDeletedError cls root)
  else
    match cls.applyHandler event.name with
    | none => .error (unhandledEventError cls event)
    | some handler => .ok (root.handled handler event fromHistory)

/-- Apply events one after the other, up to the first that throws. -/
def applyAll (root : AggregateRoot State Data) :
    List (IEvent Data) → AggregateRoot State Data × Option Thrown
  | [] => (root, none)
  | event :: events => match apply cls root event false with
    | .error reason => (root, some reason)
    | .ok root' => applyAll root' events

/-- The rollback event for an event of the transaction. -/
def rollbackEvent (root : AggregateRoot State Data) (correlationId : Option String)
    (event : IEvent Data) : Except Thrown (IEvent Data) :=
  match cls.rollbackHandler event.name with
  | none => .error (unhandledEventError cls event)
  | some handler => .ok { handler root.state event with correlationId }

/-- The events of the transaction, latest first. -/
def transaction (root : AggregateRoot State Data) (correlationId : Option String) :
    List (IEvent Data) :=
  (root.eventHistory.filter (·.correlationId = correlationId)).reverse

/-- All rollback events are made before the first one is applied. The result is
how many there are. -/
def rollback (root : AggregateRoot State Data) (correlationId : Option String) :
    AggregateRoot State Data × Except Thrown Nat :=
  match (root.transaction correlationId).mapM (rollbackEvent cls root correlationId) with
  | .error reason => (root, .error reason)
  | .ok rollbackEvents => match applyAll cls root rollbackEvents with
    | (root', some reason) => (root', .error reason)
    | (root', none) => (root', .ok rollbackEvents.length)

/-- What `commit` assigns to an event: a missing correlation id, and the
metadata of the command over its own. -/
def linkEvent (initiatorCommand : Option (ICommand Data)) (event : IEvent Data) :
    IEvent Data :=
  let linked :=
    if truthy event.correlationId then event
    else { event with correlationId := initiatorCommand.bind (·.correlationId) }
  match initiatorCommand.bind (·.metadata) with
  | none => linked
  | some metadata =>
      { linked with
        metadata := some (metadata.entries.foldl (fun merged entry => merged.set entry.1 entry.2)
          (event.metadata.getD .empty)) }

/-- The events that `commit` hands to the commit function. -/
def commit (root : AggregateRoot State Data) (initiatorCommand : Option (ICommand Data)) :
    Except Thrown (List (IEvent Data)) :=
  if root.commitFn then .ok (root.uncommittedEventHistory.map (linkEvent initiatorCommand))
  else .error (unavailableCommitError cls)

section

variable {cls}

/-- An event is applied exactly when it has a handler and the aggregate is not
deleted, or is being populated. Otherwise nothing changes. -/
theorem apply_eq_ok_iff {root root' : AggregateRoot State Data} {event : IEvent Data}
    {fromHistory : Bool} :
    apply cls root event fromHistory = .ok root' ↔
      (cls.deleted root.state = true → fromHistory = true) ∧
        ∃ handler, cls.applyHandler event.name = some handler ∧
          root' = root.handled handler event fromHistory := by
  have hAllowed : (cls.deleted root.state && !fromHistory) = true ↔
      ¬(cls.deleted root.state = true → fromHistory = true) := by
    cases cls.deleted root.state <;> cases fromHistory <;> simp
  constructor
  · intro h
    unfold apply at h
    split at h
    · cases h
    · next hLive =>
        rw [hAllowed, not_not] at hLive
        cases hHandler : cls.applyHandler event.name with
        | none => simp [hHandler] at h
        | some handler =>
            rw [hHandler] at h
            exact ⟨hLive, handler, rfl, (Except.ok.inj h).symm⟩
  · rintro ⟨hLive, handler, hHandler, rfl⟩
    rw [apply, if_neg (by rw [hAllowed, not_not]; exact hLive), hHandler]

/-- Where the uncommitted part of the history starts. -/
def uncommittedStart (root : AggregateRoot State Data) : Nat :=
  match root.lastCommittedIndex with
  | none => 0
  | some lastCommittedIndex => lastCommittedIndex + 1

theorem uncommittedEventHistory_eq (root : AggregateRoot State Data) :
    root.uncommittedEventHistory = root.eventHistory.drop root.uncommittedStart := by
  unfold uncommittedEventHistory uncommittedStart
  cases root.lastCommittedIndex with
  | none => rfl
  | some lastCommittedIndex =>
      dsimp only
      split
      · next hBeyond => exact (List.drop_eq_nil_of_le hBeyond).symm
      · rfl

@[simp] theorem filed_correlationId (streamId : String) (event : IEvent Data) :
    (filed streamId event).correlationId = event.correlationId := by
  unfold filed
  split <;> rfl

@[simp] theorem filed_uuid (streamId : String) (event : IEvent Data) :
    (filed streamId event).uuid = event.uuid := by
  unfold filed
  split <;> rfl

@[simp] theorem filed_name (streamId : String) (event : IEvent Data) :
    (filed streamId event).name = event.name := by
  unfold filed
  split <;> rfl

@[simp] theorem linkEvent_streamId (initiatorCommand : Option (ICommand Data))
    (event : IEvent Data) : (linkEvent initiatorCommand event).streamId = event.streamId := by
  unfold linkEvent
  dsimp only
  split <;> split <;> rfl

@[simp] theorem linkEvent_name (initiatorCommand : Option (ICommand Data))
    (event : IEvent Data) : (linkEvent initiatorCommand event).name = event.name := by
  unfold linkEvent
  dsimp only
  split <;> split <;> rfl

@[simp] theorem linkEvent_data (initiatorCommand : Option (ICommand Data))
    (event : IEvent Data) : (linkEvent initiatorCommand event).data = event.data := by
  unfold linkEvent
  dsimp only
  split <;> split <;> rfl

/-- An event without an id gets that of the command. -/
theorem linkEvent_correlationId (initiatorCommand : Option (ICommand Data))
    (event : IEvent Data) :
    (linkEvent initiatorCommand event).correlationId =
      if truthy event.correlationId then event.correlationId
      else initiatorCommand.bind (·.correlationId) := by
  unfold linkEvent
  dsimp only
  split <;> split <;> rfl

@[simp] theorem filed_data (streamId : String) (event : IEvent Data) :
    (filed streamId event).data = event.data := by
  unfold filed
  split <;> rfl

/-- An event that is for this stream is kept as it is. -/
theorem filed_of_streamId {streamId : String} {event : IEvent Data}
    (h : event.streamId = streamId) : filed streamId event = event := by
  unfold filed
  split
  · subst h
    rfl
  · rfl

/-- An aggregate from the store commits exactly the one event applied to it. -/
theorem commit_handled {root : AggregateRoot State Data} (hCommit : root.commitFn = true)
    (hStart : root.uncommittedStart = root.eventHistory.length)
    (handler : State → IEvent Data → State) (event : IEvent Data)
    (initiatorCommand : Option (ICommand Data)) :
    commit cls (root.handled handler event false) initiatorCommand =
      .ok [linkEvent initiatorCommand (filed root.streamId event)] := by
  have hOne : (root.handled handler event false).uncommittedEventHistory =
      [filed root.streamId event] := by
    rw [uncommittedEventHistory_eq]
    change (root.eventHistory ++ [filed root.streamId event]).drop root.uncommittedStart = _
    rw [hStart, List.drop_left]
  rw [commit, hOne]
  simp [handled, hCommit]

end

end AggregateRoot

/-! ## An aggregate that counts greetings -/

/-- A greeting in the stream `hello-1`. -/
def greeting (uuid correlationId : String) : IEvent Unit :=
  ⟨some correlationId, (), none, "HelloSaidEvent", "hello-1", 0, uuid⟩

/-- Taking a greeting back is an event too, without a rollback of its own. -/
def helloAggregate : AggregateClass Nat Unit where
  name := "HelloAggregate"
  initial := 0
  deleted := fun _ => false
  applyHandler
    | "HelloSaidEvent" => some fun greetings _ => greetings + 1
    | "HelloTakenBackEvent" => some fun greetings _ => greetings - 1
    | _ => none
  rollbackHandler
    | "HelloSaidEvent" => some fun _ event =>
        ⟨none, (), none, "HelloTakenBackEvent", "", 0, event.uuid ++ "-rollback"⟩
    | _ => none

end Moirae
