import Moirae.Core.MemoryStore
import Moirae.Demo.Common

/-! The inventory of the demo: its aggregate, its events, its projection, and
the repository that its service writes projections to. -/
namespace Moirae.Inventory

open Demo

structure CreateInventoryInput where
  name : String
  quantity : Int
  price : Int
  deriving DecidableEq

structure RemoveInventoryInput where
  inventoryId : String
  orderId : String
  quantity : Int
  deriving DecidableEq

/-- `new InventoryCreatedEvent(streamId, { createdAt: new Date(), ...input })`. -/
def inventoryCreatedEvent (streamId : String) (input : CreateInventoryInput) (uuid : String)
    (now : Nat) : IEvent EventData :=
  newEvent "InventoryCreatedEvent" streamId
    { EventData.undefined with
      createdAt := some now, name := some input.name, quantity := some input.quantity
      price := some input.price } uuid now

/-- `new InventoryRemovedEvent(streamId, { quantity })`. -/
def inventoryRemovedEvent (streamId : String) (quantity : Int) (uuid : String) (now : Nat) :
    IEvent EventData :=
  newEvent "InventoryRemovedEvent" streamId { EventData.undefined with quantity := some quantity }
    uuid now

/-- `new InventoryCreatedFailedEvent(streamId, { ...input, message })`, with the
metadata of the command. -/
def inventoryCreatedFailedEvent (streamId : String) (input : CreateInventoryInput)
    (message : String) (metadata : Option IRequestMetadata) (uuid : String) (now : Nat) :
    IEvent EventData :=
  { newEvent "InventoryCreatedFailedEvent" streamId
      { EventData.undefined with
        name := some input.name, quantity := some input.quantity, price := some input.price
        message := some message } uuid now with metadata }

/-- The fields of the aggregate. A quantity that is undefined or not a number
is none: neither is less than zero, and subtracting from it gives no number. -/
structure InventoryState where
  name : Option String
  quantity : Option Int
  price : Option Int
  createdAt : Option Nat
  deriving DecidableEq

def handleCreate (_ : InventoryState) (event : IEvent EventData) : InventoryState where
  name := event.data.name
  quantity := event.data.quantity
  price := event.data.price
  createdAt := event.data.createdAt

def handleRemove (state : InventoryState) (event : IEvent EventData) : InventoryState :=
  { state with quantity := minus state.quantity event.data.quantity }

/-- What the `Apply` decorators name. -/
def applyHandler : String → Option (InventoryState → IEvent EventData → InventoryState)
  | "InventoryCreatedEvent" => some handleCreate
  | "InventoryRemovedEvent" => some handleRemove
  | "InventoryCreatedFailedEvent" => some fun state _ => state
  | _ => none

def inventoryAggregate : AggregateClass InventoryState EventData where
  name := "InventoryAggregate"
  initial := ⟨none, none, none, none⟩
  deleted := fun _ => false
  applyHandler := applyHandler
  rollbackHandler := fun _ => none

abbrev InventoryAggregate := AggregateRoot InventoryState EventData

/-- `IInventory`, as `toProjection` makes it. -/
structure IInventory where
  id : String
  name : Option String
  quantity : Option Int
  price : Option Int
  createdAt : Option Nat
  updatedAt : Option Nat
  deriving DecidableEq

def toProjection (aggregate : InventoryAggregate) : IInventory where
  id := aggregate.streamId
  name := aggregate.state.name
  quantity := aggregate.state.quantity
  price := aggregate.state.price
  createdAt := aggregate.state.createdAt
  updatedAt := aggregate.updatedAt

/-- The repository of inventories that the service is given. Saving a
projection writes the row with its id, if the database accepts it. A field that
is undefined leaves its column alone. -/
structure Repository where
  Table : Type
  empty : Table
  /-- The name in the row with this id. -/
  nameOf : Table → String → Option String
  count : Table → String → Nat
  save : Table → IInventory → Option Table
  nameOf_empty : ∀ id, nameOf empty id = none
  count_pos : ∀ table name, 0 < count table name ↔ ∃ id, nameOf table id = some name
  nameOf_save : ∀ table projection table', save table projection = some table' →
    ∀ id, nameOf table' id =
      if id = projection.id then projection.name.or (nameOf table id) else nameOf table id

/-- `nameExists`. -/
def nameExists (db : Repository) (table : db.Table) (name : String) : Bool :=
  db.count table name > 0

/-- The query finds a name when a row has it. -/
theorem nameExists_iff {db : Repository} {table : db.Table} {name : String} :
    nameExists db table name = true ↔ ∃ id, db.nameOf table id = some name := by
  rw [nameExists, decide_eq_true_iff]
  exact db.count_pos table name

/-- A projection over the row that was there. -/
def mergeRow (old : Option IInventory) (projection : IInventory) : IInventory where
  id := projection.id
  name := projection.name.or (old.bind (·.name))
  quantity := projection.quantity.or (old.bind (·.quantity))
  price := projection.price.or (old.bind (·.price))
  createdAt := projection.createdAt.or (old.bind (·.createdAt))
  updatedAt := projection.updatedAt.or (old.bind (·.updatedAt))

/-- Rows by their ids. All columns are required. -/
def memoryRepository : Repository where
  Table := KeyedMap String IInventory
  empty := .empty
  nameOf table id := (table.get id).bind (·.name)
  count table name := (table.entries.filter fun entry => entry.2.name = some name).length
  save table projection :=
    let row := mergeRow (table.get projection.id) projection
    if row.name.isSome ∧ row.quantity.isSome ∧ row.price.isSome ∧ row.createdAt.isSome ∧
        row.updatedAt.isSome then
      some (table.set projection.id row)
    else none
  nameOf_empty _ := rfl
  count_pos table name := by
    rw [List.length_pos_iff_exists_mem]
    constructor
    · intro h
      obtain ⟨⟨id, row⟩, hRow⟩ := h
      rw [List.mem_filter, decide_eq_true_iff] at hRow
      exact ⟨id, by rw [KeyedMap.mem_entries_iff_get.mp hRow.1]; exact hRow.2⟩
    · intro h
      obtain ⟨id, hName⟩ := h
      obtain ⟨row, hRow, hName⟩ := Option.bind_eq_some_iff.mp hName
      refine ⟨(id, row), ?_⟩
      rw [List.mem_filter, decide_eq_true_iff]
      exact ⟨KeyedMap.mem_entries_iff_get.mpr hRow, hName⟩
  nameOf_save table projection table' h id := by
    obtain ⟨_, hSet⟩ := Option.ite_none_right_eq_some.mp h
    obtain rfl := Option.some.inj hSet
    rw [KeyedMap.get_set]
    by_cases hId : id = projection.id
    · subst hId
      simp [mergeRow]
    · simp [hId]

def duplicateNameMessage (event : IEvent EventData) : String :=
  "Cannot set name of " ++ render event.data.name ++
    " for Inventory as it violates a unique constraint"

def duplicateInventoryNameException (event : IEvent EventData) : Thrown :=
  .error "DuplicateInventoryNameException" (duplicateNameMessage event)

def invalidRemoveInventoryException (event : IEvent EventData) (removed : Int) : Thrown :=
  .error "InvalidRemoveInventoryException"
    (s!"Cannot remove remove {removed} from Inventory " ++ event.streamId)

/-- Apply the event and commit it. -/
def applyAndCommit (store : MemoryStore EventData) (aggregate : InventoryAggregate)
    (command : ICommand EventData) (event : IEvent EventData) :
    Except Thrown (MemoryStore EventData) :=
  match aggregate.apply inventoryAggregate event false with
  | .error reason => .error reason
  | .ok applied => match AggregateRoot.commit inventoryAggregate applied (some command) with
    | .error reason => .error reason
    | .ok events => .ok (store.appendToStream events)

/-- The part of `RemoveInventoryHandler` behind its await. -/
def removeInventory (store : MemoryStore EventData) (aggregate : InventoryAggregate)
    (command : ICommand EventData) (event : IEvent EventData) (removed : Int) :
    Except Thrown (MemoryStore EventData) :=
  match aggregate.apply inventoryAggregate event false with
  | .error reason => .error reason
  | .ok applied =>
      if applied.state.quantity.any (· < 0) then
        .error (invalidRemoveInventoryException event removed)
      else
        match AggregateRoot.commit inventoryAggregate applied (some command) with
        | .error reason => .error reason
        | .ok events => .ok (store.appendToStream events)

/-- The kinds of events that an inventory has a handler for. -/
def Known (event : IEvent EventData) : Prop :=
  event.name = "InventoryCreatedEvent" ∨ event.name = "InventoryRemovedEvent" ∨
    event.name = "InventoryCreatedFailedEvent"

/-- How an event changes the name of an inventory. -/
def renamed (name : Option String) (event : IEvent EventData) : Option String :=
  if event.name = "InventoryCreatedEvent" then event.data.name else name

/-- Inventories are never deleted, so every event with a handler is applied. -/
theorem apply_of_handler {root : InventoryAggregate} {event : IEvent EventData}
    {handler : InventoryState → IEvent EventData → InventoryState}
    (h : inventoryAggregate.applyHandler event.name = some handler) (fromHistory : Bool) :
    root.apply inventoryAggregate event fromHistory =
      .ok (root.handled handler event fromHistory) := by
  rw [AggregateRoot.apply_eq_ok_iff]
  refine ⟨fun hDeleted => ?_, handler, h, rfl⟩
  cases hDeleted

/-- There is a handler for each known event, and it changes the name as the event says. -/
theorem handler_of_known {event : IEvent EventData} (h : Known event) :
    ∃ handler, inventoryAggregate.applyHandler event.name = some handler ∧
      ∀ state, (handler state event).name = renamed state.name event := by
  rcases h with hName | hName | hName
  · refine ⟨handleCreate, by rw [hName]; rfl, fun state => ?_⟩
    rw [renamed, if_pos hName]
    rfl
  · refine ⟨handleRemove, by rw [hName]; rfl, fun state => ?_⟩
    rw [renamed, hName, if_neg (by decide)]
    rfl
  · refine ⟨fun state _ => state, by rw [hName]; rfl, fun state => ?_⟩
    rw [renamed, hName, if_neg (by decide)]

/-- An inventory can be populated from any stream of its own events, and has
the name that the last of its created events gave it. -/
theorem replay_of_known (root : InventoryAggregate) {events : List (IEvent EventData)}
    (h : ∀ event ∈ events, Known event) :
    ∃ root', AggregateFactory.replay inventoryAggregate root events = .ok root' ∧
      root'.state.name = events.foldl renamed root.state.name := by
  induction events generalizing root with
  | nil => exact ⟨root, rfl, rfl⟩
  | cons event events ih =>
      obtain ⟨handler, hHandler, hName⟩ := handler_of_known (h event List.mem_cons_self)
      obtain ⟨root', hReplay, hRest⟩ :=
        ih (root.handled handler event true) fun other hOther =>
          h other (List.mem_cons_of_mem _ hOther)
      refine ⟨root', ?_, ?_⟩
      · rw [AggregateFactory.replay, List.foldlM_cons, apply_of_handler hHandler]
        exact hReplay
      · rw [hRest, List.foldl_cons, ← hName]
        rfl

/-- A stream of known events loads, with the name that they add up to. -/
theorem mergeContext_of_known {store : MemoryStore EventData} {streamId : String}
    (h : ∀ event ∈ store.readFromStream streamId, Known event) :
    ∃ root, AggregateFactory.mergeContext inventoryAggregate store streamId = .ok root ∧
      root.state.name = (store.readFromStream streamId).foldl renamed none := by
  obtain ⟨root, hReplay, hName⟩ := replay_of_known (.new inventoryAggregate streamId) h
  refine ⟨{ root with commitFn := true }, ?_, hName⟩
  rw [AggregateFactory.mergeContext, hReplay]

/-- The name when all created events agree on one. -/
theorem foldl_renamed (name : String) {events : List (IEvent EventData)} (start : Option String)
    (h : ∀ event ∈ events, event.name = "InventoryCreatedEvent" → event.data.name = some name) :
    events.foldl renamed start =
      if ∃ event ∈ events, event.name = "InventoryCreatedEvent" then some name else start := by
  induction events generalizing start with
  | nil => simp
  | cons event events ih =>
      rw [List.foldl_cons, ih _ fun other hOther => h other (List.mem_cons_of_mem _ hOther)]
      by_cases hCreated : event.name = "InventoryCreatedEvent"
      · have hRenamed : renamed start event = some name := by
          rw [renamed, if_pos hCreated]
          exact h event List.mem_cons_self hCreated
        simp [hCreated, hRenamed]
      · simp [hCreated, renamed]

end Moirae.Inventory
