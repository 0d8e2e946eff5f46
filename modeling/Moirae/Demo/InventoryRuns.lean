import Moirae.Core.ValueReservation
import Moirae.Demo.Inventory

/-! The handlers of the inventory domain in any number of executions, which are
interleaved at their awaits. An event may be handled any number of times once it
is committed, and a command executed any number of times. -/
namespace Moirae.Inventory

open Demo

/-- How far an execution of `CreateInventoryHandler` is. -/
inductive CreationStage
  | merged
  | reserved
  | checked (nameExists : Bool)
  | ended (outcome : Except Thrown Unit)
  /-- The query for the name was rejected. -/
  | failed

structure Creation where
  input : CreateInventoryInput
  command : ICommand EventData
  event : IEvent EventData
  aggregate : InventoryAggregate
  stage : CreationStage

/-- An execution of `RemoveInventoryHandler`, which has the result once it is
past its await. -/
structure Removal where
  input : RemoveInventoryInput
  command : ICommand EventData
  aggregate : InventoryAggregate
  outcome : Option (Except Thrown Unit)

/-- How far an execution of `InventoryCreatedHandler` or
`InventoryRemovedHandler` is. -/
inductive HandlingStage
  | merged
  | saved
  | ended
  /-- The projection was not saved. -/
  | failed
  deriving DecidableEq

structure Handling where
  /-- Is this `InventoryCreatedHandler`? -/
  created : Bool
  aggregate : InventoryAggregate
  stage : HandlingStage

/-- The reservation of a name for an inventory. -/
def nameReservation (name : Option String) : ValueReservation.Reservation (Option String) :=
  ⟨"InventoryAggregate", "name", name⟩

structure World (db : Repository) where
  store : MemoryStore EventData
  cache : MemoryCache
  table : db.Table
  creations : List Creation
  removals : List Removal
  handlings : List Handling

/-- Executions are known by their number, events by their place among those
that were published. -/
inductive Action
  | create (streamId : String) (input : CreateInventoryInput) (command : ICommand EventData)
      (uuid : String) (now : Nat)
  | resumeCreate (i : Nat)
  | failQuery (i : Nat)
  | catchError (i : Nat) (uuid : String) (now : Nat)
  | remove (input : RemoveInventoryInput) (command : ICommand EventData)
  | resumeRemove (j : Nat) (uuid : String) (now : Nat)
  | handle (place : Nat)
  | resumeHandle (k : Nat)
  | failSave (k : Nat)

namespace World

variable {db : Repository}

def new : World db := ⟨.bootstrapped, .new, db.empty, [], [], []⟩

/-- `CreateInventoryHandler` from one await to the next. -/
def resumeCreate (sha1 : Option String → String) (s : World db) (i : Nat) (c : Creation) :
    Option (World db) :=
  match c.stage with
  | .merged =>
      let (cache, succeeded) :=
        ValueReservation.reserveValue sha1 s.cache (nameReservation (some c.input.name))
      let stage := if succeeded then .reserved
        else .ended (.error (duplicateInventoryNameException c.event))
      some { s with cache, creations := s.creations.set i { c with stage } }
  | .reserved =>
      let stage := .checked (nameExists db s.table c.input.name)
      some { s with creations := s.creations.set i { c with stage } }
  | .checked true =>
      let (cache, _) :=
        ValueReservation.releaseValue sha1 s.cache (nameReservation (some c.input.name))
      let stage := .ended (.error (duplicateInventoryNameException c.event))
      some { s with cache, creations := s.creations.set i { c with stage } }
  | .checked false =>
      match applyAndCommit s.store c.aggregate c.command c.event with
      | .error reason =>
          some { s with creations := s.creations.set i { c with stage := .ended (.error reason) } }
      | .ok store =>
          some { s with store, creations := s.creations.set i { c with stage := .ended (.ok ()) } }
  | _ => none

/-- `InventoryCreatedHandler` and `InventoryRemovedHandler` from one await to
the next. Only the former releases the name. -/
def resumeHandle (sha1 : Option String → String) (s : World db) (k : Nat) (h : Handling) :
    Option (World db) :=
  match h.stage with
  | .merged => (db.save s.table (toProjection h.aggregate)).map fun table =>
      let stage := if h.created then .saved else .ended
      { s with table, handlings := s.handlings.set k { h with stage } }
  | .saved =>
      let (cache, _) :=
        ValueReservation.releaseValue sha1 s.cache (nameReservation h.aggregate.state.name)
      some { s with cache, handlings := s.handlings.set k { h with stage := .ended } }
  | _ => none

def handle (s : World db) (created : Bool) (event : IEvent EventData) : Option (World db) :=
  match AggregateFactory.mergeContext inventoryAggregate s.store event.streamId with
  | .error _ => some s
  | .ok aggregate => some { s with handlings := s.handlings ++ [⟨created, aggregate, .merged⟩] }

def step (sha1 : Option String → String) (s : World db) : Action → Option (World db)
  | .create streamId input command uuid now =>
      match AggregateFactory.mergeContext inventoryAggregate s.store streamId with
      | .error _ => some s
      | .ok aggregate =>
          let event := inventoryCreatedEvent streamId input uuid now
          some { s with
            creations := s.creations ++ [⟨input, command, event, aggregate, .merged⟩] }
  | .resumeCreate i => s.creations[i]?.bind (s.resumeCreate sha1 i)
  | .failQuery i => s.creations[i]?.bind fun c => match c.stage with
      | .reserved => some { s with creations := s.creations.set i { c with stage := .failed } }
      | _ => none
  -- `InventoryCreatedFailedFilter`, which is called with the exception
  | .catchError i uuid now => s.creations[i]?.bind fun c => match c.stage with
      | .ended (.error (.error "DuplicateInventoryNameException" message)) =>
          some { s with
            store := s.store.push (inventoryCreatedFailedEvent c.event.streamId c.input message
              c.command.metadata uuid now) }
      | _ => none
  | .remove input command =>
      match AggregateFactory.mergeContext inventoryAggregate s.store input.inventoryId with
      | .error _ => some s
      | .ok aggregate =>
          some { s with removals := s.removals ++ [⟨input, command, aggregate, none⟩] }
  | .resumeRemove j uuid now => s.removals[j]?.bind fun r => match r.outcome with
      | some _ => none
      | none =>
          let event := inventoryRemovedEvent r.aggregate.streamId r.input.quantity uuid now
          match removeInventory s.store r.aggregate r.command event r.input.quantity with
          | .error reason => some { s with
              removals := s.removals.set j { r with outcome := some (.error reason) } }
          | .ok store => some { s with
              store, removals := s.removals.set j { r with outcome := some (.ok ()) } }
  | .handle place => s.store.sent[place]?.bind fun event => match event.name with
      | "InventoryCreatedEvent" => s.handle true event
      | "InventoryRemovedEvent" => s.handle false event
      | _ => none
  | .resumeHandle k => s.handlings[k]?.bind (s.resumeHandle sha1 k)
  | .failSave k => s.handlings[k]?.bind fun h => match h.stage with
      | .merged => some { s with handlings := s.handlings.set k { h with stage := .failed } }
      | _ => none

end World

end Moirae.Inventory
