import Moirae.Core.Transactions
import Moirae.Demo.Account
import Moirae.Demo.Inventory
import Moirae.Runs.Execution

/-! The order process of the demo over one event store: orders take money from
an account, the saga has the goods removed from an inventory, and a removal that
fails has the account rolled back. Any number of executions are interleaved at
their awaits, and events are delivered in any order. -/
namespace Moirae.Orders

open Demo Account
open Inventory (CreateInventoryInput RemoveInventoryInput InventoryAggregate inventoryAggregate)

/-- `CreateOrderInput`. -/
structure CreateOrderInput where
  accountId : String
  inventoryId : String
  quantity : Int
  deriving DecidableEq

/-- `CreateAccountInput`. -/
structure CreateAccountInput where
  balance : Option Int
  name : String
  deriving DecidableEq

/-- What every UUID looks like. -/
def IsUUID (text : String) : Prop :=
  text.toList.length = 36 ∧ ∀ c ∈ text.toList, c = '-' ∨ c.isAlphanum = true

-- not the instance that goes through all characters there are
instance (text : String) : Decidable (IsUUID text) :=
  @instDecidableAnd _ _ (Nat.decEq _ _) (List.decidableBAll _ _)

/-- `new OrderCreatedEvent(account.id, { cost, id, ...input })`. -/
def orderCreatedEvent (streamId : String) (cost : Option Int) (id : String)
    (input : CreateOrderInput) (uuid : String) (now : Nat) : IEvent EventData :=
  newEvent "OrderCreatedEvent" streamId
    { EventData.undefined with
      cost, id := some id, accountId := some input.accountId
      inventoryId := some input.inventoryId, quantity := some input.quantity } uuid now

/-- How far the execution of a command is. -/
inductive Stage (Aggregate : Type)
  | waiting
  | merged (aggregate : Aggregate)
  | ended (outcome : Except Thrown Unit)

/-- The aggregate that was loaded, between the await and the end. -/
def Stage.loaded {Aggregate : Type} : Stage Aggregate → Option Aggregate
  | .merged aggregate => some aggregate
  | _ => none

/-- The execution has not ended. -/
def Stage.isOpen {Aggregate : Type} : Stage Aggregate → Bool
  | .ended _ => false
  | _ => true

/-- An aggregate is loaded at one stage only. -/
theorem Stage.loaded_eq_some_iff {Aggregate : Type} {stage : Stage Aggregate}
    {aggregate : Aggregate} : stage.loaded = some aggregate ↔ stage = .merged aggregate := by
  cases stage <;> simp [Stage.loaded]

/-- What the query for an inventory answers: its row, of which the price is used,
nothing, or an `Error`, which has no price. -/
inductive Answer
  | row (price : Int)
  | nothing
  | error
  deriving DecidableEq

/-- What clients ask of an account: `DepositFundsCommand`, `WithdrawFundsCommand`
or `CreateOrderCommand`. An order goes with the id it drew and the price that
the query for the inventory gave, if that is a number. -/
inductive Request
  | deposit (accountId : String) (funds : Int)
  | withdraw (accountId : String) (funds : Int)
  | order (input : CreateOrderInput) (id : String) (price : Option Int)

namespace Request

def accountId : Request → String
  | deposit accountId _ => accountId
  | withdraw accountId _ => accountId
  | order input _ _ => input.accountId

/-- The id of the order. -/
def orderId : Request → Option String
  | order _ id _ => some id
  | _ => none

/-- The ids that it brings along. -/
def ids : Request → List String
  | deposit accountId _ => [accountId]
  | withdraw accountId _ => [accountId]
  | order input id _ => [input.accountId, input.inventoryId, id]

/-- What is to be withdrawn, as a negative amount. -/
def withdrawn : Request → Option Int
  | deposit _ _ => some 0
  | withdraw _ funds => some funds
  | order input _ price => price.map (· * input.quantity * -1)

/-- An order has a price that is a number. -/
def Priced : Request → Prop
  | order _ _ price => price ≠ none
  | _ => True

end Request

structure Requested where
  request : Request
  command : ICommand EventData
  stage : Stage AccountAggregate

/-- The id that the execution drew for itself: that of its order, or of its
transaction. -/
def Requested.ownId (r : Requested) : Option String :=
  r.request.orderId.or r.command.correlationId

/-- An execution of `RemoveInventoryHandler`. -/
structure Removing where
  command : ICommand EventData
  stage : Stage InventoryAggregate

/-- An execution of `RollbackAccountHandler`. Next to its data, the command has
a correlation id if the event bus published it. -/
structure RollingBack where
  command : RollbackCommand
  correlationId : Option String
  stage : Stage AccountAggregate

/-- An execution of `CreateAccountHandler` or of `CreateInventoryHandler`, with
the stream it is to create. -/
structure Creating (Input Aggregate : Type) where
  input : Input
  streamId : String
  command : ICommand EventData
  stage : Stage Aggregate

/-- `pending` are the events that were published and not delivered yet. No
handler knows of `drawn`: these are the ids that are in use, of streams that
were created, of transactions and orders, and those that clients have named. -/
structure World where
  store : MemoryStore EventData
  cache : MemoryCache
  accounts : List (Creating CreateAccountInput AccountAggregate)
  inventories : List (Creating CreateInventoryInput InventoryAggregate)
  requests : List Requested
  removals : List Removing
  rollbacks : List RollingBack
  pending : List (IEvent EventData)
  drawn : List String

/-- Executions are known by their number, events by their place among those that
are pending. A command is executed with the ids it was published with, also when
it is executed again. -/
inductive Action
  | createAccount (streamId : String) (input : CreateAccountInput)
      (command : ICommand EventData)
  | resumeCreateAccount (i : Nat) (uuid : String) (now : Nat)
  | createInventory (streamId : String) (input : CreateInventoryInput)
      (command : ICommand EventData)
  /-- The name was reserved and no row has it, or it is a duplicate, or the query
  for it was rejected. -/
  | resumeCreateInventory (i : Nat) (nameFree : Except Thrown Bool) (uuid : String) (now : Nat)
  | catchDuplicate (i : Nat) (uuid : String) (now : Nat)
  | pay (deposit : Bool) (accountId : String) (funds : Int) (command : ICommand EventData)
  /-- The query for the inventory has been answered. -/
  | order (input : CreateOrderInput) (id : String) (answer : Answer)
      (command : ICommand EventData)
  | resume (i : Nat) (uuid uuid' : String) (now : Nat)
  | catchError (i : Nat) (uuid : String) (now : Nat)
  | remove (j : Nat)
  | resumeRemove (j : Nat) (uuid : String) (now : Nat)
  | rollBack (k : Nat)
  | resumeRollBack (k : Nat)
  /-- The handlers of an event have settled, and one of them may have rejected. -/
  | settle (place : Nat) (rejected : Bool)

section

variable (stamp : IEvent EventData → String × Nat)

/-- Commit what was applied. -/
def commit (store : MemoryStore EventData) (aggregate : AccountAggregate)
    (command : ICommand EventData) : Except Thrown (MemoryStore EventData) :=
  match AggregateRoot.commit (accountAggregate stamp).toAggregateClass aggregate
      (some command) with
  | .error reason => .error reason
  | .ok events => .ok (store.appendToStream events)

/-- The part of `CreateAccountHandler` and of `DepositFundsHandler` behind
`mergeContext`. -/
def applyAndCommit (store : MemoryStore EventData) (aggregate : AccountAggregate)
    (command : ICommand EventData) (event : IEvent EventData) :
    Except Thrown (MemoryStore EventData) :=
  match (accountAggregate stamp).apply aggregate event false with
  | (_, some reason) => .error reason
  | (applied, none) => commit stamp store applied command

/-- The part of `WithdrawFundsHandler` behind `mergeContext`. -/
def withdrawFunds (store : MemoryStore EventData) (aggregate : AccountAggregate)
    (command : ICommand EventData) (event : IEvent EventData) :
    Except Thrown (MemoryStore EventData) :=
  match (accountAggregate stamp).apply aggregate event false with
  | (_, some reason) => .error reason
  | (applied, none) =>
      if applied.state.balance.any (· < 0) then .error (invalidWithdrawalAmountException event)
      else commit stamp store applied command

/-- The part of `CreateOrderHandler` behind `mergeContext`. -/
def createOrder (store : MemoryStore EventData) (aggregate : AccountAggregate)
    (command : ICommand EventData) (cost : Option Int)
    (orderCreated withdrawn : IEvent EventData) :
    Except Thrown (MemoryStore EventData) :=
  match (accountAggregate stamp).apply aggregate orderCreated false with
  | (_, some reason) => .error reason
  | (ordered, none) =>
      if (minus ordered.state.balance cost).any (· < 0) then
        .error (invalidWithdrawalAmountException withdrawn)
      else applyAndCommit stamp store ordered command withdrawn

/-- The part of `RollbackAccountHandler` behind `mergeContext`. -/
def rollbackAccount (store : MemoryStore EventData) (aggregate : AccountAggregate)
    (command : ICommand EventData) (correlationId : Option String) :
    Except Thrown (MemoryStore EventData) :=
  match (accountAggregate stamp).rollback aggregate correlationId with
  | (_, .error reason) => .error reason
  | (rolledBack, .ok _) => commit stamp store rolledBack command

/-- The part of `CreateInventoryHandler` behind its awaits for the name. -/
def createInventory (store : MemoryStore EventData) (aggregate : InventoryAggregate)
    (command : ICommand EventData) (event : IEvent EventData) :
    Except Thrown Bool → Except Thrown (MemoryStore EventData)
  | .error reason => .error reason
  | .ok false => .error (Inventory.duplicateInventoryNameException event)
  | .ok true => Inventory.applyAndCommit store aggregate command event

/-- The handler of the request behind `mergeContext`. -/
def Request.execute (request : Request) (store : MemoryStore EventData)
    (aggregate : AccountAggregate) (command : ICommand EventData) (uuid uuid' : String)
    (now : Nat) : Except Thrown (MemoryStore EventData) :=
  match request with
  | deposit accountId funds =>
      applyAndCommit stamp store aggregate command (fundsDepositedEvent accountId uuid now funds)
  | withdraw accountId funds =>
      withdrawFunds stamp store aggregate command
        (fundsWithdrawnEvent accountId uuid now (some funds))
  | order input id price =>
      let cost := price.map (· * input.quantity)
      createOrder stamp store aggregate command cost
        (orderCreatedEvent aggregate.streamId cost id input uuid now)
        (fundsWithdrawnEvent aggregate.streamId uuid' now (cost.map (· * -1)))

def rollbackAccountCommand : RollbackCommandConstructor := ⟨"RollbackAccountCommand", 0⟩

def storage : ConstructorStorage := ConstructorStorage.register .empty rollbackAccountCommand

/-- `postOrderCreated` of `ProcessOrderSaga`. -/
def postOrderCreated (event : IEvent EventData) : Commands EventData :=
  [some
    { correlationId := none
      data :=
        { EventData.undefined with
          inventoryId := event.data.inventoryId, orderId := event.data.id
          quantity := event.data.quantity }
      metadata := some .empty
      name := "RemoveInventoryCommand"
      uuid := (stamp event).1 }]

def processOrderSaga : Saga EventData :=
  Saga.onApplicationBootstrap
    { metadata := [⟨"OrderCreatedEvent", "postOrderCreated", rollbackAccountCommand⟩]
      methods := fun _ event => .ok (postOrderCreated stamp event)
      cacheController := true
      sagaMap := .empty }

/-- The input of a `RemoveInventoryCommand`, which the event of an order has in
full. -/
def removeInput (command : ICommand EventData) : RemoveInventoryInput where
  inventoryId := command.data.inventoryId.getD ""
  orderId := command.data.orderId.getD ""
  quantity := command.data.quantity.getD 0

/-- The command as it is executed. -/
def RollingBack.issued (r : RollingBack) : ICommand EventData :=
  ⟨r.correlationId, .undefined, some .empty, "RollbackAccountCommand", ""⟩

namespace World

/-- The store in which events were appended. They wait for their delivery. -/
def appended (s : World) (store : MemoryStore EventData) : World :=
  { s with store, pending := s.pending ++ store.sent.drop s.store.sent.length }

/-- The rollback commands for what is registered under the id are published. -/
def rollbackSagas (s : World) (correlationId linked : Option String) : World :=
  match SagaManager.rollbackSagas storage s.cache correlationId with
  | .error _ => s
  | .ok commands =>
      { s with rollbacks := s.rollbacks ++ commands.map (⟨·, linked, .waiting⟩) }

/-- What the command bus does about a command that failed. -/
def failed (s : World) (correlationId : Option String) : World :=
  s.rollbackSagas correlationId none

def setRequest (s : World) (i : Nat) (r : Requested) : World :=
  { s with requests := s.requests.set i r }

def setRemoval (s : World) (j : Nat) (r : Removing) : World :=
  { s with removals := s.removals.set j r }

def setRollback (s : World) (k : Nat) (r : RollingBack) : World :=
  { s with rollbacks := s.rollbacks.set k r }

def setAccount (s : World) (i : Nat) (c : Creating CreateAccountInput AccountAggregate) : World :=
  { s with accounts := s.accounts.set i c }

def setInventory (s : World) (i : Nat) (c : Creating CreateInventoryInput InventoryAggregate) :
    World :=
  { s with inventories := s.inventories.set i c }

/-- The ids are in use from now on. -/
def draw (s : World) (ids : List String) : World := { s with drawn := ids ++ s.drawn }

def new : World := ⟨.bootstrapped, .new, [], [], [], [], [], [], []⟩

def createAccount (s : World) (streamId : String) (input : CreateAccountInput)
    (command : ICommand EventData) : World :=
  match (accountAggregate stamp).mergeContext streamId (s.store.readFromStream streamId) with
  | .error _ => (s.draw command.correlationId.toList).failed command.correlationId
  | .ok aggregate =>
      { s with accounts := s.accounts ++ [⟨input, streamId, command, .merged aggregate⟩] }

def resumeCreateAccount (s : World) (i : Nat) (c : Creating CreateAccountInput AccountAggregate)
    (uuid : String) (now : Nat) : Option World :=
  match c.stage with
  | .merged aggregate =>
      match applyAndCommit stamp s.store aggregate c.command
          (accountCreatedEvent c.streamId uuid now c.input.balance c.input.name) with
      | .error reason =>
          some (((s.setAccount i { c with stage := .ended (.error reason) }).draw
            c.command.correlationId.toList).failed c.command.correlationId)
      | .ok store =>
          some (((s.setAccount i { c with stage := .ended (.ok ()) }).draw
            (c.streamId :: c.command.correlationId.toList)).appended store)
  | _ => none

def createInventory (s : World) (streamId : String) (input : CreateInventoryInput)
    (command : ICommand EventData) : World :=
  match AggregateFactory.mergeContext inventoryAggregate s.store streamId with
  | .error _ => (s.draw command.correlationId.toList).failed command.correlationId
  | .ok aggregate =>
      { s with inventories := s.inventories ++ [⟨input, streamId, command, .merged aggregate⟩] }

def resumeCreateInventory (s : World) (i : Nat)
    (c : Creating CreateInventoryInput InventoryAggregate) (nameFree : Except Thrown Bool)
    (uuid : String) (now : Nat) : Option World :=
  match c.stage with
  | .merged aggregate =>
      match Orders.createInventory s.store aggregate c.command
          (Inventory.inventoryCreatedEvent c.streamId c.input uuid now) nameFree with
      | .error reason =>
          some (((s.setInventory i { c with stage := .ended (.error reason) }).draw
            c.command.correlationId.toList).failed c.command.correlationId)
      | .ok store =>
          some (((s.setInventory i { c with stage := .ended (.ok ()) }).draw
            (c.streamId :: c.command.correlationId.toList)).appended store)
  | _ => none

/-- `InventoryCreatedFailedFilter`, which is called with the exception. -/
def catchDuplicate (s : World) (c : Creating CreateInventoryInput InventoryAggregate)
    (uuid : String) (now : Nat) : Option World :=
  match c.stage with
  | .ended (.error (.error "DuplicateInventoryNameException" message)) =>
      some ((s.draw [c.streamId]).appended (s.store.push
        (Inventory.inventoryCreatedFailedEvent c.streamId c.input message c.command.metadata uuid
          now)))
  | _ => none

/-- The handler is called, up to its await. -/
def call (s : World) (request : Request) (command : ICommand EventData) : World :=
  match (accountAggregate stamp).mergeContext request.accountId
      (s.store.readFromStream request.accountId) with
  | .error _ => s.failed command.correlationId
  | .ok aggregate => { s with requests := s.requests ++ [⟨request, command, .merged aggregate⟩] }

def resume (s : World) (i : Nat) (r : Requested) (uuid uuid' : String) (now : Nat) :
    Option World :=
  match r.stage with
  | .merged aggregate =>
      match r.request.execute stamp s.store aggregate r.command uuid uuid' now with
      | .error reason =>
          some ((s.setRequest i { r with stage := .ended (.error reason) }).failed
            r.command.correlationId)
      | .ok store => some ((s.setRequest i { r with stage := .ended (.ok ()) }).appended store)
  | _ => none

/-- `InvalidWithdrawalAmountFilter`, which is called with the exception. -/
def catchError (s : World) (r : Requested) (uuid : String) (now : Nat) : Option World :=
  match r.stage with
  | .ended (.error (.error "InvalidWithdrawalAmountException" _)) =>
      some (s.appended (s.store.push (fundsWithdrawalFailedEvent r.request.accountId uuid now
        r.request.withdrawn)))
  | _ => none

def remove (s : World) (j : Nat) (r : Removing) : Option World :=
  match r.stage with
  | .waiting =>
      match AggregateFactory.mergeContext inventoryAggregate s.store
          (removeInput r.command).inventoryId with
      | .error reason =>
          some ((s.setRemoval j { r with stage := .ended (.error reason) }).failed
            r.command.correlationId)
      | .ok aggregate => some (s.setRemoval j { r with stage := .merged aggregate })
  | _ => none

def resumeRemove (s : World) (j : Nat) (r : Removing) (uuid : String) (now : Nat) :
    Option World :=
  match r.stage with
  | .merged aggregate =>
      let removed := (removeInput r.command).quantity
      match Inventory.removeInventory s.store aggregate r.command
          (Inventory.inventoryRemovedEvent aggregate.streamId removed uuid now) removed with
      | .error reason =>
          some ((s.setRemoval j { r with stage := .ended (.error reason) }).failed
            r.command.correlationId)
      | .ok store => some ((s.setRemoval j { r with stage := .ended (.ok ()) }).appended store)
  | _ => none

def rollBack (s : World) (k : Nat) (r : RollingBack) : Option World :=
  match r.stage with
  | .waiting =>
      let streamId := r.command.streamId.getD ""
      match (accountAggregate stamp).mergeContext streamId (s.store.readFromStream streamId) with
      | .error reason =>
          some ((s.setRollback k { r with stage := .ended (.error reason) }).failed
            r.correlationId)
      | .ok aggregate => some (s.setRollback k { r with stage := .merged aggregate })
  | _ => none

def resumeRollBack (s : World) (k : Nat) (r : RollingBack) : Option World :=
  match r.stage with
  | .merged aggregate =>
      match rollbackAccount stamp s.store aggregate r.issued r.command.correlationId with
      | .error reason =>
          some ((s.setRollback k { r with stage := .ended (.error reason) }).failed
            r.correlationId)
      | .ok store => some ((s.setRollback k { r with stage := .ended (.ok ()) }).appended store)
  | _ => none

/-- The part of `executeLocal` of the event bus behind its handlers. -/
def settle (s : World) (event : IEvent EventData) (rejected : Bool) : World :=
  if rejected then
    s.rollbackSagas event.correlationId
      (if truthy event.correlationId then event.correlationId else none)
  else
    match (processOrderSaga stamp).process event s.cache with
    | (cache, .error _) => { s with cache }
    | (cache, .ok commands) =>
        { s with
          cache
          removals := s.removals ++ (commands.filterMap id).map fun command =>
            ⟨Transactions.linked event command, .waiting⟩ }

def step (s : World) : Action → Option World
  | .createAccount streamId input command => some (s.createAccount stamp streamId input command)
  | .resumeCreateAccount i uuid now =>
      s.accounts[i]?.bind fun c => s.resumeCreateAccount stamp i c uuid now
  | .createInventory streamId input command => some (s.createInventory streamId input command)
  | .resumeCreateInventory i nameFree uuid now =>
      s.inventories[i]?.bind fun c => s.resumeCreateInventory i c nameFree uuid now
  | .catchDuplicate i uuid now => s.inventories[i]?.bind fun c => s.catchDuplicate c uuid now
  | .pay deposit accountId funds command =>
      some ((s.draw (accountId :: command.correlationId.toList)).call stamp
        (if deposit then .deposit accountId funds else .withdraw accountId funds) command)
  | .order input id answer command =>
      let drawn := s.draw
        ([input.accountId, input.inventoryId, id] ++ command.correlationId.toList)
      match answer with
      | .nothing => some (drawn.failed command.correlationId)
      | .error => some (drawn.call stamp (.order input id none) command)
      | .row price =>
          -- only inventories that were created have a row
          if ∃ event ∈ s.store.readFromStream input.inventoryId,
              event.name = "InventoryCreatedEvent" then
            some (drawn.call stamp (.order input id (some price)) command)
          else none
  | .resume i uuid uuid' now => s.requests[i]?.bind fun r => s.resume stamp i r uuid uuid' now
  | .catchError i uuid now => s.requests[i]?.bind fun r => s.catchError r uuid now
  | .remove j => s.removals[j]?.bind fun r => s.remove j r
  | .resumeRemove j uuid now => s.removals[j]?.bind fun r => s.resumeRemove j r uuid now
  | .rollBack k => s.rollbacks[k]?.bind fun r => s.rollBack stamp k r
  | .resumeRollBack k => s.rollbacks[k]?.bind fun r => s.resumeRollBack stamp k r
  | .settle place rejected => s.pending[place]?.map fun event =>
      ({ s with pending := s.pending.eraseIdx place } : World).settle stamp event rejected

end World

end

namespace World

/-- An id that is not in use. -/
def Fresh (s : World) (id : String) : Prop := IsUUID id ∧ id ∉ s.drawn

instance (s : World) (id : String) : Decidable (s.Fresh id) := inferInstanceAs (Decidable (_ ∧ _))

/-- Nothing has been done in the transaction of the command. -/
def Begins (s : World) (command : ICommand EventData) : Prop :=
  ∃ id ∈ command.correlationId, s.Fresh id

instance (s : World) (command : ICommand EventData) : Decidable (s.Begins command) :=
  inferInstanceAs (Decidable (∃ id ∈ command.correlationId, s.Fresh id))

/-- Every command is executed once, what is created has an id that nobody has
used, not even while it was being created, and the query for an inventory does
not answer with an `Error`. -/
def Orderly (s : World) : Action → Prop
  | .createAccount _ _ command | .createInventory _ _ command => s.Begins command
  | .resumeCreateAccount i _ _ =>
      ∀ c ∈ s.accounts[i]?, s.Fresh c.streamId ∧ s.Begins c.command
  | .resumeCreateInventory i _ _ _ =>
      ∀ c ∈ s.inventories[i]?, s.Fresh c.streamId ∧ s.Begins c.command
  | .catchDuplicate i _ _ => ∀ c ∈ s.inventories[i]?, s.Fresh c.streamId
  | .pay _ accountId _ command => IsUUID accountId ∧ s.Begins command
  | .order input id answer command => IsUUID input.accountId ∧ IsUUID input.inventoryId ∧
      s.Fresh id ∧ s.Begins command ∧ answer ≠ .error
  | _ => True

instance Orderly.decidable (s : World) : ∀ a : Action, Decidable (s.Orderly a)
  | .createAccount _ _ command | .createInventory _ _ command =>
      inferInstanceAs (Decidable (s.Begins command))
  | .resumeCreateAccount i _ _ => inferInstanceAs (Decidable (∀ c ∈ s.accounts[i]?, _ ∧ _))
  | .resumeCreateInventory i _ _ _ =>
      inferInstanceAs (Decidable (∀ c ∈ s.inventories[i]?, _ ∧ _))
  | .catchDuplicate i _ _ => inferInstanceAs (Decidable (∀ c ∈ s.inventories[i]?, _))
  | .pay _ _ _ _ => inferInstanceAs (Decidable (_ ∧ _))
  | .order _ _ _ _ => inferInstanceAs (Decidable (_ ∧ _ ∧ _ ∧ _ ∧ _))
  | .resume .. | .catchError .. | .remove .. | .resumeRemove .. | .rollBack ..
  | .resumeRollBack .. | .settle .. => instDecidableTrue

end World

end Moirae.Orders
