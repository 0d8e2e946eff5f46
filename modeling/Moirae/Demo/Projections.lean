import Mathlib.Data.List.InsertIdx
import Moirae.Demo.OrderAtomicity
import Moirae.Runs.Refinement

/-! The event handlers of the demo, which keep tables of accounts, orders and
inventories. The order process goes on here with their executions in detail:
every event that waits for its delivery has a handler that may be called, then
saves something or removes it, and may fail. -/
namespace Moirae.Projections

open Demo Account
open Inventory (IInventory InventoryAggregate inventoryAggregate mergeRow)

/-- `IAccount`, as `toProjection` makes it. The orders are no column. -/
structure IAccount where
  id : String
  name : Option String
  balance : Option Int
  createdAt : Option Nat
  updatedAt : Option Nat
  deriving DecidableEq

def toProjection (aggregate : AccountAggregate) : IAccount where
  id := aggregate.streamId
  name := aggregate.state.name
  balance := aggregate.state.balance
  createdAt := aggregate.state.createdAt
  updatedAt := aggregate.updatedAt

/-- An account over the row that was there. -/
def mergeAccount (old : Option IAccount) (projection : IAccount) : IAccount where
  id := projection.id
  name := projection.name.or (old.bind (·.name))
  balance := projection.balance.or (old.bind (·.balance))
  createdAt := projection.createdAt.or (old.bind (·.createdAt))
  updatedAt := projection.updatedAt.or (old.bind (·.updatedAt))

/-- An order over the row that was there. -/
def mergeOrder (old : Option IOrder) (order : IOrder) : IOrder where
  id := order.id
  accountId := order.accountId.or (old.bind (·.accountId))
  cost := order.cost.or (old.bind (·.cost))
  inventoryId := order.inventoryId.or (old.bind (·.inventoryId))
  quantity := order.quantity.or (old.bind (·.quantity))

/-- What a handler does after the aggregate of the event was populated, if it is
populated at all. -/
inductive EventHandler
  | saveAccount
  | saveOrder
  | removeOrder
  | saveInventory
  deriving DecidableEq

def accountCreatedHandler : EventHandler := .saveAccount
def fundsDepositedHandler : EventHandler := .saveAccount
def fundsWithdrawnHandler : EventHandler := .saveAccount
def orderCreatedHandler : EventHandler := .saveOrder
def rollbackOrderCreatedHandler : EventHandler := .removeOrder
def inventoryCreatedHandler : EventHandler := .saveInventory
def inventoryRemovedHandler : EventHandler := .saveInventory

/-- The handlers among the providers, by the event they are for. The one for
`RollbackFundsWithdrawnEvent` is not provided. -/
def eventHandler : String → Option EventHandler
  | "AccountCreatedEvent" => some accountCreatedHandler
  | "FundsDepositedEvent" => some fundsDepositedHandler
  | "FundsWithdrawnEvent" => some fundsWithdrawnHandler
  | "OrderCreatedEvent" => some orderCreatedHandler
  | "RollbackOrderCreatedEvent" => some rollbackOrderCreatedHandler
  | "InventoryCreatedEvent" => some inventoryCreatedHandler
  | "InventoryRemovedEvent" => some inventoryRemovedHandler
  | _ => none

/-- How far the handler of an event is: the repository has been given what it
saves or removes, which may be undefined, or the handler has settled. -/
inductive Handling
  | waiting
  | savingAccount (aggregate : AccountAggregate)
  | savingOrder (order : Option IOrder)
  | removingOrder (order : Option IOrder)
  | savingInventory (aggregate : InventoryAggregate)
  | settled (rejected : Bool)

/-- An event that was published, until its handler has settled and the event bus
goes on. -/
structure Delivery where
  event : IEvent EventData
  handling : Handling

/-- The order process, and the tables with their rows by id. `deliveries` are the
events that the process has pending. -/
structure World where
  process : Orders.World
  deliveries : List Delivery
  accounts : KeyedMap String IAccount
  orders : KeyedMap String IOrder
  inventories : KeyedMap String IInventory

inductive Action
  /-- Anything in the process but the end of a delivery. -/
  | process (a : Orders.Action)
  /-- The handler is called. -/
  | handle (place : Nat)
  /-- The call of the repository ends. The database may refuse it. -/
  | finish (place : Nat) (refused : Bool)
  /-- The event bus goes on. -/
  | settle (place : Nat)

/-- The end of a delivery. -/
def isSettle : Orders.Action → Bool
  | .settle _ _ => true
  | _ => false

/-- What is no end of a delivery is none at any place. -/
theorem ne_settle_of_isSettle {a : Orders.Action} (h : isSettle a = false) (place : Nat)
    (rejected : Bool) : a ≠ .settle place rejected := by
  intro hThis
  rw [hThis] at h
  cases h

namespace World

def new : World := ⟨.new, [], .empty, .empty, .empty⟩

section

variable (stamp : IEvent EventData → String × Nat)

/-- The handlers up to the call of the repository that writes. -/
def handle (s : World) (event : IEvent EventData) : Handling :=
  match eventHandler event.name with
  | none => .settled false
  | some .saveAccount =>
      match (accountAggregate stamp).mergeContext event.streamId
          (s.process.store.readFromStream event.streamId) with
      | .error _ => .settled true
      | .ok aggregate => .savingAccount aggregate
  | some .saveOrder =>
      match (accountAggregate stamp).mergeContext event.streamId
          (s.process.store.readFromStream event.streamId) with
      | .error _ => .settled true
      | .ok aggregate => match aggregate.state.orders with
        | none => .settled true
        | some orders => .savingOrder (orders.find? (·.id = event.data.id))
  | some .removeOrder => .removingOrder (event.data.id.bind s.orders.get)
  | some .saveInventory =>
      match AggregateFactory.mergeContext inventoryAggregate s.process.store event.streamId with
      | .error _ => .settled true
      | .ok aggregate => .savingInventory aggregate

end

/-- What a call of a repository does that is not refused. What is undefined can
be neither saved nor removed, and no row is without its id. -/
def write (s : World) : Handling → Option World
  | .savingAccount aggregate =>
      let row := mergeAccount (s.accounts.get aggregate.streamId) (toProjection aggregate)
      some { s with accounts := s.accounts.set aggregate.streamId row }
  | .savingOrder (some order) => order.id.map fun id =>
      { s with orders := s.orders.set id (mergeOrder (s.orders.get id) order) }
  | .removingOrder (some order) => order.id.map fun id =>
      { s with orders := s.orders.delete id }
  | .savingInventory aggregate =>
      let row := mergeRow (s.inventories.get aggregate.streamId) (Inventory.toProjection aggregate)
      some { s with inventories := s.inventories.set aggregate.streamId row }
  | _ => none

def setHandling (s : World) (place : Nat) (d : Delivery) (handling : Handling) : World :=
  { s with deliveries := s.deliveries.set place { d with handling } }

/-- The end of the call of a repository. -/
def finish (s : World) (place : Nat) (d : Delivery) (refused : Bool) : Option World :=
  match d.handling with
  | .waiting | .settled _ => none
  | handling =>
      match if refused then none else s.write handling with
      | none => some (s.setHandling place d (.settled true))
      | some written => some (written.setHandling place d (.settled false))

/-- The event bus and the process go on with the handlers settled like this. -/
def settle (stamp : IEvent EventData → String × Nat) (s : World) (place : Nat) (d : Delivery) :
    Option World :=
  match d.handling with
  | .settled rejected => (s.process.step stamp (.settle place rejected)).map fun process =>
      { s with process, deliveries := s.deliveries.eraseIdx place }
  | _ => none

/-- The process has gone on, and what it has published is to be delivered. -/
def proceed (s : World) (process : Orders.World) : World :=
  { s with
    process
    deliveries := s.deliveries ++
      (process.pending.drop s.process.pending.length).map (⟨·, .waiting⟩) }

def step (stamp : IEvent EventData → String × Nat) (s : World) : Action → Option World
  | .process a => if isSettle a then none else (s.process.step stamp a).map s.proceed
  | .handle place => s.deliveries[place]?.bind fun d => match d.handling with
    | .waiting => some (s.setHandling place d (s.handle stamp d.event))
    | _ => none
  | .finish place refused => s.deliveries[place]?.bind fun d => s.finish place d refused
  | .settle place => s.deliveries[place]?.bind fun d => s.settle stamp place d

/-- The step of the process that this is. -/
def label (s : World) : Action → Option Orders.Action
  | .process a => some a
  | .settle place => s.deliveries[place]?.bind fun d => match d.handling with
    | .settled rejected => some (.settle place rejected)
    | _ => none
  | _ => none

/-! ## What a step does -/

variable {stamp : IEvent EventData → String × Nat} {s t : World}

/-- A call of a repository changes nothing but a table. -/
theorem write_same {handling : Handling} (h : s.write handling = some t) :
    t.process = s.process ∧ t.deliveries = s.deliveries := by
  unfold write at h
  split at h
  · obtain rfl := Option.some.inj h
    exact ⟨rfl, rfl⟩
  · obtain ⟨id, -, rfl⟩ := Option.map_eq_some_iff.mp h
    exact ⟨rfl, rfl⟩
  · obtain ⟨id, -, rfl⟩ := Option.map_eq_some_iff.mp h
    exact ⟨rfl, rfl⟩
  · obtain rfl := Option.some.inj h
    exact ⟨rfl, rfl⟩
  · cases h

/-- What a step makes of a world. -/
inductive Effect (stamp : IEvent EventData → String × Nat) (s : World) : Action → World → Prop
  | processed {a : Orders.Action} {process : Orders.World} (hNot : isSettle a = false)
      (hStep : s.process.step stamp a = some process) :
      Effect stamp s (.process a) (s.proceed process)
  | handled {place : Nat} {d : Delivery} (hd : s.deliveries[place]? = some d)
      (hWaiting : d.handling = .waiting) :
      Effect stamp s (.handle place) (s.setHandling place d (s.handle stamp d.event))
  | refused {place : Nat} {d : Delivery} {refused : Bool} (hd : s.deliveries[place]? = some d)
      (hCalled : d.handling ≠ .waiting) (hOpen : ∀ rejected, d.handling ≠ .settled rejected)
      (hWhy : refused = true ∨ s.write d.handling = none) :
      Effect stamp s (.finish place refused) (s.setHandling place d (.settled true))
  | written {place : Nat} {d : Delivery} {u : World} (hd : s.deliveries[place]? = some d)
      (hWrite : s.write d.handling = some u) :
      Effect stamp s (.finish place false) (u.setHandling place d (.settled false))
  | settled {place : Nat} {d : Delivery} {rejected : Bool} {process : Orders.World}
      (hd : s.deliveries[place]? = some d) (hSettled : d.handling = .settled rejected)
      (hStep : s.process.step stamp (.settle place rejected) = some process) :
      Effect stamp s (.settle place)
        { s with process, deliveries := s.deliveries.eraseIdx place }

/-- The call of a repository has written a row, or the handler has failed. -/
theorem effect_finish {place : Nat} {d : Delivery} {refused : Bool}
    (hd : s.deliveries[place]? = some d) (hFinish : s.finish place d refused = some t) :
    Effect stamp s (.finish place refused) t := by
  unfold finish at hFinish
  split at hFinish
  · cases hFinish
  · cases hFinish
  · next hCalled hOpen =>
      split at hFinish
      · next hNone =>
          obtain rfl := Option.some.inj hFinish
          apply Effect.refused hd hCalled hOpen
          cases refused with
          | true => exact Or.inl rfl
          | false => exact Or.inr hNone
      · next written hWrite =>
          obtain rfl := Option.some.inj hFinish
          cases refused with
          | true => cases hWrite
          | false => exact .written hd hWrite

/-- Every step is one of the effects. -/
theorem step_effect {a : Action} (hStep : s.step stamp a = some t) : Effect stamp s a t := by
  cases a with
  | process a =>
      simp only [World.step] at hStep
      split at hStep
      · cases hStep
      · next hNot =>
          obtain ⟨process, hProcess, rfl⟩ := Option.map_eq_some_iff.mp hStep
          exact .processed (Bool.eq_false_of_not_eq_true hNot) hProcess
  | handle place =>
      obtain ⟨d, hd, hThis⟩ := Option.bind_eq_some_iff.mp hStep
      split at hThis
      · next hWaiting =>
          obtain rfl := Option.some.inj hThis
          exact .handled hd hWaiting
      · cases hThis
  | finish place refused =>
      obtain ⟨d, hd, hFinish⟩ := Option.bind_eq_some_iff.mp hStep
      exact effect_finish hd hFinish
  | settle place =>
      obtain ⟨d, hd, hSettle⟩ := Option.bind_eq_some_iff.mp hStep
      unfold settle at hSettle
      split at hSettle
      · next rejected hSettled =>
          obtain ⟨process, hProcess, rfl⟩ := Option.map_eq_some_iff.mp hSettle
          exact .settled hd hSettled hProcess
      · cases hSettle

/-- The process does in detail what it does with its handlers left out. -/
theorem refines_process (stamp : IEvent EventData → String × Nat) :
    Runs.Refines (step stamp) (Orders.World.step stamp) World.process label := by
  constructor
  · intro s a t b hStep hLabel
    cases step_effect hStep with
    | processed hNot hProcess =>
        obtain rfl := Option.some.inj hLabel
        exact hProcess
    | handled hd hWaiting => cases hLabel
    | refused hd hCalled hOpen hWhy => cases hLabel
    | written hd hWrite => cases hLabel
    | settled hd hSettled hProcess =>
        simp only [label, hd, Option.bind_some, hSettled, Option.some.injEq] at hLabel
        rw [← hLabel]
        exact hProcess
  · intro s a t hStep hLabel
    cases step_effect hStep with
    | processed hNot hProcess => cases hLabel
    | handled hd hWaiting => rfl
    | refused hd hCalled hOpen hWhy => rfl
    | written hd hWrite => exact (write_same hWrite).1
    | settled hd hSettled hProcess =>
        simp only [label, hd, Option.bind_some, hSettled] at hLabel
        cases hLabel

/-! ## Deliveries -/

/-- What is delivered is what the process has pending, and no event waits more
often than it was stored. -/
structure Aligned (s : World) : Prop where
  pending : s.process.pending = s.deliveries.map (·.event)
  once : s.process.pending.Subperm s.process.store.sent

/-- Nothing is to be delivered. -/
theorem aligned_new : new.Aligned where
  pending := rfl
  once := List.Subperm.refl _

/-- A delivery stands where the process has its event. -/
theorem Aligned.place (h : s.Aligned) {place : Nat} {d : Delivery}
    (hd : s.deliveries[place]? = some d) : s.process.pending[place]? = some d.event := by
  rw [h.pending, List.getElem?_map, hd]
  rfl

/-- Each event that is delivered is pending in the process. -/
theorem Aligned.mem (h : s.Aligned) {d : Delivery} (hd : d ∈ s.deliveries) :
    d.event ∈ s.process.pending := by
  rw [h.pending]
  exact List.mem_map_of_mem hd

/-- Each event that is delivered is in the store. -/
theorem Aligned.sent (h : s.Aligned) {d : Delivery} (hd : d ∈ s.deliveries) :
    d.event ∈ s.process.store.sent :=
  h.once.subset (h.mem hd)

/-- A step of the process that publishes something new for delivery. -/
structure Published (s : World) (process : Orders.World) (more : List (IEvent EventData)) :
    Prop where
  sent : process.store.sent = s.process.store.sent ++ more
  pending : process.pending = s.process.pending ++ more
  deliveries : (s.proceed process).deliveries = s.deliveries ++ more.map (⟨·, .waiting⟩)

/-- The process goes on with something published. -/
theorem exists_published (hSound : s.process.Sound stamp) {a : Orders.Action}
    {process : Orders.World} (hOrderly : s.process.Orderly a) (hNot : isSettle a = false)
    (hStep : s.process.step stamp a = some process) : ∃ more, Published s process more := by
  obtain ⟨more, hSent, hPending⟩ :=
    Orders.World.step_grows hSound hOrderly hStep (ne_settle_of_isSettle hNot)
  refine ⟨more, hSent, hPending, ?_⟩
  rw [proceed, hPending, List.drop_left]

/-- The process goes on behind a delivery. -/
theorem Aligned.settled_same (h : s.Aligned) {place : Nat} {d : Delivery} {rejected : Bool}
    {process : Orders.World} (hd : s.deliveries[place]? = some d)
    (hStep : s.process.step stamp (.settle place rejected) = some process) :
    process.store = s.process.store ∧ process.pending = s.process.pending.eraseIdx place := by
  rw [Orders.World.step_settle stamp (h.place hd)] at hStep
  obtain rfl := Option.some.inj hStep
  exact Orders.World.settle_store ..

/-- However far a handler is, its event is delivered. -/
theorem events_setHandling {place : Nat} {d : Delivery} (hd : s.deliveries[place]? = some d)
    (handling : Handling) :
    (s.setHandling place d handling).deliveries.map (·.event) = s.deliveries.map (·.event) := by
  have hSame : ({ d with handling } : Delivery).event = d.event := rfl
  exact map_set_of_eq hd hSame

/-- How far a handler is does not matter to the process. -/
theorem Aligned.setHandling (h : s.Aligned) {place : Nat} {d : Delivery}
    (hd : s.deliveries[place]? = some d) (handling : Handling) :
    (s.setHandling place d handling).Aligned where
  pending := h.pending.trans (events_setHandling hd handling).symm
  once := h.once

/-- Nor does what a handler writes. -/
theorem Aligned.write (h : s.Aligned) {handling : Handling} (hWrite : s.write handling = some t) :
    t.Aligned := by
  obtain ⟨hProcess, hDeliveries⟩ := write_same hWrite
  constructor
  case pending =>
    rw [hProcess, hDeliveries]
    exact h.pending
  case once =>
    rw [hProcess]
    exact h.once

/-- What the process publishes is to be delivered. -/
theorem Aligned.published (h : s.Aligned) {process : Orders.World}
    {more : List (IEvent EventData)} (hMore : Published s process more) :
    (s.proceed process).Aligned where
  pending := by
    change process.pending = _
    rw [hMore.deliveries, hMore.pending, List.map_append, List.map_map, ← h.pending]
    change _ = s.process.pending ++ more.map id
    rw [List.map_id]
  once := by
    change process.pending.Subperm process.store.sent
    rw [hMore.sent, hMore.pending]
    exact h.once.append (List.Subperm.refl more)

/-- A delivery ends on both sides. -/
theorem Aligned.settled (h : s.Aligned) {place : Nat} {d : Delivery} {rejected : Bool}
    {process : Orders.World} (hd : s.deliveries[place]? = some d)
    (hStep : s.process.step stamp (.settle place rejected) = some process) :
    ({ s with process, deliveries := s.deliveries.eraseIdx place } : World).Aligned := by
  obtain ⟨hStore, hPending⟩ := h.settled_same hd hStep
  constructor
  case pending =>
    change process.pending = (s.deliveries.eraseIdx place).map (·.event)
    rw [hPending, ← List.eraseIdx_map, ← h.pending]
  case once =>
    change process.pending.Subperm process.store.sent
    rw [hStore, hPending]
    exact (List.eraseIdx_sublist ..).subperm.trans h.once

end World

end Moirae.Projections
