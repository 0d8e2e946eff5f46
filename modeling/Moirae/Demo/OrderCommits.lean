import Moirae.Core.EventSource
import Moirae.Core.SagaRollback
import Moirae.Demo.Orders

/-! What the handlers of the order process commit, and which rollback commands
are published. -/
namespace Moirae.Orders

open Demo Account
open AggregateRoot (filed linkEvent)
open Inventory (inventoryAggregate InventoryAggregate)

section

variable {stamp : IEvent EventData → String × Nat} {store store' : MemoryStore EventData}
  {streamId : String} {history before : List (IEvent EventData)} {event : IEvent EventData}
  {aggregate : AccountAggregate} {command : ICommand EventData}

/-- The events that the handler of a request applies. -/
def Request.events (request : Request) (uuid uuid' : String) (now : Nat) :
    List (IEvent EventData) :=
  match request with
  | deposit accountId funds => [fundsDepositedEvent accountId uuid now funds]
  | withdraw accountId funds => [fundsWithdrawnEvent accountId uuid now (some funds)]
  | order input id price =>
      let cost := price.map (· * input.quantity)
      [orderCreatedEvent input.accountId cost id input uuid now,
        fundsWithdrawnEvent input.accountId uuid' now (cost.map (· * -1))]

/-- All events of a request go to the stream of its account. -/
theorem Request.streamId_of_mem_events {request : Request} {uuid uuid' : String} {now : Nat}
    (h : event ∈ request.events uuid uuid' now) : event.streamId = request.accountId := by
  cases request with
  | deposit accountId funds =>
      rw [List.mem_singleton.mp h]
      rfl
  | withdraw accountId funds =>
      rw [List.mem_singleton.mp h]
      rfl
  | order input id price =>
      rcases List.mem_pair.mp h with rfl | rfl
      · rfl
      · rfl

/-- A commit appends what was applied since the account was loaded. -/
theorem commit_of_populated
    (h : (accountAggregate stamp).Populated streamId history aggregate)
    {applied : List (IEvent EventData)} (hApplied : ∀ event ∈ applied, event.streamId = streamId)
    (store : MemoryStore EventData) (command : ICommand EventData) :
    commit stamp store ((accountAggregate stamp).handledAll aggregate applied false) command =
      .ok (store.appendToStream (applied.map (linkEvent (some command)))) := by
  have hMap : applied.map (fun event => linkEvent (some command) (filed streamId event)) =
      applied.map (linkEvent (some command)) := by
    apply List.map_congr_left
    intro event hEvent
    rw [AggregateRoot.filed_of_streamId (hApplied event hEvent)]
  rw [commit, h.commit applied (some command), hMap]

/-- An event that is applied after others is committed with them. -/
theorem commit_applied {applied : AccountAggregate}
    (h : (accountAggregate stamp).Populated streamId history aggregate)
    (hBefore : ∀ other ∈ before, other.streamId = streamId) (hEvent : event.streamId = streamId)
    (hApply : (accountAggregate stamp).apply
      ((accountAggregate stamp).handledAll aggregate before false) event false = (applied, none))
    (store : MemoryStore EventData) (command : ICommand EventData) :
    commit stamp store applied command =
      .ok (store.appendToStream ((before ++ [event]).map (linkEvent (some command)))) := by
  obtain ⟨-, rfl⟩ := ThrowingClass.apply_eq_none_iff.mp hApply
  have hAll : ((accountAggregate stamp).handledAll aggregate before false).handled
      (accountAggregate stamp).handle event false =
        (accountAggregate stamp).handledAll aggregate (before ++ [event]) false := by
    simp [ThrowingClass.handledAll]
  rw [hAll]
  apply commit_of_populated h
  intro other hOther
  rcases List.mem_append.mp hOther with hOld | hNew
  · exact hBefore other hOld
  · rw [List.mem_singleton.mp hNew]
    exact hEvent

/-- One event is applied and committed with those before it. -/
theorem applyAndCommit_ok (h : (accountAggregate stamp).Populated streamId history aggregate)
    (hBefore : ∀ other ∈ before, other.streamId = streamId) (hEvent : event.streamId = streamId)
    (hOk : applyAndCommit stamp store ((accountAggregate stamp).handledAll aggregate before false)
      command event = .ok store') :
    store' = store.appendToStream ((before ++ [event]).map (linkEvent (some command))) := by
  unfold applyAndCommit at hOk
  split at hOk
  · cases hOk
  · next applied hApply =>
      rw [commit_applied h hBefore hEvent hApply] at hOk
      exact (Except.ok.inj hOk).symm

/-- A withdrawal that succeeds appends its one event. -/
theorem withdrawFunds_ok (h : (accountAggregate stamp).Populated streamId history aggregate)
    (hEvent : event.streamId = streamId)
    (hOk : withdrawFunds stamp store aggregate command event = .ok store') :
    store' = store.appendToStream [linkEvent (some command) event] := by
  unfold withdrawFunds at hOk
  split at hOk
  · cases hOk
  · next applied hApply =>
      split at hOk
      · cases hOk
      · rw [commit_applied h (List.forall_mem_nil _) hEvent hApply] at hOk
        exact (Except.ok.inj hOk).symm

/-- An order that succeeds appends the withdrawal and the order. -/
theorem createOrder_ok {cost : Option Int} {orderCreated withdrawn : IEvent EventData}
    (h : (accountAggregate stamp).Populated streamId history aggregate)
    (hOrder : orderCreated.streamId = streamId) (hFunds : withdrawn.streamId = streamId)
    (hOk : createOrder stamp store aggregate command cost orderCreated withdrawn = .ok store') :
    store' = store.appendToStream ([orderCreated, withdrawn].map (linkEvent (some command))) := by
  unfold createOrder at hOk
  split at hOk
  · cases hOk
  · next ordered hApply =>
      split at hOk
      · cases hOk
      · obtain ⟨-, rfl⟩ := ThrowingClass.apply_eq_none_iff.mp hApply
        have hBefore : ∀ other ∈ [orderCreated], other.streamId = streamId := by
          simpa using hOrder
        exact applyAndCommit_ok h hBefore hFunds hOk

/-- A request commits the events it applied, linked to its command. -/
theorem Request.execute_ok {request : Request} {uuid uuid' : String} {now : Nat}
    (h : (accountAggregate stamp).Populated request.accountId history aggregate)
    (hOk : request.execute stamp store aggregate command uuid uuid' now = .ok store') :
    store' = store.appendToStream
      ((request.events uuid uuid' now).map (linkEvent (some command))) := by
  cases request with
  | deposit accountId funds =>
      exact applyAndCommit_ok h (List.forall_mem_nil _) rfl hOk
  | withdraw accountId funds => exact withdrawFunds_ok h rfl hOk
  | order input id price =>
      rw [Request.execute, h.streamId] at hOk
      exact createOrder_ok h rfl rfl hOk

/-- An inventory commits what was applied to it, linked to the command. -/
theorem applyAndCommit_inventory {inventory : InventoryAggregate}
    (hCommit : inventory.commitFn = true)
    (hStart : inventory.uncommittedStart = inventory.eventHistory.length)
    (hEvent : event.streamId = inventory.streamId)
    (hOk : Inventory.applyAndCommit store inventory command event = .ok store') :
    store' = store.push (linkEvent (some command) event) := by
  unfold Inventory.applyAndCommit at hOk
  split at hOk
  · cases hOk
  · next applied hApply =>
      obtain ⟨-, handler, -, rfl⟩ := AggregateRoot.apply_eq_ok_iff.mp hApply
      rw [AggregateRoot.commit_handled hCommit hStart,
        AggregateRoot.filed_of_streamId hEvent] at hOk
      exact (Except.ok.inj hOk).symm

/-- A removal that succeeds appends its one event. -/
theorem removeInventory_ok {inventory : InventoryAggregate} {removed : Int}
    (hCommit : inventory.commitFn = true)
    (hStart : inventory.uncommittedStart = inventory.eventHistory.length)
    (hEvent : event.streamId = inventory.streamId)
    (hOk : Inventory.removeInventory store inventory command event removed = .ok store') :
    store' = store.push (linkEvent (some command) event) := by
  unfold Inventory.removeInventory at hOk
  split at hOk
  · cases hOk
  · next applied hApply =>
      obtain ⟨-, handler, -, rfl⟩ := AggregateRoot.apply_eq_ok_iff.mp hApply
      split at hOk
      · cases hOk
      · rw [AggregateRoot.commit_handled hCommit hStart,
          AggregateRoot.filed_of_streamId hEvent] at hOk
        exact (Except.ok.inj hOk).symm

/-! ### Rolling back -/

/-- The rollback event for an event of the transaction. -/
def rollbackOf (stamp : IEvent EventData → String × Nat) (event : IEvent EventData) :
    IEvent EventData :=
  { (if event.name = "FundsWithdrawnEvent" then createRollbackFundsWithdrawnEvent stamp event
      else createRollbackOrderCreated stamp event) with correlationId := event.correlationId }

/-- The rollback event as it is committed. -/
def undo (stamp : IEvent EventData → String × Nat) (command : ICommand EventData)
    (event : IEvent EventData) : IEvent EventData :=
  linkEvent (some command) (rollbackOf stamp event)

/-- An event is taken back in its own stream. -/
theorem streamId_rollbackOf (event : IEvent EventData) :
    (rollbackOf stamp event).streamId = event.streamId := by
  unfold rollbackOf
  split <;> rfl

/-- The command that takes it back changes nothing about that. -/
theorem streamId_undo (event : IEvent EventData) :
    (undo stamp command event).streamId = event.streamId := by
  rw [undo, AggregateRoot.linkEvent_streamId, streamId_rollbackOf]

/-- What is committed to take an event back takes it back. -/
theorem revokes_undo (event : IEvent EventData) : Revokes event (undo stamp command event) := by
  constructor
  · intro hName
    rw [undo, AggregateRoot.linkEvent_name, AggregateRoot.linkEvent_data, rollbackOf,
      if_pos hName]
    exact ⟨rfl, rfl⟩
  · intro hName
    rw [undo, AggregateRoot.linkEvent_name, AggregateRoot.linkEvent_data, rollbackOf,
      if_neg (by simp [hName])]
    exact ⟨rfl, rfl⟩

/-- The event that takes it back belongs to the same transaction. -/
theorem correlationId_undo (h : truthy event.correlationId = true) :
    (undo stamp command event).correlationId = event.correlationId := by
  rw [undo, AggregateRoot.linkEvent_correlationId]
  exact if_pos h

/-- Only withdrawals and orders have rollback events. -/
theorem rollbackEvent_eq_ok_iff {root : AccountAggregate} {made : IEvent EventData} :
    (accountAggregate stamp).rollbackEvent root event.correlationId event = .ok made ↔
      Revocable event ∧ made = rollbackOf stamp event := by
  have hHandlers : (accountAggregate stamp).rollbackHandler = rollbackHandler stamp := rfl
  have hThrows : (accountAggregate stamp).rollbackThrows = fun _ _ _ => none := rfl
  rw [ThrowingClass.rollbackEvent, hHandlers, hThrows]
  by_cases hFunds : event.name = "FundsWithdrawnEvent"
  · simp [Revocable, rollbackOf, rollbackHandler, hFunds, eq_comm]
  · by_cases hOrder : event.name = "OrderCreatedEvent"
    · simp [Revocable, rollbackOf, rollbackHandler, hOrder, eq_comm]
    · have hNone : rollbackHandler stamp event.name = none := by
        unfold rollbackHandler
        split
        · next hName => exact absurd hName hFunds
        · next hName => exact absurd hName hOrder
        · rfl
      simp [Revocable, hNone, hFunds, hOrder]

/-- A rollback makes its events when there is a way back from each of the transaction. -/
theorem rollbackEvents_eq_ok_iff {root : AccountAggregate} {correlationId : Option String}
    {made : List (IEvent EventData)} :
    (accountAggregate stamp).rollbackEvents root correlationId = .ok made ↔
      (∀ other ∈ root.transaction correlationId, Revocable other) ∧
        made = (root.transaction correlationId).map (rollbackOf stamp) := by
  apply Traversal.mapM_eq_ok_iff_map
  intro other hOther made
  rw [AggregateRoot.transaction, List.mem_reverse, List.mem_filter, decide_eq_true_iff] at hOther
  rw [← hOther.2, rollbackEvent_eq_ok_iff]

/-- A rollback commits the rollback events of the whole transaction, latest
first, all of which have to have one. -/
theorem rollbackAccount_ok {correlationId : Option String}
    (h : (accountAggregate stamp).Populated streamId history aggregate)
    (hStored : ∀ other ∈ history, other.streamId = streamId)
    (hOk : rollbackAccount stamp store aggregate command correlationId = .ok store') :
    (∀ other ∈ history, other.correlationId = correlationId → Revocable other) ∧
      store' = store.appendToStream
        ((history.filter (·.correlationId = correlationId)).reverse.map (undo stamp command)) := by
  have hTransaction : aggregate.transaction correlationId =
      (history.filter (·.correlationId = correlationId)).reverse := by
    rw [AggregateRoot.transaction, h.history]
  unfold rollbackAccount at hOk
  split at hOk
  · cases hOk
  · next rolledBack count hRollback =>
      unfold ThrowingClass.rollback at hRollback
      split at hRollback
      · cases hRollback
      · next made hMade =>
          obtain ⟨hAll, rfl⟩ := rollbackEvents_eq_ok_iff.mp hMade
          rw [hTransaction] at hAll hRollback
          have hRevocable : ∀ other ∈ history, other.correlationId = correlationId →
              Revocable other := by
            intro other hOther hId
            exact hAll other (by simpa using ⟨hOther, hId⟩)
          refine ⟨hRevocable, ?_⟩
          split at hRollback
          · cases hRollback
          · next root' hAllApplied =>
              obtain rfl : root' = rolledBack := (Prod.mk.inj hRollback).1
              obtain ⟨-, rfl⟩ := ThrowingClass.applyAll_eq_none hAllApplied
              rw [commit_of_populated h ?_, List.map_map] at hOk
              · exact (Except.ok.inj hOk).symm
              · intro made hMadeHere
                obtain ⟨other, hOther, rfl⟩ := List.mem_map.mp hMadeHere
                rw [streamId_rollbackOf]
                rw [List.mem_reverse, List.mem_filter] at hOther
                exact hStored other hOther.1

/-- A transaction with an order, all of whose events have rollback events, can be
rolled back. -/
theorem exists_rollbackAccount {correlationId : Option String}
    (h : (accountAggregate stamp).Populated streamId history aggregate)
    (hStored : ∀ other ∈ history, other.streamId = streamId)
    (hRevocable : ∀ other ∈ history, other.correlationId = correlationId → Revocable other)
    (hOrder : ∃ order ∈ history, order.name = "OrderCreatedEvent")
    (store : MemoryStore EventData) (command : ICommand EventData) :
    ∃ store', rollbackAccount stamp store aggregate command correlationId = .ok store' := by
  have hTransaction : ∀ other ∈ aggregate.transaction correlationId,
      other ∈ history ∧ Revocable other := by
    intro other hOther
    rw [AggregateRoot.transaction, h.history, List.mem_reverse, List.mem_filter,
      decide_eq_true_iff] at hOther
    exact ⟨hOther.1, hRevocable other hOther.1 hOther.2⟩
  have hMade : (accountAggregate stamp).rollbackEvents aggregate correlationId =
      .ok ((aggregate.transaction correlationId).map (rollbackOf stamp)) :=
    rollbackEvents_eq_ok_iff.mpr ⟨fun other hOther => (hTransaction other hOther).2, rfl⟩
  have hTakes : (accountAggregate stamp).TakesAll false aggregate.state
      ((aggregate.transaction correlationId).map (rollbackOf stamp)) := by
    apply takesAll_of_orders
    · intro hNone
      rw [h.state, orders_fold_eq_none_iff] at hNone
      obtain ⟨order, hMem, hName⟩ := hOrder
      exact hNone.2 order hMem hName
    · intro made hMem
      obtain ⟨other, hOther, rfl⟩ := List.mem_map.mp hMem
      unfold rollbackOf
      split
      · simp [kinds, createRollbackFundsWithdrawnEvent, newEvent]
      · simp [kinds, createRollbackOrderCreated, newEvent]
  refine ⟨store.appendToStream (((aggregate.transaction correlationId).map
    (rollbackOf stamp)).map (linkEvent (some command))), ?_⟩
  rw [rollbackAccount, ThrowingClass.rollback_of_takesAll hMade hTakes]
  apply commit_of_populated h
  intro made hMem
  obtain ⟨other, hOther, rfl⟩ := List.mem_map.mp hMem
  rw [streamId_rollbackOf]
  exact hStored other (hTransaction other hOther).1

end

/-! ### The saga -/

/-- The saga registers the rollback of the account and asks for the removal of the goods. -/
theorem process_order (stamp : IEvent EventData → String × Nat) {event : IEvent EventData}
    (h : event.name = "OrderCreatedEvent") (cache : MemoryCache) :
    (processOrderSaga stamp).process event cache =
      (Saga.storeRollbackCommand cache event.correlationId rollbackAccountCommand event.streamId,
        .ok (postOrderCreated stamp event)) := by
  have hHandlers : (processOrderSaga stamp).handlers event =
      [⟨"OrderCreatedEvent", "postOrderCreated", rollbackAccountCommand⟩] := by
    rw [Saga.handlers, h]
    rfl
  rw [Saga.process, hHandlers]
  rfl

/-- The saga has no step for other events. -/
theorem process_other (stamp : IEvent EventData → String × Nat) {event : IEvent EventData}
    (h : event.name ≠ "OrderCreatedEvent") (cache : MemoryCache) :
    (processOrderSaga stamp).process event cache = (cache, .ok []) := by
  have hHandlers : (processOrderSaga stamp).handlers event = [] := by
    change ((KeyedMap.set .empty "OrderCreatedEvent" _).get event.name).getD [] = []
    rw [KeyedMap.get_set_ne _ h]
    rfl
  rw [Saga.process, hHandlers]
  rfl

/-- A UUID has no colon, and is no text that a missing id is rendered as. -/
theorem IsUUID.not_mem_colon {text : String} (h : IsUUID text) : ':' ∉ text.toList := by
  intro hMem
  rcases h.2 ':' hMem with hDash | hAlphanum
  · exact absurd hDash (by decide)
  · exact absurd hAlphanum (by decide)

/-- An id is not the text that stands for undefined. -/
theorem IsUUID.ne_undefined {text : String} (h : IsUUID text) : text ≠ "undefined" := by
  rintro rfl
  exact absurd h.1 (by decide)

/-- An id is not empty. -/
theorem IsUUID.truthy {text : String} (h : IsUUID text) : truthy (some text) = true := by
  have hNonempty : text ≠ "" := by
    rintro rfl
    exact absurd h.1 (by decide)
  simpa [Moirae.truthy] using hNonempty

/-- What is registered are orders: their UUIDs with the UUIDs of their
accounts. -/
def OfOrders (registrations : List Registration) : Prop :=
  ∀ r ∈ registrations, r.command = rollbackAccountCommand ∧ IsUUID r.streamId ∧
    ∃ correlationId, r.correlationId = some correlationId ∧ IsUUID correlationId

/-- The commands that roll a transaction back are those for the orders
registered under its id, each once. -/
theorem rollbackSagas_spec {cache : MemoryCache} {registrations : List Registration}
    (h : cache.Represents (Registration.entries registrations)) (hOrders : OfOrders registrations)
    (correlationId : Option String) :
    ∃ commands, SagaManager.rollbackSagas storage cache correlationId = .ok commands ∧
      commands.Nodup ∧ ∀ command, command ∈ commands ↔
        ∃ r ∈ registrations, r.correlationId = correlationId ∧
          command = ⟨rollbackAccountCommand, some r.streamId, correlationId⟩ := by
  have hFound : ∀ r ∈ registrations, storage.get r.command.name = some r.command := by
    intro r hr
    rw [(hOrders r hr).1]
    rfl
  have hNames : ∀ r ∈ registrations, ':' ∉ r.command.name.toList := by
    intro r hr
    rw [(hOrders r hr).1]
    decide
  obtain ⟨commands, hCommands⟩ := SagaManager.exists_commands hFound hNames correlationId
  have hDistinct : commands.Nodup := by
    rw [SagaManager.nodup_commands_iff hFound hNames hCommands]
    intro r hr _ r' hr' _ hCommand hStream
    rw [Separated.upTo_eq_self (hOrders r hr).2.1.not_mem_colon,
      Separated.upTo_eq_self (hOrders r' hr').2.1.not_mem_colon] at hStream
    rw [Registration.entry, Registration.entry, hCommand, hStream]
  refine ⟨commands, by rw [SagaManager.rollbackSagas_eq h, hCommands], hDistinct,
    fun command => ?_⟩
  rw [SagaManager.mem_commands_iff hFound hNames hCommands]
  apply exists_congr
  intro r
  apply and_congr_right
  intro hr
  obtain ⟨hCommand, hStream, own, hOwn, hUUID⟩ := hOrders r hr
  have hRender : render r.correlationId = render correlationId ↔
      r.correlationId = correlationId := by
    rw [render_eq_iff, hOwn]
    simp [hUUID.ne_undefined]
  rw [hRender, hCommand, Separated.upTo_eq_self hStream.not_mem_colon]

end Moirae.Orders
