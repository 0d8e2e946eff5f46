import Moirae.Demo.OrderCommits

/-! What holds in every run of the order process: executions hold aggregates
that were populated from streams which have only grown since, rollbacks are for
orders that were committed, and ids are used once. -/
namespace Moirae.Orders

open Demo Account
open AggregateRoot (linkEvent)
open Inventory (InventoryAggregate inventoryAggregate)

/-- What an event of an order has. -/
structure OrderEvent (drawn : List String) (event : IEvent EventData) : Prop where
  account : IsUUID event.streamId
  transaction : ∃ id, event.correlationId = some id ∧ IsUUID id
  orderId : ∃ id ∈ drawn, event.data.id = some id
  inventoryId : ∃ id ∈ drawn, event.data.inventoryId = some id
  quantity : event.data.quantity ≠ none

/-- What all events have: ids that were drawn before, and their data. -/
structure Proper (drawn : List String) (event : IEvent EventData) : Prop where
  streamId : event.streamId ∈ drawn
  correlationId : ∀ id, event.correlationId = some id → id ∈ drawn
  order : event.name = "OrderCreatedEvent" → OrderEvent drawn event
  withdrawn : event.name = "FundsWithdrawnEvent" → event.data.funds ≠ none

/-- More ids may be drawn. -/
theorem OrderEvent.mono {drawn drawn' : List String} {event : IEvent EventData}
    (h : OrderEvent drawn event) (hDrawn : drawn ⊆ drawn') : OrderEvent drawn' event where
  account := h.account
  transaction := h.transaction
  orderId := by
    obtain ⟨id, hId, hData⟩ := h.orderId
    exact ⟨id, hDrawn hId, hData⟩
  inventoryId := by
    obtain ⟨id, hId, hData⟩ := h.inventoryId
    exact ⟨id, hDrawn hId, hData⟩
  quantity := h.quantity

theorem Proper.mono {drawn drawn' : List String} {event : IEvent EventData}
    (h : Proper drawn event) (hDrawn : drawn ⊆ drawn') : Proper drawn' event where
  streamId := hDrawn h.streamId
  correlationId id hId := hDrawn (h.correlationId id hId)
  order hName := (h.order hName).mono hDrawn
  withdrawn := h.withdrawn

/-- An aggregate as it was populated, from a stream that may have grown since. -/
def Loaded (stamp : IEvent EventData → String × Nat) (store : MemoryStore EventData)
    (streamId : String) (aggregate : AccountAggregate) : Prop :=
  (accountAggregate stamp).Populated streamId aggregate.eventHistory aggregate ∧
    aggregate.eventHistory <+: store.readFromStream streamId

/-- Executions that create something hold aggregates that can commit. -/
structure Prepared (stamp : IEvent EventData → String × Nat)
    (accounts : List (Creating CreateAccountInput AccountAggregate))
    (inventories : List (Creating Inventory.CreateInventoryInput InventoryAggregate)) : Prop where
  accounts : ∀ c ∈ accounts, ∀ aggregate, c.stage = .merged aggregate →
    (accountAggregate stamp).Populated c.streamId aggregate.eventHistory aggregate
  inventories : ∀ c ∈ inventories, ∀ aggregate, c.stage = .merged aggregate →
    aggregate.commitFn = true ∧
      aggregate.uncommittedStart = aggregate.eventHistory.length ∧
        aggregate.streamId = c.streamId

/-- An execution for a request. As long as it has not committed anything, its
ids are on no event. -/
structure RequestSound (stamp : IEvent EventData → String × Nat) (store : MemoryStore EventData)
    (drawn : List String) (r : Requested) : Prop where
  ids : ∀ id ∈ r.request.ids, id ∈ drawn
  account : IsUUID r.request.accountId
  priced : r.request.Priced
  command : ∃ id ∈ drawn, r.command.correlationId = some id ∧ IsUUID id
  merged : ∀ aggregate, r.stage = .merged aggregate →
    Loaded stamp store r.request.accountId aggregate ∧
      ∀ event ∈ store.sent, event.correlationId ≠ r.command.correlationId ∧
        (event.name = "OrderCreatedEvent" → event.data.id ≠ r.request.orderId)

/-- The id of an order was drawn when it was asked for. -/
theorem RequestSound.orderId {stamp : IEvent EventData → String × Nat}
    {store : MemoryStore EventData} {drawn : List String} {r : Requested}
    (h : RequestSound stamp store drawn r) {id : String} (hId : r.request.orderId = some id) :
    id ∈ drawn := by
  apply h.ids
  cases hRequest : r.request with
  | deposit accountId funds =>
      rw [hRequest] at hId
      cases hId
  | withdraw accountId funds =>
      rw [hRequest] at hId
      cases hId
  | order input own price =>
      rw [hRequest] at hId
      obtain rfl := Option.some.inj hId
      simp [Request.ids]

/-- A request is known by an id that was drawn for it. -/
theorem RequestSound.ownId {stamp : IEvent EventData → String × Nat}
    {store : MemoryStore EventData} {drawn : List String} {r : Requested}
    (h : RequestSound stamp store drawn r) : ∃ id ∈ drawn, r.ownId = some id := by
  unfold Requested.ownId
  cases hRequest : r.request.orderId with
  | none =>
      obtain ⟨id, hId, hCommand, -⟩ := h.command
      exact ⟨id, hId, by rw [Option.none_or, hCommand]⟩
  | some id => exact ⟨id, h.orderId hRequest, rfl⟩

/-- An execution that removes what was ordered. -/
structure RemovalSound (sent : List (IEvent EventData)) (r : Removing) : Prop where
  ordered : ∃ event ∈ sent, event.name = "OrderCreatedEvent" ∧
    r.command.correlationId = event.correlationId ∧
    r.command.data.inventoryId = event.data.inventoryId ∧
    r.command.data.quantity = event.data.quantity
  merged : ∀ aggregate, r.stage = .merged aggregate → aggregate.commitFn = true ∧
    aggregate.uncommittedStart = aggregate.eventHistory.length ∧
    aggregate.streamId = (removeInput r.command).inventoryId

/-- An execution that takes an order back. -/
structure RollbackSound (stamp : IEvent EventData → String × Nat)
    (store : MemoryStore EventData) (r : RollingBack) : Prop where
  ordered : ∃ event ∈ store.sent, event.name = "OrderCreatedEvent" ∧
    r.command = ⟨rollbackAccountCommand, some event.streamId, event.correlationId⟩
  linked : r.correlationId = none ∨ r.correlationId = r.command.correlationId
  merged : ∀ aggregate, r.stage = .merged aggregate →
    r.command.streamId = some aggregate.streamId ∧
      Loaded stamp store aggregate.streamId aggregate

/-- The orders that were registered were committed, and theirs are the
transactions. -/
def Registered (sent : List (IEvent EventData)) (cache : MemoryCache)
    (transactions : List (Option String)) : Prop :=
  ∃ registrations, cache.Represents (Registration.entries registrations) ∧
    (∀ r ∈ registrations, ∃ event ∈ sent, event.name = "OrderCreatedEvent" ∧
      r = ⟨event.correlationId, rollbackAccountCommand, event.streamId⟩) ∧
    ∀ id, id ∈ transactions ↔ ∃ r ∈ registrations, r.correlationId = id

/-- No two orders share an id, or a transaction. -/
def DistinctOrders (sent : List (IEvent EventData)) : Prop :=
  sent.Pairwise fun event other => event.name = "OrderCreatedEvent" →
    other.name = "OrderCreatedEvent" →
      event.data.id ≠ other.data.id ∧ event.correlationId ≠ other.correlationId

/-- An event that takes others back is for an order of the same stream and
transaction. -/
structure ForOrder (order event : IEvent EventData) : Prop where
  name : order.name = "OrderCreatedEvent"
  correlationId : order.correlationId = event.correlationId
  streamId : order.streamId = event.streamId
  id : event.name = "RollbackOrderCreatedEvent" → event.data.id = order.data.id

def ForOrders (sent : List (IEvent EventData)) : Prop :=
  ∀ event ∈ sent, Revoking event → ∃ order ∈ sent, ForOrder order event

variable {stamp : IEvent EventData → String × Nat}

section

variable {accounts : List (Creating CreateAccountInput AccountAggregate)}
  {inventories : List (Creating Inventory.CreateInventoryInput InventoryAggregate)}

/-- The creation of an account is under way. -/
theorem Prepared.addAccount (h : Prepared stamp accounts inventories)
    {c : Creating CreateAccountInput AccountAggregate}
    (hc : ∀ aggregate, c.stage = .merged aggregate →
      (accountAggregate stamp).Populated c.streamId aggregate.eventHistory aggregate) :
    Prepared stamp (accounts ++ [c]) inventories := by
  refine { h with accounts := fun other hOther => ?_ }
  rcases List.mem_append.mp hOther with hOld | hNew
  · exact h.accounts other hOld
  · rw [List.mem_singleton.mp hNew]
    exact hc

/-- The creation of an inventory is under way. -/
theorem Prepared.addInventory (h : Prepared stamp accounts inventories)
    {c : Creating Inventory.CreateInventoryInput InventoryAggregate}
    (hc : ∀ aggregate, c.stage = .merged aggregate → aggregate.commitFn = true ∧
      aggregate.uncommittedStart = aggregate.eventHistory.length ∧
        aggregate.streamId = c.streamId) :
    Prepared stamp accounts (inventories ++ [c]) := by
  refine { h with inventories := fun other hOther => ?_ }
  rcases List.mem_append.mp hOther with hOld | hNew
  · exact h.inventories other hOld
  · rw [List.mem_singleton.mp hNew]
    exact hc

/-- Executions that have ended hold nothing. -/
theorem Prepared.endAccount (h : Prepared stamp accounts inventories) (i : Nat)
    (c : Creating CreateAccountInput AccountAggregate) (outcome : Except Thrown Unit) :
    Prepared stamp (accounts.set i { c with stage := .ended outcome }) inventories := by
  refine { h with accounts := fun other hOther => ?_ }
  rcases List.mem_or_eq_of_mem_set hOther with hOld | rfl
  · exact h.accounts other hOld
  · exact fun _ hMerged => by cases hMerged

theorem Prepared.endInventory (h : Prepared stamp accounts inventories) (i : Nat)
    (c : Creating Inventory.CreateInventoryInput InventoryAggregate)
    (outcome : Except Thrown Unit) :
    Prepared stamp accounts (inventories.set i { c with stage := .ended outcome }) := by
  refine { h with inventories := fun other hOther => ?_ }
  rcases List.mem_or_eq_of_mem_set hOther with hOld | rfl
  · exact h.inventories other hOld
  · exact fun _ hMerged => by cases hMerged

end

/-- Its id and its transaction tell an order from the others. -/
theorem DistinctOrders.eq {sent : List (IEvent EventData)} (h : DistinctOrders sent)
    {order other : IEvent EventData} (hOrder : order ∈ sent)
    (hName : order.name = "OrderCreatedEvent") (hOther : other ∈ sent)
    (hOtherName : other.name = "OrderCreatedEvent")
    (hSame : other.data.id = order.data.id ∨ other.correlationId = order.correlationId) :
    other = order := by
  by_contra hApart
  have hSymmetric : Std.Symm fun event other : IEvent EventData =>
      event.name = "OrderCreatedEvent" → other.name = "OrderCreatedEvent" →
        event.data.id ≠ other.data.id ∧ event.correlationId ≠ other.correlationId :=
    ⟨fun _ _ hBoth hFirst hSecond =>
      ⟨(hBoth hSecond hFirst).1.symm, (hBoth hSecond hFirst).2.symm⟩⟩
  obtain ⟨hId, hTransaction⟩ := h.forall hOther hOrder hApart hOtherName hName
  exact hSame.elim hId hTransaction

/-- A revoking event may follow when its order is there. -/
theorem ForOrders.append {sent : List (IEvent EventData)} {event : IEvent EventData}
    (h : ForOrders sent)
    (hEvent : Revoking event → ∃ order ∈ sent, ForOrder order event) :
    ForOrders (sent ++ [event]) := by
  intro other hOther hRevoking
  have hFound : ∃ order ∈ sent, ForOrder order other := by
    rcases List.mem_append.mp hOther with hOld | hNew
    · exact h other hOld hRevoking
    · obtain rfl := List.mem_singleton.mp hNew
      exact hEvent hRevoking
  obtain ⟨order, hOrder, hThis⟩ := hFound
  exact ⟨order, List.mem_append_left _ hOrder, hThis⟩

/-- Registrations stay those of events in the store when more follow. -/
theorem Registered.append {sent : List (IEvent EventData)} {cache : MemoryCache}
    {transactions : List (Option String)} (h : Registered sent cache transactions)
    (more : List (IEvent EventData)) : Registered (sent ++ more) cache transactions := by
  obtain ⟨registrations, hCache, hOrders, hKnown⟩ := h
  refine ⟨registrations, hCache, fun r hr => ?_, hKnown⟩
  obtain ⟨event, hEvent, hOrder⟩ := hOrders r hr
  exact ⟨event, List.mem_append_left more hEvent, hOrder⟩

/-- What was loaded stays an earlier state of the stream. -/
theorem Loaded.push {store : MemoryStore EventData} {streamId : String}
    {aggregate : AccountAggregate} (h : Loaded stamp store streamId aggregate)
    (event : IEvent EventData) : Loaded stamp (store.push event) streamId aggregate := by
  refine ⟨h.1, ?_⟩
  rw [MemoryStore.readFromStream_push]
  exact h.2.trans (List.prefix_append _ _)

namespace World

structure Sound (stamp : IEvent EventData → String × Nat) (s : World) : Prop where
  filed : ∀ streamId,
    s.store.readFromStream streamId = s.store.sent.filter (·.streamId = streamId)
  events : ∀ event ∈ s.store.sent, Proper s.drawn event
  orders : DistinctOrders s.store.sent
  revoking : ForOrders s.store.sent
  created : ∀ streamId, ∀ event ∈ (s.store.readFromStream streamId).tail,
    event.name ≠ "AccountCreatedEvent"
  pending : ∀ event ∈ s.pending, event ∈ s.store.sent
  registered : Registered s.store.sent s.cache (s.removals.map (·.command.correlationId))
  prepared : Prepared stamp s.accounts s.inventories
  requests : ∀ r ∈ s.requests, RequestSound stamp s.store s.drawn r
  removals : ∀ r ∈ s.removals, RemovalSound s.store.sent r
  rollbacks : ∀ r ∈ s.rollbacks, RollbackSound stamp s.store r
  transactions : (s.requests.map (·.command.correlationId)).Nodup
  ownIds : (s.requests.map Requested.ownId).Nodup

/-- An event may be appended: it has ids of its own, apart from those of the
executions that have not committed anything. -/
structure Appendable (s : World) (event : IEvent EventData) : Prop where
  proper : Proper s.drawn event
  order : event.name = "OrderCreatedEvent" → ∀ other ∈ s.store.sent,
    other.name = "OrderCreatedEvent" →
      other.data.id ≠ event.data.id ∧ other.correlationId ≠ event.correlationId
  revoking : Revoking event → ∃ order ∈ s.store.sent, ForOrder order event
  created : event.name = "AccountCreatedEvent" → ∀ other ∈ s.store.sent,
    other.streamId ≠ event.streamId
  unused : ∀ r ∈ s.requests, ∀ aggregate, r.stage = .merged aggregate →
    event.correlationId ≠ r.command.correlationId ∧
      (event.name = "OrderCreatedEvent" → event.data.id ≠ r.request.orderId)

section

variable {s : World}

/-- Before anything happens all of it holds. -/
theorem sound_new (stamp : IEvent EventData → String × Nat) : new.Sound stamp where
  filed _ := rfl
  events _ hEvent := absurd hEvent List.not_mem_nil
  orders := List.Pairwise.nil
  revoking _ hEvent := absurd hEvent List.not_mem_nil
  created _ _ hEvent := absurd hEvent List.not_mem_nil
  pending _ hEvent := absurd hEvent List.not_mem_nil
  registered := ⟨[], MemoryCache.represents_new, fun _ hr => absurd hr List.not_mem_nil,
    fun _ => by simp [new]⟩
  prepared := ⟨fun _ hc => absurd hc List.not_mem_nil, fun _ hc => absurd hc List.not_mem_nil⟩
  requests _ hr := absurd hr List.not_mem_nil
  removals _ hr := absurd hr List.not_mem_nil
  rollbacks _ hr := absurd hr List.not_mem_nil
  transactions := List.nodup_nil
  ownIds := List.nodup_nil

/-- A transaction orders once. -/
theorem Sound.eq_of_transaction (h : s.Sound stamp) {order other : IEvent EventData}
    (hOrder : order ∈ s.store.sent) (hName : order.name = "OrderCreatedEvent")
    (hOther : other ∈ s.store.sent) (hOtherName : other.name = "OrderCreatedEvent")
    (hId : other.correlationId = order.correlationId) : other = order :=
  h.orders.eq hOrder hName hOther hOtherName (Or.inr hId)

/-- Ids may be drawn at any time. -/
theorem Sound.draw (h : s.Sound stamp) (ids : List String) : (s.draw ids).Sound stamp :=
  { h with
    events := fun event hEvent =>
      (h.events event hEvent).mono (List.subset_append_right ids s.drawn)
    requests := fun r hr =>
      { h.requests r hr with
        ids := fun id hId => List.mem_append_right ids ((h.requests r hr).ids id hId)
        command := by
          obtain ⟨id, hId, hCommand⟩ := (h.requests r hr).command
          exact ⟨id, List.mem_append_right ids hId, hCommand⟩ } }

/-- What one more event leaves as it was. -/
theorem Sound.append (h : s.Sound stamp) {event : IEvent EventData} (hEvent : s.Appendable event) :
    (s.appended (s.store.push event)).Sound stamp := by
  have hSent : (s.store.push event).sent = s.store.sent ++ [event] := rfl
  have hMem : ∀ {other}, other ∈ s.store.sent → other ∈ (s.store.push event).sent := by
    intro other hOther
    rw [hSent]
    exact List.mem_append_left _ hOther
  have hNew : ∀ {other}, other ∈ (s.store.push event).sent →
      other ∈ s.store.sent ∨ other = event := by
    intro other hOther
    rw [hSent, List.mem_append, List.mem_singleton] at hOther
    exact hOther
  constructor
  case filed =>
    intro streamId
    change (s.store.push event).readFromStream streamId = (s.store.push event).sent.filter _
    rw [MemoryStore.readFromStream_push, hSent, List.filter_append, h.filed]
  case events =>
    intro other hOther
    rcases hNew hOther with hOld | rfl
    · exact h.events other hOld
    · exact hEvent.proper
  case orders =>
    change DistinctOrders (s.store.push event).sent
    rw [hSent, DistinctOrders, List.pairwise_append]
    refine ⟨h.orders, List.pairwise_singleton _ _, ?_⟩
    intro other hOther last hLast hName hLastName
    obtain rfl := List.mem_singleton.mp hLast
    exact hEvent.order hLastName other hOther hName
  case revoking =>
    change ForOrders (s.store.push event).sent
    rw [hSent]
    exact h.revoking.append hEvent.revoking
  case created =>
    intro streamId other hOther hName
    change other ∈ ((s.store.push event).readFromStream streamId).tail at hOther
    rw [MemoryStore.readFromStream_push] at hOther
    by_cases hEmpty : s.store.readFromStream streamId = []
    · rw [hEmpty, List.nil_append] at hOther
      have hTail : ([event].filter (·.streamId = streamId)).tail = [] := by
        by_cases hHere : event.streamId = streamId <;> simp [hHere]
      rw [hTail] at hOther
      exact absurd hOther List.not_mem_nil
    · rw [List.tail_append_of_ne_nil hEmpty] at hOther
      rcases List.mem_append.mp hOther with hOld | hLast
      · exact h.created streamId other hOld hName
      · rw [List.mem_filter, List.mem_singleton, decide_eq_true_iff] at hLast
        obtain ⟨rfl, rfl⟩ := hLast
        obtain ⟨first, hFirst⟩ := List.exists_mem_of_ne_nil _ hEmpty
        rw [h.filed, List.mem_filter, decide_eq_true_iff] at hFirst
        exact hEvent.created hName first hFirst.1 hFirst.2
  case pending =>
    intro other hOther
    change other ∈ s.pending ++ (s.store.push event).sent.drop s.store.sent.length at hOther
    rw [hSent, List.drop_left, List.mem_append, List.mem_singleton] at hOther
    rcases hOther with hOld | rfl
    · exact hMem (h.pending other hOld)
    · exact List.mem_append_right _ List.mem_cons_self
  case registered => exact h.registered.append [event]
  case prepared => exact h.prepared
  case requests =>
    intro r hr
    have hSound := h.requests r hr
    refine { hSound with merged := fun aggregate hMerged => ?_ }
    obtain ⟨hLoaded, hUnused⟩ := hSound.merged aggregate hMerged
    refine ⟨hLoaded.push event, fun other hOther => ?_⟩
    rcases hNew hOther with hOld | rfl
    · exact hUnused other hOld
    · exact hEvent.unused r hr aggregate hMerged
  case removals =>
    intro r hr
    obtain ⟨other, hOther, hOrder⟩ := (h.removals r hr).ordered
    exact { h.removals r hr with ordered := ⟨other, hMem hOther, hOrder⟩ }
  case rollbacks =>
    intro r hr
    obtain ⟨other, hOther, hOrder⟩ := (h.rollbacks r hr).ordered
    refine ⟨⟨other, hMem hOther, hOrder⟩, (h.rollbacks r hr).linked, fun aggregate hMerged => ?_⟩
    obtain ⟨hStream, hLoaded⟩ := (h.rollbacks r hr).merged aggregate hMerged
    exact ⟨hStream, hLoaded.push event⟩
  case transactions => exact h.transactions
  case ownIds => exact h.ownIds

theorem sent_appendToStream (store : MemoryStore EventData) (events : List (IEvent EventData)) :
    (store.appendToStream events).sent = store.sent ++ events := by
  induction events generalizing store with
  | nil => simp [MemoryStore.appendToStream]
  | cons event events ih =>
      change ((store.push event).appendToStream events).sent = _
      rw [ih]
      simp [MemoryStore.push]

theorem appended_appendToStream (s : World) (events : List (IEvent EventData)) :
    s.appended (s.store.appendToStream events) =
      { s with store := s.store.appendToStream events, pending := s.pending ++ events } := by
  rw [appended, sent_appendToStream, List.drop_left]

/-- Events are appended one by one. -/
theorem appended_cons (s : World) (event : IEvent EventData) (events : List (IEvent EventData)) :
    s.appended (s.store.appendToStream (event :: events)) =
      (s.appended (s.store.push event)).appended
        ((s.appended (s.store.push event)).store.appendToStream events) := by
  have hFirst : s.store.push event = s.store.appendToStream [event] := rfl
  rw [appended_appendToStream, appended_appendToStream, hFirst, appended_appendToStream]
  simp [MemoryStore.appendToStream]

/-- What creates nothing may be appended after any event. -/
theorem Appendable.append {event : IEvent EventData} (h : s.Appendable event)
    (hOrder : event.name ≠ "OrderCreatedEvent") (hCreated : event.name ≠ "AccountCreatedEvent")
    (other : IEvent EventData) : (s.appended (s.store.push other)).Appendable event where
  proper := h.proper
  order hName := absurd hName hOrder
  revoking hRevoking := by
    obtain ⟨known, hKnown, hThis⟩ := h.revoking hRevoking
    exact ⟨known, List.mem_append_left _ hKnown, hThis⟩
  created hName := absurd hName hCreated
  unused := h.unused

/-- Events may be appended together when each may be. -/
theorem Sound.appendAll {events : List (IEvent EventData)} (h : s.Sound stamp)
    (hEvents : ∀ event ∈ events, s.Appendable event ∧ event.name ≠ "OrderCreatedEvent" ∧
      event.name ≠ "AccountCreatedEvent") :
    (s.appended (s.store.appendToStream events)).Sound stamp := by
  induction events generalizing s with
  | nil =>
      rw [appended_appendToStream, List.append_nil]
      exact h
  | cons event events ih =>
      rw [appended_cons]
      apply ih (h.append (hEvents event List.mem_cons_self).1)
      intro other hOther
      obtain ⟨hAppendable, hOrder, hCreated⟩ := hEvents other (List.mem_cons_of_mem _ hOther)
      exact ⟨hAppendable.append hOrder hCreated event, hOrder, hCreated⟩

/-! ### Executions that go on -/

/-- Registrations of events in the store are of orders. -/
theorem Sound.ofOrders (h : s.Sound stamp) {registrations : List Registration}
    (hOrders : ∀ r ∈ registrations, ∃ event ∈ s.store.sent, event.name = "OrderCreatedEvent" ∧
      r = ⟨event.correlationId, rollbackAccountCommand, event.streamId⟩) :
    OfOrders registrations := by
  intro r hr
  obtain ⟨event, hEvent, hName, rfl⟩ := hOrders r hr
  have hOrder := (h.events event hEvent).order hName
  exact ⟨rfl, hOrder.account, hOrder.transaction⟩

/-- The sagas are rolled back without a word in the store. -/
theorem rollbackSagas_same (s : World) (correlationId linked : Option String) :
    (s.rollbackSagas correlationId linked).store = s.store ∧
      (s.rollbackSagas correlationId linked).pending = s.pending := by
  unfold World.rollbackSagas
  split <;> exact ⟨rfl, rfl⟩

theorem rollbackSagas_store (s : World) (correlationId linked : Option String) :
    (s.rollbackSagas correlationId linked).store = s.store :=
  (rollbackSagas_same s correlationId linked).1

/-- Rollback commands are published for orders only, and for all orders whose
goods are removed or were to be removed. -/
theorem rollbackSagas_cases (h : s.Sound stamp) (correlationId linked : Option String) :
    ∃ commands : List RollbackCommand, commands.Nodup ∧
      s.rollbackSagas correlationId linked =
        { s with rollbacks := s.rollbacks ++ commands.map (⟨·, linked, .waiting⟩) } ∧
      (∀ command ∈ commands, ∃ event ∈ s.store.sent, event.name = "OrderCreatedEvent" ∧
        event.correlationId = correlationId ∧
        command = ⟨rollbackAccountCommand, some event.streamId, event.correlationId⟩) ∧
      (commands ≠ [] ↔ ∃ r ∈ s.removals, r.command.correlationId = correlationId) := by
  obtain ⟨registrations, hCache, hOrders, hKnown⟩ := h.registered
  obtain ⟨commands, hRollback, hDistinct, hCommands⟩ :=
    rollbackSagas_spec hCache (h.ofOrders hOrders) correlationId
  refine ⟨commands, hDistinct, by rw [rollbackSagas, hRollback], fun command hCommand => ?_, ?_⟩
  · obtain ⟨r, hr, hId, hEq⟩ := (hCommands command).mp hCommand
    obtain ⟨event, hEvent, hName, rfl⟩ := hOrders r hr
    refine ⟨event, hEvent, hName, hId, ?_⟩
    rw [hEq, ← hId]
  · have hRegistered : (∃ r ∈ registrations, r.correlationId = correlationId) ↔
        ∃ r ∈ s.removals, r.command.correlationId = correlationId := by
      rw [← hKnown, List.mem_map]
    rw [← hRegistered]
    constructor
    · intro hSome
      obtain ⟨command, hCommand⟩ := List.exists_mem_of_ne_nil commands hSome
      obtain ⟨r, hr, hId, -⟩ := (hCommands command).mp hCommand
      exact ⟨r, hr, hId⟩
    · rintro ⟨r, hr, hId⟩
      exact List.ne_nil_of_mem ((hCommands _).mpr ⟨r, hr, hId, rfl⟩)

/-- The rollbacks that a failure publishes are of orders, for the registrations are. -/
theorem Sound.rollbackSagas (h : s.Sound stamp) (correlationId : Option String)
    {linked : Option String} (hLinked : linked = none ∨ linked = correlationId) :
    (s.rollbackSagas correlationId linked).Sound stamp := by
  obtain ⟨commands, -, hEq, hCommands, -⟩ := rollbackSagas_cases h correlationId linked
  rw [hEq]
  refine { h with rollbacks := fun r hr => ?_ }
  rcases List.mem_append.mp hr with hOld | hNew
  · exact h.rollbacks r hOld
  · obtain ⟨command, hCommand, rfl⟩ := List.mem_map.mp hNew
    obtain ⟨event, hEvent, hName, hId, rfl⟩ := hCommands command hCommand
    exact ⟨⟨event, hEvent, hName, rfl⟩, hId ▸ hLinked, fun aggregate hMerged => by cases hMerged⟩

/-- An execution for a request goes on, to another stage. -/
theorem Sound.setRequest (h : s.Sound stamp) {i : Nat} {r : Requested}
    (hr : s.requests[i]? = some r) {stage : Stage AccountAggregate}
    (hStage : ∀ aggregate, stage ≠ .merged aggregate) :
    (s.setRequest i { r with stage }).Sound stamp := by
  refine { h with requests := ?_, transactions := ?_, ownIds := ?_ }
  · intro other hOther
    rcases List.mem_or_eq_of_mem_set hOther with hOld | rfl
    · exact h.requests other hOld
    · exact { h.requests r (List.mem_of_getElem? hr) with
        merged := fun aggregate hMerged => absurd hMerged (hStage aggregate) }
  · have hSame : (s.requests.set i { r with stage }).map (·.command.correlationId) =
        s.requests.map (·.command.correlationId) := map_set_of_eq hr rfl
    change ((s.requests.set i { r with stage }).map (·.command.correlationId)).Nodup
    rw [hSame]
    exact h.transactions
  · have hSame : (s.requests.set i { r with stage }).map Requested.ownId =
        s.requests.map Requested.ownId := map_set_of_eq hr rfl
    change ((s.requests.set i { r with stage }).map Requested.ownId).Nodup
    rw [hSame]
    exact h.ownIds

/-- A removal may keep an inventory that was loaded from its stream. -/
theorem Sound.setRemoval (h : s.Sound stamp) {j : Nat} {r : Removing}
    (hr : s.removals[j]? = some r) {stage : Stage InventoryAggregate}
    (hStage : ∀ aggregate, stage = .merged aggregate → aggregate.commitFn = true ∧
      aggregate.uncommittedStart = aggregate.eventHistory.length ∧
      aggregate.streamId = (removeInput r.command).inventoryId) :
    (s.setRemoval j { r with stage }).Sound stamp := by
  have hSame : (s.removals.set j { r with stage }).map (·.command.correlationId) =
      s.removals.map (·.command.correlationId) := map_set_of_eq hr rfl
  refine { h with registered := ?_, removals := fun other hOther => ?_ }
  · change Registered s.store.sent s.cache
      ((s.removals.set j { r with stage }).map (·.command.correlationId))
    rw [hSame]
    exact h.registered
  · rcases List.mem_or_eq_of_mem_set hOther with hOld | rfl
    · exact h.removals other hOld
    · exact ⟨(h.removals r (List.mem_of_getElem? hr)).ordered, hStage⟩

/-- A rollback may keep an account that was loaded from its stream. -/
theorem Sound.setRollback (h : s.Sound stamp) {k : Nat} {r : RollingBack}
    (hr : s.rollbacks[k]? = some r) {stage : Stage AccountAggregate}
    (hStage : ∀ aggregate, stage = .merged aggregate →
      r.command.streamId = some aggregate.streamId ∧
        Loaded stamp s.store aggregate.streamId aggregate) :
    (s.setRollback k { r with stage }).Sound stamp := by
  refine { h with rollbacks := fun other hOther => ?_ }
  rcases List.mem_or_eq_of_mem_set hOther with hOld | rfl
  · exact h.rollbacks other hOld
  · exact { h.rollbacks r (List.mem_of_getElem? hr) with merged := hStage }

/-- What is loaded now is loaded from the stream as it is. -/
theorem Sound.mergeContext {streamId : String} {aggregate : AccountAggregate}
    (hMerge : (accountAggregate stamp).mergeContext streamId (s.store.readFromStream streamId) =
      .ok aggregate) : aggregate.streamId = streamId ∧ Loaded stamp s.store streamId aggregate := by
  obtain ⟨hPopulated, -⟩ := ThrowingClass.populated_of_mergeContext
    (fun event hEvent => MemoryStore.streamId_of_mem hEvent) hMerge
  have hHistory := hPopulated.history
  have hStream : s.store.readFromStream streamId <+: s.store.readFromStream streamId :=
    List.prefix_rfl
  exact ⟨hPopulated.streamId, hHistory ▸ hPopulated, hHistory ▸ hStream⟩

end

end World

end Moirae.Orders
