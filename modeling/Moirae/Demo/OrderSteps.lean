import Moirae.Demo.OrderRuns

/-! What a step of the order process can do, said once for each kind of step,
and from it that executions stay as they should be. -/
namespace Moirae.Orders

open Demo Account
open AggregateRoot (linkEvent)
open Inventory (InventoryAggregate inventoryAggregate)

variable {stamp : IEvent EventData → String × Nat}

/-- The event that an execution of `RemoveInventoryHandler` commits. -/
def Removing.removedEvent (r : Removing) (uuid : String) (now : Nat) : IEvent EventData :=
  linkEvent (some r.command) (Inventory.inventoryRemovedEvent (removeInput r.command).inventoryId
    (removeInput r.command).quantity uuid now)

/-- The events that an execution for a request commits. -/
def Requested.committed (r : Requested) (uuid uuid' : String) (now : Nat) :
    List (IEvent EventData) :=
  (r.request.events uuid uuid' now).map (linkEvent (some r.command))

/-- The events that an execution of `RollbackAccountHandler` commits. -/
def RollingBack.committed (stamp : IEvent EventData → String × Nat) (r : RollingBack)
    (aggregate : AccountAggregate) : List (IEvent EventData) :=
  (aggregate.eventHistory.filter (·.correlationId = r.command.correlationId)).reverse.map
    (undo stamp r.issued)

/-- Ids that are drawn for a request, or become known with it. -/
structure Drawn (s : World) (ids : List String) (request : Request)
    (command : ICommand EventData) : Prop where
  command : ∃ id ∈ ids, command.correlationId = some id ∧ IsUUID id ∧ id ∉ s.drawn
  account : IsUUID request.accountId
  priced : request.Priced
  ids : ∀ id ∈ request.ids, id ∈ ids
  orderId : ∀ id, request.orderId = some id → id ∉ s.drawn
  inventory : ∀ input id price, request = .order input id price → IsUUID input.inventoryId ∧
    ∃ event ∈ s.store.readFromStream input.inventoryId, event.name = "InventoryCreatedEvent"

theorem Request.accountId_mem_ids (request : Request) : request.accountId ∈ request.ids := by
  cases request <;> simp [Request.ids, Request.accountId]

section

variable {r : Requested} {uuid uuid' : String} {now : Nat} {event : IEvent EventData}

/-- What a request commits: deposits, withdrawals and its order, all in its
transaction. -/
structure Committed (r : Requested) (event : IEvent EventData) : Prop where
  streamId : event.streamId = r.request.accountId
  correlationId : event.correlationId = r.command.correlationId
  kind : event.name = "FundsDepositedEvent" ∨ event.name = "FundsWithdrawnEvent" ∨
    event.name = "OrderCreatedEvent"
  withdrawn : r.request.Priced → event.name = "FundsWithdrawnEvent" → event.data.funds ≠ none
  order : event.name = "OrderCreatedEvent" → ∃ input id price,
    r.request = .order input id price ∧ event.data.id = some id ∧
      event.data.inventoryId = some input.inventoryId ∧ event.data.quantity = some input.quantity

/-- What a request commits is one of the events of its kind. -/
theorem committed_of_mem (h : event ∈ r.committed uuid uuid' now) : Committed r event := by
  obtain ⟨source, hSource, rfl⟩ := List.mem_map.mp h
  have hNone : source.correlationId = none := by
    cases hRequest : r.request with
    | deposit accountId funds =>
        rw [hRequest] at hSource
        rw [List.mem_singleton.mp hSource]
        rfl
    | withdraw accountId funds =>
        rw [hRequest] at hSource
        rw [List.mem_singleton.mp hSource]
        rfl
    | order input id price =>
        rw [hRequest] at hSource
        rcases List.mem_pair.mp hSource with rfl | rfl <;> rfl
  constructor
  case streamId =>
    rw [AggregateRoot.linkEvent_streamId]
    exact Request.streamId_of_mem_events hSource
  case correlationId =>
    rw [AggregateRoot.linkEvent_correlationId, hNone]
    rfl
  all_goals
    rw [AggregateRoot.linkEvent_name]
    try rw [AggregateRoot.linkEvent_data]
    cases hRequest : r.request with
    | deposit accountId funds =>
        rw [hRequest] at hSource
        rw [List.mem_singleton.mp hSource]
        simp [fundsDepositedEvent, newEvent]
    | withdraw accountId funds =>
        rw [hRequest] at hSource
        rw [List.mem_singleton.mp hSource]
        simp [fundsWithdrawnEvent, newEvent]
    | order input id price =>
        rw [hRequest] at hSource
        rcases List.mem_pair.mp hSource with rfl | rfl <;>
          simp [Request.Priced, orderCreatedEvent, fundsWithdrawnEvent, newEvent]

end

namespace World

/-- What a step makes of a world. -/
inductive Effect (stamp : IEvent EventData → String × Nat) (s : World) : Action → World → Prop
  | creating {a : Action} (accounts : List (Creating CreateAccountInput AccountAggregate))
      (inventories : List (Creating Inventory.CreateInventoryInput InventoryAggregate))
      (hPrepared : Prepared stamp accounts inventories) :
      Effect stamp s a { s with accounts, inventories }
  | refused {a : Action} (accounts : List (Creating CreateAccountInput AccountAggregate))
      (inventories : List (Creating Inventory.CreateInventoryInput InventoryAggregate))
      (ids : List String) {id : String} (hPrepared : Prepared stamp accounts inventories)
      (hFresh : id ∉ s.drawn) :
      Effect stamp s a ((({ s with accounts, inventories } : World).draw ids).failed (some id))
  | created {a : Action} (accounts : List (Creating CreateAccountInput AccountAggregate))
      (inventories : List (Creating Inventory.CreateInventoryInput InventoryAggregate))
      {ids : List String} {event : IEvent EventData}
      (hPrepared : Prepared stamp accounts inventories) (hStream : event.streamId ∈ ids)
      (hNew : event.streamId ∉ s.drawn)
      (hId : ∀ id, event.correlationId = some id → id ∈ ids ∧ id ∉ s.drawn)
      (hName : event.name = "AccountCreatedEvent" ∨ event.name = "InventoryCreatedEvent" ∨
        event.name = "InventoryCreatedFailedEvent") :
      Effect stamp s a
        ((({ s with accounts, inventories } : World).draw ids).appended (s.store.push event))
  | called {a : Action} {ids : List String} {request : Request} {command : ICommand EventData}
      {aggregate : AccountAggregate} (hDrawn : Drawn s ids request command)
      (hMerge : (accountAggregate stamp).mergeContext request.accountId
        (s.store.readFromStream request.accountId) = .ok aggregate) :
      Effect stamp s a
        { s.draw ids with requests := s.requests ++ [⟨request, command, .merged aggregate⟩] }
  | requestFailed {a : Action} {i : Nat} {r : Requested} {aggregate : AccountAggregate}
      (reason : Thrown) (hr : s.requests[i]? = some r) (hMerged : r.stage = .merged aggregate) :
      Effect stamp s a ((s.setRequest i { r with stage := .ended (.error reason) }).failed
        r.command.correlationId)
  | requested {a : Action} {i : Nat} {r : Requested} {aggregate : AccountAggregate}
      (uuid uuid' : String) (now : Nat) (hr : s.requests[i]? = some r)
      (hMerged : r.stage = .merged aggregate) :
      Effect stamp s a ((s.setRequest i { r with stage := .ended (.ok ()) }).appended
        (s.store.appendToStream (r.committed uuid uuid' now)))
  | caught {a : Action} {r : Requested} (uuid : String) (now : Nat) (hr : r ∈ s.requests) :
      Effect stamp s a (s.appended (s.store.push (fundsWithdrawalFailedEvent r.request.accountId
        uuid now r.request.withdrawn)))
  | removalFailed {a : Action} {j : Nat} {r : Removing} (reason : Thrown)
      (hr : s.removals[j]? = some r) (hOpen : r.stage.isOpen = true) :
      Effect stamp s a ((s.setRemoval j { r with stage := .ended (.error reason) }).failed
        r.command.correlationId)
  | removalMerged {a : Action} {j : Nat} {r : Removing} {aggregate : InventoryAggregate}
      (hr : s.removals[j]? = some r) (hWaiting : r.stage = .waiting)
      (hMerge : AggregateFactory.mergeContext inventoryAggregate s.store
        (removeInput r.command).inventoryId = .ok aggregate) :
      Effect stamp s a (s.setRemoval j { r with stage := .merged aggregate })
  | removed {a : Action} {j : Nat} {r : Removing} {aggregate : InventoryAggregate}
      (uuid : String) (now : Nat) (hr : s.removals[j]? = some r)
      (hMerged : r.stage = .merged aggregate) :
      Effect stamp s a ((s.setRemoval j { r with stage := .ended (.ok ()) }).appended
        (s.store.push (r.removedEvent uuid now)))
  | rollbackFailed {a : Action} {k : Nat} {r : RollingBack} (reason : Thrown)
      (hr : s.rollbacks[k]? = some r)
      (hWhy : r.stage = .waiting ∧ (accountAggregate stamp).mergeContext
            (r.command.streamId.getD "")
            (s.store.readFromStream (r.command.streamId.getD "")) = .error reason ∨
          ∃ aggregate, r.stage = .merged aggregate ∧
            rollbackAccount stamp s.store aggregate r.issued r.command.correlationId =
              .error reason) :
      Effect stamp s a ((s.setRollback k { r with stage := .ended (.error reason) }).failed
        r.correlationId)
  | rollbackMerged {a : Action} {k : Nat} {r : RollingBack} {aggregate : AccountAggregate}
      (hr : s.rollbacks[k]? = some r) (hWaiting : r.stage = .waiting)
      (hMerge : (accountAggregate stamp).mergeContext (r.command.streamId.getD "")
        (s.store.readFromStream (r.command.streamId.getD "")) = .ok aggregate) :
      Effect stamp s a (s.setRollback k { r with stage := .merged aggregate })
  | rolledBack {k : Nat} {r : RollingBack} {aggregate : AccountAggregate}
      (hr : s.rollbacks[k]? = some r) (hMerged : r.stage = .merged aggregate)
      (hRevocable : ∀ event ∈ aggregate.eventHistory,
        event.correlationId = r.command.correlationId → Revocable event) :
      Effect stamp s (.resumeRollBack k)
        ((s.setRollback k { r with stage := .ended (.ok ()) }).appended
          (s.store.appendToStream (r.committed stamp aggregate)))
  | rejected {place : Nat} {event : IEvent EventData} (hPlace : s.pending[place]? = some event) :
      Effect stamp s (.settle place true)
        (({ s with pending := s.pending.eraseIdx place } : World).rollbackSagas
          event.correlationId (if truthy event.correlationId then event.correlationId else none))
  | ordered {place : Nat} {event : IEvent EventData} {command : ICommand EventData}
      (hPlace : s.pending[place]? = some event) (hName : event.name = "OrderCreatedEvent")
      (hId : command.correlationId = event.correlationId)
      (hInventory : command.data.inventoryId = event.data.inventoryId)
      (hQuantity : command.data.quantity = event.data.quantity) :
      Effect stamp s (.settle place false)
        { s with
          cache := Saga.storeRollbackCommand s.cache event.correlationId rollbackAccountCommand
            event.streamId
          removals := s.removals ++ [⟨command, .waiting⟩]
          pending := s.pending.eraseIdx place }
  | settled {place : Nat} {event : IEvent EventData} (hPlace : s.pending[place]? = some event)
      (hName : event.name ≠ "OrderCreatedEvent") :
      Effect stamp s (.settle place false) { s with pending := s.pending.eraseIdx place }

section

variable {s t : World}

/-- A command that fails while nothing has been done in its transaction. -/
theorem effect_refused {a : Action} {command : ICommand EventData}
    (accounts : List (Creating CreateAccountInput AccountAggregate))
    (inventories : List (Creating Inventory.CreateInventoryInput InventoryAggregate))
    (ids : List String) (hPrepared : Prepared stamp accounts inventories)
    (hBegins : s.Begins command) :
    Effect stamp s a
      ((({ s with accounts, inventories } : World).draw ids).failed command.correlationId) := by
  obtain ⟨id, hId, hFresh⟩ := hBegins
  rw [Option.mem_def.mp hId]
  exact Effect.refused accounts inventories ids hPrepared hFresh.2

/-- A request under ids that are new is accepted, or its handler ends at once. -/
theorem effect_call (h : s.Sound stamp) {a : Action} {ids : List String} {request : Request}
    {command : ICommand EventData} (hDrawn : Drawn s ids request command) :
    Effect stamp s a ((s.draw ids).call stamp request command) := by
  unfold World.call
  split
  · obtain ⟨id, -, hId, -, hFresh⟩ := hDrawn.command
    rw [hId]
    exact Effect.refused s.accounts s.inventories ids h.prepared hFresh
  · next aggregate hMerge => exact Effect.called hDrawn hMerge

/-- The id of the transaction is among those that are drawn. -/
theorem Begins.drawn {command : ICommand EventData} (h : s.Begins command) (ids : List String) :
    ∃ id ∈ ids ++ command.correlationId.toList,
      command.correlationId = some id ∧ IsUUID id ∧ id ∉ s.drawn := by
  obtain ⟨id, hId, hUUID, hFresh⟩ := h
  exact ⟨id, List.mem_append_right _ (Option.mem_toList.mpr hId), hId, hUUID, hFresh⟩

/-- A deposit or a withdrawal. -/
theorem effect_pay (h : s.Sound stamp) {a : Action} {deposit : Bool} {accountId : String}
    {funds : Int} {command : ICommand EventData} (hAccount : IsUUID accountId)
    (hBegins : s.Begins command) :
    Effect stamp s a ((s.draw (accountId :: command.correlationId.toList)).call stamp
      (if deposit then .deposit accountId funds else .withdraw accountId funds) command) := by
  apply effect_call h
  cases deposit with
  | false | true =>
      constructor
      case command => exact hBegins.drawn [accountId]
      case account => exact hAccount
      case priced => trivial
      case ids =>
        intro id hId
        exact List.mem_append_left command.correlationId.toList hId
      case orderId =>
        intro id hId
        cases hId
      case inventory =>
        intro input id price hSame
        cases hSame

/-- An order for an inventory that was created. -/
theorem effect_order (h : s.Sound stamp) {a : Action} {input : CreateOrderInput} {id : String}
    {price : Int} {command : ICommand EventData} (hAccount : IsUUID input.accountId)
    (hInventory : IsUUID input.inventoryId) (hId : s.Fresh id) (hBegins : s.Begins command)
    (hRow : ∃ event ∈ s.store.readFromStream input.inventoryId,
      event.name = "InventoryCreatedEvent") :
    Effect stamp s a
      ((s.draw ([input.accountId, input.inventoryId, id] ++ command.correlationId.toList)).call
        stamp (.order input id (some price)) command) := by
  apply effect_call h
  refine ⟨hBegins.drawn _, hAccount, Option.some_ne_none price, ?_, ?_, ?_⟩
  · intro own hOwn
    exact List.mem_append_left _ hOwn
  · intro own hOwn
    exact Option.some.inj hOwn ▸ hId.2
  · intro input' id' price' hSame
    cases hSame
    exact ⟨hInventory, hRow⟩

/-- A stream that is created now has an id that no event has. -/
theorem effect_created {a : Action} {streamId : String} {command : ICommand EventData}
    {event : IEvent EventData}
    (accounts : List (Creating CreateAccountInput AccountAggregate))
    (inventories : List (Creating Inventory.CreateInventoryInput InventoryAggregate))
    (hPrepared : Prepared stamp accounts inventories) (hStream : s.Fresh streamId)
    (hBegins : s.Begins command) (hEvent : event.streamId = streamId)
    (hNone : event.correlationId = none)
    (hName : event.name = "AccountCreatedEvent" ∨ event.name = "InventoryCreatedEvent") :
    Effect stamp s a
      ((({ s with accounts, inventories } : World).draw
        (streamId :: command.correlationId.toList)).appended
          (s.store.push (linkEvent (some command) event))) := by
  have hStreamId : (linkEvent (some command) event).streamId = streamId := by
    rw [AggregateRoot.linkEvent_streamId, hEvent]
  have hSame : (linkEvent (some command) event).correlationId = command.correlationId := by
    rw [AggregateRoot.linkEvent_correlationId, hNone]
    rfl
  refine Effect.created accounts inventories hPrepared ?_ ?_ ?_ ?_
  · rw [hStreamId]
    exact List.mem_cons_self
  · rw [hStreamId]
    exact hStream.2
  · intro id hId
    obtain ⟨own, hOwn, hFresh⟩ := hBegins
    rw [hSame, Option.mem_def.mp hOwn] at hId
    obtain rfl := Option.some.inj hId
    exact ⟨List.mem_cons_of_mem _ (Option.mem_toList.mpr hOwn), hFresh.2⟩
  · rw [AggregateRoot.linkEvent_name]
    exact hName.imp_right Or.inl

/-- The account is created later: here its aggregate is only loaded. -/
theorem effect_createAccount (h : s.Sound stamp) {a : Action} {streamId : String}
    {input : CreateAccountInput} {command : ICommand EventData} (hBegins : s.Begins command) :
    Effect stamp s a (s.createAccount stamp streamId input command) := by
  unfold createAccount
  split
  · exact effect_refused s.accounts s.inventories _ h.prepared hBegins
  · next aggregate hMerge =>
      apply Effect.creating _ s.inventories
      apply h.prepared.addAccount
      intro other hOther
      obtain rfl : aggregate = other := by
        injection hOther
      exact (Sound.mergeContext hMerge).2.1

/-- The stream is new, so the event begins an account. -/
theorem effect_resumeCreateAccount (h : s.Sound stamp) {a : Action} {i : Nat}
    {c : Creating CreateAccountInput AccountAggregate} {uuid : String} {now : Nat}
    (hc : s.accounts[i]? = some c) (hStream : s.Fresh c.streamId) (hBegins : s.Begins c.command)
    (hStep : s.resumeCreateAccount stamp i c uuid now = some t) : Effect stamp s a t := by
  unfold World.resumeCreateAccount at hStep
  split at hStep
  · next aggregate hMerged =>
      split at hStep
      · obtain rfl := Option.some.inj hStep
        exact effect_refused _ s.inventories _ (h.prepared.endAccount i c _) hBegins
      · next store hStore =>
          obtain rfl := Option.some.inj hStep
          have hPopulated := h.prepared.accounts c (List.mem_of_getElem? hc) aggregate hMerged
          rw [applyAndCommit_ok hPopulated (List.forall_mem_nil _) rfl hStore]
          exact effect_created _ s.inventories (h.prepared.endAccount i c _) hStream hBegins rfl
            rfl (Or.inl rfl)
  · cases hStep

/-- The inventory is created later: here its aggregate is only loaded. -/
theorem effect_createInventory (h : s.Sound stamp) {a : Action} {streamId : String}
    {input : Inventory.CreateInventoryInput} {command : ICommand EventData}
    (hBegins : s.Begins command) :
    Effect stamp s a (s.createInventory streamId input command) := by
  unfold createInventory
  split
  · exact effect_refused s.accounts s.inventories _ h.prepared hBegins
  · next aggregate hMerge =>
      apply Effect.creating s.accounts
      apply h.prepared.addInventory
      intro other hOther
      obtain rfl : aggregate = other := by
        injection hOther
      obtain ⟨hStream, hCommit, hStart⟩ := AggregateFactory.mergeContext_spec hMerge
      exact ⟨hCommit, hStart, hStream⟩

/-- The event begins an inventory, or nothing is committed. -/
theorem effect_resumeCreateInventory (h : s.Sound stamp) {a : Action} {i : Nat}
    {c : Creating Inventory.CreateInventoryInput InventoryAggregate} {nameFree : Except Thrown Bool}
    {uuid : String} {now : Nat} (hc : s.inventories[i]? = some c) (hStream : s.Fresh c.streamId)
    (hBegins : s.Begins c.command)
    (hStep : s.resumeCreateInventory i c nameFree uuid now = some t) : Effect stamp s a t := by
  unfold World.resumeCreateInventory at hStep
  split at hStep
  · next aggregate hMerged =>
      split at hStep
      · obtain rfl := Option.some.inj hStep
        exact effect_refused s.accounts _ _ (h.prepared.endInventory i c _) hBegins
      · next store hStore =>
          obtain rfl := Option.some.inj hStep
          unfold Orders.createInventory at hStore
          split at hStore
          · cases hStore
          · cases hStore
          · obtain ⟨hCommit, hStart, hOwn⟩ :=
              h.prepared.inventories c (List.mem_of_getElem? hc) aggregate hMerged
            rw [applyAndCommit_inventory hCommit hStart hOwn.symm hStore]
            exact effect_created s.accounts _ (h.prepared.endInventory i c _) hStream hBegins
              rfl rfl (Or.inr rfl)
  · cases hStep

/-- The filter begins a stream with the event of a failure. -/
theorem effect_catchDuplicate (h : s.Sound stamp) {a : Action}
    {c : Creating Inventory.CreateInventoryInput InventoryAggregate} {uuid : String} {now : Nat}
    (hStream : s.Fresh c.streamId) (hStep : s.catchDuplicate c uuid now = some t) :
    Effect stamp s a t := by
  unfold World.catchDuplicate at hStep
  split at hStep
  · obtain rfl := Option.some.inj hStep
    refine Effect.created s.accounts s.inventories h.prepared ?_ hStream.2 ?_ (Or.inr (Or.inr rfl))
    · exact List.mem_cons_self
    · intro id hId
      cases hId
  · cases hStep

/-- A request appends its events, or its command has failed. -/
theorem effect_resume (h : s.Sound stamp) {a : Action} {i : Nat} {r : Requested}
    {uuid uuid' : String} {now : Nat} (hr : s.requests[i]? = some r)
    (hStep : s.resume stamp i r uuid uuid' now = some t) : Effect stamp s a t := by
  unfold World.resume at hStep
  split at hStep
  · next aggregate hMerged =>
      split at hStep
      · obtain rfl := Option.some.inj hStep
        exact Effect.requestFailed _ hr hMerged
      · next store hStore =>
          obtain rfl := Option.some.inj hStep
          obtain ⟨⟨hPopulated, -⟩, -⟩ :=
            (h.requests r (List.mem_of_getElem? hr)).merged aggregate hMerged
          rw [Request.execute_ok hPopulated hStore]
          exact Effect.requested uuid uuid' now hr hMerged
  · cases hStep

/-- The filter appends the event of a failed withdrawal to the stream of the account. -/
theorem effect_catchError {a : Action} {r : Requested} {uuid : String} {now : Nat}
    (hr : r ∈ s.requests) (hStep : s.catchError r uuid now = some t) : Effect stamp s a t := by
  unfold World.catchError at hStep
  split at hStep
  · obtain rfl := Option.some.inj hStep
    exact Effect.caught uuid now hr
  · cases hStep

/-- A removal goes out of the queue and loads its inventory, or fails. -/
theorem effect_remove {a : Action} {j : Nat} {r : Removing} (hr : s.removals[j]? = some r)
    (hStep : s.remove j r = some t) : Effect stamp s a t := by
  unfold World.remove at hStep
  split at hStep
  · next hWaiting =>
      split at hStep
      · obtain rfl := Option.some.inj hStep
        exact Effect.removalFailed _ hr (by rw [hWaiting]; rfl)
      · next aggregate hMerge =>
          obtain rfl := Option.some.inj hStep
          exact Effect.removalMerged hr hWaiting hMerge
  · cases hStep

/-- A removal appends its event, or its command fails. -/
theorem effect_resumeRemove (h : s.Sound stamp) {a : Action} {j : Nat} {r : Removing}
    {uuid : String} {now : Nat} (hr : s.removals[j]? = some r)
    (hStep : s.resumeRemove j r uuid now = some t) : Effect stamp s a t := by
  unfold World.resumeRemove at hStep
  split at hStep
  · next aggregate hMerged =>
      dsimp only at hStep
      split at hStep
      · obtain rfl := Option.some.inj hStep
        exact Effect.removalFailed _ hr (by rw [hMerged]; rfl)
      · next store hStore =>
          obtain rfl := Option.some.inj hStep
          obtain ⟨hCommit, hStart, hStream⟩ :=
            (h.removals r (List.mem_of_getElem? hr)).merged aggregate hMerged
          rw [removeInventory_ok hCommit hStart rfl hStore, hStream]
          exact Effect.removed uuid now hr hMerged
  · cases hStep

/-- A rollback goes out of the queue and loads its account, or fails. -/
theorem effect_rollBack {a : Action} {k : Nat} {r : RollingBack} (hr : s.rollbacks[k]? = some r)
    (hStep : s.rollBack stamp k r = some t) : Effect stamp s a t := by
  unfold World.rollBack at hStep
  split at hStep
  · next hWaiting =>
      dsimp only at hStep
      split at hStep
      · next reason hMerge =>
          obtain rfl := Option.some.inj hStep
          exact Effect.rollbackFailed reason hr (Or.inl ⟨hWaiting, hMerge⟩)
      · next aggregate hMerge =>
          obtain rfl := Option.some.inj hStep
          exact Effect.rollbackMerged hr hWaiting hMerge
  · cases hStep

/-- A rollback appends the events that take back what it finds. -/
theorem effect_resumeRollBack (h : s.Sound stamp) {k : Nat} {r : RollingBack}
    (hr : s.rollbacks[k]? = some r) (hStep : s.resumeRollBack stamp k r = some t) :
    Effect stamp s (.resumeRollBack k) t := by
  unfold World.resumeRollBack at hStep
  split at hStep
  · next aggregate hMerged =>
      split at hStep
      · next reason hRollback =>
          obtain rfl := Option.some.inj hStep
          exact Effect.rollbackFailed reason hr (Or.inr ⟨aggregate, hMerged, hRollback⟩)
      · next store hStore =>
          obtain rfl := Option.some.inj hStep
          obtain ⟨-, hPopulated, hPrefix⟩ :=
            (h.rollbacks r (List.mem_of_getElem? hr)).merged aggregate hMerged
          have hStored : ∀ other ∈ aggregate.eventHistory,
              other.streamId = aggregate.streamId := fun other hOther =>
            MemoryStore.streamId_of_mem (hPrefix.subset hOther)
          obtain ⟨hRevocable, rfl⟩ := rollbackAccount_ok hPopulated hStored hStore
          exact Effect.rolledBack hr hMerged hRevocable
  · cases hStep

/-- The saga publishes one command for an order, in the transaction of the
order. -/
theorem settle_order (stamp : IEvent EventData → String × Nat) (s : World)
    {event : IEvent EventData}
    (hName : event.name = "OrderCreatedEvent") (hTruthy : truthy event.correlationId = true) :
    ∃ command : ICommand EventData, command.correlationId = event.correlationId ∧
      command.data.inventoryId = event.data.inventoryId ∧
      command.data.quantity = event.data.quantity ∧
      s.settle stamp event false =
        { s with
          cache := Saga.storeRollbackCommand s.cache event.correlationId rollbackAccountCommand
            event.streamId
          removals := s.removals ++ [⟨command, .waiting⟩] } := by
  have hLinked : ∀ command : ICommand EventData, Transactions.linked event command =
      { command with correlationId := event.correlationId } := by
    intro command
    rw [Transactions.linked, if_pos hTruthy]
  unfold World.settle
  rw [process_order stamp hName, if_neg Bool.false_ne_true]
  refine ⟨_, ?_, ?_, ?_, rfl⟩
  · rw [hLinked]
  · rw [hLinked]
  · rw [hLinked]

/-- An accepted event goes to the sagas, a rejected one calls its transaction back. -/
theorem effect_settle (h : s.Sound stamp) {place : Nat} {event : IEvent EventData}
    {rejected : Bool} (hPlace : s.pending[place]? = some event) :
    Effect stamp s (.settle place rejected)
      (({ s with pending := s.pending.eraseIdx place } : World).settle stamp event rejected) := by
  cases rejected with
  | true => exact Effect.rejected hPlace
  | false =>
      by_cases hName : event.name = "OrderCreatedEvent"
      · have hMem := h.pending event (List.mem_of_getElem? hPlace)
        obtain ⟨id, hId, hUUID⟩ := ((h.events event hMem).order hName).transaction
        obtain ⟨command, hSame, hInventory, hQuantity, hSettle⟩ :=
          settle_order stamp { s with pending := s.pending.eraseIdx place } hName
            (hId ▸ hUUID.truthy)
        rw [hSettle]
        exact Effect.ordered hPlace hName hSame hInventory hQuantity
      · have hNone : s.removals ++ (List.filterMap id ([] : Commands EventData)).map
            (fun command => (⟨Transactions.linked event command, .waiting⟩ : Removing)) =
              s.removals := List.append_nil _
        unfold World.settle
        rw [process_other stamp hName]
        dsimp only
        rw [if_neg Bool.false_ne_true, hNone]
        exact Effect.settled hPlace hName

/-- Every step of an orderly run is one of the effects. -/
theorem step_effect (h : s.Sound stamp) {a : Action} (hOrderly : s.Orderly a)
    (hStep : s.step stamp a = some t) : Effect stamp s a t := by
  cases a with
  | createAccount streamId input command =>
      obtain rfl := Option.some.inj hStep
      exact effect_createAccount h hOrderly
  | resumeCreateAccount i uuid now =>
      obtain ⟨c, hc, hStep⟩ := Option.bind_eq_some_iff.mp hStep
      obtain ⟨hStream, hBegins⟩ := hOrderly c hc
      exact effect_resumeCreateAccount h hc hStream hBegins hStep
  | createInventory streamId input command =>
      obtain rfl := Option.some.inj hStep
      exact effect_createInventory h hOrderly
  | resumeCreateInventory i nameFree uuid now =>
      obtain ⟨c, hc, hStep⟩ := Option.bind_eq_some_iff.mp hStep
      obtain ⟨hStream, hBegins⟩ := hOrderly c hc
      exact effect_resumeCreateInventory h hc hStream hBegins hStep
  | catchDuplicate i uuid now =>
      obtain ⟨c, hc, hStep⟩ := Option.bind_eq_some_iff.mp hStep
      exact effect_catchDuplicate h (hOrderly c hc) hStep
  | pay deposit accountId funds command =>
      obtain rfl := Option.some.inj hStep
      exact effect_pay h hOrderly.1 hOrderly.2
  | order input id answer command =>
      obtain ⟨hAccount, hInventory, hId, hBegins, hAnswer⟩ := hOrderly
      cases answer with
      | nothing =>
          obtain rfl := Option.some.inj hStep
          exact effect_refused s.accounts s.inventories _ h.prepared hBegins
      | error => exact absurd rfl hAnswer
      | row price =>
          simp only [World.step] at hStep
          split at hStep
          · next hRow =>
              obtain rfl := Option.some.inj hStep
              exact effect_order h hAccount hInventory hId hBegins hRow
          · cases hStep
  | resume i uuid uuid' now =>
      obtain ⟨r, hr, hStep⟩ := Option.bind_eq_some_iff.mp hStep
      exact effect_resume h hr hStep
  | catchError i uuid now =>
      obtain ⟨r, hr, hStep⟩ := Option.bind_eq_some_iff.mp hStep
      exact effect_catchError (List.mem_of_getElem? hr) hStep
  | remove j =>
      obtain ⟨r, hr, hStep⟩ := Option.bind_eq_some_iff.mp hStep
      exact effect_remove hr hStep
  | resumeRemove j uuid now =>
      obtain ⟨r, hr, hStep⟩ := Option.bind_eq_some_iff.mp hStep
      exact effect_resumeRemove h hr hStep
  | rollBack k =>
      obtain ⟨r, hr, hStep⟩ := Option.bind_eq_some_iff.mp hStep
      exact effect_rollBack hr hStep
  | resumeRollBack k =>
      obtain ⟨r, hr, hStep⟩ := Option.bind_eq_some_iff.mp hStep
      exact effect_resumeRollBack h hr hStep
  | settle place rejected =>
      obtain ⟨event, hPlace, rfl⟩ := Option.map_eq_some_iff.mp hStep
      exact effect_settle h hPlace

/-! ### What is stored and what is pending -/

/-- What the end of a delivery comes to. -/
theorem step_settle (stamp : IEvent EventData → String × Nat) {place : Nat}
    {event : IEvent EventData} (hPlace : s.pending[place]? = some event) (rejected : Bool) :
    s.step stamp (.settle place rejected) =
      some (({ s with pending := s.pending.eraseIdx place } : World).settle stamp event
        rejected) := by
  simp only [World.step, hPlace, Option.map_some]

/-- The end of a delivery stores nothing and publishes nothing. -/
theorem settle_store (s : World) (event : IEvent EventData) (rejected : Bool) :
    (s.settle stamp event rejected).store = s.store ∧
      (s.settle stamp event rejected).pending = s.pending := by
  unfold World.settle
  split
  · exact rollbackSagas_same ..
  · split <;> exact ⟨rfl, rfl⟩

/-- All other steps publish what they store. -/
theorem step_grows (h : s.Sound stamp) {a : Action} (hOrderly : s.Orderly a)
    (hStep : s.step stamp a = some t) (hNot : ∀ place rejected, a ≠ .settle place rejected) :
    ∃ more, t.store.sent = s.store.sent ++ more ∧ t.pending = s.pending ++ more := by
  have hNothing : ∃ more, s.store.sent = s.store.sent ++ more ∧ s.pending = s.pending ++ more :=
    ⟨[], (List.append_nil _).symm, (List.append_nil _).symm⟩
  have hFailed : ∀ (u : World) correlationId, u.store = s.store → u.pending = s.pending →
      ∃ more, (u.failed correlationId).store.sent = s.store.sent ++ more ∧
        (u.failed correlationId).pending = s.pending ++ more := by
    intro u correlationId hStore hPending
    obtain ⟨hSame, hSamePending⟩ := rollbackSagas_same u correlationId none
    rw [World.failed, hSame, hSamePending, hStore, hPending]
    exact hNothing
  have hAppended : ∀ (u : World) events, u.store = s.store → u.pending = s.pending →
      ∃ more, (u.appended (u.store.appendToStream events)).store.sent = s.store.sent ++ more ∧
        (u.appended (u.store.appendToStream events)).pending = s.pending ++ more := by
    intro u events hStore hPending
    rw [appended_appendToStream, ← hStore, ← hPending]
    exact ⟨events, sent_appendToStream u.store events, rfl⟩
  cases step_effect h hOrderly hStep with
  | creating accounts inventories => exact hNothing
  | refused accounts inventories ids hPrepared hFresh => exact hFailed _ _ rfl rfl
  | @created _ accounts inventories ids event hPrepared hStream hNew hId hName =>
      exact hAppended (({ s with accounts, inventories } : World).draw ids) [event] rfl rfl
  | called hDrawn hMerge => exact hNothing
  | requestFailed reason hr hMerged => exact hFailed _ _ rfl rfl
  | @requested _ i r aggregate uuid uuid' now hr hMerged =>
      exact hAppended (s.setRequest i _) (r.committed uuid uuid' now) rfl rfl
  | caught uuid now hr => exact hAppended s [_] rfl rfl
  | removalFailed reason hr hOpen => exact hFailed _ _ rfl rfl
  | removalMerged hr hWaiting hMerge => exact hNothing
  | @removed _ j r aggregate uuid now hr hMerged =>
      exact hAppended (s.setRemoval _ _) [r.removedEvent uuid now] rfl rfl
  | rollbackFailed reason hr hWhy => exact hFailed _ _ rfl rfl
  | rollbackMerged hr hWaiting hMerge => exact hNothing
  | @rolledBack k r aggregate hr hMerged hRevocable =>
      exact hAppended (s.setRollback k _) (r.committed stamp aggregate) rfl rfl
  | rejected hPlace => exact absurd rfl (hNot _ _)
  | ordered hPlace hName hId hInventory hQuantity => exact absurd rfl (hNot _ _)
  | settled hPlace hName => exact absurd rfl (hNot _ _)

/-! ### Executions stay as they should be -/

/-- An event that begins a stream, under ids that nobody has used. -/
theorem Sound.appendCreated (h : s.Sound stamp) {ids : List String} {event : IEvent EventData}
    (hStream : event.streamId ∈ ids) (hNew : event.streamId ∉ s.drawn)
    (hId : ∀ id, event.correlationId = some id → id ∈ ids ∧ id ∉ s.drawn)
    (hName : event.name = "AccountCreatedEvent" ∨ event.name = "InventoryCreatedEvent" ∨
      event.name = "InventoryCreatedFailedEvent") :
    ((s.draw ids).appended (s.store.push event)).Sound stamp := by
  have hOrder : event.name ≠ "OrderCreatedEvent" := by
    rcases hName with hName | hName | hName <;> simp [hName]
  have hFunds : event.name ≠ "FundsWithdrawnEvent" := by
    rcases hName with hName | hName | hName <;> simp [hName]
  apply (h.draw ids).append
  constructor
  case proper =>
    exact ⟨List.mem_append_left _ hStream, fun own hOwn => List.mem_append_left _ (hId own hOwn).1,
      fun hThis => absurd hThis hOrder, fun hThis => absurd hThis hFunds⟩
  case order => exact fun hThis => absurd hThis hOrder
  case revoking =>
    intro hThis
    rcases hName with hName | hName | hName <;> simp [Revoking, hName] at hThis
  case created =>
    intro _ other hOther hSame
    exact hNew (hSame ▸ (h.events other hOther).streamId)
  case unused =>
    intro r hr _ _
    refine ⟨fun hSame => ?_, fun hThis => absurd hThis hOrder⟩
    obtain ⟨own, hOwn, hCommand, -⟩ := (h.requests r hr).command
    exact (hId own (hSame.trans hCommand)).2 hOwn

/-- A handler is called with ids that are new, or known from now on. -/
theorem Sound.called (h : s.Sound stamp) {ids : List String} {request : Request}
    {command : ICommand EventData} {aggregate : AccountAggregate}
    (hIds : Drawn s ids request command)
    (hMerge : (accountAggregate stamp).mergeContext request.accountId
      (s.store.readFromStream request.accountId) = .ok aggregate) :
    ({ s.draw ids with
      requests := s.requests ++ [⟨request, command, .merged aggregate⟩] } : World).Sound stamp := by
  obtain ⟨id, hId, hCommand, hUUID, hFresh⟩ := hIds.command
  have hLoaded := (Sound.mergeContext hMerge).2
  have hDraw := h.draw ids
  refine { hDraw with requests := fun r hr => ?_, transactions := ?_, ownIds := ?_ }
  · rcases List.mem_append.mp hr with hOld | hNew
    · exact hDraw.requests r hOld
    · obtain rfl := List.mem_singleton.mp hNew
      refine ⟨fun own hOwn => List.mem_append_left _ (hIds.ids own hOwn), hIds.account,
        hIds.priced, ⟨id, List.mem_append_left _ hId, hCommand, hUUID⟩, fun other hOther => ?_⟩
      obtain rfl : aggregate = other := by
        injection hOther
      refine ⟨hLoaded, fun event hEvent => ⟨fun hSame => ?_, fun hName hSame => ?_⟩⟩
      · exact hFresh ((h.events event hEvent).correlationId id (hSame.trans hCommand))
      · obtain ⟨own, hOwn, hData⟩ := ((h.events event hEvent).order hName).orderId
        exact hIds.orderId own (hSame.symm.trans hData) hOwn
  · rw [List.map_append, List.nodup_append]
    refine ⟨h.transactions, List.nodup_singleton _, ?_⟩
    intro own hOwn other hOther hSame
    obtain ⟨r, hr, rfl⟩ := List.mem_map.mp hOwn
    rw [List.map_singleton, List.mem_singleton] at hOther
    obtain ⟨known, hKnown, hKnownId, -⟩ := (h.requests r hr).command
    rw [hOther, hCommand, hKnownId] at hSame
    exact hFresh (Option.some.inj hSame ▸ hKnown)
  · rw [List.map_append, List.nodup_append]
    refine ⟨h.ownIds, List.nodup_singleton _, ?_⟩
    intro own hOwn other hOther hSame
    obtain ⟨r, hr, rfl⟩ := List.mem_map.mp hOwn
    rw [List.map_singleton, List.mem_singleton] at hOther
    obtain ⟨known, hKnown, hKnownId⟩ := (h.requests r hr).ownId
    rw [hOther, hKnownId] at hSame
    change some known = request.orderId.or command.correlationId at hSame
    cases hRequest : request.orderId with
    | none =>
        rw [hRequest, Option.none_or, hCommand] at hSame
        exact hFresh (Option.some.inj hSame ▸ hKnown)
    | some own =>
        rw [hRequest, Option.some_or] at hSame
        exact hIds.orderId own hRequest (Option.some.inj hSame ▸ hKnown)

/-- Other executions that are still open have ids of their own. -/
theorem Sound.apart (h : s.Sound stamp) {i : Nat} {r other : Requested}
    {outcome : Except Thrown Unit} (hr : s.requests[i]? = some r)
    (hOther : other ∈ (s.setRequest i { r with stage := .ended outcome }).requests)
    {aggregate : AccountAggregate} (hMerged : other.stage = .merged aggregate) :
    r.command.correlationId ≠ other.command.correlationId ∧
      ∀ id, r.request.orderId = some id → other.request.orderId ≠ some id := by
  obtain ⟨j, hj⟩ := List.mem_iff_getElem?.mp hOther
  change (s.requests.set i { r with stage := .ended outcome })[j]? = some other at hj
  by_cases hPlace : i = j
  · subst hPlace
    rw [List.getElem?_set_self (List.getElem?_eq_some_iff.mp hr).1] at hj
    rw [← Option.some.inj hj] at hMerged
    cases hMerged
  · rw [List.getElem?_set_ne hPlace] at hj
    refine ⟨ne_of_nodup_map h.transactions hr hj hPlace, fun id hId hSame => ?_⟩
    apply ne_of_nodup_map h.ownIds hr hj hPlace
    rw [Requested.ownId, Requested.ownId, hId, hSame, Option.some_or, Option.some_or]

/-- The events of a request that has loaded its account may be appended. -/
theorem Sound.appendable_committed (h : s.Sound stamp) {i : Nat} {r : Requested}
    {aggregate : AccountAggregate} (hr : s.requests[i]? = some r)
    (hMerged : r.stage = .merged aggregate) {event : IEvent EventData}
    (hEvent : Committed r event) :
    (s.setRequest i { r with stage := .ended (.ok ()) }).Appendable event := by
  have hSound := h.requests r (List.mem_of_getElem? hr)
  obtain ⟨-, hUnused⟩ := hSound.merged aggregate hMerged
  have hName : event.name ≠ "AccountCreatedEvent" := by
    rcases hEvent.kind with hName | hName | hName <;> simp [hName]
  constructor
  case proper =>
    constructor
    case streamId =>
      rw [hEvent.streamId]
      exact hSound.ids _ r.request.accountId_mem_ids
    case correlationId =>
      intro id hId
      obtain ⟨own, hOwn, hCommand, -⟩ := hSound.command
      rw [hEvent.correlationId, hCommand] at hId
      exact Option.some.inj hId ▸ hOwn
    case order =>
      intro hOrder
      obtain ⟨input, id, price, hRequest, hId, hInventory, hQuantity⟩ := hEvent.order hOrder
      have hIds := hSound.ids
      rw [hRequest] at hIds
      constructor
      case account => exact hEvent.streamId ▸ hSound.account
      case transaction =>
        obtain ⟨own, -, hCommand, hUUID⟩ := hSound.command
        exact ⟨own, hEvent.correlationId.trans hCommand, hUUID⟩
      case orderId => exact ⟨id, hIds id (by simp [Request.ids]), hId⟩
      case inventoryId => exact ⟨_, hIds _ (by simp [Request.ids]), hInventory⟩
      case quantity =>
        rw [hQuantity]
        exact Option.some_ne_none _
    case withdrawn => exact hEvent.withdrawn hSound.priced
  case order =>
    intro hOrder other hOther hOtherOrder
    obtain ⟨input, id, price, hRequest, hId, -⟩ := hEvent.order hOrder
    rw [hId, hEvent.correlationId]
    refine ⟨?_, (hUnused other hOther).1⟩
    have hApart := (hUnused other hOther).2 hOtherOrder
    rw [hRequest] at hApart
    exact hApart
  case revoking =>
    intro hThis
    rcases hEvent.kind with hKind | hKind | hKind <;> simp [Revoking, hKind] at hThis
  case created => exact fun hThis => absurd hThis hName
  case unused =>
    intro other hOther root hRoot
    obtain ⟨hTransaction, hOrderId⟩ := h.apart hr hOther hRoot
    refine ⟨hEvent.correlationId ▸ hTransaction, fun hOrder hSame => ?_⟩
    obtain ⟨input, id, price, hRequest, hId, -⟩ := hEvent.order hOrder
    exact hOrderId id (by rw [hRequest]; rfl) (hSame.symm.trans hId)

/-- Behind its order, a request commits nothing that creates. -/
theorem tail_committed {r : Requested} {uuid uuid' : String} {now : Nat}
    {event : IEvent EventData} (hEvent : event ∈ (r.committed uuid uuid' now).tail) :
    event.name ≠ "OrderCreatedEvent" := by
  unfold Requested.committed at hEvent
  cases hRequest : r.request with
  | deposit accountId funds =>
      rw [hRequest] at hEvent
      exact absurd hEvent List.not_mem_nil
  | withdraw accountId funds =>
      rw [hRequest] at hEvent
      exact absurd hEvent List.not_mem_nil
  | order input id price =>
      rw [hRequest] at hEvent
      rw [List.mem_singleton.mp hEvent, AggregateRoot.linkEvent_name]
      simp [fundsWithdrawnEvent, newEvent]

/-- A request ends with its events in the store. -/
theorem Sound.requested (h : s.Sound stamp) {i : Nat} {r : Requested}
    {aggregate : AccountAggregate} (uuid uuid' : String) (now : Nat)
    (hr : s.requests[i]? = some r) (hMerged : r.stage = .merged aggregate) :
    ((s.setRequest i { r with stage := .ended (.ok ()) }).appended
      (s.store.appendToStream (r.committed uuid uuid' now))).Sound stamp := by
  have hEnded : (s.setRequest i { r with stage := .ended (.ok ()) }).Sound stamp :=
    h.setRequest hr fun _ hThis => by cases hThis
  have hTail : ∀ event ∈ (r.committed uuid uuid' now).tail, event.name ≠ "OrderCreatedEvent" :=
    fun event hEvent => tail_committed hEvent
  have hAll : ∀ event ∈ r.committed uuid uuid' now,
      (s.setRequest i { r with stage := .ended (.ok ()) }).Appendable event := fun event hEvent =>
    h.appendable_committed hr hMerged (committed_of_mem hEvent)
  have hCreated : ∀ event ∈ r.committed uuid uuid' now, event.name ≠ "AccountCreatedEvent" := by
    intro event hEvent
    rcases (committed_of_mem hEvent).kind with hName | hName | hName <;> simp [hName]
  cases hEvents : r.committed uuid uuid' now with
  | nil => exact hEnded.appendAll fun _ hNone => absurd hNone List.not_mem_nil
  | cons first rest =>
      rw [hEvents] at hTail hAll hCreated
      change ((s.setRequest i { r with stage := .ended (.ok ()) }).appended
        ((s.setRequest i { r with stage := .ended (.ok ()) }).store.appendToStream
          (first :: rest))).Sound stamp
      rw [appended_cons]
      apply (hEnded.append (hAll first List.mem_cons_self)).appendAll
      intro event hEvent
      have hMem := List.mem_cons_of_mem first hEvent
      exact ⟨(hAll event hMem).append (hTail event hEvent) (hCreated event hMem) first,
        hTail event hEvent, hCreated event hMem⟩

/-- The event of a failed withdrawal is appended. -/
theorem Sound.caught (h : s.Sound stamp) {r : Requested} (uuid : String) (now : Nat)
    (hr : r ∈ s.requests) :
    (s.appended (s.store.push (fundsWithdrawalFailedEvent r.request.accountId uuid now
      r.request.withdrawn))).Sound stamp := by
  apply h.append
  constructor
  case proper =>
    refine ⟨(h.requests r hr).ids _ r.request.accountId_mem_ids, fun id hId => ?_,
      fun hName => ?_, fun hName => ?_⟩
    · cases hId
    · simp [fundsWithdrawalFailedEvent, newEvent] at hName
    · simp [fundsWithdrawalFailedEvent, newEvent] at hName
  case order => exact fun hName => by simp [fundsWithdrawalFailedEvent, newEvent] at hName
  case revoking =>
    exact fun hThis => by simp [Revoking, fundsWithdrawalFailedEvent, newEvent] at hThis
  case created => exact fun hName => by simp [fundsWithdrawalFailedEvent, newEvent] at hName
  case unused =>
    intro other hOther _ _
    obtain ⟨id, -, hCommand, -⟩ := (h.requests other hOther).command
    rw [hCommand]
    constructor
    · intro hSame
      cases hSame
    · intro hName
      simp [fundsWithdrawalFailedEvent, newEvent] at hName

/-- The event that goods were removed is in the transaction of the order and
in the stream of its inventory. -/
theorem Sound.removedEvent (h : s.Sound stamp) {r : Removing} (hr : r ∈ s.removals)
    (uuid : String) (now : Nat) :
    ∃ order ∈ s.store.sent, order.name = "OrderCreatedEvent" ∧
      (r.removedEvent uuid now).correlationId = order.correlationId ∧
      some (r.removedEvent uuid now).streamId = order.data.inventoryId ∧
      (r.removedEvent uuid now).data.quantity = order.data.quantity := by
  obtain ⟨order, hOrder, hName, hId, hInventory, hQuantity⟩ := (h.removals r hr).ordered
  refine ⟨order, hOrder, hName, ?_, ?_, ?_⟩
  · rw [Removing.removedEvent, AggregateRoot.linkEvent_correlationId]
    exact hId
  · obtain ⟨id, -, hData⟩ := ((h.events order hOrder).order hName).inventoryId
    rw [Removing.removedEvent, AggregateRoot.linkEvent_streamId]
    change some (r.command.data.inventoryId.getD "") = _
    rw [hInventory, hData]
    rfl
  · obtain ⟨quantity, hData⟩ :=
      Option.ne_none_iff_exists'.mp ((h.events order hOrder).order hName).quantity
    rw [Removing.removedEvent, AggregateRoot.linkEvent_data]
    change some (r.command.data.quantity.getD 0) = _
    rw [hQuantity, hData]
    rfl

theorem name_removedEvent (r : Removing) (uuid : String) (now : Nat) :
    (r.removedEvent uuid now).name = "InventoryRemovedEvent" := by
  rw [Removing.removedEvent, AggregateRoot.linkEvent_name]
  rfl

/-- A removal ends with its event in the store. -/
theorem Sound.removed (h : s.Sound stamp) {j : Nat} {r : Removing} (uuid : String) (now : Nat)
    (hr : s.removals[j]? = some r) :
    ((s.setRemoval j { r with stage := .ended (.ok ()) }).appended
      (s.store.push (r.removedEvent uuid now))).Sound stamp := by
  have hEnded : (s.setRemoval j { r with stage := .ended (.ok ()) }).Sound stamp :=
    h.setRemoval hr fun _ hThis => by cases hThis
  have hName := name_removedEvent r uuid now
  obtain ⟨order, hOrder, hOrderName, hId, hStream, -⟩ :=
    h.removedEvent (List.mem_of_getElem? hr) uuid now
  have hProper := h.events order hOrder
  apply hEnded.append
  constructor
  case proper =>
    refine ⟨?_, fun id hSome => hProper.correlationId id (hId ▸ hSome), ?_, ?_⟩
    · obtain ⟨id, hDrawn, hData⟩ := (hProper.order hOrderName).inventoryId
      rw [hData] at hStream
      exact Option.some.inj hStream ▸ hDrawn
    · exact fun hThis => by simp [hName] at hThis
    · exact fun hThis => by simp [hName] at hThis
  case order => exact fun hThis => by simp [hName] at hThis
  case revoking => exact fun hThis => by simp [Revoking, hName] at hThis
  case created => exact fun hThis => by simp [hName] at hThis
  case unused =>
    intro other hOther aggregate hMerged
    refine ⟨?_, fun hThis => by simp [hName] at hThis⟩
    rw [hId]
    exact (((h.requests other hOther).merged aggregate hMerged).2 order hOrder).1

/-- What takes the events of a transaction back is in the transaction and the
stream of its order. -/
theorem Sound.committed_rollback (h : s.Sound stamp) {r : RollingBack} (hr : r ∈ s.rollbacks)
    {aggregate : AccountAggregate} (hMerged : r.stage = .merged aggregate)
    (hRevocable : ∀ event ∈ aggregate.eventHistory,
      event.correlationId = r.command.correlationId → Revocable event)
    {made : IEvent EventData} (hMade : made ∈ r.committed stamp aggregate) :
    made.correlationId = r.command.correlationId ∧ Revoking made ∧
      ∃ order ∈ s.store.sent, ForOrder order made := by
  obtain ⟨order, hOrder, hName, hCommand⟩ := (h.rollbacks r hr).ordered
  obtain ⟨id, hId, hUUID⟩ := ((h.events order hOrder).order hName).transaction
  obtain ⟨hStream, -, hPrefix⟩ := (h.rollbacks r hr).merged aggregate hMerged
  obtain ⟨event, hEvent, rfl⟩ := List.mem_map.mp hMade
  rw [List.mem_reverse, List.mem_filter, decide_eq_true_iff] at hEvent
  have hSame : event.correlationId = order.correlationId := by rw [hEvent.2, hCommand]
  have hTruthy : truthy event.correlationId = true := by
    rw [hSame, hId]
    exact hUUID.truthy
  have hOrderStream : order.streamId = aggregate.streamId := by
    rw [hCommand] at hStream
    exact Option.some.inj hStream
  refine ⟨by rw [correlationId_undo hTruthy, hEvent.2],
    (revokes_undo event).revoking (hRevocable event hEvent.1 hEvent.2), order, hOrder, hName, ?_,
    ?_, fun hBack => ?_⟩
  · rw [correlationId_undo hTruthy, hSame]
  · rw [streamId_undo, hOrderStream]
    exact (MemoryStore.streamId_of_mem (hPrefix.subset hEvent.1)).symm
  · have hEventName : event.name = "OrderCreatedEvent" := by
      rcases hRevocable event hEvent.1 hEvent.2 with hFunds | hOrdered
      · rw [((revokes_undo event).withdrawn hFunds).1] at hBack
        simp at hBack
      · exact hOrdered
    have hSent : event ∈ s.store.sent := by
      have hStored := hPrefix.subset hEvent.1
      rw [h.filed] at hStored
      exact List.mem_of_mem_filter hStored
    rw [((revokes_undo event).ordered hEventName).2,
      h.eq_of_transaction hOrder hName hSent hEventName hSame]

/-- A rollback ends with the revoking events in the store. -/
theorem Sound.rolledBack (h : s.Sound stamp) {k : Nat} {r : RollingBack}
    {aggregate : AccountAggregate} (hr : s.rollbacks[k]? = some r)
    (hMerged : r.stage = .merged aggregate)
    (hRevocable : ∀ event ∈ aggregate.eventHistory,
      event.correlationId = r.command.correlationId → Revocable event) :
    ((s.setRollback k { r with stage := .ended (.ok ()) }).appended
      (s.store.appendToStream (r.committed stamp aggregate))).Sound stamp := by
  have hEnded : (s.setRollback k { r with stage := .ended (.ok ()) }).Sound stamp :=
    h.setRollback hr fun _ hThis => by cases hThis
  apply hEnded.appendAll
  intro made hMade
  have hBack := h.committed_rollback (List.mem_of_getElem? hr) hMerged hRevocable hMade
  have hRevoking := hBack.2.1
  obtain ⟨order, hSent, -, hId, hStream, -⟩ := hBack.2.2
  have hProper := h.events order hSent
  have hOrder : made.name ≠ "OrderCreatedEvent" := by
    rcases hRevoking with hName | hName <;> simp [hName]
  have hCreated : made.name ≠ "AccountCreatedEvent" := by
    rcases hRevoking with hName | hName <;> simp [hName]
  have hFunds : made.name ≠ "FundsWithdrawnEvent" := by
    rcases hRevoking with hName | hName <;> simp [hName]
  refine ⟨?_, hOrder, hCreated⟩
  constructor
  case proper =>
    exact ⟨hStream ▸ hProper.streamId, fun id hSome => hProper.correlationId id (hId.trans hSome),
      fun hThis => absurd hThis hOrder, fun hThis => absurd hThis hFunds⟩
  case order => exact fun hThis => absurd hThis hOrder
  case revoking => exact fun _ => hBack.2.2
  case created => exact fun hThis => absurd hThis hCreated
  case unused =>
    intro other hOther root hRoot
    refine ⟨?_, fun hThis => absurd hThis hOrder⟩
    rw [← hId]
    exact (((h.requests other hOther).merged root hRoot).2 order hSent).1

/-- A rollback keeps the account that it has loaded. -/
theorem Sound.rollbackMerged (h : s.Sound stamp) {k : Nat} {r : RollingBack}
    {aggregate : AccountAggregate} (hr : s.rollbacks[k]? = some r)
    (hMerge : (accountAggregate stamp).mergeContext (r.command.streamId.getD "")
      (s.store.readFromStream (r.command.streamId.getD "")) = .ok aggregate) :
    (s.setRollback k { r with stage := .merged aggregate }).Sound stamp := by
  obtain ⟨order, -, -, hCommand⟩ := (h.rollbacks r (List.mem_of_getElem? hr)).ordered
  obtain ⟨hStream, hLoaded⟩ := Sound.mergeContext hMerge
  apply h.setRollback hr
  intro other hOther
  obtain rfl : aggregate = other := by
    injection hOther
  rw [hStream]
  refine ⟨?_, hLoaded⟩
  rw [hCommand]
  rfl

/-- The rest of the events that wait for their delivery. -/
theorem Sound.erase (h : s.Sound stamp) (place : Nat) :
    ({ s with pending := s.pending.eraseIdx place } : World).Sound stamp :=
  { h with pending := fun event hEvent => h.pending event (List.mem_of_mem_eraseIdx hEvent) }

/-- The saga of an order registers its rollback and asks for the removal of the goods. -/
theorem Sound.ordered (h : s.Sound stamp) {place : Nat} {event : IEvent EventData}
    {command : ICommand EventData} (hPlace : s.pending[place]? = some event)
    (hName : event.name = "OrderCreatedEvent")
    (hId : command.correlationId = event.correlationId)
    (hInventory : command.data.inventoryId = event.data.inventoryId)
    (hQuantity : command.data.quantity = event.data.quantity) :
    ({ s with
      cache := Saga.storeRollbackCommand s.cache event.correlationId rollbackAccountCommand
        event.streamId
      removals := s.removals ++ [⟨command, .waiting⟩]
      pending := s.pending.eraseIdx place } : World).Sound stamp := by
  have hMem := h.pending event (List.mem_of_getElem? hPlace)
  refine { h.erase place with registered := ?_, removals := fun r hr => ?_ }
  · obtain ⟨registrations, hCache, hOrders, hKnown⟩ := h.registered
    refine ⟨_, represents_storeRollbackCommand hCache
      ⟨event.correlationId, rollbackAccountCommand, event.streamId⟩, fun r hr => ?_,
      fun id => ?_⟩
    · rcases List.mem_append.mp hr with hOld | hNew
      · exact hOrders r hOld
      · exact ⟨event, hMem, hName, List.mem_singleton.mp hNew⟩
    · rw [List.map_append, List.mem_append, hKnown id]
      simp only [List.mem_append, or_and_right, exists_or, List.map_cons, List.map_nil,
        List.mem_singleton, exists_eq_left, hId]
      rw [@eq_comm _ id]
  · rcases List.mem_append.mp hr with hOld | hNew
    · exact h.removals r hOld
    · obtain rfl := List.mem_singleton.mp hNew
      exact ⟨⟨event, hMem, hName, hId, hInventory, hQuantity⟩, fun _ hThis => by cases hThis⟩

/-- Each effect keeps the invariant. -/
theorem Sound.effect (h : s.Sound stamp) {a : Action} (hEffect : Effect stamp s a t) :
    t.Sound stamp := by
  cases hEffect with
  | creating accounts inventories hPrepared => exact { h with prepared := hPrepared }
  | refused accounts inventories ids hPrepared hFresh =>
      have hNext : ({ s with accounts, inventories } : World).Sound stamp :=
        { h with prepared := hPrepared }
      exact (hNext.draw ids).rollbackSagas _ (Or.inl rfl)
  | created accounts inventories hPrepared hStream hNew hId hName =>
      have hNext : ({ s with accounts, inventories } : World).Sound stamp :=
        { h with prepared := hPrepared }
      exact hNext.appendCreated hStream hNew hId hName
  | called hDrawn hMerge => exact h.called hDrawn hMerge
  | requestFailed reason hr hMerged =>
      exact (h.setRequest hr fun _ hThis => by cases hThis).rollbackSagas _ (Or.inl rfl)
  | requested uuid uuid' now hr hMerged => exact h.requested uuid uuid' now hr hMerged
  | caught uuid now hr => exact h.caught uuid now hr
  | removalFailed reason hr hOpen =>
      exact (h.setRemoval hr fun _ hThis => by cases hThis).rollbackSagas _ (Or.inl rfl)
  | removalMerged hr hWaiting hMerge =>
      obtain ⟨hStream, hCommit, hStart⟩ := AggregateFactory.mergeContext_spec hMerge
      apply h.setRemoval hr
      intro other hOther
      injection hOther with hSame
      exact hSame ▸ ⟨hCommit, hStart, hStream⟩
  | removed uuid now hr hMerged => exact h.removed uuid now hr
  | rollbackFailed reason hr hWhy =>
      exact (h.setRollback hr fun _ hThis => by cases hThis).rollbackSagas _ (Or.inl rfl)
  | rollbackMerged hr hWaiting hMerge => exact h.rollbackMerged hr hMerge
  | rolledBack hr hMerged hRevocable => exact h.rolledBack hr hMerged hRevocable
  | rejected hPlace =>
      apply (h.erase _).rollbackSagas
      split
      · exact Or.inr rfl
      · exact Or.inl rfl
  | ordered hPlace hName hId hInventory hQuantity =>
      exact h.ordered hPlace hName hId hInventory hQuantity
  | settled hPlace hName => exact h.erase _

end

end World

end Moirae.Orders
