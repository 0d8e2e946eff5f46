import Moirae.Demo.OrderErasure

/-! The streams of accounts and of inventories stay apart, and each of them can
be loaded at any time. -/
namespace Moirae.Orders

open Demo Account
open AggregateRoot (linkEvent)
open Inventory (InventoryAggregate inventoryAggregate)

variable {stamp : IEvent EventData → String × Nat}

/-- An inventory was created, or could not be as its name was taken. -/
def BeginsInventory (event : IEvent EventData) : Prop :=
  event.name = "InventoryCreatedEvent" ∨ event.name = "InventoryCreatedFailedEvent"

/-- The stream is that of an inventory. -/
def HasInventory (store : MemoryStore EventData) (streamId : String) : Prop :=
  ∃ event ∈ store.readFromStream streamId, BeginsInventory event

/-- Account events where no inventory is, inventory events where one is. -/
def Sorted (stamp : IEvent EventData → String × Nat) (store : MemoryStore EventData) : Prop :=
  ∀ streamId,
    (¬ HasInventory store streamId → (accountAggregate stamp).TakesAll true
      (accountAggregate stamp).initial (store.readFromStream streamId)) ∧
    (HasInventory store streamId →
      ∀ event ∈ store.readFromStream streamId, Inventory.Known event)

/-- An event goes to a stream of its kind. An order is taken back only where one
was created. -/
inductive Fits (store : MemoryStore EventData) (event : IEvent EventData) : Prop
  | created (hBegins : BeginsInventory event)
      (hEmpty : store.readFromStream event.streamId = [])
  | removed (hName : event.name = "InventoryRemovedEvent")
      (hInventory : HasInventory store event.streamId)
  | account (hKind : event.name ∈ kinds) (hAccount : ¬ HasInventory store event.streamId)
      (hOrder : event.name = "RollbackOrderCreatedEvent" →
        ∃ order ∈ store.readFromStream event.streamId, order.name = "OrderCreatedEvent")

section

variable {store : MemoryStore EventData} {event : IEvent EventData}

/-- No event of an account begins an inventory. -/
theorem not_beginsInventory (h : event.name ∈ kinds) : ¬ BeginsInventory event := by
  rintro (hName | hName)
  · rw [hName] at h
    exact absurd h (by decide)
  · rw [hName] at h
    exact absurd h (by decide)

/-- A stream has an inventory from the event on that begins one. -/
theorem hasInventory_push {streamId : String} :
    HasInventory (store.push event) streamId ↔ HasInventory store streamId ∨
      event.streamId = streamId ∧ BeginsInventory event := by
  rw [HasInventory, HasInventory, MemoryStore.readFromStream_push]
  by_cases hStream : event.streamId = streamId
  · simp [hStream, or_and_right, exists_or]
  · simp [hStream]

/-- Events that begin no inventory leave the inventories as they were. -/
theorem hasInventory_appendToStream {streamId : String} {more : List (IEvent EventData)}
    (h : ∀ event ∈ more, event.streamId = streamId → ¬ BeginsInventory event) :
    HasInventory (store.appendToStream more) streamId ↔ HasInventory store streamId := by
  induction more generalizing store with
  | nil => rfl
  | cons event more ih =>
      change HasInventory ((store.push event).appendToStream more) streamId ↔ _
      rw [ih fun other hOther => h other (List.mem_cons_of_mem _ hOther), hasInventory_push]
      constructor
      · rintro (hBefore | ⟨hStream, hName⟩)
        · exact hBefore
        · exact absurd hName (h event List.mem_cons_self hStream)
      · exact Or.inl

/-- An event that fits its stream keeps the streams loadable. -/
theorem Sorted.push (h : Sorted stamp store) (hFits : Fits store event) :
    Sorted stamp (store.push event) := by
  intro streamId
  obtain ⟨hAccount, hInventory⟩ := h streamId
  rw [MemoryStore.readFromStream_push, hasInventory_push]
  by_cases hStream : event.streamId = streamId
  · subst hStream
    have hThis : [event].filter (·.streamId = event.streamId) = [event] := by simp
    rw [hThis]
    cases hFits with
    | created hBegins hEmpty =>
        constructor
        · exact fun hNot => absurd (Or.inr ⟨rfl, hBegins⟩) hNot
        · intro _ other hOther
          rw [hEmpty, List.nil_append] at hOther
          rw [List.mem_singleton.mp hOther]
          exact hBegins.imp_right Or.inr
    | removed hName hThere =>
        constructor
        · exact fun hNot => absurd (Or.inl hThere) hNot
        · intro _ other hOther
          rcases List.mem_append.mp hOther with hOld | hNew
          · exact hInventory hThere other hOld
          · rw [List.mem_singleton.mp hNew]
            exact Or.inr (Or.inl hName)
    | account hKind hNone hOrder =>
        constructor
        · intro _
          refine ThrowingClass.takesAll_append_iff.mpr ⟨hAccount hNone, takes_iff.mpr
            ⟨hKind, fun hRollback hOrders => ?_⟩, trivial⟩
          obtain ⟨order, hMem, hCreated⟩ := hOrder hRollback
          exact (orders_fold_eq_none_iff.mp hOrders).2 order hMem hCreated
        · rintro (hThere | ⟨-, hThis⟩)
          · exact absurd hThere hNone
          · exact absurd hThis (not_beginsInventory hKind)
  · have hNone : [event].filter (·.streamId = streamId) = [] := by simp [hStream]
    rw [hNone, List.append_nil]
    have hIff : (HasInventory store streamId ∨
        event.streamId = streamId ∧ BeginsInventory event) ↔
          HasInventory store streamId := by
      rw [or_iff_left]
      exact fun hThis => hStream hThis.1
    rw [hIff]
    exact ⟨hAccount, hInventory⟩

/-- Events of accounts, one after the other. -/
theorem Sorted.appendAll (h : Sorted stamp store) {more : List (IEvent EventData)}
    (hKind : ∀ event ∈ more, event.name ∈ kinds)
    (hAccount : ∀ event ∈ more, ¬ HasInventory store event.streamId)
    (hOrder : ∀ event ∈ more, event.name = "RollbackOrderCreatedEvent" →
      ∃ order ∈ store.readFromStream event.streamId, order.name = "OrderCreatedEvent") :
    Sorted stamp (store.appendToStream more) := by
  induction more generalizing store with
  | nil => exact h
  | cons event more ih =>
      have hThis := List.mem_cons_self (a := event) (l := more)
      apply ih (h.push (.account (hKind event hThis) (hAccount event hThis) (hOrder event hThis)))
      · exact fun other hOther => hKind other (List.mem_cons_of_mem _ hOther)
      · intro other hOther
        rw [hasInventory_push]
        rintro (hBefore | ⟨-, hCreated⟩)
        · exact hAccount other (List.mem_cons_of_mem _ hOther) hBefore
        · exact not_beginsInventory (hKind event hThis) hCreated
      · intro other hOther hRollback
        obtain ⟨order, hMem, hCreated⟩ := hOrder other (List.mem_cons_of_mem _ hOther) hRollback
        refine ⟨order, ?_, hCreated⟩
        rw [MemoryStore.readFromStream_push]
        exact List.mem_append_left _ hMem

end

/-- A request commits no event that only a rollback makes. -/
theorem Committed.kinds {r : Requested} {event : IEvent EventData} (h : Committed r event) :
    event.name ∈ kinds ∧ event.name ≠ "RollbackOrderCreatedEvent" := by
  rcases h.kind with hName | hName | hName <;> rw [hName] <;> decide

namespace World

/-- Requests are for accounts, and orders are for inventories that there are. -/
structure Streams (stamp : IEvent EventData → String × Nat) (s : World) : Prop where
  sorted : Sorted stamp s.store
  requests : ∀ r ∈ s.requests, ¬ HasInventory s.store r.request.accountId
  rows : ∀ r ∈ s.requests, ∀ input id price, r.request = .order input id price →
    HasInventory s.store input.inventoryId
  accounts : ∀ event ∈ s.store.sent, event.name = "OrderCreatedEvent" →
    ¬ HasInventory s.store event.streamId
  ordered : ∀ event ∈ s.store.sent, event.name = "OrderCreatedEvent" →
    ∀ id, event.data.inventoryId = some id → HasInventory s.store id

section

variable {s t : World}

/-- Empty streams are loadable. -/
theorem streams_new (stamp : IEvent EventData → String × Nat) : new.Streams stamp where
  sorted _ := ⟨fun _ => trivial, fun _ _ hEvent => absurd hEvent List.not_mem_nil⟩
  requests _ hr := absurd hr List.not_mem_nil
  rows _ hr := absurd hr List.not_mem_nil
  accounts _ hEvent := absurd hEvent List.not_mem_nil
  ordered _ hEvent := absurd hEvent List.not_mem_nil

/-- Streams that exist already do not change their kind. -/
theorem Streams.appendAll (h : s.Streams stamp) {more : List (IEvent EventData)}
    (hSorted : Sorted stamp (s.store.appendToStream more))
    (hKind : ∀ event ∈ more, ¬ BeginsInventory event)
    (hOrders : ∀ event ∈ more, event.name = "OrderCreatedEvent" →
      ¬ HasInventory s.store event.streamId ∧
        ∀ id, event.data.inventoryId = some id → HasInventory s.store id) :
    (s.appended (s.store.appendToStream more)).Streams stamp := by
  have hSame : ∀ streamId, HasInventory (s.store.appendToStream more) streamId ↔
      HasInventory s.store streamId := fun streamId =>
    hasInventory_appendToStream fun event hEvent _ => hKind event hEvent
  constructor
  case sorted => exact hSorted
  case requests => exact fun r hr => mt (hSame _).mp (h.requests r hr)
  case rows =>
    exact fun r hr input id price hThis => (hSame _).mpr (h.rows r hr input id price hThis)
  all_goals
    intro event hEvent hName
    change event ∈ (s.store.appendToStream more).sent at hEvent
    rw [sent_appendToStream, List.mem_append] at hEvent
  case accounts =>
    change ¬ HasInventory (s.store.appendToStream more) event.streamId
    rw [hSame]
    exact hEvent.elim (fun hOld => h.accounts event hOld hName)
      fun hNew => (hOrders event hNew hName).1
  case ordered =>
    intro id hId
    change HasInventory (s.store.appendToStream more) id
    rw [hSame]
    exact hEvent.elim (fun hOld => h.ordered event hOld hName id hId)
      fun hNew => (hOrders event hNew hName).2 id hId

/-- An event may follow that fits its stream, begins no inventory and orders nothing. -/
theorem Streams.push (h : s.Streams stamp) {event : IEvent EventData}
    (hFits : Fits s.store event) (hName : ¬ BeginsInventory event)
    (hOrder : event.name ≠ "OrderCreatedEvent") :
    (s.appended (s.store.push event)).Streams stamp := by
  have hSorted : Sorted stamp (s.store.appendToStream [event]) := h.sorted.push hFits
  apply h.appendAll hSorted
  · intro other hOther
    rw [List.mem_singleton.mp hOther]
    exact hName
  · intro other hOther hThis
    rw [List.mem_singleton.mp hOther] at hThis
    exact absurd hThis hOrder

/-- Rollbacks that are published leave the streams as they were. -/
theorem Streams.rollbackSagas (h : s.Streams stamp) (correlationId linked : Option String) :
    (s.rollbackSagas correlationId linked).Streams stamp := by
  unfold World.rollbackSagas
  split
  · exact h
  · exact { h with }

/-- How far a request is does not matter to the streams. -/
theorem Streams.setRequest (h : s.Streams stamp) {i : Nat} {r : Requested}
    (hr : s.requests[i]? = some r) (stage : Stage AccountAggregate) :
    (s.setRequest i { r with stage }).Streams stamp := by
  have hSame : ∀ other ∈ s.requests.set i { r with stage }, ∃ old ∈ s.requests,
      other.request = old.request := by
    intro other hOther
    rcases List.mem_or_eq_of_mem_set hOther with hOld | rfl
    · exact ⟨other, hOld, rfl⟩
    · exact ⟨r, List.mem_of_getElem? hr, rfl⟩
  refine { h with requests := fun other hOther => ?_, rows := fun other hOther => ?_ }
  · obtain ⟨old, hOld, hRequest⟩ := hSame other hOther
    rw [hRequest]
    exact h.requests old hOld
  · obtain ⟨old, hOld, hRequest⟩ := hSame other hOther
    rw [hRequest]
    exact h.rows old hOld

/-- What has the id of a stream that is created was not there before. -/
theorem Sound.readFromStream_eq_nil (h : s.Sound stamp) {streamId : String}
    (hNew : streamId ∉ s.drawn) : s.store.readFromStream streamId = [] := by
  rw [h.filed, List.filter_eq_nil_iff]
  intro event hEvent hSame
  exact hNew (of_decide_eq_true hSame ▸ (h.events event hEvent).streamId)

/-- An event may begin a stream under an id that nobody has used. -/
theorem Streams.created (h : s.Streams stamp) (hSound : s.Sound stamp) {ids : List String}
    {event : IEvent EventData} (hNew : event.streamId ∉ s.drawn)
    (hName : event.name = "AccountCreatedEvent" ∨ BeginsInventory event) :
    ((s.draw ids).appended (s.store.push event)).Streams stamp := by
  have hEmpty := hSound.readFromStream_eq_nil hNew
  have hNone : ¬ HasInventory s.store event.streamId := by
    rintro ⟨other, hOther, -⟩
    rw [hEmpty] at hOther
    exact absurd hOther List.not_mem_nil
  have hKnown : ∀ streamId ∈ s.drawn, (HasInventory (s.store.push event) streamId ↔
      HasInventory s.store streamId) := by
    intro streamId hDrawn
    rw [hasInventory_push, or_iff_left]
    rintro ⟨rfl, -⟩
    exact hNew hDrawn
  have hOld : ∀ other ∈ (s.store.push event).sent, other.name = "OrderCreatedEvent" →
      other ∈ s.store.sent := by
    intro other hOther hOrder
    rcases List.mem_append.mp hOther with hBefore | hThis
    · exact hBefore
    · rw [List.mem_singleton.mp hThis] at hOrder
      rcases hName with hName | hName | hName <;> simp [hName] at hOrder
  constructor
  case sorted =>
    apply h.sorted.push
    rcases hName with hName | hBegins
    · exact .account (by rw [hName]; decide) hNone fun hThis => by simp [hName] at hThis
    · exact .created hBegins hEmpty
  case requests =>
    intro r hr
    exact mt (hKnown _ ((hSound.requests r hr).ids _ r.request.accountId_mem_ids)).mp
      (h.requests r hr)
  case rows =>
    intro r hr input id price hThis
    exact hasInventory_push.mpr (Or.inl (h.rows r hr input id price hThis))
  case accounts =>
    intro other hOther hOrder
    have hBefore := hOld other hOther hOrder
    exact mt (hKnown _ (hSound.events other hBefore).streamId).mp (h.accounts other hBefore hOrder)
  case ordered =>
    intro other hOther hOrder id hId
    exact hasInventory_push.mpr (Or.inl (h.ordered other (hOld other hOther hOrder) hOrder id hId))

/-- What was loaded as an account is one. -/
theorem not_hasInventory_of_merge {streamId : String} {aggregate : AccountAggregate}
    (hMerge : (accountAggregate stamp).mergeContext streamId (s.store.readFromStream streamId) =
      .ok aggregate) : ¬ HasInventory s.store streamId := by
  rintro ⟨event, hEvent, hBegins⟩
  have hTakes := (ThrowingClass.populated_of_mergeContext
    (fun event hEvent => MemoryStore.streamId_of_mem hEvent) hMerge).2
  exact not_beginsInventory (kinds_of_takesAll hTakes event hEvent) hBegins

/-- A request keeps to the stream of its account. -/
theorem Streams.called (h : s.Streams stamp) {ids : List String} {request : Request}
    {command : ICommand EventData} {aggregate : AccountAggregate}
    (hDrawn : Drawn s ids request command)
    (hMerge : (accountAggregate stamp).mergeContext request.accountId
      (s.store.readFromStream request.accountId) = .ok aggregate) :
    ({ s.draw ids with
      requests := s.requests ++ [⟨request, command, .merged aggregate⟩] } : World).Streams
        stamp := by
  refine { h with requests := fun r hr => ?_, rows := fun r hr => ?_ }
  · rcases List.mem_append.mp hr with hOld | hNew
    · exact h.requests r hOld
    · rw [List.mem_singleton.mp hNew]
      exact not_hasInventory_of_merge hMerge
  · rcases List.mem_append.mp hr with hOld | hNew
    · exact h.rows r hOld
    · rw [List.mem_singleton.mp hNew]
      intro input id price hThis
      obtain ⟨-, event, hEvent, hName⟩ := hDrawn.inventory input id price hThis
      exact ⟨event, hEvent, Or.inl hName⟩

/-- The events of a request fit the account that it has loaded. -/
theorem Streams.requested (h : s.Streams stamp) {i : Nat} {r : Requested} (uuid uuid' : String)
    (now : Nat) (hr : s.requests[i]? = some r) :
    ((s.setRequest i { r with stage := .ended (.ok ()) }).appended
      (s.store.appendToStream (r.committed uuid uuid' now))).Streams stamp := by
  have hMem := List.mem_of_getElem? hr
  apply (h.setRequest hr _).appendAll
  · apply h.sorted.appendAll
    · exact fun event hEvent => (committed_of_mem hEvent).kinds.1
    · intro event hEvent
      rw [(committed_of_mem hEvent).streamId]
      exact h.requests r hMem
    · exact fun event hEvent hThis => absurd hThis (committed_of_mem hEvent).kinds.2
  · exact fun event hEvent => not_beginsInventory (committed_of_mem hEvent).kinds.1
  · intro event hEvent hName
    have hCommitted := committed_of_mem hEvent
    obtain ⟨input, id, price, hRequest, -, hInventory, -⟩ := hCommitted.order hName
    refine ⟨hCommitted.streamId ▸ h.requests r hMem, fun own hOwn => ?_⟩
    rw [hInventory] at hOwn
    exact Option.some.inj hOwn ▸ h.rows r hMem input id price hRequest

/-- The event of a removal fits the inventory that it has loaded. -/
theorem Streams.removed (h : s.Streams stamp) (hSound : s.Sound stamp) {j : Nat} {r : Removing}
    (uuid : String) (now : Nat) (hr : s.removals[j]? = some r) :
    ((s.setRemoval j { r with stage := .ended (.ok ()) }).appended
      (s.store.push (r.removedEvent uuid now))).Streams stamp := by
  have hName := name_removedEvent r uuid now
  obtain ⟨order, hOrder, hOrderName, -, hStream, -⟩ :=
    hSound.removedEvent (List.mem_of_getElem? hr) uuid now
  have hSet : (s.setRemoval j { r with stage := .ended (.ok ()) }).Streams stamp := { h with }
  apply hSet.push
  · exact .removed hName (h.ordered order hOrder hOrderName _ hStream.symm)
  · simp [BeginsInventory, hName]
  · simp [hName]

/-- The revoking events fit the account that the rollback has loaded. -/
theorem Streams.rolledBack (h : s.Streams stamp) (hSound : s.Sound stamp) {k : Nat}
    {r : RollingBack} {aggregate : AccountAggregate} (hr : s.rollbacks[k]? = some r)
    (hMerged : r.stage = .merged aggregate)
    (hRevocable : ∀ event ∈ aggregate.eventHistory,
      event.correlationId = r.command.correlationId → Revocable event) :
    ((s.setRollback k { r with stage := .ended (.ok ()) }).appended
      (s.store.appendToStream (r.committed stamp aggregate))).Streams stamp := by
  have hMem := List.mem_of_getElem? hr
  obtain ⟨order, hOrder, hName, hCommand⟩ := (hSound.rollbacks r hMem).ordered
  obtain ⟨hStream, -, hPrefix⟩ := (hSound.rollbacks r hMem).merged aggregate hMerged
  have hOrderStream : order.streamId = aggregate.streamId := by
    rw [hCommand] at hStream
    exact Option.some.inj hStream
  have hAt : ∀ made ∈ r.committed stamp aggregate, made.streamId = order.streamId := by
    intro made hMade
    obtain ⟨event, hEvent, rfl⟩ := List.mem_map.mp hMade
    rw [List.mem_reverse, List.mem_filter] at hEvent
    rw [streamId_undo, hOrderStream]
    exact MemoryStore.streamId_of_mem (hPrefix.subset hEvent.1)
  have hRevoking : ∀ made ∈ r.committed stamp aggregate, Revoking made := fun made hMade =>
    (hSound.committed_rollback hMem hMerged hRevocable hMade).2.1
  have hSet : (s.setRollback k { r with stage := .ended (.ok ()) }).Streams stamp := { h with }
  apply hSet.appendAll
  · apply h.sorted.appendAll
    · intro made hMade
      rcases hRevoking made hMade with hThis | hThis <;> rw [hThis] <;> decide
    · intro made hMade
      rw [hAt made hMade]
      exact h.accounts order hOrder hName
    · intro made hMade _
      refine ⟨order, ?_, hName⟩
      rw [hAt made hMade, hSound.filed, List.mem_filter]
      exact ⟨hOrder, decide_eq_true rfl⟩
  · intro made hMade
    rcases hRevoking made hMade with hThis | hThis <;> simp [BeginsInventory, hThis]
  · intro made hMade hThis
    rcases hRevoking made hMade with hName | hName <;> simp [hName] at hThis

/-- Each effect keeps the streams loadable. -/
theorem Streams.effect (h : s.Streams stamp) (hSound : s.Sound stamp) {a : Action}
    (hEffect : Effect stamp s a t) : t.Streams stamp := by
  cases hEffect with
  | creating accounts inventories => exact { h with }
  | refused accounts inventories ids hPrepared hFresh =>
      have hDraw : (({ s with accounts, inventories } : World).draw ids).Streams stamp :=
        { h with }
      exact hDraw.rollbackSagas _ _
  | created accounts inventories hPrepared hStream hNew hId hName =>
      have hNext : ({ s with accounts, inventories } : World).Streams stamp := { h with }
      have hNextSound : ({ s with accounts, inventories } : World).Sound stamp :=
        { hSound with prepared := hPrepared }
      exact hNext.created hNextSound hNew hName
  | called hDrawn hMerge => exact h.called hDrawn hMerge
  | requestFailed reason hr hMerged => exact (h.setRequest hr _).rollbackSagas _ _
  | requested uuid uuid' now hr hMerged => exact h.requested uuid uuid' now hr
  | caught uuid now hr =>
      apply h.push
      · exact .account (List.mem_of_elem_eq_true rfl) (h.requests _ hr) fun hThis => by
          simp [fundsWithdrawalFailedEvent, newEvent] at hThis
      · simp [BeginsInventory, fundsWithdrawalFailedEvent, newEvent]
      · simp [fundsWithdrawalFailedEvent, newEvent]
  | @removalFailed _ j r reason hr hOpen =>
      have hSet : (s.setRemoval j { r with stage := .ended (.error reason) }).Streams stamp :=
        { h with }
      exact hSet.rollbackSagas _ _
  | removalMerged hr hWaiting hMerge => exact { h with }
  | removed uuid now hr hMerged => exact h.removed hSound uuid now hr
  | @rollbackFailed _ k r reason hr hWhy =>
      have hSet : (s.setRollback k { r with stage := .ended (.error reason) }).Streams stamp :=
        { h with }
      exact hSet.rollbackSagas _ _
  | rollbackMerged hr hWaiting hMerge => exact { h with }
  | rolledBack hr hMerged hRevocable => exact h.rolledBack hSound hr hMerged hRevocable
  | @rejected place event hPlace =>
      have hErase : ({ s with pending := s.pending.eraseIdx place } : World).Streams stamp :=
        { h with }
      exact hErase.rollbackSagas _ _
  | ordered hPlace hName hId hInventory hQuantity => exact { h with }
  | settled hPlace hName => exact { h with }

/-- Streams with an event of an account can be loaded as an account. -/
theorem Streams.loads_account (h : s.Streams stamp) (hSound : s.Sound stamp)
    {event : IEvent EventData} (hEvent : event ∈ s.store.sent) (hKind : event.name ∈ kinds) :
    ∃ aggregate, (accountAggregate stamp).mergeContext event.streamId
        (s.store.readFromStream event.streamId) = .ok aggregate ∧
      (accountAggregate stamp).Populated event.streamId
        (s.store.readFromStream event.streamId) aggregate := by
  obtain ⟨hAccount, hInventory⟩ := h.sorted event.streamId
  have hStream : event ∈ s.store.readFromStream event.streamId := by
    rw [hSound.filed, List.mem_filter]
    exact ⟨hEvent, decide_eq_true rfl⟩
  have hNone : ¬ HasInventory s.store event.streamId := by
    intro hThere
    rcases hInventory hThere event hStream with hName | hName | hName <;>
      simp [hName, kinds] at hKind
  exact ThrowingClass.mergeContext_populated
    (fun other hOther => MemoryStore.streamId_of_mem hOther) (hAccount hNone)

/-- Streams with an event of an inventory can be loaded as an inventory. -/
theorem Streams.loads_inventory (h : s.Streams stamp) (hSound : s.Sound stamp)
    {event : IEvent EventData} (hEvent : event ∈ s.store.sent) (hKind : event.name ∉ kinds) :
    ∃ aggregate, AggregateFactory.mergeContext inventoryAggregate s.store event.streamId =
      .ok aggregate := by
  obtain ⟨hAccount, hInventory⟩ := h.sorted event.streamId
  have hStream : event ∈ s.store.readFromStream event.streamId := by
    rw [hSound.filed, List.mem_filter]
    exact ⟨hEvent, decide_eq_true rfl⟩
  have hThere : HasInventory s.store event.streamId := by
    by_contra hNone
    exact hKind (kinds_of_takesAll (hAccount hNone) event hStream)
  obtain ⟨aggregate, hMerge, -⟩ := Inventory.mergeContext_of_known (hInventory hThere)
  exact ⟨aggregate, hMerge⟩

/-- Every stream can be loaded: as an inventory, if one was created in it or
could not be, or as an account. -/
def Loadable (stamp : IEvent EventData → String × Nat) (s : World) : Prop :=
  ∀ streamId,
    (HasInventory s.store streamId → ∃ aggregate,
      AggregateFactory.mergeContext inventoryAggregate s.store streamId = .ok aggregate) ∧
    (¬ HasInventory s.store streamId → ∃ aggregate,
      (accountAggregate stamp).mergeContext streamId (s.store.readFromStream streamId) =
        .ok aggregate)

theorem Streams.loadable (h : s.Streams stamp) : s.Loadable stamp := by
  intro streamId
  obtain ⟨hAccount, hInventory⟩ := h.sorted streamId
  constructor
  · intro hThere
    obtain ⟨aggregate, hMerge, -⟩ := Inventory.mergeContext_of_known (hInventory hThere)
    exact ⟨aggregate, hMerge⟩
  · intro hNone
    obtain ⟨aggregate, hMerge, -⟩ := ThrowingClass.mergeContext_populated
      (fun event hEvent => MemoryStore.streamId_of_mem hEvent) (hAccount hNone)
    exact ⟨aggregate, hMerge⟩

/-- In every orderly interleaving, whatever fails and is rejected in it, no
stream is left that cannot be loaded any more. -/
theorem streams_load (stamp : IEvent EventData → String × Nat) (actions : List Action)
    (hOrderly : Runs.StepsMeet (World.step stamp) World.Orderly World.new actions) :
    Runs.Always (World.step stamp) (World.Loadable stamp) World.new actions := by
  apply Runs.always_of_stepsMeet (fun s => s.Sound stamp ∧ s.Streams stamp) (fun _ => True)
    ?_ ?_ ?_ (fun _ _ => trivial) hOrderly
  · intro s a t _ hInv hStep hThis
    have hEffect := step_effect hInv.1 hThis hStep
    exact ⟨hInv.1.effect hEffect, hInv.2.effect hInv.1 hEffect⟩
  · exact fun s hInv => hInv.2.loadable
  · exact ⟨sound_new stamp, streams_new stamp⟩

theorem streams_load_lamps :
    (Runs.exec (World.step lampStamp) World.new lampsOrdered).isSome = true ∧
      Runs.Always (World.step lampStamp) (World.Loadable lampStamp) World.new lampsOrdered :=
  ⟨lampsOrdered_possible, streams_load lampStamp lampsOrdered lampsOrdered_orderly⟩

end

end World

end Moirae.Orders
