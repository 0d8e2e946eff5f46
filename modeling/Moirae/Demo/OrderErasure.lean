import Moirae.Demo.OrderSteps

/-! An order that is taken back leaves no trace on the account: what can be read
from it is what the events of the other transactions make of it, whatever came
between the order and its rollback. -/
namespace Moirae.Orders

open Demo Account
open AggregateRoot (linkEvent)

variable {stamp : IEvent EventData → String × Nat}

/-- The stream has events that take the transaction back. -/
def TakenBack (events : List (IEvent EventData)) (correlationId : Option String) : Prop :=
  ∃ event ∈ events, Revoking event ∧ event.correlationId = correlationId

instance (events : List (IEvent EventData)) (correlationId : Option String) :
    Decidable (TakenBack events correlationId) := inferInstanceAs (Decidable (∃ _ ∈ _, _))

/-- The account before its first event. -/
def start : AccountView := ⟨none, none, none, []⟩

namespace World

/-- A rollback is committed while the stream has no other events of its
transaction than those that the execution has loaded. -/
def StillOpen (s : World) : Action → Prop
  | .resumeRollBack k => ∀ r, s.rollbacks[k]? = some r →
      ∀ aggregate, r.stage = .merged aggregate →
        (s.store.readFromStream aggregate.streamId).filter
            (·.correlationId = r.command.correlationId) =
          aggregate.eventHistory.filter (·.correlationId = r.command.correlationId)
  | _ => True

instance StillOpen.decidable (s : World) : ∀ a : Action, Decidable (s.StillOpen a)
  | .resumeRollBack k => decidable_of_iff
      (∀ r ∈ s.rollbacks[k]?, ∀ aggregate ∈ r.stage.loaded,
        (s.store.readFromStream aggregate.streamId).filter
            (·.correlationId = r.command.correlationId) =
          aggregate.eventHistory.filter (·.correlationId = r.command.correlationId))
      (by simp only [Option.mem_def, Stage.loaded_eq_some_iff]; rfl)
  | .createAccount .. | .resumeCreateAccount .. | .createInventory ..
  | .resumeCreateInventory .. | .catchDuplicate .. | .pay .. | .order .. | .resume ..
  | .catchError .. | .remove .. | .resumeRemove .. | .rollBack .. | .settle .. => instDecidableTrue

/-- An account that is loaded is what those transactions have made of it that
were not taken back. -/
def Erased (stamp : IEvent EventData → String × Nat) (s : World) : Prop :=
  ∀ streamId aggregate,
    (accountAggregate stamp).mergeContext streamId (s.store.readFromStream streamId) =
        .ok aggregate →
      view aggregate.state =
        ((s.store.readFromStream streamId).filter fun event =>
          ¬ TakenBack (s.store.readFromStream streamId) event.correlationId).foldl act start

end World

/-! ## Streams in which transactions are taken back -/

/-- The stream of an account is a log in which transactions were taken back. -/
def Balanced (events : List (IEvent EventData)) : Prop :=
  ∃ undone, Compensation.Compensated act start (·.correlationId) events undone ∧
    ∀ id, id ∈ undone ↔ TakenBack events id

/-- A transaction is taken back by the events of the one part or of the other. -/
theorem TakenBack.append_iff {events more : List (IEvent EventData)} {id : Option String} :
    TakenBack (events ++ more) id ↔ TakenBack events id ∨ TakenBack more id := by
  simp [TakenBack, or_and_right, exists_or]

/-- The events of a stream tell how it looks without what was taken back. -/
theorem Balanced.foldl_eq {events : List (IEvent EventData)} (h : Balanced events) :
    events.foldl act start =
      (events.filter fun event => ¬ TakenBack events event.correlationId).foldl act start := by
  obtain ⟨undone, hCompensated, hUndone⟩ := h
  rw [hCompensated.foldl_eq]
  apply congrArg (List.foldl act start)
  apply List.filter_congr
  intro event _
  rw [decide_eq_decide, not_iff_not]
  exact hUndone event.correlationId

/-- The empty stream is balanced. -/
theorem balanced_nil : Balanced [] := by
  refine ⟨[], .nil, fun id => ?_⟩
  simp [TakenBack]

/-- An event that takes nothing back, in a transaction that was not taken
back. -/
theorem Balanced.append {events : List (IEvent EventData)} (h : Balanced events)
    {event : IEvent EventData} (hEvent : ¬ Revoking event)
    (hOpen : ¬ TakenBack events event.correlationId) : Balanced (events ++ [event]) := by
  obtain ⟨undone, hCompensated, hUndone⟩ := h
  refine ⟨undone, hCompensated.append (mt (hUndone _).mp hOpen), fun id => ?_⟩
  rw [hUndone, TakenBack.append_iff]
  simp [TakenBack, hEvent]

/-- What commutes with the events that take a transaction back. -/
theorem Balanced.compensate {events : List (IEvent EventData)} (h : Balanced events)
    {id : Option String} {command : ICommand EventData} (hId : truthy id = true)
    (hSome : ∃ event ∈ events, event.correlationId = id)
    (hRevocable : ∀ event ∈ events, event.correlationId = id → Revocable event)
    (hFunds : ∀ event ∈ events, event.name = "FundsWithdrawnEvent" → event.data.funds ≠ none)
    (hDistinct : DistinctOrders events)
    (hCreated : ∀ event ∈ events.tail, event.name ≠ "AccountCreatedEvent") :
    Balanced
      (events ++ (events.filter (·.correlationId = id)).reverse.map (undo stamp command)) := by
  obtain ⟨undone, hCompensated, hUndone⟩ := h
  have hRevoking : ∀ event ∈ events, event.correlationId = id →
      Revoking (undo stamp command event) := fun event hEvent hThis =>
    (revokes_undo event).revoking (hRevocable event hEvent hThis)
  have hLabel : ∀ event : IEvent EventData, event.correlationId = id →
      (undo stamp command event).correlationId = id := by
    intro event hThis
    rw [correlationId_undo (by rw [hThis]; exact hId), hThis]
  refine ⟨id :: undone, hCompensated.compensate (undo stamp command) ?_ ?_ ?_ ?_, fun other => ?_⟩
  · rw [hUndone]
    rintro ⟨event, hEvent, hTakes, hThis⟩
    rcases hRevocable event hEvent hThis with hName | hName <;>
      simp [Revoking, hName] at hTakes
  · exact fun event _ => hLabel event
  · intro done event hSublist hThis
    have hEvent : event ∈ events := hSublist.subset (by simp)
    apply (revokes_undo event).takesBack (hRevocable event hEvent hThis) (hFunds event hEvent)
    intro hOrder order hMem hSame
    rcases mem_orders_foldl hMem with hNone | ⟨other, hOther, hOtherOrder, rfl⟩
    · cases hNone
    · obtain ⟨-, -, hApart⟩ := List.pairwise_append.mp (hDistinct.sublist hSublist)
      exact (hApart other hOther event List.mem_cons_self hOtherOrder hOrder).1 hSame
  · have hFirst : events.Pairwise fun _ other => other.name ≠ "AccountCreatedEvent" := by
      cases events with
      | nil => exact List.Pairwise.nil
      | cons first rest =>
          exact List.pairwise_cons.mpr ⟨hCreated, List.pairwise_of_forall_mem_list
            fun _ _ other hOther => hCreated other hOther⟩
    apply (hDistinct.and hFirst).imp_of_mem
    intro event other hEvent _ hBoth hThis _
    obtain ⟨hApart, hOther⟩ := hBoth
    apply commute_of_revoking hOther (hRevoking event hEvent hThis)
    intro hOrder hTakes hSame
    have hName : event.name = "OrderCreatedEvent" := by
      rcases hRevocable event hEvent hThis with hName | hName
      · rw [((revokes_undo event).withdrawn hName).1] at hTakes
        simp at hTakes
      · exact hName
    rw [((revokes_undo event).ordered hName).2] at hSame
    exact (hApart hName hOrder).1 hSame.symm
  · rw [List.mem_cons, hUndone, TakenBack.append_iff, or_comm]
    apply or_congr_right
    constructor
    · rintro rfl
      obtain ⟨event, hEvent, hThis⟩ := hSome
      refine ⟨undo stamp command event, List.mem_map_of_mem ?_, hRevoking event hEvent hThis,
        hLabel event hThis⟩
      rw [List.mem_reverse, List.mem_filter, decide_eq_true_iff]
      exact ⟨hEvent, hThis⟩
    · rintro ⟨made, hMade, -, hThis⟩
      obtain ⟨event, hEvent, rfl⟩ := List.mem_map.mp hMade
      rw [List.mem_reverse, List.mem_filter, decide_eq_true_iff] at hEvent
      rw [← hThis, hLabel event hEvent.2]

/-- Events that take nothing back, in transactions that were not taken back. -/
theorem Balanced.appendAll {events more : List (IEvent EventData)} (h : Balanced events)
    (hMore : ∀ event ∈ more, ¬ Revoking event ∧ ¬ TakenBack events event.correlationId) :
    Balanced (events ++ more) := by
  induction more generalizing events with
  | nil =>
      rw [List.append_nil]
      exact h
  | cons event more ih =>
      obtain ⟨hEvent, hOpen⟩ := hMore event List.mem_cons_self
      rw [List.append_cons]
      apply ih (h.append hEvent hOpen)
      intro other hOther
      obtain ⟨hTakes, hOtherOpen⟩ := hMore other (List.mem_cons_of_mem _ hOther)
      refine ⟨hTakes, fun hTaken => ?_⟩
      rcases TakenBack.append_iff.mp hTaken with hBefore | ⟨last, hLast, hRevoking, -⟩
      · exact hOtherOpen hBefore
      · exact hEvent (List.mem_singleton.mp hLast ▸ hRevoking)

/-- The streams of all accounts are balanced. -/
def AllBalanced (store : MemoryStore EventData) : Prop :=
  ∀ streamId, (∀ event ∈ store.readFromStream streamId, event.name ∈ kinds) →
    Balanced (store.readFromStream streamId)

/-- Events that accounts may get at any time are balanced, and those that are
for no account do not matter. -/
theorem AllBalanced.appendAll {store : MemoryStore EventData} (h : AllBalanced store)
    {more : List (IEvent EventData)}
    (hMore : ∀ event ∈ more, event.name ∈ kinds → ¬ Revoking event ∧
      ¬ TakenBack (store.readFromStream event.streamId) event.correlationId) :
    AllBalanced (store.appendToStream more) := by
  intro streamId hKinds
  rw [MemoryStore.readFromStream_appendToStream] at hKinds ⊢
  have hBefore := h streamId fun other hOther => hKinds other (List.mem_append_left _ hOther)
  apply hBefore.appendAll
  intro event hEvent
  have hKind := hKinds event (List.mem_append_right _ hEvent)
  rw [List.mem_filter, decide_eq_true_iff] at hEvent
  obtain ⟨hMem, rfl⟩ := hEvent
  exact hMore event hMem hKind

/-- An event may follow that revokes nothing, in a transaction that was not taken back. -/
theorem AllBalanced.push {store : MemoryStore EventData} (h : AllBalanced store)
    {event : IEvent EventData}
    (hEvent : event.name ∈ kinds → ¬ Revoking event ∧
      ¬ TakenBack (store.readFromStream event.streamId) event.correlationId) :
    AllBalanced (store.push event) := by
  have hAll : ∀ other ∈ [event], other.name ∈ kinds → ¬ Revoking other ∧
      ¬ TakenBack (store.readFromStream other.streamId) other.correlationId := by
    intro other hOther
    rw [List.mem_singleton.mp hOther]
    exact hEvent
  exact h.appendAll hAll

namespace World

variable {s t : World}

/-- Only transactions of orders are taken back. -/
theorem Sound.takenBack (h : s.Sound stamp) {streamId : String} {id : Option String}
    (hTaken : TakenBack (s.store.readFromStream streamId) id) :
    ∃ order ∈ s.store.sent, order.name = "OrderCreatedEvent" ∧ order.correlationId = id := by
  obtain ⟨event, hEvent, hRevoking, hThis⟩ := hTaken
  rw [h.filed] at hEvent
  obtain ⟨order, hOrder, hFor⟩ := h.revoking event (List.mem_of_mem_filter hEvent) hRevoking
  exact ⟨order, hOrder, hFor.name, hFor.correlationId.trans hThis⟩

/-- What a rollback commits balances the stream, if it knows the whole
transaction. -/
theorem Sound.balanced_rolledBack (h : s.Sound stamp) (hBalanced : AllBalanced s.store) {k : Nat}
    {r : RollingBack} {aggregate : AccountAggregate} (hr : s.rollbacks[k]? = some r)
    (hMerged : r.stage = .merged aggregate)
    (hRevocable : ∀ event ∈ aggregate.eventHistory,
      event.correlationId = r.command.correlationId → Revocable event)
    (hStill : s.StillOpen (.resumeRollBack k)) :
    AllBalanced (s.store.appendToStream (r.committed stamp aggregate)) := by
  have hSound := h.rollbacks r (List.mem_of_getElem? hr)
  obtain ⟨order, hOrder, hName, hCommand⟩ := hSound.ordered
  obtain ⟨hStream, -, hPrefix⟩ := hSound.merged aggregate hMerged
  have hWhole := hStill r hr aggregate hMerged
  obtain ⟨own, hOwn, hUUID⟩ := ((h.events order hOrder).order hName).transaction
  have hId : r.command.correlationId = order.correlationId := by rw [hCommand]
  have hOrderStream : order.streamId = aggregate.streamId := by
    rw [hCommand] at hStream
    exact Option.some.inj hStream
  intro streamId hKinds
  rw [MemoryStore.readFromStream_appendToStream] at hKinds ⊢
  have hBefore := hBalanced streamId fun other hOther =>
    hKinds other (List.mem_append_left _ hOther)
  have hAt : ∀ made ∈ r.committed stamp aggregate, made.streamId = aggregate.streamId := by
    intro made hMade
    obtain ⟨event, hEvent, rfl⟩ := List.mem_map.mp hMade
    rw [streamId_undo]
    rw [List.mem_reverse, List.mem_filter] at hEvent
    exact MemoryStore.streamId_of_mem (hPrefix.subset hEvent.1)
  by_cases hHere : aggregate.streamId = streamId
  · subst hHere
    have hAll : (r.committed stamp aggregate).filter (·.streamId = aggregate.streamId) =
        r.committed stamp aggregate := by
      rw [List.filter_eq_self]
      exact fun made hMade => decide_eq_true (hAt made hMade)
    have hMem : ∀ event ∈ s.store.readFromStream aggregate.streamId, event ∈ s.store.sent := by
      intro event hEvent
      rw [h.filed] at hEvent
      exact List.mem_of_mem_filter hEvent
    have hSublist : (s.store.readFromStream aggregate.streamId).Sublist s.store.sent := by
      rw [h.filed]
      exact List.filter_sublist
    rw [hAll, RollingBack.committed, ← hWhole]
    apply hBefore.compensate
    · rw [hId, hOwn]
      exact hUUID.truthy
    · refine ⟨order, ?_, hId.symm⟩
      rw [h.filed, List.mem_filter, decide_eq_true_iff]
      exact ⟨hOrder, hOrderStream⟩
    · intro event hEvent hThis
      have hLoaded : event ∈ aggregate.eventHistory.filter
          (·.correlationId = r.command.correlationId) := by
        rw [← hWhole, List.mem_filter, decide_eq_true_iff]
        exact ⟨hEvent, hThis⟩
      exact hRevocable event (List.mem_of_mem_filter hLoaded) hThis
    · exact fun event hEvent => (h.events event (hMem event hEvent)).withdrawn
    · exact h.orders.sublist hSublist
    · exact h.created aggregate.streamId
  · have hNone : (r.committed stamp aggregate).filter (·.streamId = streamId) = [] := by
      rw [List.filter_eq_nil_iff]
      intro made hMade
      rw [hAt made hMade]
      simpa using hHere
    rw [hNone, List.append_nil]
    exact hBefore

/-- Each effect keeps the streams balanced, when it is of a transaction that is still open. -/
theorem Sound.balanced_effect (h : s.Sound stamp) (hBalanced : AllBalanced s.store) {a : Action}
    (hEffect : Effect stamp s a t) (hStill : s.StillOpen a) : AllBalanced t.store := by
  cases hEffect with
  | creating accounts inventories => exact hBalanced
  | refused accounts inventories ids hPrepared hFresh =>
      rw [World.failed, rollbackSagas_store]
      exact hBalanced
  | @created _ accounts inventories ids event hPrepared hStream hNew hId hName =>
      refine hBalanced.push fun _ => ⟨?_, fun hTaken => ?_⟩
      · rcases hName with hName | hName | hName <;> simp [Revoking, hName]
      · obtain ⟨order, hOrder, hOrderName, hThis⟩ := h.takenBack hTaken
        obtain ⟨id, hOwn, -⟩ := ((h.events order hOrder).order hOrderName).transaction
        exact (hId id (hThis.symm.trans hOwn)).2 ((h.events order hOrder).correlationId id hOwn)
  | called hDrawn hMerge => exact hBalanced
  | requestFailed reason hr hMerged =>
      rw [World.failed, rollbackSagas_store]
      exact hBalanced
  | @requested _ i r aggregate uuid uuid' now hr hMerged =>
      refine hBalanced.appendAll fun event hEvent _ => ?_
      have hCommitted := committed_of_mem hEvent
      refine ⟨by rcases hCommitted.kind with hName | hName | hName <;> simp [Revoking, hName],
        fun hTaken => ?_⟩
      obtain ⟨other, hOther, -, hThis⟩ := h.takenBack hTaken
      exact (((h.requests r (List.mem_of_getElem? hr)).merged aggregate hMerged).2 other hOther).1
        (hThis.trans hCommitted.correlationId)
  | @caught _ r uuid now hr =>
      refine hBalanced.push fun _ => ⟨?_, ?_⟩
      · simp [Revoking, fundsWithdrawalFailedEvent, newEvent]
      · intro hTaken
        obtain ⟨order, hOrder, hName, hThis⟩ := h.takenBack hTaken
        obtain ⟨own, hOwn, -⟩ := ((h.events order hOrder).order hName).transaction
        rw [hOwn] at hThis
        cases hThis
  | removalFailed reason hr hOpen =>
      rw [World.failed, rollbackSagas_store]
      exact hBalanced
  | removalMerged hr hWaiting hMerge => exact hBalanced
  | @removed _ j r aggregate uuid now hr hMerged =>
      refine hBalanced.push fun hKind => ?_
      rw [name_removedEvent] at hKind
      exact absurd hKind (by decide)
  | rollbackFailed reason hr hWhy =>
      rw [World.failed, rollbackSagas_store]
      exact hBalanced
  | rollbackMerged hr hWaiting hMerge => exact hBalanced
  | rolledBack hr hMerged hRevocable =>
      exact h.balanced_rolledBack hBalanced hr hMerged hRevocable hStill
  | rejected hPlace =>
      rw [rollbackSagas_store]
      exact hBalanced
  | ordered hPlace hName hId hInventory hQuantity => exact hBalanced
  | settled hPlace hName => exact hBalanced

/-- In balanced streams what was taken back makes no difference. -/
theorem erased_of_balanced (h : AllBalanced s.store) : s.Erased stamp := by
  intro streamId aggregate hMerge
  obtain ⟨hPopulated, hTakes⟩ := ThrowingClass.populated_of_mergeContext
    (fun event hEvent => MemoryStore.streamId_of_mem hEvent) hMerge
  rw [hPopulated.state, view_fold]
  exact (h streamId (kinds_of_takesAll hTakes)).foldl_eq

/-- In every orderly interleaving in which no rollback is committed behind
another one of its transaction, accounts are what the events make of them that
belong to no transaction that was taken back. -/
theorem account_erased (stamp : IEvent EventData → String × Nat) (actions : List Action)
    (hOrderly : Runs.StepsMeet (World.step stamp) World.Orderly World.new actions)
    (h : Runs.StepsMeet (World.step stamp) World.StillOpen World.new actions) :
    Runs.Always (World.step stamp) (World.Erased stamp) World.new actions := by
  apply Runs.always_of_stepsMeet (fun s => s.Sound stamp ∧ AllBalanced s.store) (fun _ => True)
    ?_ ?_ ?_ (fun _ _ => trivial) (hOrderly.and h)
  · intro s a t _ hInv hStep hMeets
    have hEffect := step_effect hInv.1 hMeets.1 hStep
    exact ⟨hInv.1.effect hEffect, hInv.1.balanced_effect hInv.2 hEffect hMeets.2⟩
  · intro s hInv
    exact erased_of_balanced hInv.2
  · exact ⟨sound_new stamp, fun streamId _ => balanced_nil⟩

def lampCommand (correlationId : String) : ICommand EventData :=
  ⟨some correlationId, .undefined, none, "CreateOrderCommand", ""⟩

def lampStamp (event : IEvent EventData) : String × Nat := (event.uuid, event.timestamp)

/-- Two lamps are ordered where there is one. The account is credited before the
removal fails, and again after the order has been taken back. Then one lamp is
ordered. Lamps cannot be created once more. -/
def lampsOrdered : List Action :=
  [.createAccount "00000000-0000-4000-8000-00000000000a" ⟨none, "ada"⟩
      (lampCommand "00000000-0000-4000-8000-000000000001"),
    .createInventory "00000000-0000-4000-8000-00000000000b" ⟨"lamp", 1, 30⟩
      (lampCommand "00000000-0000-4000-8000-000000000002"),
    .resumeCreateAccount 0 "e1" 1, .resumeCreateInventory 0 (.ok true) "e2" 2,
    .pay true "00000000-0000-4000-8000-00000000000a" 100
      (lampCommand "00000000-0000-4000-8000-000000000003"),
    .resume 0 "e3" "" 3,
    .order ⟨"00000000-0000-4000-8000-00000000000a", "00000000-0000-4000-8000-00000000000b", 2⟩
      "00000000-0000-4000-8000-00000000000c" (.row 30)
      (lampCommand "00000000-0000-4000-8000-000000000004"),
    .resume 1 "e4" "e5" 4, .settle 3 false, .remove 0,
    .pay true "00000000-0000-4000-8000-00000000000a" 5
      (lampCommand "00000000-0000-4000-8000-000000000005"),
    .resumeRemove 0 "e6" 5, .rollBack 0, .resumeRollBack 0, .resume 2 "e7" "" 7,
    .order ⟨"00000000-0000-4000-8000-00000000000a", "00000000-0000-4000-8000-00000000000b", 1⟩
      "00000000-0000-4000-8000-00000000000d" (.row 30)
      (lampCommand "00000000-0000-4000-8000-000000000006"),
    .resume 3 "e8" "e9" 8, .settle 7 false, .remove 1, .resumeRemove 1 "e10" 9,
    .createInventory "00000000-0000-4000-8000-00000000000e" ⟨"lamp", 5, 40⟩
      (lampCommand "00000000-0000-4000-8000-000000000008"),
    .resumeCreateInventory 1 (.ok false) "e11" 10, .catchDuplicate 1 "e12" 11]

/-- The run of the lamps takes place. -/
theorem lampsOrdered_possible :
    (Runs.exec (World.step lampStamp) World.new lampsOrdered).isSome = true := by
  decide +kernel

/-- Every step of it is an orderly one. -/
theorem lampsOrdered_orderly :
    Runs.StepsMeet (World.step lampStamp) World.Orderly World.new lampsOrdered := by
  decide +kernel

theorem account_erased_lamps :
    (Runs.exec (World.step lampStamp) World.new lampsOrdered).isSome = true ∧
      Runs.StepsMeet (World.step lampStamp) World.StillOpen World.new lampsOrdered ∧
      Runs.Always (World.step lampStamp) (World.Erased lampStamp) World.new lampsOrdered := by
  have hStill : Runs.StepsMeet (World.step lampStamp) World.StillOpen World.new lampsOrdered := by
    decide +kernel
  exact ⟨lampsOrdered_possible, hStill,
    account_erased lampStamp lampsOrdered lampsOrdered_orderly hStill⟩

end World

end Moirae.Orders
