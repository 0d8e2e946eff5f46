import Moirae.Demo.OrderStreams

/-! What becomes of an order whose events are all handled: it is in one phase at
a time, and ends with its goods removed or with everything taken back. -/
namespace Moirae.Orders

open Demo Account
open AggregateRoot (linkEvent)

variable {stamp : IEvent EventData → String × Nat}

/-- An order waits for the saga, its goods are being removed, they are, its
account is being rolled back, or it is taken back. -/
inductive Phase
  | placed
  | removing
  | removed
  | failing
  | takenBack
  deriving DecidableEq

/-- The withdrawal that was committed with the order. -/
structure Withdrawal (order event : IEvent EventData) : Prop where
  name : event.name = "FundsWithdrawnEvent"
  correlationId : event.correlationId = order.correlationId
  funds : event.data.funds = order.data.cost.map (· * -1)

/-- The event takes the order out of its account. -/
def TakesOut (order event : IEvent EventData) : Prop :=
  event.name = "RollbackOrderCreatedEvent" ∧ event.correlationId = order.correlationId

instance (order event : IEvent EventData) : Decidable (TakesOut order event) :=
  inferInstanceAs (Decidable (_ ∧ _))

namespace World

/-- The removals that were committed for the order. -/
def goods (s : World) (order : IEvent EventData) : List (IEvent EventData) :=
  s.store.sent.filter fun event =>
    event.name = "InventoryRemovedEvent" ∧ event.correlationId = order.correlationId

/-- The transaction of the order, as the stream of its account has it. -/
def booked (s : World) (order : IEvent EventData) : List (IEvent EventData) :=
  (s.store.readFromStream order.streamId).filter (·.correlationId = order.correlationId)

/-- Deliveries of the order to the saga that are to come. -/
def placing (s : World) (order : IEvent EventData) : Nat :=
  s.pending.countP fun event =>
    event.name = "OrderCreatedEvent" ∧ event.correlationId = order.correlationId

/-- Executions for the order that are open: of `RemoveInventoryHandler`, and of
`RollbackAccountHandler`. -/
def removing (s : World) (order : IEvent EventData) : Nat :=
  s.removals.countP fun r =>
    r.stage.isOpen && decide (r.command.correlationId = order.correlationId)

def failing (s : World) (order : IEvent EventData) : Nat :=
  s.rollbacks.countP fun r =>
    r.stage.isOpen && decide (r.command.correlationId = order.correlationId)

/-- The saga has had its goods removed. -/
def Asked (s : World) (order : IEvent EventData) : Prop :=
  ∃ r ∈ s.removals, r.command.correlationId = order.correlationId

/-- The goods were removed once, from the inventory that was named. -/
def Delivered (s : World) (order : IEvent EventData) : Prop :=
  ∃ event, s.goods order = [event] ∧ some event.streamId = order.data.inventoryId ∧
    event.data.quantity = order.data.quantity

/-- The order stands in the account, and its cost was withdrawn. -/
def Paid (s : World) (order : IEvent EventData) : Prop :=
  ∃ withdrawn, Withdrawal order withdrawn ∧ s.booked order = [order, withdrawn]

/-- Both were taken back, once. -/
def Refunded (s : World) (order : IEvent EventData) : Prop :=
  ∃ withdrawn returned removed, Withdrawal order withdrawn ∧ Revokes withdrawn returned ∧
    Revokes order removed ∧ s.booked order = [order, withdrawn, returned, removed]

/-- The order is in this phase. -/
structure Follows (s : World) (order : IEvent EventData) (phase : Phase) : Prop where
  sent : order ∈ s.store.sent
  name : order.name = "OrderCreatedEvent"
  placing : s.placing order = if phase = .placed then 1 else 0
  removing : s.removing order = if phase = .removing then 1 else 0
  failing : s.failing order = if phase = .failing then 1 else 0
  asked : s.Asked order ↔ phase ≠ .placed
  delivered : phase = .removed → s.Delivered order
  kept : phase ≠ .removed → s.goods order = []
  refunded : phase = .takenBack → s.Refunded order
  paid : phase ≠ .takenBack → s.Paid order
  loaded : ∀ r ∈ s.rollbacks, r.command.correlationId = order.correlationId →
    ∀ aggregate, r.stage = .merged aggregate →
      aggregate.eventHistory.filter (·.correlationId = order.correlationId) = s.booked order

section

variable {s t : World} {order : IEvent EventData} {phase : Phase}

/-- A step that leaves what is known about the order as it was. -/
theorem Follows.of_eq (h : s.Follows order phase) (hSent : order ∈ t.store.sent)
    (hPlacing : t.placing order = s.placing order)
    (hRemoving : t.removing order = s.removing order)
    (hFailing : t.failing order = s.failing order)
    (hAsked : t.Asked order ↔ s.Asked order)
    (hGoods : t.goods order = s.goods order)
    (hBooked : t.booked order = s.booked order)
    (hLoaded : ∀ r ∈ t.rollbacks, r.command.correlationId = order.correlationId →
      ∀ aggregate, r.stage = .merged aggregate →
        aggregate.eventHistory.filter (·.correlationId = order.correlationId) =
          s.booked order) : t.Follows order phase where
  sent := hSent
  name := h.name
  placing := hPlacing.trans h.placing
  removing := hRemoving.trans h.removing
  failing := hFailing.trans h.failing
  asked := hAsked.trans h.asked
  delivered hPhase := by
    rw [Delivered, hGoods]
    exact h.delivered hPhase
  kept hPhase := hGoods.trans (h.kept hPhase)
  refunded hPhase := by
    rw [Refunded, hBooked]
    exact h.refunded hPhase
  paid hPhase := by
    rw [Paid, hBooked]
    exact h.paid hPhase
  loaded := by
    rw [hBooked]
    exact hLoaded

/-! ### Steps for others -/

/-- Executions for requests know nothing of the order, as long as they have not
committed anything. -/
theorem Sound.apart_request (h : s.Sound stamp) (hOrder : order ∈ s.store.sent) {i : Nat}
    {r : Requested} {aggregate : AccountAggregate} (hr : s.requests[i]? = some r)
    (hMerged : r.stage = .merged aggregate) :
    r.command.correlationId ≠ order.correlationId := by
  intro hSame
  exact (((h.requests r (List.mem_of_getElem? hr)).merged aggregate hMerged).2 order hOrder).1
    hSame.symm

/-- The id of the order is no new one. -/
theorem Sound.apart_created (h : s.Sound stamp) (hOrder : order ∈ s.store.sent)
    {correlationId : String} (hOwn : order.correlationId = some correlationId)
    {event : IEvent EventData} (hNew : ∀ id, event.correlationId = some id → id ∉ s.drawn) :
    event.correlationId ≠ order.correlationId := by
  intro hSame
  exact hNew correlationId (hSame.trans hOwn)
    ((h.events order hOrder).correlationId correlationId hOwn)

/-- No event is delivered as the order when nothing is to be placed for it. -/
theorem apart_of_placing (h : s.placing order = 0) {event : IEvent EventData}
    (hEvent : event ∈ s.pending) (hName : event.name = "OrderCreatedEvent") :
    event.correlationId ≠ order.correlationId := by
  intro hId
  rw [World.placing, List.countP_eq_zero] at h
  exact h event hEvent (decide_eq_true ⟨hName, hId⟩)

/-- No removal is open for the order when nothing is to be removed for it. -/
theorem apart_of_removing (h : s.removing order = 0) {r : Removing} (hr : r ∈ s.removals)
    (hOpen : r.stage.isOpen = true) : r.command.correlationId ≠ order.correlationId := by
  intro hId
  rw [World.removing, List.countP_eq_zero] at h
  exact h r hr (by simp [hOpen, hId])

/-- No rollback is open for the order when nothing is to be taken back. -/
theorem apart_of_failing (h : s.failing order = 0) {r : RollingBack} (hr : r ∈ s.rollbacks)
    (hOpen : r.stage.isOpen = true) : r.command.correlationId ≠ order.correlationId := by
  intro hId
  rw [World.failing, List.countP_eq_zero] at h
  exact h r hr (by simp [hOpen, hId])

/-- While something is to be taken back, a rollback is open for the order. -/
theorem exists_of_failing (h : 0 < s.failing order) :
    ∃ (k : Nat) (r : RollingBack), s.rollbacks[k]? = some r ∧ r.stage.isOpen = true ∧
      r.command.correlationId = order.correlationId := by
  obtain ⟨r, hMem, hThis⟩ := List.countP_pos_iff.mp h
  rw [Bool.and_eq_true, decide_eq_true_iff] at hThis
  obtain ⟨k, hr⟩ := List.mem_iff_getElem?.mp hMem
  exact ⟨k, r, hr, hThis⟩

/-- The delivery of the order ends. -/
theorem placing_erase_self {place : Nat} {event : IEvent EventData}
    (hPlace : s.pending[place]? = some event) (hName : event.name = "OrderCreatedEvent")
    (hId : event.correlationId = order.correlationId) :
    ({ s with pending := s.pending.eraseIdx place } : World).placing order + 1 =
      s.placing order := by
  have hCount := countP_eraseIdx_add (p := fun event : IEvent EventData =>
    decide (event.name = "OrderCreatedEvent" ∧ event.correlationId = order.correlationId)) hPlace
  rw [if_pos (decide_eq_true ⟨hName, hId⟩)] at hCount
  exact hCount

/-- The delivery of another event ends. -/
theorem placing_erase_other {place : Nat} {event : IEvent EventData}
    (hPlace : s.pending[place]? = some event)
    (hNot : ¬ (event.name = "OrderCreatedEvent" ∧ event.correlationId = order.correlationId)) :
    ({ s with pending := s.pending.eraseIdx place } : World).placing order = s.placing order := by
  have hCount := countP_eraseIdx_add (p := fun event : IEvent EventData =>
    decide (event.name = "OrderCreatedEvent" ∧ event.correlationId = order.correlationId)) hPlace
  rw [if_neg (by simpa using hNot)] at hCount
  exact hCount

/-- What is to be placed does not grow when a delivery ends. -/
theorem placing_erase (h : s.placing order = 0) (place : Nat) :
    ({ s with pending := s.pending.eraseIdx place } : World).placing order = 0 := by
  rw [World.placing, List.countP_eq_zero] at h ⊢
  exact fun event hEvent => h event (List.mem_of_mem_eraseIdx hEvent)

/-- A removal is called for that is not for the order. -/
theorem removing_concat {command : ICommand EventData}
    (h : command.correlationId ≠ order.correlationId) :
    ({ s with removals := s.removals ++ [⟨command, .waiting⟩] } : World).removing order =
      s.removing order := by
  change (s.removals ++ [(⟨command, .waiting⟩ : Removing)]).countP _ = s.removals.countP _
  rw [List.countP_append, List.countP_singleton, if_neg (by simp [h]), Nat.add_zero]

/-- A removal goes on, and stays open if it is for the order. -/
theorem removing_setRemoval {j : Nat} {r : Removing} (hr : s.removals[j]? = some r)
    {stage : Stage Inventory.InventoryAggregate}
    (hSame : r.command.correlationId = order.correlationId → stage.isOpen = r.stage.isOpen) :
    (s.setRemoval j { r with stage }).removing order = s.removing order := by
  have hCount := countP_set_add (p := fun r : Removing =>
    r.stage.isOpen && decide (r.command.correlationId = order.correlationId)) hr { r with stage }
  change (s.removals.set j { r with stage }).countP _ = s.removals.countP _
  by_cases hId : r.command.correlationId = order.correlationId
  · simp only [hSame hId] at hCount
    omega
  · simp only [hId, decide_false, Bool.and_false] at hCount
    omega

/-- A removal for the order ends. -/
theorem removing_ended {j : Nat} {r : Removing} (hr : s.removals[j]? = some r)
    (hOpen : r.stage.isOpen = true) (hId : r.command.correlationId = order.correlationId)
    (outcome : Except Thrown Unit) :
    (s.setRemoval j { r with stage := .ended outcome }).removing order + 1 =
      s.removing order := by
  have hCount := countP_set_add (p := fun r : Removing =>
    r.stage.isOpen && decide (r.command.correlationId = order.correlationId)) hr
      { r with stage := .ended outcome }
  rw [if_pos (by simp [hOpen, hId]), if_neg (by simp [Stage.isOpen])] at hCount
  exact hCount

/-- A rollback goes on, and stays open if it is for the order. -/
theorem failing_setRollback {k : Nat} {r : RollingBack} (hr : s.rollbacks[k]? = some r)
    {stage : Stage AccountAggregate}
    (hSame : r.command.correlationId = order.correlationId → stage.isOpen = r.stage.isOpen) :
    (s.setRollback k { r with stage }).failing order = s.failing order := by
  have hCount := countP_set_add (p := fun r : RollingBack =>
    r.stage.isOpen && decide (r.command.correlationId = order.correlationId)) hr { r with stage }
  change (s.rollbacks.set k { r with stage }).countP _ = s.rollbacks.countP _
  by_cases hId : r.command.correlationId = order.correlationId
  · simp only [hSame hId] at hCount
    omega
  · simp only [hId, decide_false, Bool.and_false] at hCount
    omega

/-- Rollback commands that are published for another transaction, or for one in
which no goods were to be removed. -/
theorem Sound.rollbackSagas_apart (h : s.Sound stamp) {correlationId : Option String}
    (hNot : correlationId = order.correlationId →
      ∀ r ∈ s.removals, r.command.correlationId ≠ order.correlationId) (linked : Option String) :
    ∃ more : List RollingBack, s.rollbackSagas correlationId linked =
        { s with rollbacks := s.rollbacks ++ more } ∧
      ∀ r ∈ more, r.command.correlationId ≠ order.correlationId := by
  obtain ⟨commands, -, hEq, hCommands, hSome⟩ := rollbackSagas_cases h correlationId linked
  refine ⟨_, hEq, fun r hr hId => ?_⟩
  obtain ⟨command, hCommand, rfl⟩ := List.mem_map.mp hr
  obtain ⟨event, -, -, hThis, rfl⟩ := hCommands command hCommand
  obtain ⟨removal, hRemoval, hSame⟩ := hSome.mp (List.ne_nil_of_mem hCommand)
  have hOrder : correlationId = order.correlationId := hThis.symm.trans hId
  exact hNot hOrder removal hRemoval (hSame.trans hOrder)

/-- The failure of another transaction leaves the phase as it is. -/
theorem Follows.rollbackSagas (h : s.Follows order phase) (hSound : s.Sound stamp)
    {correlationId : Option String} (hNot : correlationId ≠ order.correlationId)
    (linked : Option String) : (s.rollbackSagas correlationId linked).Follows order phase := by
  obtain ⟨more, hEq, hMore⟩ :=
    hSound.rollbackSagas_apart (fun hSame => absurd hSame hNot) linked
  rw [hEq]
  refine h.of_eq h.sent rfl rfl ?_ Iff.rfl rfl rfl ?_
  · change (s.rollbacks ++ more).countP _ = s.rollbacks.countP _
    rw [List.countP_append, Nat.add_eq_left, List.countP_eq_zero]
    intro r hr hThis
    rw [Bool.and_eq_true, decide_eq_true_iff] at hThis
    exact hMore r hr hThis.2
  · intro r hr hId aggregate hMerged
    rcases List.mem_append.mp hr with hOld | hNew
    · exact h.loaded r hOld hId aggregate hMerged
    · exact absurd hId (hMore r hNew)

section

variable {more : List (IEvent EventData)}

/-- Events of other transactions change nothing about an order. -/
theorem placing_appendAll (h : ∀ event ∈ more, event.correlationId ≠ order.correlationId) :
    (s.appended (s.store.appendToStream more)).placing order = s.placing order := by
  rw [appended_appendToStream]
  change (s.pending ++ more).countP _ = s.pending.countP _
  rw [List.countP_append, Nat.add_eq_left, List.countP_eq_zero]
  intro event hEvent hThis
  exact h event hEvent (of_decide_eq_true hThis).2

/-- Events of other transactions are no goods of the order. -/
theorem goods_appendAll (h : ∀ event ∈ more, event.correlationId ≠ order.correlationId) :
    (s.appended (s.store.appendToStream more)).goods order = s.goods order := by
  have hNone : (more.filter fun event => event.name = "InventoryRemovedEvent" ∧
      event.correlationId = order.correlationId) = [] := by
    rw [List.filter_eq_nil_iff]
    intro event hEvent hThis
    exact h event hEvent (of_decide_eq_true hThis).2
  change (s.store.appendToStream more).sent.filter _ = s.store.sent.filter _
  rw [sent_appendToStream, List.filter_append, hNone, List.append_nil]

/-- Events of other transactions book nothing for the order. -/
theorem booked_appendAll (h : ∀ event ∈ more, event.correlationId ≠ order.correlationId) :
    (s.appended (s.store.appendToStream more)).booked order = s.booked order := by
  have hNone : (more.filter (·.streamId = order.streamId)).filter
      (·.correlationId = order.correlationId) = [] := by
    rw [List.filter_eq_nil_iff]
    intro event hEvent
    simpa using h event (List.mem_of_mem_filter hEvent)
  change ((s.store.appendToStream more).readFromStream order.streamId).filter _ = _
  rw [MemoryStore.readFromStream_appendToStream, List.filter_append, hNone, List.append_nil]
  rfl

/-- The order stays among what was sent. -/
theorem mem_sent_appendAll (h : order ∈ s.store.sent) (more : List (IEvent EventData)) :
    order ∈ (s.appended (s.store.appendToStream more)).store.sent := by
  change order ∈ (s.store.appendToStream more).sent
  rw [sent_appendToStream]
  exact List.mem_append_left _ h

/-- Events of other transactions leave the phase as it is. -/
theorem Follows.appendAll (h : s.Follows order phase)
    (hMore : ∀ event ∈ more, event.correlationId ≠ order.correlationId) :
    (s.appended (s.store.appendToStream more)).Follows order phase :=
  h.of_eq (mem_sent_appendAll h.sent more) (placing_appendAll hMore) rfl rfl
    Iff.rfl (goods_appendAll hMore) (booked_appendAll hMore) h.loaded

end

/-- So does one event of another transaction. -/
theorem Follows.push (h : s.Follows order phase) {event : IEvent EventData}
    (hEvent : event.correlationId ≠ order.correlationId) :
    (s.appended (s.store.push event)).Follows order phase := by
  have hAll : ∀ other ∈ [event], other.correlationId ≠ order.correlationId := by
    intro other hOther
    rw [List.mem_singleton.mp hOther]
    exact hEvent
  exact h.appendAll hAll

/-- An execution of a removal goes on, and stays open if it is for the order. -/
theorem Follows.setRemoval (h : s.Follows order phase) {j : Nat} {r : Removing}
    (hr : s.removals[j]? = some r) {stage : Stage Inventory.InventoryAggregate}
    (hSame : r.command.correlationId = order.correlationId → stage.isOpen = r.stage.isOpen) :
    (s.setRemoval j { r with stage }).Follows order phase := by
  have hAsked : (s.setRemoval j { r with stage }).Asked order ↔ s.Asked order :=
    exists_mem_set_iff (fun other : Removing => other.command.correlationId) hr
      (show ({ r with stage } : Removing).command.correlationId = r.command.correlationId from rfl)
  exact h.of_eq h.sent rfl (removing_setRemoval hr hSame) rfl hAsked rfl rfl h.loaded

/-- A rollback that goes on but does not end leaves the phase as it is. -/
theorem Follows.setRollback (h : s.Follows order phase) {k : Nat} {r : RollingBack}
    (hr : s.rollbacks[k]? = some r) {stage : Stage AccountAggregate}
    (hSame : r.command.correlationId = order.correlationId → stage.isOpen = r.stage.isOpen)
    (hLoaded : r.command.correlationId = order.correlationId → ∀ aggregate,
      stage = .merged aggregate →
        aggregate.eventHistory.filter (·.correlationId = order.correlationId) = s.booked order) :
    (s.setRollback k { r with stage }).Follows order phase := by
  refine h.of_eq h.sent rfl rfl (failing_setRollback hr hSame) Iff.rfl rfl rfl ?_
  intro other hOther hId
  rcases List.mem_or_eq_of_mem_set hOther with hOld | rfl
  · exact h.loaded other hOld hId
  · exact hLoaded hId

/-- An event is handled that is not the order. -/
theorem Follows.erase (h : s.Follows order phase) {place : Nat} {event : IEvent EventData}
    (hPlace : s.pending[place]? = some event)
    (hNot : ¬ (event.name = "OrderCreatedEvent" ∧ event.correlationId = order.correlationId)) :
    ({ s with pending := s.pending.eraseIdx place } : World).Follows order phase := by
  exact h.of_eq h.sent (placing_erase_other hPlace hNot) rfl rfl Iff.rfl rfl rfl h.loaded

/-! ### Steps of the order -/

/-- An order that waits for its delivery was placed and no more. -/
theorem Follows.phase_of_pending (h : s.Follows order phase) {event : IEvent EventData}
    (hEvent : event ∈ s.pending) (hName : event.name = "OrderCreatedEvent")
    (hId : event.correlationId = order.correlationId) : phase = .placed := by
  by_contra hPhase
  exact apart_of_placing (h.placing.trans (if_neg hPhase)) hEvent hName hId

/-- While its removal is open the order is being removed from the stock. -/
theorem Follows.phase_of_removal (h : s.Follows order phase) {r : Removing}
    (hr : r ∈ s.removals) (hOpen : r.stage.isOpen = true)
    (hId : r.command.correlationId = order.correlationId) : phase = .removing := by
  by_contra hPhase
  exact apart_of_removing (h.removing.trans (if_neg hPhase)) hr hOpen hId

/-- While its rollback is open the order is failing. -/
theorem Follows.phase_of_rollback (h : s.Follows order phase) {r : RollingBack}
    (hr : r ∈ s.rollbacks) (hOpen : r.stage.isOpen = true)
    (hId : r.command.correlationId = order.correlationId) : phase = .failing := by
  by_contra hPhase
  exact apart_of_failing (h.failing.trans (if_neg hPhase)) hr hOpen hId

/-- The saga handles the order. -/
theorem Follows.ordered (h : s.Follows order phase) {place : Nat}
    {event : IEvent EventData} {command : ICommand EventData}
    (hPlace : s.pending[place]? = some event) (hName : event.name = "OrderCreatedEvent")
    (hSame : event.correlationId = order.correlationId)
    (hId : command.correlationId = event.correlationId) :
    ({ s with
      cache := Saga.storeRollbackCommand s.cache event.correlationId rollbackAccountCommand
        event.streamId
      removals := s.removals ++ [⟨command, .waiting⟩]
      pending := s.pending.eraseIdx place } : World).Follows order .removing := by
  obtain rfl := h.phase_of_pending (List.mem_of_getElem? hPlace) hName hSame
  have hRemoving := h.removing
  constructor
  case sent => exact h.sent
  case name => exact h.name
  case placing =>
    have hPlacing := placing_erase_self hPlace hName hSame
    rw [h.placing] at hPlacing
    exact Nat.succ.inj hPlacing
  case removing =>
    change (s.removals ++ [(⟨command, .waiting⟩ : Removing)]).countP _ = 1
    change s.removals.countP _ = 0 at hRemoving
    rw [List.countP_append, hRemoving, List.countP_singleton,
      if_pos (by simp [Stage.isOpen, hId, hSame])]
  case failing => exact h.failing
  case asked =>
    exact ⟨fun _ => by decide, fun _ =>
      ⟨_, List.mem_append_right _ List.mem_cons_self, hId.trans hSame⟩⟩
  case delivered => exact fun hThis => by cases hThis
  case kept => exact fun _ => h.kept (by decide)
  case refunded => exact fun hThis => by cases hThis
  case paid => exact fun _ => h.paid (by decide)
  case loaded => exact h.loaded

/-- One rollback command is published for an order whose goods were to be
removed. -/
theorem Sound.rollbackSagas_order (h : s.Sound stamp) (hOrder : order ∈ s.store.sent)
    (hName : order.name = "OrderCreatedEvent")
    (hRemoval : s.Asked order)
    (linked : Option String) :
    s.rollbackSagas order.correlationId linked =
      { s with
        rollbacks := s.rollbacks ++
          [⟨⟨rollbackAccountCommand, some order.streamId, order.correlationId⟩, linked,
            .waiting⟩] } := by
  obtain ⟨commands, hDistinct, hEq, hCommands, hSome⟩ :=
    rollbackSagas_cases h order.correlationId linked
  have hAll : ∀ command ∈ commands,
      command = ⟨rollbackAccountCommand, some order.streamId, order.correlationId⟩ := by
    intro command hCommand
    obtain ⟨event, hEvent, hEventName, hId, rfl⟩ := hCommands command hCommand
    rw [h.eq_of_transaction hOrder hName hEvent hEventName hId]
  have hOne : commands = [⟨rollbackAccountCommand, some order.streamId, order.correlationId⟩] := by
    cases commands with
    | nil => exact absurd rfl (hSome.mpr hRemoval)
    | cons first rest =>
        cases rest with
        | nil => rw [hAll first List.mem_cons_self]
        | cons second rest =>
            have hSame : first = second := by
              rw [hAll first List.mem_cons_self, hAll second (by simp)]
            rw [hSame] at hDistinct
            simp at hDistinct
  rw [hEq, hOne]
  rfl

/-- The removal of the goods fails. -/
theorem Follows.removalFailed (h : s.Follows order phase) (hSound : s.Sound stamp) {j : Nat}
    {r : Removing} (reason : Thrown) (hr : s.removals[j]? = some r)
    (hOpen : r.stage.isOpen = true) (hId : r.command.correlationId = order.correlationId) :
    ((s.setRemoval j { r with stage := .ended (.error reason) }).failed
      r.command.correlationId).Follows order .failing := by
  obtain rfl := h.phase_of_removal (List.mem_of_getElem? hr) hOpen hId
  have hSet : (s.setRemoval j { r with stage := .ended (.error reason) }).Sound stamp :=
    hSound.setRemoval hr fun _ hThis => by cases hThis
  have hRemoval : ∃ other ∈ (s.setRemoval j { r with stage := .ended (.error reason) }).removals,
      other.command.correlationId = order.correlationId :=
    ⟨_, List.mem_set (List.getElem?_eq_some_iff.mp hr).1 _, hId⟩
  rw [World.failed, hId, hSet.rollbackSagas_order h.sent h.name hRemoval]
  have hRemoving := removing_ended hr hOpen hId (.error reason)
  rw [h.removing] at hRemoving
  have hFailing := h.failing
  constructor
  case sent => exact h.sent
  case name => exact h.name
  case placing => exact h.placing
  case removing => exact Nat.succ.inj hRemoving
  case failing =>
    change (s.rollbacks ++ [_]).countP _ = 1
    change s.rollbacks.countP _ = 0 at hFailing
    rw [List.countP_append, hFailing, List.countP_singleton, if_pos (by simp [Stage.isOpen])]
  case asked => exact ⟨fun _ => by decide, fun _ => hRemoval⟩
  case delivered => exact fun hThis => by cases hThis
  case kept => exact fun _ => h.kept (by decide)
  case refunded => exact fun hThis => by cases hThis
  case paid => exact fun _ => h.paid (by decide)
  case loaded =>
    intro other hOther hOtherId aggregate hMerged
    rcases List.mem_append.mp hOther with hOld | hNew
    · exact h.loaded other hOld hOtherId aggregate hMerged
    · rw [List.mem_singleton.mp hNew] at hMerged
      cases hMerged

/-- The goods are removed. -/
theorem Follows.removed (h : s.Follows order phase) (hSound : s.Sound stamp)
    (hStreams : s.Streams stamp) {j : Nat} {r : Removing} (uuid : String) (now : Nat)
    (hr : s.removals[j]? = some r) (hOpen : r.stage.isOpen = true)
    (hId : r.command.correlationId = order.correlationId) :
    ((s.setRemoval j { r with stage := .ended (.ok ()) }).appended
      (s.store.push (r.removedEvent uuid now))).Follows order .removed := by
  have hMem := List.mem_of_getElem? hr
  obtain rfl := h.phase_of_removal hMem hOpen hId
  have hName := name_removedEvent r uuid now
  have hEventId : (r.removedEvent uuid now).correlationId = order.correlationId := by
    rw [Removing.removedEvent, AggregateRoot.linkEvent_correlationId]
    exact hId
  obtain ⟨other, hOther, hOtherName, hOtherId, hStream, hQuantity⟩ :=
    hSound.removedEvent hMem uuid now
  obtain rfl := hSound.eq_of_transaction h.sent h.name hOther hOtherName
    (hOtherId.symm.trans hEventId)
  have hApart : (r.removedEvent uuid now).streamId ≠ other.streamId := by
    intro hSame
    have hThere := hStreams.ordered other hOther hOtherName _ hStream.symm
    rw [hSame] at hThere
    exact hStreams.accounts other hOther hOtherName hThere
  have hRemoving := removing_ended hr hOpen hId (.ok ())
  rw [h.removing] at hRemoving
  have hBooked : ((s.setRemoval j { r with stage := .ended (.ok ()) }).appended
      (s.store.push (r.removedEvent uuid now))).booked other = s.booked other := by
    change ((s.store.push (r.removedEvent uuid now)).readFromStream other.streamId).filter _ = _
    have hNone : [r.removedEvent uuid now].filter (·.streamId = other.streamId) = [] := by
      simp [hApart]
    rw [MemoryStore.readFromStream_push, hNone, List.append_nil]
    rfl
  have hPending : ((s.setRemoval j { r with stage := .ended (.ok ()) }).appended
      (s.store.push (r.removedEvent uuid now))).pending =
        s.pending ++ [r.removedEvent uuid now] := by
    change s.pending ++ (s.store.sent ++ [r.removedEvent uuid now]).drop s.store.sent.length = _
    rw [List.drop_left]
  constructor
  case sent => exact List.mem_append_left _ h.sent
  case name => exact h.name
  case placing =>
    rw [World.placing, hPending, List.countP_append, List.countP_singleton,
      if_neg (by simp [hName])]
    exact h.placing
  case removing => exact Nat.succ.inj hRemoving
  case failing => exact h.failing
  case asked =>
    exact ⟨fun _ => by decide, fun _ =>
      ⟨_, List.mem_set (List.getElem?_eq_some_iff.mp hr).1 _, hId⟩⟩
  case delivered =>
    refine fun _ => ⟨r.removedEvent uuid now, ?_, hStream, hQuantity⟩
    change (s.store.sent ++ [r.removedEvent uuid now]).filter _ = _
    have hBefore := h.kept (by decide)
    rw [World.goods] at hBefore
    rw [List.filter_append, hBefore]
    simp [hName, hEventId]
  case kept => exact fun hThis => absurd rfl hThis
  case refunded => exact fun hThis => by cases hThis
  case paid =>
    intro _
    rw [Paid, hBooked]
    exact h.paid (by decide)
  case loaded =>
    rw [hBooked]
    exact h.loaded

/-- A rollback in the transaction of the order is for its account. -/
theorem Sound.rollback_command (h : s.Sound stamp) (hOrder : order ∈ s.store.sent)
    (hName : order.name = "OrderCreatedEvent") {r : RollingBack} (hr : r ∈ s.rollbacks)
    (hId : r.command.correlationId = order.correlationId) :
    r.command = ⟨rollbackAccountCommand, some order.streamId, order.correlationId⟩ := by
  obtain ⟨other, hOther, hOtherName, hCommand⟩ := (h.rollbacks r hr).ordered
  rw [hCommand] at hId
  rw [hCommand, h.eq_of_transaction hOrder hName hOther hOtherName hId]

/-- A rollback for the order loads the transaction as the stream has it. -/
theorem Sound.booked_of_mergeContext (h : s.Sound stamp) (hOrder : order ∈ s.store.sent)
    (hName : order.name = "OrderCreatedEvent") {r : RollingBack} (hr : r ∈ s.rollbacks)
    (hId : r.command.correlationId = order.correlationId) {aggregate : AccountAggregate}
    (hMerge : (accountAggregate stamp).mergeContext (r.command.streamId.getD "")
      (s.store.readFromStream (r.command.streamId.getD "")) = .ok aggregate) :
    aggregate.eventHistory.filter (·.correlationId = order.correlationId) = s.booked order := by
  rw [h.rollback_command hOrder hName hr hId] at hMerge
  have hPopulated := (ThrowingClass.populated_of_mergeContext
    (fun event hEvent => MemoryStore.streamId_of_mem hEvent) hMerge).1
  rw [hPopulated.history]
  rfl

/-- What a rollback in the transaction has loaded can all be taken back. -/
theorem Follows.merged (h : s.Follows order phase) (hSound : s.Sound stamp) {r : RollingBack}
    (hr : r ∈ s.rollbacks) (hId : r.command.correlationId = order.correlationId)
    {aggregate : AccountAggregate} (hMerged : r.stage = .merged aggregate) :
    phase = .failing ∧ aggregate.streamId = order.streamId ∧
      ∃ withdrawn, Withdrawal order withdrawn ∧ s.booked order = [order, withdrawn] ∧
        aggregate.eventHistory.filter (·.correlationId = order.correlationId) =
          [order, withdrawn] := by
  have hOpen : r.stage.isOpen = true := by
    rw [hMerged]
    rfl
  obtain rfl := h.phase_of_rollback hr hOpen hId
  obtain ⟨hStream, -⟩ := (hSound.rollbacks r hr).merged aggregate hMerged
  rw [hSound.rollback_command h.sent h.name hr hId] at hStream
  obtain ⟨withdrawn, hWithdrawn, hBooked⟩ := h.paid (by decide)
  exact ⟨rfl, (Option.some.inj hStream).symm, withdrawn, hWithdrawn, hBooked,
    (h.loaded r hr hId aggregate hMerged).trans hBooked⟩

/-- Rolling an account back takes back the order and the withdrawal that were
loaded. -/
theorem Sound.rollbackAccount_order (h : s.Sound stamp) {r : RollingBack} (hr : r ∈ s.rollbacks)
    {aggregate : AccountAggregate} (hMerged : r.stage = .merged aggregate)
    {withdrawn : IEvent EventData} (hName : order.name = "OrderCreatedEvent")
    (hWithdrawn : Withdrawal order withdrawn)
    (hHistory : aggregate.eventHistory.filter (·.correlationId = r.command.correlationId) =
      [order, withdrawn]) :
    (∀ event ∈ aggregate.eventHistory, event.correlationId = r.command.correlationId →
        Revocable event) ∧
      rollbackAccount stamp s.store aggregate r.issued r.command.correlationId =
        .ok (s.store.appendToStream (r.committed stamp aggregate)) := by
  obtain ⟨-, hPopulated, hPrefix⟩ := (h.rollbacks r hr).merged aggregate hMerged
  have hStored : ∀ event ∈ aggregate.eventHistory, event.streamId = aggregate.streamId :=
    fun event hEvent => MemoryStore.streamId_of_mem (hPrefix.subset hEvent)
  have hRevocable : ∀ event ∈ aggregate.eventHistory,
      event.correlationId = r.command.correlationId → Revocable event := by
    intro event hEvent hThis
    have hMem : event ∈ [order, withdrawn] := by
      rw [← hHistory, List.mem_filter]
      exact ⟨hEvent, decide_eq_true hThis⟩
    rcases List.mem_pair.mp hMem with rfl | rfl
    · exact Or.inr hName
    · exact Or.inl hWithdrawn.name
  have hOrder : order ∈ aggregate.eventHistory.filter
      (·.correlationId = r.command.correlationId) := by
    rw [hHistory]
    exact List.mem_cons_self
  obtain ⟨store, hStore⟩ := exists_rollbackAccount hPopulated hStored hRevocable
    ⟨order, List.mem_of_mem_filter hOrder, hName⟩ s.store r.issued
  refine ⟨hRevocable, ?_⟩
  rw [hStore, (rollbackAccount_ok hPopulated hStored hStore).2]
  rfl

/-- The rollback finds what it needs, now or with the account that it has
loaded. -/
structure Succeeds (stamp : IEvent EventData → String × Nat) (s : World) (r : RollingBack) :
    Prop where
  merges : ∃ aggregate, (accountAggregate stamp).mergeContext (r.command.streamId.getD "")
    (s.store.readFromStream (r.command.streamId.getD "")) = .ok aggregate
  stored : ∀ aggregate, r.stage = .merged aggregate →
    (∀ event ∈ aggregate.eventHistory, event.correlationId = r.command.correlationId →
      Revocable event) ∧
    rollbackAccount stamp s.store aggregate r.issued r.command.correlationId =
      .ok (s.store.appendToStream (r.committed stamp aggregate))

/-- The account of an order can be rolled back, as long as what was loaded for
it is the order with its withdrawal. -/
theorem Sound.rollback_succeeds (h : s.Sound stamp) (hStreams : s.Streams stamp)
    (hOrder : order ∈ s.store.sent) (hName : order.name = "OrderCreatedEvent") {r : RollingBack}
    (hr : r ∈ s.rollbacks) (hId : r.command.correlationId = order.correlationId)
    (hLoaded : ∀ aggregate, r.stage = .merged aggregate → ∃ withdrawn,
      Withdrawal order withdrawn ∧
        aggregate.eventHistory.filter (·.correlationId = order.correlationId) =
          [order, withdrawn]) : s.Succeeds stamp r := by
  constructor
  case merges =>
    rw [h.rollback_command hOrder hName hr hId]
    exact (hStreams.loadable order.streamId).2 (hStreams.accounts order hOrder hName)
  case stored =>
    intro aggregate hMerged
    obtain ⟨withdrawn, hWithdrawn, hHistory⟩ := hLoaded aggregate hMerged
    exact h.rollbackAccount_order hr hMerged hName hWithdrawn (hId ▸ hHistory)

/-- A rollback that finds what it needs does not fail. -/
theorem Succeeds.not_failed {r : RollingBack} (h : s.Succeeds stamp r) {reason : Thrown} :
    ¬ (r.stage = .waiting ∧ (accountAggregate stamp).mergeContext (r.command.streamId.getD "")
        (s.store.readFromStream (r.command.streamId.getD "")) = .error reason ∨
      ∃ aggregate, r.stage = .merged aggregate ∧
        rollbackAccount stamp s.store aggregate r.issued r.command.correlationId =
          .error reason) := by
  rintro (⟨-, hError⟩ | ⟨aggregate, hMerged, hError⟩)
  · obtain ⟨aggregate, hOk⟩ := h.merges
    rw [hError] at hOk
    cases hOk
  · have hOk := (h.stored aggregate hMerged).2
    rw [hError] at hOk
    cases hOk

/-- The rollback of the order finds what it needs. -/
theorem Follows.rollback_succeeds (h : s.Follows order phase) (hSound : s.Sound stamp)
    (hStreams : s.Streams stamp) {r : RollingBack} (hr : r ∈ s.rollbacks)
    (hId : r.command.correlationId = order.correlationId) : s.Succeeds stamp r := by
  apply hSound.rollback_succeeds hStreams h.sent h.name hr hId
  intro aggregate hMerged
  obtain ⟨-, -, withdrawn, hWithdrawn, -, hHistory⟩ := h.merged hSound hr hId hMerged
  exact ⟨withdrawn, hWithdrawn, hHistory⟩

/-- Both are taken back in the stream of the account, and nothing else is done
for the order. -/
theorem Sound.refunded_rolledBack (h : s.Sound stamp) {k : Nat} {r : RollingBack}
    {aggregate : AccountAggregate} {withdrawn : IEvent EventData}
    (hr : s.rollbacks[k]? = some r) (hMerged : r.stage = .merged aggregate)
    (hRevocable : ∀ event ∈ aggregate.eventHistory,
      event.correlationId = r.command.correlationId → Revocable event)
    (hId : r.command.correlationId = order.correlationId)
    (hWithdrawn : Withdrawal order withdrawn) (hBooked : s.booked order = [order, withdrawn])
    (hHistory : aggregate.eventHistory.filter (·.correlationId = r.command.correlationId) =
      [order, withdrawn]) :
    ((s.setRollback k { r with stage := .ended (.ok ()) }).appended
        (s.store.appendToStream (r.committed stamp aggregate))).Refunded order ∧
      ((s.setRollback k { r with stage := .ended (.ok ()) }).appended
        (s.store.appendToStream (r.committed stamp aggregate))).goods order = s.goods order := by
  have hMade : ∀ made ∈ r.committed stamp aggregate,
      made.correlationId = order.correlationId ∧ Revoking made := by
    intro made hMade
    obtain ⟨hThis, hRevoking, -⟩ :=
      h.committed_rollback (List.mem_of_getElem? hr) hMerged hRevocable hMade
    exact ⟨hThis.trans hId, hRevoking⟩
  have hCommitted : r.committed stamp aggregate =
      [undo stamp r.issued withdrawn, undo stamp r.issued order] := by
    rw [RollingBack.committed, hHistory]
    rfl
  have hStream : ∀ event ∈ [order, withdrawn], event.streamId = order.streamId := by
    intro event hEvent
    rw [← hBooked] at hEvent
    exact MemoryStore.streamId_of_mem (List.mem_of_mem_filter hEvent)
  have hAll : (r.committed stamp aggregate).filter (·.streamId = order.streamId) =
      r.committed stamp aggregate := by
    rw [List.filter_eq_self, hCommitted]
    intro made hThis
    rcases List.mem_pair.mp hThis with rfl | rfl
    · rw [streamId_undo]
      exact decide_eq_true (hStream withdrawn (by simp))
    · rw [streamId_undo]
      exact decide_eq_true rfl
  constructor
  · refine ⟨withdrawn, undo stamp r.issued withdrawn, undo stamp r.issued order,
      hWithdrawn, revokes_undo withdrawn, revokes_undo order, ?_⟩
    have hSame : (r.committed stamp aggregate).filter
        (·.correlationId = order.correlationId) = r.committed stamp aggregate := by
      rw [List.filter_eq_self]
      exact fun made hThis => decide_eq_true (hMade made hThis).1
    rw [World.booked] at hBooked
    change ((s.store.appendToStream _).readFromStream order.streamId).filter _ = _
    rw [MemoryStore.readFromStream_appendToStream, hAll, List.filter_append, hBooked, hSame,
      hCommitted]
    rfl
  · have hNone : ((r.committed stamp aggregate).filter fun event =>
        event.name = "InventoryRemovedEvent" ∧ event.correlationId = order.correlationId) = [] := by
      rw [List.filter_eq_nil_iff]
      intro made hThis hGoods
      rcases (hMade made hThis).2 with hName | hName <;> simp [hName] at hGoods
    change (s.store.appendToStream _).sent.filter _ = s.store.sent.filter _
    rw [sent_appendToStream, List.filter_append, hNone, List.append_nil]

/-- The order and the withdrawal are taken back. -/
theorem Follows.rolledBack (h : s.Follows order phase) (hSound : s.Sound stamp) {k : Nat}
    {r : RollingBack} {aggregate : AccountAggregate} (hr : s.rollbacks[k]? = some r)
    (hMerged : r.stage = .merged aggregate)
    (hRevocable : ∀ event ∈ aggregate.eventHistory,
      event.correlationId = r.command.correlationId → Revocable event)
    (hId : r.command.correlationId = order.correlationId) :
    ((s.setRollback k { r with stage := .ended (.ok ()) }).appended
      (s.store.appendToStream (r.committed stamp aggregate))).Follows order .takenBack := by
  have hMem := List.mem_of_getElem? hr
  obtain ⟨rfl, -, withdrawn, hWithdrawn, hBooked, hHistory⟩ := h.merged hSound hMem hId hMerged
  obtain ⟨hRefunded, hGoods⟩ := hSound.refunded_rolledBack hr hMerged hRevocable hId hWithdrawn
    hBooked (hId ▸ hHistory)
  have hCount := countP_set_add (p := fun r : RollingBack =>
    r.stage.isOpen && decide (r.command.correlationId = order.correlationId)) hr
      { r with stage := .ended (.ok ()) }
  rw [if_pos (by simp [Stage.isOpen, hMerged, hId]), if_neg (by simp [Stage.isOpen])] at hCount
  have hOpen : (s.rollbacks.set k { r with stage := .ended (.ok ()) }).countP (fun r =>
      r.stage.isOpen && decide (r.command.correlationId = order.correlationId)) = 0 := by
    have hFailing := h.failing
    change s.rollbacks.countP _ = 1 at hFailing
    omega
  constructor
  case sent =>
    change order ∈ (s.store.appendToStream _).sent
    rw [sent_appendToStream]
    exact List.mem_append_left _ h.sent
  case name => exact h.name
  case placing =>
    have hNone : (r.committed stamp aggregate).countP (fun event =>
        decide (event.name = "OrderCreatedEvent" ∧ event.correlationId = order.correlationId)) =
          0 := by
      rw [List.countP_eq_zero]
      intro made hThis hOrder
      rcases (hSound.committed_rollback hMem hMerged hRevocable hThis).2.1 with hName | hName <;>
        simp [hName] at hOrder
    have hPlacing := h.placing
    change s.pending.countP _ = 0 at hPlacing
    change (s.pending ++ (s.store.appendToStream _).sent.drop s.store.sent.length).countP _ = 0
    rw [sent_appendToStream, List.drop_left, List.countP_append, hPlacing, hNone]
  case removing => exact h.removing
  case failing => exact hOpen
  case asked => exact ⟨fun _ => by decide, fun _ => h.asked.mpr (by decide)⟩
  case delivered => exact fun hThis => by cases hThis
  case kept => exact fun _ => hGoods.trans (h.kept (by decide))
  case refunded => exact fun _ => hRefunded
  case paid => exact fun hThis => absurd rfl hThis
  case loaded =>
    intro other hOther hOtherId root hRoot
    rw [List.countP_eq_zero] at hOpen
    exact absurd (by simp [Stage.isOpen, hRoot, hOtherId]) (hOpen other hOther)

/-! ### Orders that are taken out -/

theorem Sound.takesOut (h : s.Sound stamp) {event : IEvent EventData}
    (hOrder : order ∈ s.store.sent) (hName : order.name = "OrderCreatedEvent")
    (hEvent : event ∈ s.store.sent)
    (hTakes : TakesOut order event) :
    event.streamId = order.streamId ∧ event.data.id = order.data.id := by
  obtain ⟨other, hOther, hFor⟩ := h.revoking event hEvent (Or.inr hTakes.1)
  obtain rfl : other = order := h.eq_of_transaction hOrder hName hOther hFor.name
    (hFor.correlationId.trans hTakes.2)
  exact ⟨hFor.streamId.symm, hFor.id hTakes.1⟩

/-- Events with the id of an order that take out are of its transaction. -/
theorem Sound.takesOut_of_id (h : s.Sound stamp) {event : IEvent EventData}
    (hOrder : order ∈ s.store.sent) (hName : order.name = "OrderCreatedEvent")
    (hEvent : event ∈ s.store.sent)
    (hBack : event.name = "RollbackOrderCreatedEvent") (hId : event.data.id = order.data.id) :
    TakesOut order event := by
  obtain ⟨other, hOther, hFor⟩ := h.revoking event hEvent (Or.inr hBack)
  obtain rfl : other = order := h.orders.eq hOrder hName hOther hFor.name
    (Or.inl ((hFor.id hBack).symm.trans hId))
  exact ⟨hBack, hFor.correlationId.symm⟩

/-- An order is taken out once, in its last phase. -/
theorem Follows.countP_takesOut (h : s.Follows order phase) (hSound : s.Sound stamp) :
    s.store.sent.countP (fun event => decide (TakesOut order event)) =
      if phase = .takenBack then 1 else 0 := by
  have hBooked : s.store.sent.countP (fun event => decide (TakesOut order event)) =
      (s.booked order).countP fun event => decide (event.name = "RollbackOrderCreatedEvent") := by
    rw [World.booked, hSound.filed, List.countP_filter, List.countP_filter]
    apply List.countP_congr
    intro event hEvent
    simp only [decide_eq_true_eq, Bool.and_eq_true]
    constructor
    · exact fun hTakes => ⟨⟨hTakes.1, hTakes.2⟩, (hSound.takesOut h.sent h.name hEvent hTakes).1⟩
    · exact fun hThis => hThis.1
  rw [hBooked]
  by_cases hPhase : phase = .takenBack
  · obtain ⟨withdrawn, returned, removed, hWithdrawn, hReturned, hRemoved, hEq⟩ :=
      h.refunded hPhase
    rw [if_pos hPhase, hEq]
    simp [h.name, hWithdrawn.name, (hReturned.withdrawn hWithdrawn.name).1,
      (hRemoved.ordered h.name).1]
  · obtain ⟨withdrawn, hWithdrawn, hEq⟩ := h.paid hPhase
    rw [if_neg hPhase, hEq]
    simp [h.name, hWithdrawn.name]

/-- The order is out of its account when its failure is over. -/
theorem Follows.takesOut_iff (h : s.Follows order phase) (hSound : s.Sound stamp) :
    (∃ event ∈ s.store.sent, TakesOut order event) ↔ phase = .takenBack := by
  have hCount := h.countP_takesOut hSound
  constructor
  · intro hSome
    obtain ⟨event, hEvent, hTakes⟩ := hSome
    by_contra hPhase
    rw [if_neg hPhase, List.countP_eq_zero] at hCount
    exact hCount event hEvent (decide_eq_true hTakes)
  · intro hPhase
    rw [if_pos hPhase] at hCount
    have hPos : 0 < s.store.sent.countP (fun event => decide (TakesOut order event)) := by omega
    obtain ⟨event, hEvent, hTakes⟩ := List.countP_pos_iff.mp hPos
    exact ⟨event, hEvent, of_decide_eq_true hTakes⟩

/-- An order that was not taken out stands in its account. -/
theorem Follows.mem_orders (h : s.Follows order phase) (hSound : s.Sound stamp)
    (hPhase : phase ≠ .takenBack) {aggregate : AccountAggregate}
    (hPopulated : (accountAggregate stamp).Populated order.streamId
      (s.store.readFromStream order.streamId) aggregate) :
    orderOf order ∈ aggregate.state.orders.getD [] := by
  have hStream : order ∈ s.store.readFromStream order.streamId := by
    rw [hSound.filed, List.mem_filter]
    exact ⟨h.sent, decide_eq_true rfl⟩
  have hKept : ∀ event ∈ s.store.readFromStream order.streamId,
      event.name = "RollbackOrderCreatedEvent" → event.data.id ≠ (orderOf order).id := by
    intro event hEvent hBack hId
    rw [hSound.filed] at hEvent
    have hSent := List.mem_of_mem_filter hEvent
    exact hPhase ((h.takesOut_iff hSound).mp
      ⟨event, hSent, hSound.takesOut_of_id h.sent h.name hSent hBack hId⟩)
  change orderOf order ∈ (view aggregate.state).orders
  rw [hPopulated.state, view_fold]
  exact mem_orders_foldl_of_kept hKept (Or.inr ⟨order, hStream, h.name, rfl⟩)

end

end World

end Moirae.Orders
