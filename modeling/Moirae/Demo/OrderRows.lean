import Moirae.Demo.Projections

/-! The rows of orders: what the handlers of events are given, what they write, and
how the row of one order fares while its events are handled. -/
namespace Moirae.Projections

open Demo Account
open Orders (TakesOut)

variable {stamp : IEvent EventData → String × Nat}

/-- Only `OrderCreatedHandler` saves an order. -/
theorem eventHandler_saveOrder_iff {name : String} :
    eventHandler name = some .saveOrder ↔ name = "OrderCreatedEvent" := by
  constructor
  · intro h
    unfold eventHandler at h
    split at h <;> first | rfl | cases h
  · rintro rfl
    rfl

/-- Only `RollbackOrderCreatedHandler` removes one. -/
theorem eventHandler_removeOrder_iff {name : String} :
    eventHandler name = some .removeOrder ↔ name = "RollbackOrderCreatedEvent" := by
  constructor
  · intro h
    unfold eventHandler at h
    split at h <;> first | rfl | cases h
  · rintro rfl
    rfl

/-- Accounts are saved for events of accounts, and inventories for others. -/
theorem kinds_of_eventHandler {name : String} :
    (eventHandler name = some .saveAccount → name ∈ kinds) ∧
      (eventHandler name = some .saveInventory → name ∉ kinds) := by
  constructor <;> intro h <;> unfold eventHandler at h <;> split at h <;>
    first | decide | cases h

/-- The handler has not rejected, and does not have to with what is undefined. -/
def Fine : Handling → Prop
  | .savingOrder order | .removingOrder order => ∃ row id, order = some row ∧ row.id = some id
  | .settled rejected => rejected = false
  | _ => True

/-- How far the handler of the event of an order is. -/
inductive Saving (listed : Prop) (order : IEvent EventData) : Handling → Prop
  | waiting : Saving listed order .waiting
  | saving {row : IOrder} (hId : row.id = order.data.id) :
      Saving listed order (.savingOrder (some row))
  | saved (hListed : listed) : Saving listed order (.settled false)

/-- How far the handler of an event is that takes the order out. -/
inductive Removing (listed : Prop) (order : IEvent EventData) : Handling → Prop
  | waiting (hListed : listed) : Removing listed order .waiting
  | removing {row : IOrder} (hId : row.id = order.data.id) :
      Removing listed order (.removingOrder (some row))
  | removed (hNot : ¬ listed) : Removing listed order (.settled false)

/-- The order may be found under a weaker condition. -/
theorem Saving.imp {listed listed' : Prop} {order : IEvent EventData} {handling : Handling}
    (h : Saving listed order handling) (hImp : listed → listed') :
    Saving listed' order handling := by
  cases h with
  | waiting => exact .waiting
  | saving hId => exact .saving hId
  | saved hListed => exact .saved (hImp hListed)

namespace World

/-- The order has a row. -/
def Listed (s : World) (order : IEvent EventData) : Prop :=
  ∃ id ∈ order.data.id, (s.orders.get id).isSome = true

/-- What the repository was given is what the event says. -/
structure Tidy (s : World) : Prop where
  saving : ∀ d ∈ s.deliveries, ∀ row, d.handling = .savingOrder (some row) →
    d.event.name = "OrderCreatedEvent" ∧ row.id = d.event.data.id
  removing : ∀ d ∈ s.deliveries, ∀ row, d.handling = .removingOrder (some row) →
    d.event.name = "RollbackOrderCreatedEvent" ∧ row.id = d.event.data.id
  rows : ∀ id row, s.orders.get id = some row → row.id = some id

/-- The row of the order, while its events are handled. -/
structure Tracks (s : World) (order : IEvent EventData) : Prop where
  saving : ∀ d ∈ s.deliveries, d.event.name = "OrderCreatedEvent" →
    d.event.correlationId = order.correlationId → Saving (s.Listed order) order d.handling
  listed : s.process.placing order = 0 →
    (∀ event ∈ s.process.store.sent, ¬ TakesOut order event) → s.Listed order
  removing : ∀ d ∈ s.deliveries, TakesOut order d.event →
    Removing (s.Listed order) order d.handling
  unlisted : (∃ event ∈ s.process.store.sent, TakesOut order event) →
    (∀ event ∈ s.process.pending, ¬ TakesOut order event) → ¬ s.Listed order

section

variable {s t : World} {order event : IEvent EventData}

/-! ### What handlers are given -/

/-- The handlers of other events are given what they ask for. -/
theorem handle_fine (hSound : s.process.Sound stamp) (hStreams : s.process.Streams stamp)
    (hEvent : event ∈ s.process.store.sent) (hOrder : event.name ≠ "OrderCreatedEvent")
    (hBack : event.name ≠ "RollbackOrderCreatedEvent") : Fine (s.handle stamp event) := by
  unfold World.handle
  split
  · rfl
  · next hHandler =>
      obtain ⟨aggregate, hMerge, -⟩ :=
        hStreams.loads_account hSound hEvent (kinds_of_eventHandler.1 hHandler)
      rw [hMerge]
      trivial
  · next hHandler => exact absurd (eventHandler_saveOrder_iff.mp hHandler) hOrder
  · next hHandler => exact absurd (eventHandler_removeOrder_iff.mp hHandler) hBack
  · next hHandler =>
      obtain ⟨aggregate, hMerge⟩ :=
        hStreams.loads_inventory hSound hEvent (kinds_of_eventHandler.2 hHandler)
      rw [hMerge]
      trivial

/-- As long as the order stands in its account, its handler finds it there. -/
theorem handle_order {phase : Orders.Phase} (hSound : s.process.Sound stamp)
    (hStreams : s.process.Streams stamp) (hFollows : s.process.Follows order phase)
    (hPhase : phase ≠ .takenBack) :
    ∃ row, s.handle stamp order = .savingOrder (some row) ∧ row.id = order.data.id := by
  have hKind : order.name ∈ kinds := by
    rw [hFollows.name]
    decide
  obtain ⟨aggregate, hMerge, hPopulated⟩ := hStreams.loads_account hSound hFollows.sent hKind
  have hMem := hFollows.mem_orders hSound hPhase hPopulated
  cases hOrders : aggregate.state.orders with
  | none =>
      rw [hOrders] at hMem
      exact absurd hMem List.not_mem_nil
  | some orders =>
      rw [hOrders] at hMem
      have hSome : (orders.find? (·.id = order.data.id)).isSome = true := by
        rw [List.find?_isSome]
        exact ⟨orderOf order, hMem, decide_eq_true rfl⟩
      obtain ⟨row, hRow⟩ := Option.isSome_iff_exists.mp hSome
      refine ⟨row, ?_, by simpa using List.find?_some hRow⟩
      rw [World.handle, eventHandler_saveOrder_iff.mpr hFollows.name]
      simp only [hMerge, hOrders, hRow]

/-- The handler looks for the row of the order before it removes it. -/
theorem handle_takesOut (hBack : event.name = "RollbackOrderCreatedEvent") :
    s.handle stamp event = .removingOrder (event.data.id.bind s.orders.get) := by
  rw [World.handle, eventHandler_removeOrder_iff.mpr hBack]

/-- A row that is to be saved is that of the event. -/
theorem handle_savingOrder {row : IOrder} (h : s.handle stamp event = .savingOrder (some row)) :
    event.name = "OrderCreatedEvent" ∧ row.id = event.data.id := by
  unfold World.handle at h
  split at h
  · cases h
  · split at h <;> cases h
  · next hHandler =>
      refine ⟨eventHandler_saveOrder_iff.mp hHandler, ?_⟩
      split at h
      · cases h
      · split at h
        · cases h
        · injection h with hFind
          simpa using List.find?_some hFind
  · cases h
  · split at h <;> cases h

/-- The row that a handler removes is the one of its event. -/
theorem handle_removingOrder (hTidy : s.Tidy) {row : IOrder}
    (h : s.handle stamp event = .removingOrder (some row)) :
    event.name = "RollbackOrderCreatedEvent" ∧ row.id = event.data.id := by
  unfold World.handle at h
  split at h
  · cases h
  · split at h <;> cases h
  · split at h
    · cases h
    · split at h <;> cases h
  · next hHandler =>
      injection h with hGet
      obtain ⟨id, hId, hRow⟩ := Option.bind_eq_some_iff.mp hGet
      exact ⟨eventHandler_removeOrder_iff.mp hHandler, (hTidy.rows id row hRow).trans hId.symm⟩
  · split at h <;> cases h

/-! ### The tables -/

/-- What a call of the repository does to the orders. -/
theorem write_orders {handling : Handling} (h : s.write handling = some t) :
    (∃ row id, handling = .savingOrder (some row) ∧ row.id = some id ∧
        t.orders = s.orders.set id (mergeOrder (s.orders.get id) row)) ∨
      (∃ row id, handling = .removingOrder (some row) ∧ row.id = some id ∧
        t.orders = s.orders.delete id) ∨
      t.orders = s.orders ∧ (∀ order, handling ≠ .savingOrder order) ∧
        ∀ order, handling ≠ .removingOrder order := by
  unfold World.write at h
  split at h
  · obtain rfl := Option.some.inj h
    exact Or.inr (Or.inr ⟨rfl, (fun _ hThis => by cases hThis), fun _ hThis => by cases hThis⟩)
  · next row =>
      obtain ⟨id, hId, rfl⟩ := Option.map_eq_some_iff.mp h
      exact Or.inl ⟨row, id, rfl, hId, rfl⟩
  · next row =>
      obtain ⟨id, hId, rfl⟩ := Option.map_eq_some_iff.mp h
      exact Or.inr (Or.inl ⟨row, id, rfl, hId, rfl⟩)
  · obtain rfl := Option.some.inj h
    exact Or.inr (Or.inr ⟨rfl, (fun _ hThis => by cases hThis), fun _ hThis => by cases hThis⟩)
  · cases h

/-- What is fine can be written. -/
theorem write_of_fine {handling : Handling} (h : Fine handling) (hCalled : handling ≠ .waiting)
    (hOpen : ∀ rejected, handling ≠ .settled rejected) : s.write handling ≠ none := by
  cases handling with
  | waiting => exact absurd rfl hCalled
  | settled rejected => exact absurd rfl (hOpen rejected)
  | savingAccount aggregate => simp [World.write]
  | savingInventory aggregate => simp [World.write]
  | savingOrder order =>
      obtain ⟨row, id, rfl, hId⟩ := h
      simp [World.write, hId]
  | removingOrder order =>
      obtain ⟨row, id, rfl, hId⟩ := h
      simp [World.write, hId]

/-- Rows stay under their ids when one is saved. -/
theorem rows_set (hRows : ∀ id row, s.orders.get id = some row → row.id = some id) {id : String}
    {order : IOrder} (hId : order.id = some id) :
    ∀ id' row, (s.orders.set id order).get id' = some row → row.id = some id' := by
  intro id' row hRow
  rw [KeyedMap.get_set] at hRow
  split at hRow
  · next hSame =>
      rw [← Option.some.inj hRow, hId, hSame]
  · exact hRows id' row hRow

/-- Rows stay under their ids. -/
theorem rows_write (hRows : ∀ id row, s.orders.get id = some row → row.id = some id)
    {handling : Handling} (h : s.write handling = some t) :
    ∀ id row, t.orders.get id = some row → row.id = some id := by
  rcases write_orders h with ⟨order, id, -, hId, hOrders⟩ | ⟨order, id, -, hId, hOrders⟩ | hSame
  · rw [hOrders]
    exact rows_set hRows hId
  · rw [hOrders]
    intro id' row hRow
    rw [KeyedMap.get_delete_eq_some_iff] at hRow
    exact hRows id' row hRow.2
  · rw [hSame.1]
    exact hRows

/-- A handler goes on. -/
theorem Tidy.setHandling (h : s.Tidy) (place : Nat) {d : Delivery} {handling : Handling}
    (hSaving : ∀ row, handling = .savingOrder (some row) →
      d.event.name = "OrderCreatedEvent" ∧ row.id = d.event.data.id)
    (hRemoving : ∀ row, handling = .removingOrder (some row) →
      d.event.name = "RollbackOrderCreatedEvent" ∧ row.id = d.event.data.id) :
    (s.setHandling place d handling).Tidy where
  saving other hOther := by
    rcases List.mem_or_eq_of_mem_set hOther with hOld | rfl
    · exact h.saving other hOld
    · exact hSaving
  removing other hOther := by
    rcases List.mem_or_eq_of_mem_set hOther with hOld | rfl
    · exact h.removing other hOld
    · exact hRemoving
  rows := h.rows

/-- Each effect keeps the rows under their ids. -/
theorem Tidy.effect (h : s.Tidy) {a : Action} (hEffect : Effect stamp s a t) : t.Tidy := by
  cases hEffect with
  | processed hNot hStep =>
      refine { h with saving := fun d hd row hRow => ?_, removing := fun d hd row hRow => ?_ }
      · rcases List.mem_append.mp hd with hOld | hNew
        · exact h.saving d hOld row hRow
        · obtain ⟨event, -, rfl⟩ := List.mem_map.mp hNew
          cases hRow
      · rcases List.mem_append.mp hd with hOld | hNew
        · exact h.removing d hOld row hRow
        · obtain ⟨event, -, rfl⟩ := List.mem_map.mp hNew
          cases hRow
  | handled hd hWaiting =>
      exact h.setHandling _ (fun _ hRow => handle_savingOrder hRow)
        fun _ hRow => handle_removingOrder h hRow
  | refused hd hCalled hOpen hWhy =>
      exact h.setHandling _ (fun _ hThis => by cases hThis) fun _ hThis => by cases hThis
  | @written place d u hd hWrite =>
      have hDeliveries := (write_same hWrite).2
      have hTidy : u.Tidy := by
        constructor
        case saving =>
          rw [hDeliveries]
          exact h.saving
        case removing =>
          rw [hDeliveries]
          exact h.removing
        case rows => exact rows_write h.rows hWrite
      exact hTidy.setHandling _ (fun _ hThis => by cases hThis) fun _ hThis => by cases hThis
  | settled hd hSettled hStep =>
      exact { h with
        saving := fun d hd => h.saving d (List.mem_of_mem_eraseIdx hd)
        removing := fun d hd => h.removing d (List.mem_of_mem_eraseIdx hd) }

/-! ### The row of an order -/

/-- One more handler, of whose event nothing is known for the order. -/
theorem Tracks.setHandling (h : s.Tracks order) (place : Nat) {d : Delivery} {handling : Handling}
    (hSaving : d.event.name = "OrderCreatedEvent" →
      d.event.correlationId = order.correlationId → Saving (s.Listed order) order handling)
    (hRemoving : TakesOut order d.event → Removing (s.Listed order) order handling) :
    (s.setHandling place d handling).Tracks order where
  saving other hOther := by
    rcases List.mem_or_eq_of_mem_set hOther with hOld | rfl
    · exact h.saving other hOld
    · exact hSaving
  listed := h.listed
  removing other hOther := by
    rcases List.mem_or_eq_of_mem_set hOther with hOld | rfl
    · exact h.removing other hOld
    · exact hRemoving
  unlisted := h.unlisted

/-- Tables of accounts and inventories do not matter, and other orders do not. -/
theorem Tracks.of_listed (h : s.Tracks order) (hProcess : t.process = s.process)
    (hDeliveries : t.deliveries = s.deliveries) (hListed : t.Listed order ↔ s.Listed order) :
    t.Tracks order := by
  have hSame : t.Listed order = s.Listed order := propext hListed
  constructor
  case saving =>
    rw [hDeliveries, hSame]
    exact h.saving
  case listed =>
    rw [hProcess, hSame]
    exact h.listed
  case removing =>
    rw [hDeliveries, hSame]
    exact h.removing
  case unlisted =>
    rw [hProcess, hSame]
    exact h.unlisted

/-- The handler of an event is called. -/
theorem Tracks.handled {phase : Orders.Phase} (h : s.Tracks order) (hAligned : s.Aligned)
    (hTidy : s.Tidy) (hSound : s.process.Sound stamp) (hStreams : s.process.Streams stamp)
    (hFollows : s.process.Follows order phase) {place : Nat} {d : Delivery}
    (hd : s.deliveries[place]? = some d) (hWaiting : d.handling = .waiting) :
    (s.setHandling place d (s.handle stamp d.event)).Tracks order := by
  have hMem := List.mem_of_getElem? hd
  have hSent := hAligned.sent hMem
  apply h.setHandling
  · intro hName hId
    obtain rfl := hFollows.phase_of_pending (hAligned.mem hMem) hName hId
    obtain hSame : d.event = order :=
      hSound.eq_of_transaction hFollows.sent hFollows.name hSent hName hId
    obtain ⟨row, hHandle, hRow⟩ := handle_order hSound hStreams hFollows (by decide)
    rw [hSame, hHandle]
    exact .saving hRow
  · intro hTakes
    have hListed : s.Listed order := by
      have hRemoving := h.removing d hMem hTakes
      rw [hWaiting] at hRemoving
      cases hRemoving with
      | waiting hListed => exact hListed
    obtain ⟨id, hId, hSome⟩ := hListed
    obtain ⟨row, hRow⟩ := Option.isSome_iff_exists.mp hSome
    have hSameId := (hSound.takesOut hFollows.sent hFollows.name hSent hTakes).2
    rw [handle_takesOut hTakes.1, hSameId, hId, Option.bind_some, hRow]
    exact .removing ((hTidy.rows id row hRow).trans hId.symm)

/-- The process goes on with an order that it had before. -/
theorem Tracks.published {phase : Orders.Phase} (h : s.Tracks order) {process : Orders.World}
    {more : List (IEvent EventData)} (hMore : Published s process more)
    (hSound : process.Sound stamp) (hFollows : process.Follows order phase) :
    (s.proceed process).Tracks order := by
  have hBefore : ∀ event ∈ s.process.store.sent, event ∈ process.store.sent := by
    intro event hEvent
    rw [hMore.sent]
    exact List.mem_append_left _ hEvent
  have hPlacing : process.placing order = 0 → s.process.placing order = 0 := by
    intro hNone
    rw [Orders.World.placing, hMore.pending, List.countP_append] at hNone
    rw [Orders.World.placing]
    omega
  constructor
  case saving =>
    intro d hd hName hId
    rw [hMore.deliveries] at hd
    rcases List.mem_append.mp hd with hOld | hNew
    · exact h.saving d hOld hName hId
    · obtain ⟨event, -, rfl⟩ := List.mem_map.mp hNew
      exact .waiting
  case listed =>
    intro hNone hStands
    exact h.listed (hPlacing hNone) fun event hEvent => hStands event (hBefore event hEvent)
  case removing =>
    intro d hd hTakes
    rw [hMore.deliveries] at hd
    rcases List.mem_append.mp hd with hOld | hNew
    · exact h.removing d hOld hTakes
    · -- it is the only one, so the order has its row so far
      obtain ⟨event, hEvent, rfl⟩ := List.mem_map.mp hNew
      have hSent : event ∈ process.store.sent := by
        rw [hMore.sent]
        exact List.mem_append_right _ hEvent
      obtain rfl := (hFollows.takesOut_iff hSound).mp ⟨event, hSent, hTakes⟩
      have hCount := hFollows.countP_takesOut hSound
      rw [hMore.sent, List.countP_append, if_pos rfl] at hCount
      have hPos : 0 < more.countP fun event => decide (TakesOut order event) :=
        List.countP_pos_iff.mpr ⟨event, hEvent, decide_eq_true hTakes⟩
      have hNone :
          s.process.store.sent.countP (fun event => decide (TakesOut order event)) = 0 := by
        omega
      rw [List.countP_eq_zero] at hNone
      apply Removing.waiting
      apply h.listed (hPlacing hFollows.placing)
      exact fun other hOther hThis => hNone other hOther (decide_eq_true hThis)
  case unlisted =>
    intro hSome hNone
    apply h.unlisted
    · obtain ⟨event, hEvent, hTakes⟩ := hSome
      change event ∈ process.store.sent at hEvent
      rw [hMore.sent] at hEvent
      rcases List.mem_append.mp hEvent with hOld | hNew
      · exact ⟨event, hOld, hTakes⟩
      · refine absurd hTakes (hNone event ?_)
        change event ∈ process.pending
        rw [hMore.pending]
        exact List.mem_append_right _ hNew
    · intro event hEvent
      apply hNone event
      change event ∈ process.pending
      rw [hMore.pending]
      exact List.mem_append_left _ hEvent

/-- The process goes on with a new order. -/
theorem tracks_placed {phase : Orders.Phase} (hAligned : s.Aligned) {process : Orders.World}
    {more : List (IEvent EventData)} (hMore : Published s process more)
    (hSound : process.Sound stamp) (hFollows : process.Follows order phase)
    (hNew : order ∉ s.process.store.sent) : (s.proceed process).Tracks order := by
  have hPending : order ∈ process.pending := by
    have hSent := hFollows.sent
    rw [hMore.sent] at hSent
    rw [hMore.pending]
    exact List.mem_append_right _ ((List.mem_append.mp hSent).resolve_left hNew)
  obtain rfl := hFollows.phase_of_pending hPending hFollows.name rfl
  have hStands : ¬ ∃ event ∈ process.store.sent, TakesOut order event := by
    rw [hFollows.takesOut_iff hSound]
    decide
  constructor
  case saving =>
    intro d hd hName hId
    rw [hMore.deliveries] at hd
    rcases List.mem_append.mp hd with hOld | hAdded
    · have hSent := hAligned.sent hOld
      have hThere : d.event ∈ process.store.sent := by
        rw [hMore.sent]
        exact List.mem_append_left _ hSent
      obtain hSame : d.event = order :=
        hSound.eq_of_transaction hFollows.sent hFollows.name hThere hName hId
      exact absurd (hSame ▸ hSent) hNew
    · obtain ⟨event, -, rfl⟩ := List.mem_map.mp hAdded
      exact .waiting
  case listed =>
    intro hNone
    exact absurd (hFollows.placing.symm.trans hNone) (by decide)
  case removing =>
    intro d hd hTakes
    exact absurd ⟨d.event, (hAligned.published hMore).sent hd, hTakes⟩ hStands
  case unlisted => exact fun hSome => absurd hSome hStands

/-- What is saved or removed for another event is not the row of the order. -/
theorem listed_write_iff (hAligned : s.Aligned) (hTidy : s.Tidy) (hSound : s.process.Sound stamp)
    (hOrder : order ∈ s.process.store.sent) (hName : order.name = "OrderCreatedEvent")
    {d : Delivery} (hd : d ∈ s.deliveries)
    (hNot : ¬ (d.event.name = "OrderCreatedEvent" ∧ d.event.correlationId = order.correlationId))
    (hStands : ¬ TakesOut order d.event) (hWrite : s.write d.handling = some t) :
    t.Listed order ↔ s.Listed order := by
  have hSent := hAligned.sent hd
  unfold Listed
  rcases write_orders hWrite with ⟨row, id, hRow, hId, hOrders⟩ | ⟨row, id, hRow, hId, hOrders⟩ |
    hSame
  · obtain ⟨hThis, hData⟩ := hTidy.saving d hd row hRow
    have hApart : ∀ id' ∈ order.data.id, id' ≠ id := by
      intro id' hId' hEq
      have hSameId : d.event.data.id = order.data.id := by rw [← hData, hId, hId', hEq]
      exact hNot ⟨hThis, congrArg (·.correlationId)
        (hSound.orders.eq hOrder hName hSent hThis (Or.inl hSameId))⟩
    rw [hOrders]
    apply exists_congr
    intro id'
    apply and_congr_right
    intro hId'
    rw [KeyedMap.get_set_ne _ (hApart id' hId')]
  · obtain ⟨hThis, hData⟩ := hTidy.removing d hd row hRow
    have hApart : ∀ id' ∈ order.data.id, id' ≠ id := by
      intro id' hId' hEq
      have hSameId : d.event.data.id = order.data.id := by rw [← hData, hId, hId', hEq]
      exact hStands (hSound.takesOut_of_id hOrder hName hSent hThis hSameId)
    rw [hOrders]
    apply exists_congr
    intro id'
    apply and_congr_right
    intro hId'
    rw [KeyedMap.get_delete_ne _ (hApart id' hId')]
  · rw [hSame.1]

/-- The row of the order is saved. -/
theorem Tracks.saved {phase : Orders.Phase} (h : s.Tracks order) (hAligned : s.Aligned)
    (hSound : s.process.Sound stamp) (hFollows : s.process.Follows order phase) {place : Nat}
    {d : Delivery} (hd : s.deliveries[place]? = some d) (hName : d.event.name = "OrderCreatedEvent")
    (hId : d.event.correlationId = order.correlationId) (hProcess : t.process = s.process)
    (hDeliveries : t.deliveries = s.deliveries) (hListed : t.Listed order) :
    (t.setHandling place d (.settled false)).Tracks order := by
  have hMem := List.mem_of_getElem? hd
  obtain rfl := hFollows.phase_of_pending (hAligned.mem hMem) hName hId
  have hStands : ¬ ∃ event ∈ s.process.store.sent, TakesOut order event := by
    rw [hFollows.takesOut_iff hSound]
    decide
  constructor
  case saving =>
    intro other hOther hOrder hSame
    rcases List.mem_or_eq_of_mem_set hOther with hOld | rfl
    · rw [hDeliveries] at hOld
      exact (h.saving other hOld hOrder hSame).imp fun _ => hListed
    · exact .saved hListed
  case listed => exact fun _ _ => hListed
  case removing =>
    intro other hOther hTakes
    refine absurd ⟨other.event, ?_, hTakes⟩ hStands
    rcases List.mem_or_eq_of_mem_set hOther with hOld | rfl
    · rw [hDeliveries] at hOld
      exact hAligned.sent hOld
    · show d.event ∈ s.process.store.sent
      exact hAligned.sent hMem
  case unlisted =>
    intro hSome
    change ∃ event ∈ t.process.store.sent, _ at hSome
    rw [hProcess] at hSome
    exact absurd hSome hStands

/-- The row of the order is removed. -/
theorem tracks_removed {phase : Orders.Phase} (hAligned : s.Aligned)
    (hSound : s.process.Sound stamp) (hFollows : s.process.Follows order phase) {place : Nat}
    {d : Delivery} (hd : s.deliveries[place]? = some d) (hTakes : TakesOut order d.event)
    (hProcess : t.process = s.process) (hDeliveries : t.deliveries = s.deliveries)
    (hNot : ¬ t.Listed order) : (t.setHandling place d (.settled false)).Tracks order := by
  have hMem := List.mem_of_getElem? hd
  obtain rfl := (hFollows.takesOut_iff hSound).mp ⟨d.event, hAligned.sent hMem, hTakes⟩
  have hAll : ∀ other ∈ (t.setHandling place d (.settled false)).deliveries,
      other = { d with handling := .settled false } ∨ other ∈ s.deliveries.eraseIdx place := by
    intro other hOther
    change other ∈ t.deliveries.set place _ at hOther
    rw [hDeliveries] at hOther
    obtain ⟨hPlace, -⟩ := List.getElem?_eq_some_iff.mp hd
    exact List.mem_cons.mp ((List.set_perm_cons_eraseIdx hPlace _).mem_iff.mp hOther)
  have hPending : ∀ other ∈ (t.setHandling place d (.settled false)).deliveries,
      other.event ∈ s.process.pending := by
    intro other hOther
    rcases hAll other hOther with rfl | hOld
    · show d.event ∈ s.process.pending
      exact hAligned.mem hMem
    · exact hAligned.mem (List.mem_of_mem_eraseIdx hOld)
  have hOnce : ∀ other ∈ s.deliveries.eraseIdx place, ¬ TakesOut order other.event := by
    have hErased := countP_eraseIdx_add (p := fun other : Delivery =>
      decide (TakesOut order other.event)) hd
    rw [if_pos (decide_eq_true hTakes)] at hErased
    have hCount := hFollows.countP_takesOut hSound
    rw [if_pos rfl] at hCount
    have hMost := hAligned.once.countP_le fun event => decide (TakesOut order event)
    rw [hAligned.pending, List.countP_map, hCount] at hMost
    change s.deliveries.countP (fun other => decide (TakesOut order other.event)) ≤ 1 at hMost
    have hNone : (s.deliveries.eraseIdx place).countP
        (fun other => decide (TakesOut order other.event)) = 0 := by omega
    rw [List.countP_eq_zero] at hNone
    exact fun other hOther hThis => hNone other hOther (decide_eq_true hThis)
  constructor
  case saving =>
    intro other hOther hName hId
    cases hFollows.phase_of_pending (hPending other hOther) hName hId
  case listed =>
    intro _ hStands
    change ∀ event ∈ t.process.store.sent, _ at hStands
    rw [hProcess] at hStands
    exact absurd hTakes (hStands d.event (hAligned.sent hMem))
  case removing =>
    intro other hOther hThis
    rcases hAll other hOther with rfl | hOld
    · exact .removed hNot
    · exact absurd hThis (hOnce other hOld)
  case unlisted => exact fun _ _ => hNot

/-- Whatever is written, and for whichever event. -/
theorem Tracks.written {phase : Orders.Phase} (h : s.Tracks order) (hAligned : s.Aligned)
    (hTidy : s.Tidy) (hSound : s.process.Sound stamp) (hFollows : s.process.Follows order phase)
    {place : Nat} {d : Delivery} (hd : s.deliveries[place]? = some d)
    (hWrite : s.write d.handling = some t) :
    (t.setHandling place d (.settled false)).Tracks order := by
  have hMem := List.mem_of_getElem? hd
  obtain ⟨hProcess, hDeliveries⟩ := write_same hWrite
  have hOwnId := ((hSound.events order hFollows.sent).order hFollows.name).orderId
  obtain ⟨own, -, hOwn⟩ := hOwnId
  by_cases hOrder : d.event.name = "OrderCreatedEvent" ∧
      d.event.correlationId = order.correlationId
  · have hSaving := h.saving d hMem hOrder.1 hOrder.2
    apply h.saved hAligned hSound hFollows hd hOrder.1 hOrder.2 hProcess hDeliveries
    rcases write_orders hWrite with ⟨row, id, hRow, hId, hOrders⟩ | ⟨row, id, hRow, -⟩ | hSame
    · rw [hRow] at hSaving
      cases hSaving with
      | saving hData =>
          refine ⟨id, hData.symm.trans hId, ?_⟩
          rw [hOrders, KeyedMap.get_set_self]
          rfl
    · rw [hRow] at hSaving
      cases hSaving
    · cases hHandling : d.handling with
      | savingOrder order => exact absurd hHandling (hSame.2.1 order)
      | _ =>
          rw [hHandling] at hSaving hWrite
          cases hSaving <;> cases hWrite
  · by_cases hTakes : TakesOut order d.event
    · have hRemoving := h.removing d hMem hTakes
      apply tracks_removed hAligned hSound hFollows hd hTakes hProcess hDeliveries
      rcases write_orders hWrite with ⟨row, id, hRow, -⟩ | ⟨row, id, hRow, hId, hOrders⟩ | hSame
      · rw [hRow] at hRemoving
        cases hRemoving
      · rw [hRow] at hRemoving
        cases hRemoving with
        | removing hData =>
            intro hListed
            obtain ⟨id', hId', hSome⟩ := hListed
            obtain rfl : id = id' := Option.some.inj (hId.symm.trans (hData.trans hId'))
            rw [hOrders, KeyedMap.get_delete] at hSome
            simp at hSome
      · cases hHandling : d.handling with
        | removingOrder order => exact absurd hHandling (hSame.2.2 order)
        | _ =>
            rw [hHandling] at hRemoving hWrite
            cases hRemoving <;> cases hWrite
    · have hListed := listed_write_iff hAligned hTidy hSound hFollows.sent hFollows.name hMem hOrder
        hTakes hWrite
      exact (h.of_listed hProcess hDeliveries hListed).setHandling place
        (fun hName hId => absurd ⟨hName, hId⟩ hOrder) fun hThis => absurd hThis hTakes

/-- The event bus goes on behind a delivery. -/
theorem Tracks.settled (h : s.Tracks order) (hAligned : s.Aligned) {place : Nat} {d : Delivery}
    {rejected : Bool} {process : Orders.World} (hd : s.deliveries[place]? = some d)
    (hSettled : d.handling = .settled rejected)
    (hStep : s.process.step stamp (.settle place rejected) = some process) :
    ({ s with process, deliveries := s.deliveries.eraseIdx place } : World).Tracks order := by
  have hMem := List.mem_of_getElem? hd
  obtain ⟨hStore, hPending⟩ := hAligned.settled_same hd hStep
  constructor
  case saving => exact fun other hOther => h.saving other (List.mem_of_mem_eraseIdx hOther)
  case listed =>
    intro hNone hStands
    change process.placing order = 0 at hNone
    change ∀ event ∈ process.store.sent, _ at hStands
    rw [hStore] at hStands
    by_cases hOrder : d.event.name = "OrderCreatedEvent" ∧
        d.event.correlationId = order.correlationId
    · have hSaving := h.saving d hMem hOrder.1 hOrder.2
      rw [hSettled] at hSaving
      cases hSaving with
      | saved hListed => exact hListed
    · apply h.listed _ hStands
      have hSame := Orders.World.placing_erase_other (hAligned.place hd) hOrder
      rw [Orders.World.placing, ← hPending] at hSame
      exact hSame.symm.trans hNone
  case removing => exact fun other hOther => h.removing other (List.mem_of_mem_eraseIdx hOther)
  case unlisted =>
    intro hSome hNone
    change ∃ event ∈ process.store.sent, _ at hSome
    change ∀ event ∈ process.pending, _ at hNone
    rw [hStore] at hSome
    rw [hPending] at hNone
    by_cases hTakes : TakesOut order d.event
    · have hRemoving := h.removing d hMem hTakes
      rw [hSettled] at hRemoving
      cases hRemoving with
      | removed hNot => exact hNot
    · apply h.unlisted hSome
      intro event hEvent
      obtain ⟨hPlace, hGet⟩ := List.getElem?_eq_some_iff.mp (hAligned.place hd)
      rcases List.mem_cons.mp ((List.getElem_cons_eraseIdx_perm hPlace).mem_iff.mpr hEvent) with
        rfl | hOld
      · rw [hGet]
        exact hTakes
      · exact hNone event hOld

end

end World

end Moirae.Projections
