import Moirae.Core.AggregateCompensation
import Moirae.Core.MemoryStore
import Moirae.Core.Populated
import Moirae.Demo.Common
import Moirae.Runs.Compensation

/-! The accounts of the demo: the aggregate with its orders, and the events of
deposits, withdrawals and orders. -/
namespace Moirae.Account

open Demo

/-- `IOrder`, without the times, which are those at which the event was applied. -/
structure IOrder where
  id : Option String
  accountId : Option String
  cost : Option Int
  inventoryId : Option String
  quantity : Option Int
  deriving DecidableEq

/-- The fields of the aggregate. A balance that is undefined or not a number is
none, and what is added to it gives no number. -/
structure AccountState where
  name : Option String
  balance : Option Int
  createdAt : Option Nat
  orders : Option (List IOrder)
  deriving DecidableEq

def handleAccountCreated (state : AccountState) (event : IEvent EventData) : AccountState :=
  { state with
    balance := event.data.balance
    createdAt := event.data.createdAt
    name := event.data.name }

/-- `handleDeposit` and `handleWithdrawal`. -/
def handleFunds (state : AccountState) (event : IEvent EventData) : AccountState :=
  { state with balance := plus state.balance event.data.funds }

def handleRollbackWithdrawal (state : AccountState) (event : IEvent EventData) : AccountState :=
  { state with balance := minus state.balance event.data.funds }

/-- The order that `handleCreate` makes of the event. -/
def orderOf (event : IEvent EventData) : IOrder where
  id := event.data.id
  accountId := event.data.accountId
  cost := event.data.cost
  inventoryId := event.data.inventoryId
  quantity := event.data.quantity

@[simp] theorem orderOf_id (event : IEvent EventData) : (orderOf event).id = event.data.id := rfl

def handleCreate (state : AccountState) (event : IEvent EventData) : AccountState :=
  { state with orders := some (state.orders.getD [] ++ [orderOf event]) }

def handleRollbackOrderCreated (state : AccountState) (event : IEvent EventData) :
    AccountState :=
  { state with orders := state.orders.map fun orders => orders.filter (·.id ≠ event.data.id) }

/-- The uuid and the time of a new event come from outside. The events that are
rolled back are those of the aggregate, so they have its stream id. -/
def createRollbackFundsWithdrawnEvent (stamp : IEvent EventData → String × Nat)
    (event : IEvent EventData) : IEvent EventData :=
  newEvent "RollbackFundsWithdrawnEvent" event.streamId
    { EventData.undefined with funds := event.data.funds } (stamp event).1 (stamp event).2

def createRollbackOrderCreated (stamp : IEvent EventData → String × Nat)
    (event : IEvent EventData) : IEvent EventData :=
  newEvent "RollbackOrderCreatedEvent" event.streamId
    { EventData.undefined with id := event.data.id } (stamp event).1 (stamp event).2

/-- What the `Apply` decorators name. -/
def applyHandler : String → Option (AccountState → IEvent EventData → AccountState)
  | "AccountCreatedEvent" => some handleAccountCreated
  | "FundsDepositedEvent" => some handleFunds
  | "FundsWithdrawnEvent" => some handleFunds
  | "RollbackFundsWithdrawnEvent" => some handleRollbackWithdrawal
  | "OrderCreatedEvent" => some handleCreate
  | "RollbackOrderCreatedEvent" => some handleRollbackOrderCreated
  | "FundsWithdrawalFailedEvent" => some fun state _ => state
  | _ => none

/-- What the `Rollback` decorators name. -/
def rollbackHandler (stamp : IEvent EventData → String × Nat) :
    String → Option (AccountState → IEvent EventData → IEvent EventData)
  | "FundsWithdrawnEvent" => some fun _ event => createRollbackFundsWithdrawnEvent stamp event
  | "OrderCreatedEvent" => some fun _ event => createRollbackOrderCreated stamp event
  | _ => none

/-- Filtering the orders throws while there are none yet. -/
def accountAggregate (stamp : IEvent EventData → String × Nat) :
    ThrowingClass AccountState EventData where
  name := "AccountAggregate"
  initial := ⟨none, none, none, none⟩
  deleted := fun _ => false
  applyHandler := applyHandler
  rollbackHandler := rollbackHandler stamp
  applyThrows name state _ :=
    if name = "RollbackOrderCreatedEvent" ∧ state.orders = none then
      some (.error "TypeError" "Cannot read properties of undefined (reading 'filter')")
    else none
  rollbackThrows := fun _ _ _ => none

abbrev AccountAggregate := AggregateRoot AccountState EventData

section

variable (streamId uuid : String) (now : Nat)

/-- `new AccountCreatedEvent(streamId, { balance: 0, createdAt, ...input })`. -/
def accountCreatedEvent (balance : Option Int) (name : String) : IEvent EventData :=
  newEvent "AccountCreatedEvent" streamId
    { EventData.undefined with
      balance := balance.or (some 0), createdAt := some now, name := some name } uuid now

def fundsDepositedEvent (funds : Int) : IEvent EventData :=
  newEvent "FundsDepositedEvent" streamId { EventData.undefined with funds := some funds } uuid now

def fundsWithdrawnEvent (funds : Option Int) : IEvent EventData :=
  newEvent "FundsWithdrawnEvent" streamId { EventData.undefined with funds } uuid now

def fundsWithdrawalFailedEvent (funds : Option Int) : IEvent EventData :=
  newEvent "FundsWithdrawalFailedEvent" streamId { EventData.undefined with funds } uuid now

end

def invalidWithdrawalAmountException (event : IEvent EventData) : Thrown :=
  .error "InvalidWithdrawalAmountException"
    ("Cannot withdraw " ++ (event.data.funds.elim "undefined" fun funds => s!"{funds}") ++
      " from account " ++ event.streamId)

/-! ## What an account makes of its events -/

/-- What can be read from an account. No orders yet and an empty list of orders
look the same. -/
structure AccountView where
  name : Option String
  balance : Option Int
  createdAt : Option Nat
  orders : List IOrder
  deriving DecidableEq

def view (state : AccountState) : AccountView :=
  ⟨state.name, state.balance, state.createdAt, state.orders.getD []⟩

/-- What an event does to the balance. -/
def balanceAfter (balance : Option Int) (event : IEvent EventData) : Option Int :=
  if event.name = "AccountCreatedEvent" then event.data.balance
  else if event.name = "FundsDepositedEvent" ∨ event.name = "FundsWithdrawnEvent" then
    plus balance event.data.funds
  else if event.name = "RollbackFundsWithdrawnEvent" then minus balance event.data.funds
  else balance

/-- What an event does to the orders. -/
def ordersAfter (orders : List IOrder) (event : IEvent EventData) : List IOrder :=
  if event.name = "OrderCreatedEvent" then orders ++ [orderOf event]
  else if event.name = "RollbackOrderCreatedEvent" then orders.filter (·.id ≠ event.data.id)
  else orders

/-- What an event does to what can be read. -/
def act (account : AccountView) (event : IEvent EventData) : AccountView where
  name := if event.name = "AccountCreatedEvent" then event.data.name else account.name
  balance := balanceAfter account.balance event
  createdAt := if event.name = "AccountCreatedEvent" then event.data.createdAt
    else account.createdAt
  orders := ordersAfter account.orders event

/-- The kinds of events that an account has a handler for. -/
def kinds : List String :=
  ["AccountCreatedEvent", "FundsDepositedEvent", "FundsWithdrawnEvent",
    "RollbackFundsWithdrawnEvent", "OrderCreatedEvent", "RollbackOrderCreatedEvent",
    "FundsWithdrawalFailedEvent"]

/-- The kinds of event that the account has a handler for. -/
theorem applyHandler_isSome_iff (name : String) :
    (applyHandler name).isSome = true ↔ name ∈ kinds := by
  constructor
  · intro h
    unfold applyHandler at h
    split at h
    case h_8 => cases h
    all_goals decide
  · intro h
    simp only [kinds, List.mem_cons, List.not_mem_nil, or_false] at h
    rcases h with rfl | rfl | rfl | rfl | rfl | rfl | rfl <;> rfl

/-- What the account has no handler for changes nothing that is seen. -/
theorem act_of_unknown {event : IEvent EventData} (h : event.name ∉ kinds)
    (account : AccountView) : act account event = account := by
  simp only [kinds, List.mem_cons, List.not_mem_nil, or_false, not_or] at h
  simp [act, balanceAfter, ordersAfter, h]

variable {stamp : IEvent EventData → String × Nat}

/-- A handler does to the view what the event says. -/
theorem view_handle (state : AccountState) (event : IEvent EventData) :
    view ((accountAggregate stamp).handle state event) = act (view state) event := by
  have hHandlers : (accountAggregate stamp).applyHandler = applyHandler := rfl
  rw [ThrowingClass.handle, hHandlers]
  by_cases hKind : event.name ∈ kinds
  · simp only [kinds, List.mem_cons, List.not_mem_nil, or_false] at hKind
    rcases hKind with h | h | h | h | h | h | h <;>
      simp [h, applyHandler, act, balanceAfter, ordersAfter, view, handleAccountCreated,
        handleFunds, handleRollbackWithdrawal, handleCreate, handleRollbackOrderCreated]
    cases state.orders <;> rfl
  · rw [act_of_unknown hKind]
    rw [← applyHandler_isSome_iff, Option.not_isSome_iff_eq_none] at hKind
    rw [hKind]

/-- What can be read from an account is what its events make of a new one. -/
theorem view_fold (state : AccountState) (events : List (IEvent EventData)) :
    view ((accountAggregate stamp).fold state events) = events.foldl act (view state) := by
  induction events generalizing state with
  | nil => rfl
  | cons event events ih =>
      rw [ThrowingClass.fold_cons, ih, view_handle]
      rfl

/-- An account takes every event that it has a handler for, but for taking an
order back while there were none. -/
theorem takes_iff {state : AccountState} {event : IEvent EventData} {fromHistory : Bool} :
    (accountAggregate stamp).Takes fromHistory state event ↔ event.name ∈ kinds ∧
      (event.name = "RollbackOrderCreatedEvent" → state.orders ≠ none) := by
  rw [← applyHandler_isSome_iff]
  have hThrows : (accountAggregate stamp).applyThrows event.name state event =
      if event.name = "RollbackOrderCreatedEvent" ∧ state.orders = none then
        some (.error "TypeError" "Cannot read properties of undefined (reading 'filter')")
      else none := rfl
  have hHandlers : (accountAggregate stamp).applyHandler = applyHandler := rfl
  have hDeleted : (accountAggregate stamp).deleted state = false := rfl
  rw [ThrowingClass.Takes, ThrowingClass.Accepts, hThrows, hHandlers, hDeleted]
  simp [not_and]

/-- There are orders as soon as one was created. -/
theorem orders_fold_eq_none_iff {state : AccountState} {events : List (IEvent EventData)} :
    ((accountAggregate stamp).fold state events).orders = none ↔
      state.orders = none ∧ ∀ event ∈ events, event.name ≠ "OrderCreatedEvent" := by
  induction events generalizing state with
  | nil => simp
  | cons event events ih =>
      have hHandlers : (accountAggregate stamp).applyHandler = applyHandler := rfl
      have hStep : ((accountAggregate stamp).handle state event).orders = none ↔
          state.orders = none ∧ event.name ≠ "OrderCreatedEvent" := by
        rw [ThrowingClass.handle, hHandlers]
        by_cases hKind : event.name ∈ kinds
        · simp only [kinds, List.mem_cons, List.not_mem_nil, or_false] at hKind
          rcases hKind with h | h | h | h | h | h | h <;>
            simp [h, applyHandler, handleAccountCreated, handleFunds, handleRollbackWithdrawal,
              handleCreate, handleRollbackOrderCreated]
        · have hName : event.name ≠ "OrderCreatedEvent" := by
            intro hThis
            rw [hThis] at hKind
            exact hKind (by decide)
          rw [← applyHandler_isSome_iff, Option.not_isSome_iff_eq_none] at hKind
          rw [hKind]
          simp [hName]
      rw [ThrowingClass.fold_cons, ih, hStep, List.forall_mem_cons, and_assoc]

/-- With orders, an account takes all events of its kinds. -/
theorem takesAll_of_orders {state : AccountState} {events : List (IEvent EventData)}
    (hOrders : state.orders ≠ none) (hKinds : ∀ event ∈ events, event.name ∈ kinds)
    (fromHistory : Bool) : (accountAggregate stamp).TakesAll fromHistory state events := by
  induction events generalizing state with
  | nil => trivial
  | cons event events ih =>
      refine ⟨takes_iff.mpr ⟨hKinds event List.mem_cons_self, fun _ => hOrders⟩, ih ?_ ?_⟩
      · intro hNone
        have hFold : ((accountAggregate stamp).fold state [event]).orders = none := hNone
        exact hOrders (orders_fold_eq_none_iff.mp hFold).1
      · exact fun other hOther => hKinds other (List.mem_cons_of_mem _ hOther)

/-- Only events that an account has handlers for are in a stream from which it
can be loaded. -/
theorem kinds_of_takesAll {state : AccountState} {events : List (IEvent EventData)}
    (h : (accountAggregate stamp).TakesAll true state events) :
    ∀ event ∈ events, event.name ∈ kinds := by
  induction events generalizing state with
  | nil => exact List.forall_mem_nil _
  | cons event events ih =>
      obtain ⟨hTakes, hRest⟩ := h
      exact List.forall_mem_cons.mpr ⟨(takes_iff.mp hTakes).1, ih hRest⟩

/-! ### Events that take others back -/

/-- The kinds of events that have a `Rollback` handler. -/
def Revocable (event : IEvent EventData) : Prop :=
  event.name = "FundsWithdrawnEvent" ∨ event.name = "OrderCreatedEvent"

/-- The kinds of events that these handlers make. -/
def Revoking (event : IEvent EventData) : Prop :=
  event.name = "RollbackFundsWithdrawnEvent" ∨ event.name = "RollbackOrderCreatedEvent"

instance (event : IEvent EventData) : Decidable (Revoking event) :=
  inferInstanceAs (Decidable (_ ∨ _))

/-- What was added and is taken away again makes no difference. -/
theorem minus_plus {balance funds : Option Int} (h : funds ≠ none) :
    minus (plus balance funds) funds = balance := by
  cases funds with
  | none => exact absurd rfl h
  | some funds =>
      cases balance with
      | none => rfl
      | some balance =>
          simp only [plus, minus, Option.bind_some, Option.map_some]
          rw [Int.add_sub_cancel]

/-- The order of two subtractions does not matter. -/
theorem minus_comm (balance a b : Option Int) :
    minus (minus balance a) b = minus (minus balance b) a := by
  cases balance <;> cases a <;> cases b <;> simp [minus]
  omega

/-- Nor does that of an addition and a subtraction. -/
theorem plus_minus_comm (balance a b : Option Int) :
    minus (plus balance a) b = plus (minus balance b) a := by
  cases balance <;> cases a <;> cases b <;> simp [plus, minus]
  omega

/-- Giving money back and adding to or taking from the balance may change
places, but for what sets the balance. -/
theorem balanceAfter_comm {event undo : IEvent EventData}
    (hCreated : event.name ≠ "AccountCreatedEvent") (hUndo : Revoking undo)
    (balance : Option Int) :
    balanceAfter (balanceAfter balance event) undo =
      balanceAfter (balanceAfter balance undo) event := by
  rcases hUndo with h | h
  · unfold balanceAfter
    simp only [h, hCreated, String.reduceEq, or_self, if_false, if_true]
    split
    · exact plus_minus_comm ..
    · split
      · exact minus_comm ..
      · rfl
  · simp [balanceAfter, h]

/-- Taking an order back may change places with anything but that order. -/
theorem ordersAfter_comm {event undo : IEvent EventData} (hUndo : Revoking undo)
    (hId : event.name = "OrderCreatedEvent" → undo.name = "RollbackOrderCreatedEvent" →
      event.data.id ≠ undo.data.id) (orders : List IOrder) :
    ordersAfter (ordersAfter orders event) undo =
      ordersAfter (ordersAfter orders undo) event := by
  rcases hUndo with h | h
  · simp [ordersAfter, h]
  · unfold ordersAfter
    simp only [h, String.reduceEq, if_false, if_true]
    split
    · next hOrder =>
        have hKept : [orderOf event].filter (·.id ≠ undo.data.id) = [orderOf event] := by
          simp [hId hOrder h]
        rw [List.filter_append, hKept]
    · split
      · rw [List.filter_filter, List.filter_filter]
        apply List.filter_congr
        intro order _
        exact Bool.and_comm _ _
      · rfl

/-- An event that takes something back commutes with every event it has nothing to do with. -/
theorem commute_of_revoking {event undo : IEvent EventData}
    (hCreated : event.name ≠ "AccountCreatedEvent") (hUndo : Revoking undo)
    (hId : event.name = "OrderCreatedEvent" → undo.name = "RollbackOrderCreatedEvent" →
      event.data.id ≠ undo.data.id) : Compensation.Commute act event undo := by
  intro account
  have hName : undo.name ≠ "AccountCreatedEvent" := by
    rcases hUndo with h | h <;> simp [h]
  simp only [act, if_neg hCreated, if_neg hName, balanceAfter_comm hCreated hUndo,
    ordersAfter_comm hUndo hId]

/-- The orders of an account are those of its events. -/
theorem mem_orders_foldl {order : IOrder} {account : AccountView}
    {events : List (IEvent EventData)} (h : order ∈ (events.foldl act account).orders) :
    order ∈ account.orders ∨
      ∃ event ∈ events, event.name = "OrderCreatedEvent" ∧ order = orderOf event := by
  induction events generalizing account with
  | nil => exact Or.inl h
  | cons event events ih =>
      rcases ih h with hHere | ⟨other, hOther, hOrder⟩
      · change order ∈ ordersAfter account.orders event at hHere
        unfold ordersAfter at hHere
        split at hHere
        · next hName =>
            rcases List.mem_append.mp hHere with hOld | hNew
            · exact Or.inl hOld
            · exact Or.inr ⟨event, List.mem_cons_self, hName, List.mem_singleton.mp hNew⟩
        · split at hHere
          · exact Or.inl (List.mem_of_mem_filter hHere)
          · exact Or.inl hHere
      · exact Or.inr ⟨other, List.mem_cons_of_mem _ hOther, hOrder⟩

/-- An order stays in the account until it is taken back. -/
theorem mem_orders_foldl_of_kept {order : IOrder} {account : AccountView}
    {events : List (IEvent EventData)}
    (hKept : ∀ event ∈ events, event.name = "RollbackOrderCreatedEvent" →
      event.data.id ≠ order.id)
    (h : order ∈ account.orders ∨
      ∃ event ∈ events, event.name = "OrderCreatedEvent" ∧ order = orderOf event) :
    order ∈ (events.foldl act account).orders := by
  induction events generalizing account with
  | nil =>
      rcases h with hHere | ⟨event, hEvent, -⟩
      · exact hHere
      · cases hEvent
  | cons event events ih =>
      apply ih fun other hOther => hKept other (List.mem_cons_of_mem _ hOther)
      change order ∈ ordersAfter account.orders event ∨ _
      unfold ordersAfter
      rcases h with hHere | ⟨other, hOther, hName, rfl⟩
      · left
        split
        · exact List.mem_append_left _ hHere
        · split
          · next hBack =>
              rw [List.mem_filter, decide_eq_true_iff]
              exact ⟨hHere, (hKept event List.mem_cons_self hBack).symm⟩
          · exact hHere
      · rcases List.mem_cons.mp hOther with rfl | hLater
        · left
          rw [if_pos hName]
          exact List.mem_append_right _ List.mem_cons_self
        · exact Or.inr ⟨other, hLater, hName, rfl⟩

/-- The event that a `Rollback` handler makes of this one, as it is committed. -/
structure Revokes (event undo : IEvent EventData) : Prop where
  withdrawn : event.name = "FundsWithdrawnEvent" →
    undo.name = "RollbackFundsWithdrawnEvent" ∧ undo.data.funds = event.data.funds
  ordered : event.name = "OrderCreatedEvent" →
    undo.name = "RollbackOrderCreatedEvent" ∧ undo.data.id = event.data.id

/-- What takes an event back is of a revoking kind. -/
theorem Revokes.revoking {event undo : IEvent EventData} (h : Revokes event undo)
    (hEvent : Revocable event) : Revoking undo := by
  rcases hEvent with hName | hName
  · exact Or.inl (h.withdrawn hName).1
  · exact Or.inr (h.ordered hName).1

/-- A withdrawal is taken back by giving the money back, an order by removing
it, as long as it has an id of its own. -/
theorem Revokes.takesBack {event undo : IEvent EventData} (h : Revokes event undo)
    (hEvent : Revocable event) {account : AccountView}
    (hFunds : event.name = "FundsWithdrawnEvent" → event.data.funds ≠ none)
    (hId : event.name = "OrderCreatedEvent" →
      ∀ order ∈ account.orders, order.id ≠ event.data.id) :
    Compensation.TakesBack act account event undo := by
  unfold Compensation.TakesBack
  rcases hEvent with hName | hName
  · obtain ⟨hUndo, hData⟩ := h.withdrawn hName
    simp [act, balanceAfter, ordersAfter, hName, hUndo, hData, minus_plus (hFunds hName)]
  · obtain ⟨hUndo, hData⟩ := h.ordered hName
    have hOrders : account.orders.filter (·.id ≠ event.data.id) = account.orders := by
      rw [List.filter_eq_self]
      intro order hOrder
      simpa using hId hName order hOrder
    simp only [decide_not] at hOrders
    simp [act, balanceAfter, ordersAfter, hName, hUndo, hData, hOrders]

end Moirae.Account
