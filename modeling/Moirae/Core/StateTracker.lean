import Moirae.Core.BasePublisher
import Moirae.Core.SharedEmitter

/-! A tracked state, the functions that subscribe to it, and the promises that
wait for a state. -/
namespace Moirae

/-- What listens to a state: a function that was subscribed, or the closure that
one of the calls of `await` has subscribed. -/
inductive StateListener (Handler : Type)
  | handler (handler : Handler)
  | awaiting (call : Nat)
  deriving DecidableEq

/-- Does the listener throw? -/
def StateListener.throws {Handler : Type} (throws : Handler → Bool) :
    StateListener Handler → Bool
  | .handler own => throws own
  | .awaiting _ => false

/-- A call of `await` that had to subscribe. The promise is pending as long as
it has no result, and so long its timer runs. -/
structure Awaiting (State : Type) where
  desiredState : State
  key : Uuid
  promise : Option (Except Thrown State)

structure StateTracker (State Handler : Type) where
  state : State
  ee : EventEmitter (StateListener Handler)
  subscriptions : KeyedMap Uuid (StateListener Handler)
  uuid : String
  awaits : List (Awaiting State)

namespace StateTracker

variable {State Handler : Type}

def STATE_UPDATED : String := "__state-updated__"

/-- `_key`, the event name of a tracker. -/
def stateKey (uuid : String) : String := uuid ++ ":" ++ STATE_UPDATED

/-- `uuid` is the `randomUUID()` of the constructor. -/
def new (initialStatus : State) (eventEmitter : EventEmitter (StateListener Handler))
    (uuid : String) : StateTracker State Handler :=
  ⟨initialStatus, eventEmitter, .empty, uuid, []⟩

def listeners (tracker : StateTracker State Handler) : List (StateListener Handler) :=
  tracker.ee.listeners (stateKey tracker.uuid)

/-- What a call of `await` is rejected with when its timer fires. -/
def timeoutError : Thrown := .error "Error" "HI"

/-- `key` is the `randomUUID()` that is returned. -/
def subscribe (tracker : StateTracker State Handler) (key : Uuid)
    (handler : StateListener Handler) : StateTracker State Handler :=
  { tracker with
    ee := tracker.ee.addListener (stateKey tracker.uuid) handler
    subscriptions := tracker.subscriptions.set key handler }

/-- A promise keeps the first result it is given. -/
def settle (tracker : StateTracker State Handler) (call : Nat)
    (result : Except Thrown State) : StateTracker State Handler :=
  { tracker with
    awaits := tracker.awaits.modify call fun awaiting =>
      { awaiting with promise := awaiting.promise <|> some result } }

/-- The timer of a call of `await` fires. Only the promise hears of it. -/
def elapse (tracker : StateTracker State Handler) (call : Nat) : StateTracker State Handler :=
  tracker.settle call (.error timeoutError)

section Functions

variable [DecidableEq State] [DecidableEq Handler]

/-- The key stays in the map. -/
def unsubscribe (tracker : StateTracker State Handler) (key : Uuid) :
    StateTracker State Handler :=
  match tracker.subscriptions.get key with
  | none => tracker
  | some handler =>
      { tracker with ee := tracker.ee.removeListener (stateKey tracker.uuid) handler }

def await (tracker : StateTracker State Handler) (key : Uuid) (desiredState : State) :
    StateTracker State Handler :=
  if tracker.state = desiredState then tracker
  else
    { tracker.subscribe key (.awaiting tracker.awaits.length) with
      awaits := tracker.awaits ++ [⟨desiredState, key, none⟩] }

/-- Calling a listener. The closure of `await` ends its own subscription when it
is given the desired state. -/
def notify (newState : State) (tracker : StateTracker State Handler) :
    StateListener Handler → StateTracker State Handler
  | .handler _ => tracker
  | .awaiting call => match tracker.awaits[call]? with
    | none => tracker
    | some awaiting =>
        if newState = awaiting.desiredState then
          (tracker.unsubscribe awaiting.key).settle call (.ok newState)
        else tracker

/-- The listeners are copied before the first one is called, and `emit` stops
at one that throws. -/
def set (tracker : StateTracker State Handler) (throws : Handler → Bool) (newState : State) :
    StateTracker State Handler × List (StateListener Handler) :=
  let updated := { tracker with state := newState }
  let called := updated.ee.emit (StateListener.throws throws) (stateKey updated.uuid)
  (called.foldl (notify newState) updated, called)

end Functions

/-! ## What the functions do to the listeners -/

@[simp] theorem listeners_subscribe (tracker : StateTracker State Handler) (key : Uuid)
    (listener : StateListener Handler) :
    (tracker.subscribe key listener).listeners = tracker.listeners ++ [listener] := by
  simp [listeners, subscribe, EventEmitter.addListener]

@[simp] theorem awaits_settle (tracker : StateTracker State Handler) (call other : Nat)
    (result : Except Thrown State) :
    (tracker.settle call result).awaits[other]? =
      (tracker.awaits[other]?).map fun awaiting =>
        if call = other then { awaiting with promise := awaiting.promise <|> some result }
        else awaiting := by
  simp only [settle, List.getElem?_modify]
  rfl

section

variable [DecidableEq State] [DecidableEq Handler]

omit [DecidableEq State] in
@[simp] theorem subscriptions_unsubscribe (tracker : StateTracker State Handler) (key : Uuid) :
    (tracker.unsubscribe key).subscriptions = tracker.subscriptions := by
  unfold unsubscribe
  cases tracker.subscriptions.get key <;> rfl

omit [DecidableEq State] in
@[simp] theorem awaits_unsubscribe (tracker : StateTracker State Handler) (key : Uuid) :
    (tracker.unsubscribe key).awaits = tracker.awaits := by
  unfold unsubscribe
  cases tracker.subscriptions.get key <;> rfl

omit [DecidableEq State] in
theorem unsubscribe_of_none {tracker : StateTracker State Handler} {key : Uuid}
    (h : tracker.subscriptions.get key = none) : tracker.unsubscribe key = tracker := by
  rw [unsubscribe, h]

omit [DecidableEq State] in
theorem listeners_unsubscribe {tracker : StateTracker State Handler} {key : Uuid}
    {listener : StateListener Handler} (h : tracker.subscriptions.get key = some listener) :
    (tracker.unsubscribe key).listeners =
      Distributor.removeListener tracker.listeners listener := by
  rw [unsubscribe, h]
  simp [listeners, EventEmitter.removeListener]

/-- The closure of a call of `await`, given a state. -/
theorem notify_awaiting {tracker : StateTracker State Handler} {call : Nat}
    {awaiting : Awaiting State} (h : tracker.awaits[call]? = some awaiting) (newState : State) :
    tracker.notify newState (.awaiting call) =
      if newState = awaiting.desiredState then
        (tracker.unsubscribe awaiting.key).settle call (.ok newState)
      else tracker := by
  simp only [notify, h]

end

end StateTracker

end Moirae
