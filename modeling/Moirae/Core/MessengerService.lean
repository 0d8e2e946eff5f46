import Moirae.Core.BasePublisher

/-! The internal messaging bus. Handlers are registered with an event emitter
under the name of the message class they want. -/
namespace Moirae

/-- What `on` remembers of a subscription. -/
structure MessengerSubscription (Handler : Type) where
  message : String
  handler : Handler
  deriving DecidableEq

/-- Subscriptions by id, and the emitter's listeners in the order they were
added. -/
structure MessengerService (Handler : Type) where
  subscriptions : KeyedMap Uuid (MessengerSubscription Handler)
  listeners : List (MessengerSubscription Handler)

namespace MessengerService

variable {Handler : Type}

def new : MessengerService Handler := ⟨.empty, []⟩

/-- `subscriptionId` is the fresh `randomUUID()` that `on` returns. -/
def on (service : MessengerService Handler) (subscriptionId : Uuid) (message : String)
    (handler : Handler) : MessengerService Handler :=
  { subscriptions := service.subscriptions.set subscriptionId ⟨message, handler⟩
    listeners := service.listeners ++ [⟨message, handler⟩] }

/-- The handlers that publishing a message of this class calls, in order. -/
def publish (service : MessengerService Handler) (name : String) : List Handler :=
  (service.listeners.filter (·.message = name)).map MessengerSubscription.handler

def undefinedSubscriptionError : Thrown :=
  .error "TypeError" "Cannot destructure property 'handler' of undefined"

/-- An id that is not there cannot be destructured. -/
def unsubscribe [DecidableEq Handler] (service : MessengerService Handler)
    (subscriptionId : Uuid) : Except Thrown (MessengerService Handler) :=
  match service.subscriptions.get subscriptionId with
  | none => .error undefinedSubscriptionError
  | some subscription =>
      .ok
        { subscriptions := service.subscriptions.delete subscriptionId
          listeners := Distributor.removeListener service.listeners subscription }

/-- How many subscriptions to a message class are live. -/
def live (service : MessengerService Handler) (message : String) : Nat :=
  (service.subscriptions.entries.filter (·.2.message = message)).length

end MessengerService

end Moirae
