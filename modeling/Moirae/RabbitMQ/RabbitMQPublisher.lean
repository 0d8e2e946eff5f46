import Moirae.Core.BasePublisher
import Moirae.Runs.Execution

/-! The RabbitMQ publisher as the consumer of its work channel: deliveries that
arrive in any status, subscribers that come and go, and worker closures that
settle, in any order. -/
namespace Moirae

/-- A message as the broker delivers it. A redelivery has a tag of its own. -/
structure Inbound where
  deliveryTag : Nat
  content : String
  deriving DecidableEq

/-- The two ways to settle a delivery on its channel. -/
inductive Settlement
  | ack
  | reject (requeue : Bool)
  deriving DecidableEq, Repr

structure RabbitMQPublisher where
  distributor : Distributor Subscriber
  status : ESState
  activeInbound : KeyedMap String Inbound
  /-- How many random keys were drawn so far. -/
  uuids : Nat

namespace RabbitMQPublisher

variable {Evt : Type} [Respondable Evt] (codec : EventProcessor Evt)

/-- The publisher as its constructor leaves it. -/
def new : RabbitMQPublisher :=
  { distributor := .new, status := .NOT_READY, activeInbound := .empty, uuids := 0 }

/-- What was called on the work channel comes out beside the publisher. -/
def handleAcknowledge (p : RabbitMQPublisher) (event : Evt) :
    RabbitMQPublisher × List (Nat × Settlement) :=
  match p.activeInbound.get (Respondable.uuid event) with
  | none => (p, [])
  | some msg =>
      ({ p with activeInbound := p.activeInbound.delete (Respondable.uuid event) },
        [(msg.deliveryTag, .ack)])

def acknowledgeEvent (p : RabbitMQPublisher) (event : Evt) :
    RabbitMQPublisher × List (Nat × Settlement) :=
  handleAcknowledge { p with status := .IDLE } event

/-- Is the publisher unable to take a delivery? -/
def unavailable (p : RabbitMQPublisher) : Bool :=
  p.distributor.listenerCount = 0 || p.status ≠ .IDLE

/-- The consumer callback, up to the event it publishes to the distributor. It
does not return after rejecting. -/
def consume (p : RabbitMQPublisher) (msg : Inbound) :
    RabbitMQPublisher × List (Nat × Settlement) × Except Thrown Evt :=
  let rejected := if p.unavailable then [(msg.deliveryTag, .reject true)] else []
  match codec.parseEvent msg.content with
  | .error reason => (p, rejected, .error reason)
  | .ok parsedEvent =>
      ({ p with activeInbound := p.activeInbound.set (Respondable.uuid parsedEvent) msg },
        rejected, .ok parsedEvent)

def subscribeAs (role : Role) (p : RabbitMQPublisher) : RabbitMQPublisher :=
  { p with
    distributor := p.distributor.subscribe p.uuids ⟨p.uuids, role⟩
    uuids := p.uuids + 1 }

def subscribe (p : RabbitMQPublisher) : RabbitMQPublisher := subscribeAs .worker p

def listen (p : RabbitMQPublisher) : RabbitMQPublisher := subscribeAs .listener p

def unsubscribe (p : RabbitMQPublisher) (key : Uuid) : RabbitMQPublisher :=
  { p with distributor := p.distributor.unsubscribe key }

/-- An invocation of a worker closure that has not settled. -/
structure Handling (Evt : Type) where
  deliveryTag : Nat
  worker : Uuid
  evt : Evt

/-- The subscribers that were called with a delivery. -/
structure Handover where
  deliveryTag : Nat
  called : List Uuid
  deriving DecidableEq

/-- A publisher at work, with what has happened so far: how many deliveries
arrived, what was called on the channel, who was called with which delivery,
and the invocations still running. -/
structure World (Evt : Type) where
  publisher : RabbitMQPublisher
  delivered : Nat
  settlements : List (Nat × Settlement)
  handed : List Handover
  running : List (Handling Evt)

inductive Action (Evt : Type)
  /-- `onApplicationBootstrap` begins, and ends. -/
  | prepare
  | ready
  /-- `beforeApplicationShutdown` begins, and ends. -/
  | shutDown
  | close
  | subscribe
  | listen
  | unsubscribe (key : Uuid)
  /-- The broker delivers a message: a new one, or one it requeued. -/
  | deliver (content : String)
  /-- The running invocation at this place settles; the response is sent, if
  there is one to send, with the given result. -/
  | settle (place : Nat) (outcome : Outcome) (response : Except Thrown Unit)

namespace World

def initial : World Evt :=
  { publisher := .new, delivered := 0, settlements := [], handed := [], running := [] }

/-- The subscribers called with the next delivery. `throws delivery subscriber`:
the subscriber's closure throws when it is called for it. Worker closures are
`async` and never do. -/
def called (throws : Nat → Uuid → Bool) (w : World Evt) : List Subscriber :=
  w.publisher.distributor.publish fun subscriber =>
    subscriber.role = .listener && throws w.delivered subscriber.key

def step (throws : Nat → Uuid → Bool) (w : World Evt) : Action Evt → Option (World Evt)
  | .prepare => some { w with publisher := { w.publisher with status := .PREPARING } }
  | .ready => some { w with publisher := { w.publisher with status := .IDLE } }
  | .shutDown => some { w with publisher := { w.publisher with status := .SHUTTING_DOWN } }
  | .close =>
      some { w with
        publisher :=
          { w.publisher with distributor := w.publisher.distributor.clear, status := .NOT_READY } }
  | .subscribe => some { w with publisher := w.publisher.subscribe }
  | .listen => some { w with publisher := w.publisher.listen }
  | .unsubscribe key => some { w with publisher := w.publisher.unsubscribe key }
  | .deliver content =>
      let arrived := { w with delivered := w.delivered + 1 }
      match consume codec w.publisher ⟨w.delivered, content⟩ with
      | (publisher, rejected, .error _) =>
          some { arrived with publisher, settlements := w.settlements ++ rejected }
      | (publisher, rejected, .ok evt) =>
          some { arrived with
            publisher
            settlements := w.settlements ++ rejected
            handed := w.handed ++ [⟨w.delivered, (w.called throws).map Subscriber.key⟩]
            running := w.running ++
              ((w.called throws).filter (·.role = .worker)).map fun subscriber =>
                ⟨w.delivered, subscriber.key, evt⟩ }
  | .settle place outcome response =>
      match w.running[place]? with
      | none => none
      | some handling =>
          let settled := { w with running := w.running.eraseIdx place }
          if BasePublisher.acknowledges handling.evt outcome response then
            let (publisher, calls) := acknowledgeEvent w.publisher handling.evt
            some { settled with publisher, settlements := w.settlements ++ calls }
          else some settled

end World

end RabbitMQPublisher

end Moirae
