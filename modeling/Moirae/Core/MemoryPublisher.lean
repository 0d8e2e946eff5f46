import Moirae.Core.BasePublisher
import Moirae.Runs.Execution

/-! The in-memory publisher and its runs: publishing, subscribing and
unsubscribing, and worker closures that settle, in any order. -/
namespace Moirae

structure MemoryPublisher where
  nodeId : Option String
  distributor : Distributor Subscriber
  status : ESState
  queue : Queue String
  /-- How many random keys were drawn so far. -/
  uuids : Nat

/-- What a call of `advanceBus` does besides changing the publisher. -/
inductive Advance (Evt : Type)
  | nothing
  | threw (reason : Thrown)
  /-- The event parsed from this item was published to the distributor. -/
  | emitted (item : String) (evt : Evt)

namespace MemoryPublisher

variable {Evt : Type} [Respondable Evt] (codec : EventProcessor Evt)

/-- The publisher after `onApplicationBootstrap`. -/
def bootstrapped (nodeId : Option String) : MemoryPublisher :=
  { nodeId, distributor := .new, status := .IDLE, queue := .new, uuids := 0 }

def advanceBus (p : MemoryPublisher) : MemoryPublisher × Advance Evt :=
  if p.distributor.listenerCount = 0 ∨ p.status ≠ .IDLE then (p, .nothing)
  else
    match p.queue.dequeue with
    | (none, queue) => ({ p with queue }, .nothing)
    | (some item, queue) =>
        if item = "" then ({ p with queue }, .nothing)
        else
          -- The status is set before parsing, so it stays ACTIVE when that throws.
          let active := { p with queue, status := .ACTIVE }
          match codec.parseEvent item with
          | .error reason => (active, .threw reason)
          | .ok evt => (active, .emitted item evt)

def handleAcknowledge (p : MemoryPublisher) : MemoryPublisher × Advance Evt :=
  advanceBus codec p

def acknowledgeEvent (p : MemoryPublisher) : MemoryPublisher × Advance Evt :=
  handleAcknowledge codec { p with status := .IDLE }

def handlePublish (p : MemoryPublisher) (eventString : String) :
    MemoryPublisher × Advance Evt :=
  match p.queue.enqueue p.uuids eventString with
  | none => ({ p with uuids := p.uuids + 1 },
      .threw (.error "TypeError" "Cannot set properties of undefined (setting 'nextKey')"))
  | some queue =>
      let waiting := { p with queue, uuids := p.uuids + 1 }
      if queue.size = 1 then advanceBus codec waiting else (waiting, .nothing)

/-- The text that `publish` serialises the event to, if it can. -/
def serialized (p : MemoryPublisher) (event : Evt) : Except Thrown String :=
  codec.serializeEvent (Respondable.setRoutingKey p.nodeId event)

def publish (p : MemoryPublisher) (event : Evt) : MemoryPublisher × Advance Evt :=
  match serialized codec p event with
  | .error reason => (p, .threw reason)
  | .ok eventString => handlePublish codec p eventString

def subscribeAs (role : Role) (p : MemoryPublisher) : MemoryPublisher :=
  { p with
    distributor := p.distributor.subscribe p.uuids ⟨p.uuids, role⟩
    uuids := p.uuids + 1 }

def subscribe (p : MemoryPublisher) : MemoryPublisher := subscribeAs .worker p

def listen (p : MemoryPublisher) : MemoryPublisher := subscribeAs .listener p

def unsubscribe (p : MemoryPublisher) (key : Uuid) : MemoryPublisher :=
  { p with distributor := p.distributor.unsubscribe key }

/-- An invocation of a worker closure that has not settled. `delivery` counts
the messages handed out before. -/
structure Handling (Evt : Type) where
  delivery : Nat
  worker : Uuid
  evt : Evt

/-- An item that was published to the distributor, and the workers called. -/
structure Delivery where
  item : String
  workers : List Uuid
  deriving DecidableEq

/-- A publisher at work, with what has happened so far: the texts published and
the deliveries made, in order, the invocations still running and the places of
the deliveries that were acknowledged. -/
structure World (Evt : Type) where
  publisher : MemoryPublisher
  published : List String
  handed : List Delivery
  running : List (Handling Evt)
  acknowledged : List Nat

inductive Action (Evt : Type)
  | publish (event : Evt)
  | subscribe
  | listen
  | unsubscribe (key : Uuid)
  /-- The running invocation at this place settles; the response is sent, if
  there is one to send, with the given result. -/
  | settle (place : Nat) (outcome : Outcome) (response : Except Thrown Unit)

namespace World

def initial (nodeId : Option String) : World Evt :=
  { publisher := bootstrapped nodeId, published := [], handed := [], running := []
    acknowledged := [] }

/-- The items in the queue, first to last. -/
def waiting (w : World Evt) : List String := w.publisher.queue.contents

/-- `throws delivery subscriber`: the subscriber's closure throws when it is
called for this delivery. Worker closures are `async` and never do. -/
def startedWorkers (throws : Nat → Uuid → Bool) (w : World Evt) : List Uuid :=
  ((w.publisher.distributor.publish fun subscriber =>
    subscriber.role = .listener && throws w.handed.length subscriber.key).filter
      (·.role = .worker)).map Subscriber.key

/-- Record what an advance did: the workers called for the event are running. -/
def record (throws : Nat → Uuid → Bool) (w : World Evt) :
    MemoryPublisher × Advance Evt → World Evt
  | (publisher, .emitted item evt) =>
      { w with
        publisher
        handed := w.handed ++ [⟨item, w.startedWorkers throws⟩]
        running := w.running ++
          (w.startedWorkers throws).map fun worker => ⟨w.handed.length, worker, evt⟩ }
  | (publisher, _) => { w with publisher }

/-- One step of a run. A subscriber is called at the very end of `advanceBus`,
and that at the very end of the call that reached it. So what a worker does
before its first `await`, publishing again included, comes out as steps that
follow this one. -/
def step (throws : Nat → Uuid → Bool) (w : World Evt) : Action Evt → Option (World Evt)
  | .publish event =>
      let sent := match serialized codec w.publisher event with
        | .error _ => []
        | .ok eventString => [eventString]
      some { record throws w (publish codec w.publisher event) with
        published := w.published ++ sent }
  | .subscribe => some { w with publisher := w.publisher.subscribe }
  | .listen => some { w with publisher := w.publisher.listen }
  | .unsubscribe key => some { w with publisher := w.publisher.unsubscribe key }
  | .settle place outcome response =>
      match w.running[place]? with
      | none => none
      | some handling =>
          let settled := { w with running := w.running.eraseIdx place }
          if BasePublisher.acknowledges handling.evt outcome response then
            some (record throws
              { settled with acknowledged := w.acknowledged ++ [handling.delivery] }
              (acknowledgeEvent codec w.publisher))
          else some settled

end World

end MemoryPublisher

end Moirae
