import Moirae.Core.Distributor

/-! What the publishers share: the status, the message codec, the two ways to
subscribe, and when the closure that `subscribe` installs acknowledges. -/
namespace Moirae

/-- State tracker enum for publishers and busses. -/
inductive ESState
  | NOT_READY
  | PREPARING
  | IDLE
  | ACTIVE
  | SHUTTING_DOWN
  deriving DecidableEq, Repr

/-- A thrown value: an instance of `Error` or anything else. -/
inductive Thrown
  | error (name message : String)
  | value (text : String)
  deriving DecidableEq, Repr

/-- `!!text` for an optional string: neither undefined nor empty. -/
def truthy : Option String → Bool
  | none => false
  | some text => text ≠ ""

/-- The routing fields of a message. `$disableResponse` left undefined is
`false`. -/
class Respondable (Evt : Type) where
  name : Evt → String
  uuid : Evt → String
  disableResponse : Evt → Bool
  responseKey : Evt → Option String
  routingKey : Evt → Option String
  setRoutingKey : Option String → Evt → Evt

/-- `EventProcessor`: turning a message into JSON text and back. Both go
through `class-transformer`; the second one also runs the constructor of the
message's class. Either may throw. -/
structure EventProcessor (Evt : Type) where
  serializeEvent : Evt → Except Thrown String
  parseEvent : String → Except Thrown Evt

/-- What a publisher relies on: the text of a message is that of a JSON object,
so it is not empty. -/
def EventProcessor.WritesText {Evt : Type} (codec : EventProcessor Evt) : Prop :=
  ∀ evt text, codec.serializeEvent evt = .ok text → text ≠ ""

/-- A text that can be turned back into a message: its class, if it is known, has
a constructor that does not throw without arguments. -/
def EventProcessor.CanParse {Evt : Type} (codec : EventProcessor Evt) (text : String) : Prop :=
  ∃ evt, codec.parseEvent text = .ok evt

theorem EventProcessor.canParse_iff {Evt : Type} {codec : EventProcessor Evt} {text : String} :
    codec.CanParse text ↔ (codec.parseEvent text).isOk = true := by
  rw [CanParse]
  cases codec.parseEvent text <;> simp [Except.isOk, Except.toBool]

instance {Evt : Type} (codec : EventProcessor Evt) (text : String) :
    Decidable (codec.CanParse text) :=
  decidable_of_iff _ EventProcessor.canParse_iff.symm

/-- `subscribe` installs a worker closure, `listen` one that only calls its
function. -/
inductive Role
  | worker
  | listener
  deriving DecidableEq, Repr

/-- A closure on the distributor. Every call of `subscribe` or `listen` makes a
closure of its own, so the key it returns identifies the closure too. -/
structure Subscriber where
  key : Uuid
  role : Role
  deriving DecidableEq, Repr

/-- How the promise of the worker function ends. A function that throws at once
rejects it too, because the worker closure is `async`. -/
inductive Outcome
  | resolved
  | rejected (reason : Thrown)
  deriving DecidableEq, Repr

namespace BasePublisher

variable {Evt : Type} [Respondable Evt]

/-- The worker closure sends a response for this message. -/
def responds (evt : Evt) : Bool :=
  !Respondable.disableResponse evt && truthy (Respondable.responseKey evt) &&
    truthy (Respondable.routingKey evt)

/-- Does the worker closure come to `acknowledgeEvent`? Each `await` before it
passes a rejection on: that of the worker function, and that of sending the
response when there is one to send. -/
def acknowledges (evt : Evt) (outcome : Outcome) (response : Except Thrown Unit) : Bool :=
  match outcome with
  | .rejected _ => false
  | .resolved => match responds evt, response with
    | true, .error _ => false
    | _, _ => true

theorem acknowledges_iff {evt : Evt} {outcome : Outcome} {response : Except Thrown Unit} :
    acknowledges evt outcome response = true ↔
      outcome = .resolved ∧ (responds evt = true → response = .ok ()) := by
  cases outcome with
  | rejected reason => simp [acknowledges]
  | resolved =>
      cases hResponds : responds evt <;> cases response <;> simp [acknowledges, hResponds]

/-- From the moment shutdown starts, the publisher is not at work any more, and
workers have the messages they had then. -/
def StaysDown {Handed : Type} (status : ESState) (handed : List Handed)
    (atShutdown : Option (List Handed)) : Prop :=
  ∀ before, atShutdown = some before → status ≠ .IDLE ∧ status ≠ .ACTIVE ∧ handed = before

theorem staysDown_of_running {Handed : Type} {status : ESState} {handed : List Handed}
    {atShutdown : Option (List Handed)} (h : atShutdown = none) :
    StaysDown status handed atShutdown := by
  rintro before hBefore
  rw [h] at hBefore
  cases hBefore

/-- Shutdown starts. -/
theorem staysDown_begun {Handed : Type} (handed : List Handed) :
    StaysDown .SHUTTING_DOWN handed (some handed) := by
  rintro before hBefore
  exact ⟨ESState.noConfusion, ESState.noConfusion, Option.some.inj hBefore⟩

/-- Shutdown ends. -/
theorem StaysDown.shutDown {Handed : Type} {status : ESState} {handed : List Handed}
    {atShutdown : Option (List Handed)} (h : StaysDown status handed atShutdown) :
    StaysDown .NOT_READY handed atShutdown := by
  rintro before hBefore
  exact ⟨ESState.noConfusion, ESState.noConfusion, (h before hBefore).2.2⟩

instance {Handed : Type} [DecidableEq Handed] (status : ESState) (handed : List Handed) :
    ∀ atShutdown, Decidable (StaysDown status handed atShutdown)
  | none => .isTrue (staysDown_of_running rfl)
  | some before =>
      decidable_of_iff (status ≠ .IDLE ∧ status ≠ .ACTIVE ∧ handed = before)
        ⟨fun h _ hOther => Option.some.inj hOther ▸ h, fun h => h before rfl⟩

end BasePublisher

end Moirae
