import Moirae.Core.MessengerService
import Moirae.Runs.Execution

/-! The connection to the broker over its whole life: it is opened when the
module starts, a message about its end may open the next one, and shutdown
closes it. -/
namespace Moirae

/-- The messages about the connection. -/
inductive RabbitMQMessage
  | RabbitMQConnectionOpenedMessage
  | RabbitMQConnectionReOpenedMessage
  | RabbitMQConnectionErrorMessage (error : Thrown)
  | RabbitMQConnectionClosedMessage (crashed : Bool)
  deriving DecidableEq

namespace RabbitMQMessage

/-- `this.constructor.name` of the message. -/
def name : RabbitMQMessage → String
  | RabbitMQConnectionOpenedMessage => "RabbitMQConnectionOpenedMessage"
  | RabbitMQConnectionReOpenedMessage => "RabbitMQConnectionReOpenedMessage"
  | RabbitMQConnectionErrorMessage _ => "RabbitMQConnectionErrorMessage"
  | RabbitMQConnectionClosedMessage _ => "RabbitMQConnectionClosedMessage"

/-- `message.crashed`, undefined on the other messages. -/
def crashed : RabbitMQMessage → Bool
  | RabbitMQConnectionClosedMessage crashed => crashed
  | _ => false

end RabbitMQMessage

/-- The connection parameters, if any, known by their host. -/
structure IRabbitMQConfig where
  amqplib : Option String

structure IRabbitMQPublisherConfig where
  command : IRabbitMQConfig
  event : IRabbitMQConfig
  query : IRabbitMQConfig

/-- The fields of the provider. A connection is known by its number. -/
structure RabbitMQConnection where
  config : IRabbitMQPublisherConfig
  connection : Option Nat
  connectionOpenedOnce : Bool
  closedSubscriptionId : Option Uuid

namespace RabbitMQConnection

def new (config : IRabbitMQPublisherConfig) : RabbitMQConnection :=
  { config, connection := none, connectionOpenedOnce := false, closedSubscriptionId := none }

def amqplibConfig (provider : RabbitMQConnection) : Option IRabbitMQConfig :=
  [provider.config.command, provider.config.event, provider.config.query].find?
    (·.amqplib.isSome)

def missingConfigurationError : Thrown :=
  .error "InvalidConfigurationError" "Missing amqplib configuration"

/-- A connection that has not emitted `close`, and whether `close()` was called
on it. -/
structure Link where
  number : Nat
  closing : Bool
  deriving DecidableEq

/-- How far `onApplicationShutdown` is. -/
inductive Shutdown
  | notCalled
  | awaitsClose
  | ended
  deriving DecidableEq

/-- The provider with the messenger and the connections. `connecting` counts the
calls of `onModuleInit` that wait for `connect`, `crashes` the closes with an
error before shutdown; `openedLate` are the connections opened after it. -/
structure World where
  provider : RabbitMQConnection
  messenger : MessengerService Uuid
  uuids : Nat
  published : List RabbitMQMessage
  connecting : Nat
  links : List Link
  opened : Nat
  crashes : Nat
  shutdown : Shutdown
  openedLate : Nat

inductive Action
  /-- A waiting `connect` succeeds. -/
  | connected
  /-- Code that holds a connection calls `close()` on it. -/
  | requestClose (number : Nat)
  | error (error : Thrown)
  /-- The connection at this place emits `close`, with this error if nobody had
  asked for it. -/
  | closed (place : Nat) (error : Thrown)
  /-- `onApplicationShutdown`, up to its `await`. -/
  | shutDown
  /-- The `close()` of the shutdown is over. -/
  | shutDownEnds (result : Except Thrown Unit)

namespace World

def new (config : IRabbitMQPublisherConfig) : World :=
  { provider := .new config, messenger := .new, uuids := 0, published := [], connecting := 0
    links := [], opened := 0, crashes := 0, shutdown := .notCalled, openedLate := 0 }

/-- `onModuleInit`, up to its `await`. -/
def onModuleInit (w : World) : Except Thrown World :=
  match w.provider.amqplibConfig with
  | none => .error missingConfigurationError
  | some _ => .ok { w with connecting := w.connecting + 1 }

/-- The handler that `onModuleInit` subscribes. It is `async`, so that nobody
sees it throw. -/
def handleClosed (message : RabbitMQMessage) (w : World) : World :=
  if message.crashed then
    match w.onModuleInit with
    | .error _ => w
    | .ok next => next
  else w

def publish (w : World) (message : RabbitMQMessage) : World :=
  (w.messenger.publish message.name).foldl (fun w _ => w.handleClosed message)
    { w with published := w.published ++ [message] }

/-- `messengerService.on` with the handler for closed connections. -/
def onClosed (w : World) : World :=
  { w with
    messenger := w.messenger.on w.uuids "RabbitMQConnectionClosedMessage" w.uuids
    provider := { w.provider with closedSubscriptionId := some w.uuids }
    uuids := w.uuids + 1 }

/-- What `connect` gives to the waiting call. -/
def opens (w : World) : World :=
  { w with
    connecting := w.connecting - 1
    links := w.links ++ [⟨w.opened, false⟩]
    opened := w.opened + 1
    openedLate := if w.shutdown = .notCalled then w.openedLate else w.openedLate + 1
    provider := { w.provider with connection := some w.opened } }

/-- `onModuleInit`, after its `await`. -/
def connected (w : World) : World :=
  let opened := w.opens.onClosed.publish .RabbitMQConnectionOpenedMessage
  let reOpened :=
    if opened.provider.connectionOpenedOnce then
      opened.publish .RabbitMQConnectionReOpenedMessage
    else opened
  { reOpened with provider := { reOpened.provider with connectionOpenedOnce := true } }

/-- `close()` on a connection. -/
def requestClose (w : World) (number : Nat) : World :=
  { w with
    links := w.links.map fun link =>
      if link.number = number then { link with closing := true } else link }

/-- The listener for `close`, with `err` undefined after a `close()`. -/
def closed (w : World) (place : Nat) (link : Link) (error : Thrown) : World :=
  let err := if link.closing then none else some error
  let crashed := err.isSome && w.shutdown = .notCalled
  { w with
    links := w.links.eraseIdx place
    crashes := if crashed then w.crashes + 1 else w.crashes }.publish
      (.RabbitMQConnectionClosedMessage !!!err.isSome)

/-- `onApplicationShutdown`, up to its `await`. What it throws before that ends
it. -/
def onApplicationShutdown (w : World) : World :=
  match w.provider.closedSubscriptionId with
  | none => { w with shutdown := .ended }
  | some subscriptionId =>
      match w.messenger.unsubscribe subscriptionId with
      | .error _ => { w with shutdown := .ended }
      | .ok messenger =>
          let unsubscribed : World := { w with shutdown := .awaitsClose, messenger }
          match w.provider.connection with
          | none => unsubscribed
          | some number => unsubscribed.requestClose number

/-- `onApplicationShutdown`, after its `await`. An error is only logged. -/
def shutDownEnds (w : World) : Except Thrown Unit → World
  | .error _ => { w with shutdown := .ended }
  | .ok () => { w with shutdown := .ended }.publish (.RabbitMQConnectionClosedMessage false)

def step (w : World) : Action → Option World
  | .connected => if 0 < w.connecting then some w.connected else none
  | .requestClose number => some (w.requestClose number)
  | .error error => some (w.publish (.RabbitMQConnectionErrorMessage error))
  | .closed place error =>
      match w.links[place]? with
      | none => none
      | some link => some (w.closed place link error)
  | .shutDown => if w.shutdown = .notCalled then some w.onApplicationShutdown else none
  | .shutDownEnds result =>
      if w.shutdown = .awaitsClose then some (w.shutDownEnds result) else none

/-- The world after `onModuleInit` of the application start. -/
def start (config : IRabbitMQPublisherConfig) : Except Thrown World :=
  (World.new config).onModuleInit.map connected

/-- A connection was opened, or is being opened, for the start and for every
crash, one subscription at most is live, and shutdown is the end. -/
def Accounted (w : World) : Prop :=
  w.opened + w.connecting = 1 + w.crashes ∧
    w.messenger.live "RabbitMQConnectionClosedMessage" ≤ 1 ∧ w.openedLate = 0

instance (w : World) : Decidable w.Accounted :=
  inferInstanceAs (Decidable (w.opened + w.connecting = 1 + w.crashes ∧
    w.messenger.live "RabbitMQConnectionClosedMessage" ≤ 1 ∧ w.openedLate = 0))

/-- No connection closes before shutdown. -/
def ClosesInShutdown (w : World) : Action → Prop
  | .closed _ _ => w.shutdown ≠ .notCalled
  | _ => True

instance (w : World) : ∀ a, Decidable (w.ClosesInShutdown a)
  | .closed _ _ => inferInstanceAs (Decidable (w.shutdown ≠ .notCalled))
  | .connected | .requestClose _ | .error _ | .shutDown | .shutDownEnds _ =>
      inferInstanceAs (Decidable True)

/-- The subscription of the first `onModuleInit` is the only one until shutdown
ends it, and nothing was opened or lost since. -/
structure Undisturbed (w : World) : Prop where
  configured : w.provider.amqplibConfig ≠ none
  opened : w.opened = 1
  connecting : w.connecting = 0
  crashes : w.crashes = 0
  openedLate : w.openedLate = 0
  closedSubscriptionId : w.provider.closedSubscriptionId = some 0
  messenger : w.messenger =
    if w.shutdown = .notCalled then MessengerService.new.on 0 "RabbitMQConnectionClosedMessage" 0
    else .new

theorem Undisturbed.accounted {w : World} (h : w.Undisturbed) : w.Accounted := by
  refine ⟨by rw [h.opened, h.connecting, h.crashes], ?_, h.openedLate⟩
  rw [h.messenger]
  split <;> decide

/-- Which connections are open does not matter. -/
theorem Undisturbed.withLinks {w : World} (h : w.Undisturbed) (links : List Link) :
    World.Undisturbed { w with links } :=
  ⟨h.configured, h.opened, h.connecting, h.crashes, h.openedLate, h.closedSubscriptionId,
    h.messenger⟩

/-- Only a message with the flag opens a connection, if somebody hears it. -/
theorem publish_of_unheard {w : World} {message : RabbitMQMessage}
    (h : w.messenger.publish message.name = [] ∨ message.crashed = false) :
    w.publish message = { w with published := w.published ++ [message] } := by
  rw [publish]
  rcases h with hNobody | hFlag
  · rw [hNobody]
    rfl
  · have hKept : ∀ v : World, v.handleClosed message = v := by
      intro v
      rw [handleClosed, hFlag]
      rfl
    simp [hKept]

theorem Undisturbed.publish {w : World} (h : w.Undisturbed) (message : RabbitMQMessage)
    (hUnheard : w.shutdown ≠ .notCalled ∨ message.crashed = false) :
    (w.publish message).Undisturbed := by
  have hNobody : w.messenger.publish message.name = [] ∨ message.crashed = false := by
    refine hUnheard.imp_left fun hLate => ?_
    rw [h.messenger, if_neg hLate]
    rfl
  rw [publish_of_unheard hNobody]
  exact ⟨h.configured, h.opened, h.connecting, h.crashes, h.openedLate, h.closedSubscriptionId,
    h.messenger⟩

theorem undisturbed_start {config : IRabbitMQPublisherConfig} {w : World}
    (h : start config = .ok w) : w.Undisturbed := by
  unfold start onModuleInit at h
  cases hConfig : (World.new config).provider.amqplibConfig with
  | none =>
      rw [hConfig] at h
      cases h
  | some found =>
      rw [hConfig] at h
      cases h
      refine ⟨?_, rfl, rfl, rfl, rfl, rfl, rfl⟩
      exact fun hNone => Option.some_ne_none found (hConfig.symm.trans hNone)

theorem Undisturbed.closed {w : World} (h : w.Undisturbed) (hLate : w.shutdown ≠ .notCalled)
    (place : Nat) (link : Link) (error : Thrown) : (w.closed place link error).Undisturbed := by
  have hPublished := fun message =>
    (h.withLinks (w.links.eraseIdx place)).publish message (Or.inl hLate)
  simpa [World.closed, hLate] using hPublished _

/-- A close that somebody asked for makes the handler open a connection. -/
theorem closed_of_requested {w : World} (h : w.Undisturbed) (hBefore : w.shutdown = .notCalled)
    (place : Nat) {link : Link} (hRequested : link.closing = true) (error : Thrown) :
    (w.closed place link error).connecting = 1 ∧ (w.closed place link error).opened = 1 ∧
      (w.closed place link error).crashes = 0 := by
  have hHeard : w.messenger.publish "RabbitMQConnectionClosedMessage" = [0] := by
    rw [h.messenger, if_pos hBefore]
    rfl
  obtain ⟨found, hFound⟩ := Option.ne_none_iff_exists'.mp h.configured
  simp [World.closed, World.publish, RabbitMQMessage.name, hHeard, hRequested, handleClosed,
    RabbitMQMessage.crashed, onModuleInit, hFound, h.connecting, h.opened, h.crashes]

/-- A crash makes it do nothing. -/
theorem closed_of_crash {w : World} (h : w.Undisturbed) (hBefore : w.shutdown = .notCalled)
    (place : Nat) {link : Link} (hCrash : link.closing = false) (error : Thrown) :
    (w.closed place link error).connecting = 0 ∧ (w.closed place link error).opened = 1 ∧
      (w.closed place link error).crashes = 1 := by
  rw [World.closed, hCrash, hBefore, publish_of_unheard (Or.inr rfl)]
  refine ⟨h.connecting, h.opened, ?_⟩
  simp [h.crashes]

/-- When nothing was disturbed before, a close before shutdown makes the count
wrong, whether somebody asked for it or not. -/
theorem accounted_closed_iff {w : World} (h : w.Undisturbed) (place : Nat) (link : Link)
    (error : Thrown) : (w.closed place link error).Accounted ↔ w.shutdown ≠ .notCalled := by
  refine ⟨fun hAccounted hBefore => ?_, fun hLate => (h.closed hLate place link error).accounted⟩
  have hCount := hAccounted.1
  cases hClosing : link.closing with
  | true =>
      obtain ⟨hConnecting, hOpened, hCrashes⟩ := closed_of_requested h hBefore place hClosing error
      rw [hConnecting, hOpened, hCrashes] at hCount
      cases hCount
  | false =>
      obtain ⟨hConnecting, hOpened, hCrashes⟩ := closed_of_crash h hBefore place hClosing error
      rw [hConnecting, hOpened, hCrashes] at hCount
      cases hCount

theorem Undisturbed.onApplicationShutdown {w : World} (h : w.Undisturbed)
    (hBefore : w.shutdown = .notCalled) : w.onApplicationShutdown.Undisturbed := by
  have hUnsubscribed : w.messenger.unsubscribe 0 = .ok .new := by
    rw [h.messenger, if_pos hBefore]
    rfl
  have hBegun : World.Undisturbed { w with shutdown := .awaitsClose, messenger := .new } :=
    ⟨h.configured, h.opened, h.connecting, h.crashes, h.openedLate, h.closedSubscriptionId, rfl⟩
  rw [World.onApplicationShutdown, h.closedSubscriptionId]
  dsimp only
  rw [hUnsubscribed]
  dsimp only
  cases w.provider.connection with
  | none => exact hBegun
  | some number => exact hBegun.withLinks _

theorem Undisturbed.shutDownEnds {w : World} (h : w.Undisturbed)
    (hAwaits : w.shutdown = .awaitsClose) (result : Except Thrown Unit) :
    (w.shutDownEnds result).Undisturbed := by
  have hMessenger : w.messenger = .new := by
    rw [h.messenger, hAwaits]
    rfl
  have hOver : World.Undisturbed { w with shutdown := .ended } :=
    ⟨h.configured, h.opened, h.connecting, h.crashes, h.openedLate, h.closedSubscriptionId,
      hMessenger⟩
  cases result with
  | error reason => exact hOver
  | ok value => exact hOver.publish _ (Or.inr rfl)

theorem closed_of_step {w t : World} {place : Nat} {error : Thrown}
    (hStep : step w (.closed place error) = some t) : ∃ link, t = w.closed place link error := by
  rw [World.step] at hStep
  split at hStep
  · cases hStep
  · next link hLink => exact ⟨link, (Option.some.inj hStep).symm⟩

theorem Undisturbed.step {w t : World} {a : Action} (h : w.Undisturbed)
    (hStep : step w a = some t) (hMeets : w.ClosesInShutdown a) : t.Undisturbed := by
  cases a with
  | connected =>
      rw [World.step, h.connecting] at hStep
      cases hStep
  | requestClose number =>
      obtain rfl := Option.some.inj hStep
      exact h.withLinks _
  | error error =>
      obtain rfl := Option.some.inj hStep
      exact h.publish _ (Or.inr rfl)
  | closed place error =>
      obtain ⟨link, rfl⟩ := closed_of_step hStep
      exact h.closed hMeets place link error
  | shutDown =>
      rw [World.step] at hStep
      split at hStep
      · rename_i hBefore
        obtain rfl := Option.some.inj hStep
        exact h.onApplicationShutdown hBefore
      · cases hStep
  | shutDownEnds result =>
      rw [World.step] at hStep
      split at hStep
      · rename_i hAwaits
        obtain rfl := Option.some.inj hStep
        exact h.shutDownEnds hAwaits result
      · cases hStep

/-- As long as the count was right, it stays right exactly if the step is no
close before shutdown. -/
theorem accounted_step_iff {w t : World} {a : Action} (h : w.Undisturbed)
    (hStep : step w a = some t) : t.Accounted ↔ w.ClosesInShutdown a := by
  cases a with
  | closed place error =>
      obtain ⟨link, rfl⟩ := closed_of_step hStep
      exact accounted_closed_iff h place link error
  | connected | requestClose number | error error | shutDown | shutDownEnds result =>
      exact iff_of_true (h.step hStep trivial).accounted trivial

/-- The connections are accounted for throughout a run exactly if none closes
before shutdown: the flag of the message says the opposite of what happened. -/
theorem accounted_iff_closesInShutdown {config : IRabbitMQPublisherConfig} {w : World}
    (hStart : start config = .ok w) (actions : List Action) :
    Runs.Always step Accounted w actions ↔ Runs.StepsMeet step ClosesInShutdown w actions := by
  have hUndisturbed := undisturbed_start hStart
  exact Runs.always_iff_stepsMeet_while Undisturbed (fun _ => True)
    (fun _ _ _ _ h _ hStep hNext => h.step hStep ((accounted_step_iff h hStep).mp hNext))
    (fun _ _ _ _ h _ hStep => accounted_step_iff h hStep) hUndisturbed hUndisturbed.accounted
    (fun _ _ => trivial)

/-- A configuration with the parameters under `event` only. -/
def eventConfig : IRabbitMQPublisherConfig :=
  { command := ⟨none⟩, event := ⟨some "localhost"⟩, query := ⟨none⟩ }

/-- Closing in shutdown is all right. -/
theorem accounted_iff_closesInShutdown_shutdown :
    ∃ w, start eventConfig = .ok w ∧
      Runs.Always step Accounted w
        [.shutDown, .closed 0 (.error "Error" "Unexpected close"), .shutDownEnds (.ok ())] :=
  ⟨_, rfl, (@accounted_iff_closesInShutdown eventConfig _ rfl _).mpr (by decide)⟩

/-- The broker goes away, and the application stays without a connection. -/
theorem crash_not_reopened :
    ∃ w, start eventConfig = .ok w ∧
      ¬ Runs.Always step Accounted w [.closed 0 (.error "Error" "Unexpected close")] :=
  ⟨_, rfl, by decide⟩

end World

end RabbitMQConnection

end Moirae
