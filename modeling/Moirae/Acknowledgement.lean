import Moirae.Core.BaseBus
import Moirae.Core.MemoryDelivery
import Moirae.RabbitMQ.WorkConsumer

/-! When the publishers get past a message: what follows once the worker it was
handed to has settled. -/
namespace Moirae

/-- The worker function resolves, and so does sending the response if there is
one to send. -/
def Succeeds {Evt : Type} [Respondable Evt] (evt : Evt) (outcome : Outcome)
    (response : Except Thrown Unit) : Prop :=
  outcome = .resolved ∧ (BasePublisher.responds evt = true → response = .ok ())

namespace MemoryPublisher.World

variable {Evt : Type} {codec : EventProcessor Evt} {throws : Nat → Uuid → Bool}

variable [Respondable Evt]

end MemoryPublisher.World

namespace RabbitMQPublisher.World

variable {Evt : Type} [Respondable Evt] {codec : EventProcessor Evt}
  {throws : Nat → Uuid → Bool}

/-- Under the `$uuid` of the message the publisher still keeps this delivery,
and not a later one of the same message. -/
def Tracked (w : World Evt) (handling : Handling Evt) : Prop :=
  (w.publisher.activeInbound.get (Respondable.uuid handling.evt)).map Inbound.deliveryTag =
    some handling.deliveryTag

end RabbitMQPublisher.World

end Moirae
