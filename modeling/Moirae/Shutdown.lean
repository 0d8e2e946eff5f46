import Moirae.Core.MemoryShutdown
import Moirae.Core.Message
import Moirae.RabbitMQ.ConsumerShutdown

/-! Both publishers in shutdown, with worker closures and deliveries still
under way. -/
namespace Moirae.Shutdown

/-- From the moment shutdown starts, a publisher stays down exactly if no worker
closure acknowledges its message and, over RabbitMQ, no delivery that can be
parsed meets a worker closure on the emitter. -/
theorem staysDown_iff {Evt : Type} [Respondable Evt] (codec : EventProcessor Evt)
    (throws : Nat → Uuid → Bool) :
    (∀ nodeId actions,
      Runs.Always (MemoryPublisher.Shutdown.World.step codec throws)
          MemoryPublisher.Shutdown.World.StaysDown (.initial nodeId) actions ↔
        Runs.StepsMeet (MemoryPublisher.Shutdown.World.step codec throws)
          MemoryPublisher.Shutdown.World.SettlesSilently (.initial nodeId) actions) ∧
    ∀ actions,
      Runs.Always (RabbitMQPublisher.Shutdown.World.step codec throws)
          RabbitMQPublisher.Shutdown.World.StaysDown .initial actions ↔
        Runs.StepsMeet (RabbitMQPublisher.Shutdown.World.step codec throws)
          (RabbitMQPublisher.Shutdown.World.LetsGo codec throws) .initial actions :=
  ⟨MemoryPublisher.Shutdown.World.staysDown_iff_settlesSilently codec throws,
    RabbitMQPublisher.Shutdown.World.staysDown_iff_letsGo codec throws⟩

/-- A worker that is done after shutdown makes either publisher idle again, and
a delivery that arrives before its consumer is cancelled is rejected and then
handed to the worker. -/
theorem works_after_shutdown :
    ¬ Runs.Always (MemoryPublisher.Shutdown.World.step sampleCodec fun _ _ => false)
        MemoryPublisher.Shutdown.World.StaysDown (.initial none)
        [.run .subscribe, .run (.publish helloSaid), .beforeApplicationShutdown, .shutDown,
          .run (.settle 0 .resolved (.ok ()))] ∧
      ¬ Runs.Always (RabbitMQPublisher.Shutdown.World.step sampleCodec fun _ _ => false)
        RabbitMQPublisher.Shutdown.World.StaysDown .initial
        [.prepare, .consume, .subscribe, .ready, .deliver helloSaidText,
          .beforeApplicationShutdown, .settle 0 .resolved (.ok ())] ∧
      ¬ Runs.Always (RabbitMQPublisher.Shutdown.World.step sampleCodec fun _ _ => false)
        RabbitMQPublisher.Shutdown.World.StaysDown .initial
        [.prepare, .consume, .subscribe, .ready, .beforeApplicationShutdown,
          .deliver helloSaidText] := by
  decide

end Moirae.Shutdown
