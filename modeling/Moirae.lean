import Moirae.Runs.Execution
import Moirae.Text.Separated
import Moirae.Text.JsonString
import Moirae.Core.MemoryDelivery
import Moirae.Core.MemoryCache
import Moirae.Core.ValueReservation
import Moirae.Core.AwaitResponse
import Moirae.Core.AsyncMapRuns
import Moirae.Core.Event
import Moirae.Core.TransactionQueue
import Moirae.Core.CorrelationIds
import Moirae.Core.RequestMetadata
import Moirae.Core.AggregateCommit
import Moirae.Core.AggregateRollback
import Moirae.Core.AggregateHistory
import Moirae.Core.MixinDispatch
import Moirae.Core.EventBus
import Moirae.Core.AggregateTimeTravel
import Moirae.Core.AggregateCompensation
import Moirae.RabbitMQ.WorkConsumer
import Moirae.Acknowledgement
import Moirae.EventSources
import Moirae.RabbitMQ.ChannelReopening
import Moirae.RabbitMQ.RabbitMQConnection
import Moirae.Shutdown
import Moirae.TypeORM.ConcurrentAdds
import Moirae.Redis.RedisCache
import Moirae.RabbitMQ.EventQueueName
import Moirae.Core.ResponseCodec
import Moirae.Core.CommandBus
import Moirae.Core.QueryBus
import Moirae.Core.ResponseResidue
import Moirae.Core.NestedQueries
import Moirae.Core.Listening
import Moirae.Core.QueueRuns
import Moirae.Core.AggregateLoop
import Moirae.Core.CacheReads
import Moirae.Core.StateTrackerRuns
import Moirae.Core.PendingWrites
import Moirae.Core.SagaInheritance
import Moirae.Demo.InventoryStock
import Moirae.Demo.OrderCompletion
import Moirae.Demo.OrderLosses
import Moirae.Demo.OrderProjections
