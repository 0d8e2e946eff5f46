import Moirae.Core.BaseBus
import Moirae.Core.SagaRollback
import Moirae.Runs.Execution

/-! The event bus and the command bus at work on the messages of transactions.
Executions run side by side and share the cache, so what one registers and
another reads depends on the order of their steps. -/
namespace Moirae

/-- `instanceof Error`. -/
def Thrown.isError : Thrown → Bool
  | .error _ _ => true
  | .value _ => false

namespace Transactions

variable {Data : Type}

inductive Message (Data : Type)
  | event (event : IEvent Data)
  | command (command : ICommand Data)

def Message.correlationId : Message Data → Option String
  | .event evt => evt.correlationId
  | .command cmd => cmd.correlationId

/-- A handler failed so that the message was to be rolled back. The cache was
read after `readAt` registrations; `error` tells whether a handler rejected with an `Error`. -/
structure Failure where
  correlationId : Option String
  readAt : Nat
  error : Bool
  deriving DecidableEq, Repr

/-- A call of `process` under way: the steps left, and the commands collected
or the error thrown. -/
structure SagaRun (Data : Type) where
  saga : Saga Data
  left : List SagaMetadataPayload
  result : Except Thrown (Commands Data)

/-- Where an execution stands: its handlers are running, the rollback commands
are about to be published, or the sagas are processing the event. -/
inductive Phase (Data : Type)
  | handling
  | rollingBack (failure : Failure) (rawList : List String)
  | applying (event : IEvent Data) (runs : List (SagaRun Data))

/-- A call of `executeLocal` that is not over. -/
structure Execution (Data : Type) where
  message : Message Data
  phase : Phase Data

/-- A rollback command that was published, and why. -/
structure Publication where
  cause : Failure
  command : RollbackCommand
  deriving DecidableEq, Repr

/-- The cache and the executions, with what has happened so far: the pairs
registered, the failures, those failures whose rollback commands were published,
these commands, and the commands of saga steps that were published. -/
structure World (Data : Type) where
  cache : MemoryCache
  executions : List (Execution Data)
  registrations : List Registration
  failures : List Failure
  rollbacks : List Failure
  published : List Publication
  issued : List (ICommand Data)

inductive Action (Data : Type)
  /-- `executeLocal` is called with the message. -/
  | execute (message : Message Data)
  /-- The handlers of the event settled, unless one of them threw at once. -/
  | eventHandled (place : Nat) (results : Except Thrown (List Outcome))
  /-- `BaseBus.executeLocal` threw, or came to a result or a caught error. -/
  | commandHandled (place : Nat) (result : Except Thrown (Thrown ⊕ Thrown))
  /-- The next step of one of the sagas that process the event. -/
  | sagaStep (place run : Nat)
  /-- The commands are published and the execution ends. -/
  | publish (place : Nat)

/-- `handlerResults.some((result) => result.status === "rejected")`. -/
def someRejected (results : List Outcome) : Bool := results.any (· ≠ .resolved)

def someError (results : List Outcome) : Bool :=
  results.any fun
    | .resolved => false
    | .rejected reason => reason.isError

/-- Did the handler of the command reject with an `Error`? -/
def rejectedWithError : Thrown ⊕ Thrown → Bool
  | .inl _ => false
  | .inr err => err.isError

/-- What the command bus looks at: the result, or the error in its place. -/
def response : Thrown ⊕ Thrown → Thrown := Sum.elim id id

/-- The id of the event is passed on to the commands, if it has one. -/
def linked (event : IEvent Data) (command : ICommand Data) : ICommand Data :=
  if truthy event.correlationId then { command with correlationId := event.correlationId }
  else command

/-- The commands of all sagas, if all of them are done and none threw. -/
def collected (runs : List (SagaRun Data)) : Except Thrown (Commands Data) :=
  match runs.mapM (·.result) with
  | .error reason => .error reason
  | .ok commands => .ok commands.flatten

/-- What the next step of a saga registers. A saga without its cache throws
instead. -/
def registered (saga : Saga Data) (event : IEvent Data) (handler : SagaMetadataPayload) :
    List Registration :=
  match saga.methods handler.propertyKey event with
  | .error _ => []
  | .ok commands => if saga.cacheController then Saga.stepRegisters event handler commands else []

/-- One turn of the loop in `process`. -/
def SagaRun.turn (run : SagaRun Data) (event : IEvent Data) (cache : MemoryCache) :
    Option (MemoryCache × SagaRun Data × List Registration) :=
  match run.left, run.result with
  | handler :: handlers, .ok commands =>
      match run.saga.runStep event handler cache with
      | (cache, .error reason) =>
          some (cache, ⟨run.saga, [], .error reason⟩, registered run.saga event handler)
      | (cache, .ok more) =>
          some (cache, ⟨run.saga, handlers, .ok (commands ++ more)⟩,
            registered run.saga event handler)
  | _, _ => none

/-- A turn runs the next step of the saga, whose failure ends the loop. -/
theorem SagaRun.turn_cases {run run' : SagaRun Data} {event : IEvent Data}
    {cache cache' : MemoryCache} {more : List Registration}
    (hTurn : run.turn event cache = some (cache', run', more)) :
    ∃ handler handlers commands, run.left = handler :: handlers ∧ run.result = .ok commands ∧
      more = registered run.saga event handler ∧
      ((∃ reason, run.saga.runStep event handler cache = (cache', .error reason) ∧
          run' = ⟨run.saga, [], .error reason⟩) ∨
        ∃ added, run.saga.runStep event handler cache = (cache', .ok added) ∧
          run' = ⟨run.saga, handlers, .ok (commands ++ added)⟩) := by
  obtain ⟨saga, left, result⟩ := run
  cases left with
  | nil => simp [turn] at hTurn
  | cons handler handlers =>
      cases result with
      | error reason => simp [turn] at hTurn
      | ok commands =>
          refine ⟨handler, handlers, commands, rfl, rfl, ?_⟩
          simp only [turn] at hTurn
          split at hTurn
          · next reason hRun =>
              cases hTurn
              exact ⟨rfl, Or.inl ⟨reason, hRun, rfl⟩⟩
          · next added hRun =>
              cases hTurn
              exact ⟨rfl, Or.inr ⟨added, hRun, rfl⟩⟩

namespace World

def initial : World Data :=
  { cache := .new, executions := [], registrations := [], failures := [], rollbacks := []
    published := [], issued := [] }

/-- `rollbackSagas` is called, which reads the set at once. -/
def fail (w : World Data) (place : Nat) (message : Message Data) (error : Bool) : World Data :=
  let failure := ⟨message.correlationId, w.registrations.length, error⟩
  let rawList := w.cache.handleReadFromSet (correlationKey message.correlationId)
  { w with
    executions := w.executions.set place ⟨message, .rollingBack failure rawList⟩
    failures := w.failures ++ [failure] }

def step (sagas : List (Saga Data)) (storage : ConstructorStorage) (w : World Data) :
    Action Data → Option (World Data)
  | .execute message => some { w with executions := w.executions ++ [⟨message, .handling⟩] }
  | .eventHandled place results =>
      match w.executions[place]? with
      | some ⟨.event event, .handling⟩ =>
          match results with
          | .error _ => some { w with executions := w.executions.eraseIdx place }
          | .ok results =>
              if someRejected results then
                some (w.fail place (.event event) (someError results))
              else
                let runs := sagas.map fun saga => ⟨saga, saga.handlers event, .ok []⟩
                some { w with
                  executions := w.executions.set place ⟨.event event, .applying event runs⟩ }
      | _ => none
  | .commandHandled place result =>
      match w.executions[place]? with
      | some ⟨.command command, .handling⟩ =>
          match result with
          | .error _ => some { w with executions := w.executions.eraseIdx place }
          | .ok res =>
              if (response res).isError then
                some (w.fail place (.command command) (rejectedWithError res))
              else some { w with executions := w.executions.eraseIdx place }
      | _ => none
  | .sagaStep place index =>
      match w.executions[place]? with
      | some ⟨message, .applying event runs⟩ =>
          match runs[index]?.bind (·.turn event w.cache) with
          | none => none
          | some (cache, run, registrations) =>
              some { w with
                cache
                executions :=
                  w.executions.set place ⟨message, .applying event (runs.set index run)⟩
                registrations := w.registrations ++ registrations }
      | _ => none
  | .publish place =>
      match w.executions[place]? with
      | some ⟨message, .rollingBack failure rawList⟩ =>
          let finished := { w with executions := w.executions.eraseIdx place }
          match SagaManager.rollbackCommands storage message.correlationId rawList with
          | .error _ => some finished
          | .ok commands =>
              some { finished with
                rollbacks := w.rollbacks ++ [failure]
                published := w.published ++ commands.map fun command => ⟨failure, command⟩ }
      | some ⟨_, .applying event runs⟩ =>
          if runs.all (·.left.isEmpty) then
            let finished := { w with executions := w.executions.eraseIdx place }
            match collected runs with
            | .error _ => some finished
            | .ok commands =>
                some { finished with
                  issued := w.issued ++ (commands.filterMap id).map (linked event) }
          else none
      | _ => none

end World

end Transactions

end Moirae
