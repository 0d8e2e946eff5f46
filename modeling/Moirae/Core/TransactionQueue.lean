import Moirae.Core.TransactionChain
import Moirae.Core.TransactionRollbacks

/-! The busses with the messages on their way to them, and what they owe a failed
transaction in the end: once none of its messages is left, all its pairs are
rolled back. -/
namespace Moirae.TransactionQueue

open Transactions (Readable readEntries linked)
open TransactionChain (RollbackConstructors publishing)

variable {Data : Type}

/-- The busses, and the messages not yet received: commands that were published
and events that were appended. -/
structure World (Data : Type) where
  busses : Transactions.World Data
  waiting : List (Transactions.Message Data)

inductive Action (Data : Type)
  /-- A caller or a handler publishes a command, or appends an event. -/
  | send (message : Transactions.Message Data)
  /-- The waiting message at this place comes to its bus. -/
  | receive (place : Nat)
  /-- A command is executed where it was sent, or a bus goes on. -/
  | work (action : Transactions.Action Data)

namespace World

def initial : World Data :=
  { busses := .initial, waiting := [] }

variable (sagas : List (Saga Data)) (storage : ConstructorStorage)
  (constructors : RollbackConstructors Data)

/-- What a bus publishes waits until it is received. -/
def step (w : World Data) : Action Data → Option (World Data)
  | .send message => some { w with waiting := w.waiting ++ [message] }
  | .receive place => w.waiting[place]?.bind fun message =>
      (Transactions.World.step sagas storage w.busses (.execute message)).map fun busses =>
        { busses, waiting := w.waiting.eraseIdx place }
  | .work action =>
      (Transactions.World.step sagas storage w.busses action).map fun busses =>
        { busses
          waiting := w.waiting ++
            (publishing storage constructors w.busses action).map Transactions.Message.command }

variable {sagas storage constructors}

/-- A step leaves the busses as they are, or one of them goes on. -/
theorem busses_of_step {w t : World Data} {action : Action Data}
    (hStep : step sagas storage constructors w action = some t) :
    t.busses = w.busses ∨
      ∃ next, Transactions.World.step sagas storage w.busses next = some t.busses := by
  cases action with
  | send message =>
      obtain rfl := Option.some.inj hStep
      exact Or.inl rfl
  | receive place =>
      obtain ⟨message, -, hReceived⟩ := Option.bind_eq_some_iff.mp hStep
      obtain ⟨busses, hNext, rfl⟩ := Option.map_eq_some_iff.mp hReceived
      exact Or.inr ⟨_, hNext⟩
  | work next =>
      obtain ⟨busses, hNext, rfl⟩ := Option.map_eq_some_iff.mp hStep
      exact Or.inr ⟨next, hNext⟩

theorem step_logged {w t : World Data} {action : Action Data} (hInv : w.busses.Logged storage)
    (hStep : step sagas storage constructors w action = some t) : t.busses.Logged storage := by
  rcases busses_of_step hStep with hSame | ⟨next, hNext⟩
  · rw [hSame]
    exact hInv
  · exact Transactions.World.step_logged hInv hNext

/-! ## All pairs in the end -/

/-- No message of the transaction is waiting or being processed. -/
def Quiet (w : World Data) (correlationId : String) : Prop :=
  (∀ message ∈ w.waiting, message.correlationId ≠ some correlationId) ∧
    ∀ x ∈ w.busses.executions, x.message.correlationId ≠ some correlationId

/-- A handler of the transaction has failed with an `Error`. -/
def HasFailed (w : World Data) (correlationId : String) : Prop :=
  ∃ failure ∈ w.busses.failures,
    failure.correlationId = some correlationId ∧ failure.error = true

/-- Once all messages of a failed transaction are processed, all its pairs are
rolled back. -/
def Complete (w : World Data) : Prop :=
  ∀ correlationId, w.Quiet correlationId → w.HasFailed correlationId →
    ∀ r ∈ w.busses.registrations, r.correlationId = some correlationId →
      ∃ publication ∈ w.busses.published, publication.command = r.rollbackFor correlationId

/-- Every pair was registered before some failure of the transaction read its
pairs, all of which it could read, and this pair as what it is. -/
def RegisteredInTime (storage : ConstructorStorage) (w : World Data) : Prop :=
  ∀ correlationId, w.Quiet correlationId → w.HasFailed correlationId →
    ∀ r ∈ w.busses.registrations, r.correlationId = some correlationId →
      ∃ failure ∈ w.busses.failures, failure.correlationId = some correlationId ∧
        Readable storage w.busses.registrations failure ∧
        ∃ text ∈ (readEntries w.busses.registrations failure).values,
          SagaManager.StandsFor storage r text

/-- When none of its messages is being processed, the readable failures of a
transaction are those that got through. -/
theorem mem_rollbacks_of_quiet {w : World Data} (h : w.busses.Logged storage)
    {correlationId : String} (hQuiet : w.Quiet correlationId) {failure : Transactions.Failure}
    (hId : failure.correlationId = some correlationId) :
    failure ∈ w.busses.rollbacks ↔
      failure ∈ w.busses.failures ∧ Readable storage w.busses.registrations failure := by
  constructor
  · exact h.rollbacks_subset failure
  · rintro ⟨hFailure, hReadable⟩
    rcases h.handled failure hFailure with hDone | ⟨x, hx, rawList, hPhase⟩ | hNot
    · exact hDone
    · obtain ⟨-, hMessage, -⟩ := h.reading x hx failure rawList hPhase
      exact absurd (hMessage.symm.trans hId) (hQuiet.2 x hx)
    · exact absurd hReadable hNot

theorem complete_iff {w : World Data} (h : w.busses.Logged storage) :
    w.Complete ↔ w.RegisteredInTime storage := by
  refine forall_congr' fun correlationId => forall_congr' fun hQuiet =>
    imp_congr_right fun _ => forall_congr' fun r => imp_congr_right fun _ =>
      imp_congr_right fun _ => ?_
  constructor
  · rintro ⟨⟨failure, command⟩, hMem, rfl⟩
    obtain ⟨hRollback, text, hText, hBuilt⟩ := h.mem_published.mp hMem
    obtain ⟨hId, hStands⟩ := SagaManager.construct_eq_rollbackFor_iff.mp hBuilt
    obtain ⟨hFailure, hReadable⟩ := h.rollbacks_subset _ hRollback
    exact ⟨failure, hFailure, hId, hReadable, text, hText, hStands⟩
  · rintro ⟨failure, hFailure, hId, hReadable, text, hText, hStands⟩
    have hRollback := (mem_rollbacks_of_quiet h hQuiet hId).mpr ⟨hFailure, hReadable⟩
    exact ⟨⟨failure, r.rollbackFor correlationId⟩, h.mem_published.mpr ⟨hRollback, text, hText,
      SagaManager.construct_eq_rollbackFor_iff.mpr ⟨hId, hStands⟩⟩, rfl⟩

/-- Along every run, failed transactions are rolled back completely exactly as
long as their pairs are all registered before a failure reads them: what a step
registers later waits for a failure that may never come. -/
theorem complete_iff_registeredInTime (sagas : List (Saga Data)) (storage : ConstructorStorage)
    (constructors : RollbackConstructors Data) (as : List (Action Data)) :
    Runs.Always (step sagas storage constructors) Complete initial as ↔
      Runs.Always (step sagas storage constructors) (RegisteredInTime storage) initial as :=
  Runs.always_congr (fun w => w.busses.Logged storage)
    (fun _ _ _ hInv hStep => step_logged hInv hStep)
    (fun _ hInv => complete_iff hInv) Transactions.World.logged_initial as

section

open SagaManager
open TransactionChain.World (helloConstructors)
open Transactions.World (failed)

/-- Two greetings of one transaction are appended. The answer to the first one
fails before the second one is received, whose answer is a success. -/
def lateGreeting : List (Action Unit) :=
  [.send (.event (helloSaidEvent (some "tx") "hello-1")),
    .send (.event (helloSaidEvent (some "tx") "hello-2")),
    .receive 0, .work (.eventHandled 0 (.ok [.resolved])), .work (.sagaStep 0 0),
    .work (.publish 0),
    .receive 1, .work (.commandHandled 0 (.ok (.inr failed))), .work (.publish 0),
    .receive 0, .work (.eventHandled 0 (.ok [.resolved])), .work (.sagaStep 0 0),
    .work (.publish 0),
    .receive 0, .work (.commandHandled 0 (.ok (.inl (.value "")))),
    .receive 0, .work (.commandHandled 0 (.ok (.inl (.value ""))))]

/-- In the end nothing is waiting or in progress, and the second greeting is not
taken back. -/
theorem late_greeting_not_rolled_back :
    ¬Runs.Always (step [helloWorldSaga] helloStorage helloConstructors) Complete initial
      lateGreeting := by
  intro hAlways
  obtain ⟨w, hRun, hWaiting, hIdle, hFailed, hMem, hNone⟩ : ∃ w,
      Runs.exec (step [helloWorldSaga] helloStorage helloConstructors) initial lateGreeting =
          some w ∧
        w.waiting.length = 0 ∧ w.busses.executions.length = 0 ∧
        ⟨some "tx", 1, true⟩ ∈ w.busses.failures ∧
        ⟨some "tx", noMoreHelloCommand, "hello-2"⟩ ∈ w.busses.registrations ∧
        ∀ publication ∈ w.busses.published,
          publication.command ≠ ⟨noMoreHelloCommand, some "hello-2", some "tx"⟩ :=
    ⟨_, rfl, by decide, by decide, by decide, by decide, by decide⟩
  have hQuiet : w.Quiet "tx" := by
    rw [Quiet, List.length_eq_zero_iff.mp hWaiting, List.length_eq_zero_iff.mp hIdle]
    exact ⟨List.forall_mem_nil _, List.forall_mem_nil _⟩
  obtain ⟨publication, hPublished, hCommand⟩ :=
    hAlways.last hRun "tx" hQuiet ⟨_, hFailed, rfl, rfl⟩ _ hMem rfl
  exact hNone publication hPublished hCommand

end

end World

end Moirae.TransactionQueue
