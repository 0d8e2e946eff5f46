import Moirae.Core.AggregateRoot
import Moirae.Core.SagaRegistration

/-! Everything that follows from one call of `CommandBus.execute`: its handler
commits events, sagas answer them with commands, failures with rollback
commands, and so on. Only what was published or appended is ever delivered. -/
namespace Moirae.TransactionChain

open Transactions (Issue SagaRun linked collected)

variable {Data : Type}

/-- What `randomUUID()` returns. -/
abbrev RandomUUID := { text : String // text ≠ "" }

/-- The classes of the rollback commands. Their constructors fill `$data` and
nothing else. -/
structure RollbackConstructors (Data : Type) where
  create : RollbackCommand → ICommand Data
  fillsDataOnly : ∀ command, (create command).correlationId = none

/-- An event that a handler committed with the command it was called with. -/
structure Commit (Data : Type) where
  command : ICommand Data
  event : IEvent Data

/-- The event as it is appended. -/
def Commit.committed (commit : Commit Data) : IEvent Data :=
  AggregateRoot.linkEvent (some commit.command) commit.event

/-- What `commit` hands over are the uncommitted events, each committed with the
command. -/
theorem commit_eq {State : Type} (cls : AggregateClass State Data)
    {root : AggregateRoot State Data} (hCommit : root.commitFn = true) (command : ICommand Data) :
    AggregateRoot.commit cls root (some command) =
      .ok ((root.uncommittedEventHistory.map (Commit.mk command)).map Commit.committed) := by
  rw [AggregateRoot.commit, if_pos hCommit, List.map_map]
  rfl

/-- `execute` gives the command an id if it has none. -/
def identified (fresh : RandomUUID) (command : ICommand Data) : ICommand Data :=
  if truthy command.correlationId then command
  else { command with correlationId := some fresh.val }

/-- What one call of `execute` brought about: the id in its response, the busses
at work, the commands published, those of them that sagas issued, and the events
committed. -/
structure World (Data : Type) where
  correlationId : Option String
  busses : Transactions.World Data
  sent : List (ICommand Data)
  issues : List (Issue Data)
  commits : List (Commit Data)

inductive Action (Data : Type)
  /-- A published command, or an appended event, comes to its bus. -/
  | deliverCommand (place : Nat)
  | deliverEvent (place : Nat)
  /-- The handler at this place commits events of an aggregate. -/
  | commit (place : Nat) (events : List (IEvent Data))
  /-- A bus goes on with what it is doing. -/
  | work (action : Transactions.Action Data)
  /-- Another transaction adds to a set of the cache. -/
  | share (key value : String)

/-- A rollback command as it is published by the bus on which the message
failed. -/
def publishedFor (message : Transactions.Message Data) (command : ICommand Data) :
    ICommand Data :=
  match message with
  | .event event => linked event command
  | .command _ => command

/-- The commands that a bus publishes in this step. -/
def publishing (storage : ConstructorStorage) (constructors : RollbackConstructors Data)
    (busses : Transactions.World Data) : Transactions.Action Data → List (ICommand Data)
  | .publish place => match busses.executions[place]? with
    | some ⟨message, .rollingBack _ rawList⟩ =>
        match SagaManager.rollbackCommands storage message.correlationId rawList with
        | .error _ => []
        | .ok commands => commands.map fun command =>
            publishedFor message (constructors.create command)
    | some ⟨_, .applying event runs⟩ =>
        if runs.all (·.left.isEmpty) then
          match collected runs with
          | .error _ => []
          | .ok commands => (commands.filterMap id).map (linked event)
        else []
    | _ => []
  | _ => []

namespace World

/-- `CommandBus.execute`, in the process of its handler or over the publisher.
The cache may hold anything. -/
def execute (fresh : RandomUUID) (cache : MemoryCache) (isLocal : Bool) (command : ICommand Data) :
    World Data :=
  { correlationId := (identified fresh command).correlationId
    busses := { Transactions.World.startingWith cache with
      executions := if isLocal then [⟨.command (identified fresh command), .handling⟩] else [] }
    sent := if isLocal then [] else [identified fresh command]
    issues := []
    commits := [] }

/-- `executeLocal` is called with the message. -/
def receive (w : World Data) (message : Transactions.Message Data) : World Data :=
  { w with busses :=
      { w.busses with executions := w.busses.executions ++ [⟨message, .handling⟩] } }

variable (sagas : List (Saga Data)) (storage : ConstructorStorage)
  (constructors : RollbackConstructors Data)

/-- A bus goes on. It starts only with what is delivered. -/
def work (w : World Data) : Transactions.Action Data → Option (World Data)
  | .execute _ => none
  | action => match Transactions.World.step sagas storage w.busses action with
    | none => none
    | some busses =>
        some { w with
          busses
          sent := w.sent ++ publishing storage constructors w.busses action
          issues := w.issues ++ w.busses.issuing action }

def step (w : World Data) : Action Data → Option (World Data)
  | .deliverCommand place => w.sent[place]?.map fun command => w.receive (.command command)
  | .deliverEvent place => w.commits[place]?.map fun commit => w.receive (.event commit.committed)
  | .commit place events => match w.busses.executions[place]? with
    | some ⟨.command command, .handling⟩ =>
        some { w with commits := w.commits ++ events.map (Commit.mk command) }
    | _ => none
  | .work action => w.work sagas storage constructors action
  | .share key value =>
      some { w with busses :=
        { w.busses with cache := (w.busses.cache.addToSet key value).1 } }

variable {sagas storage constructors}

/-- What the world sees of a bus that goes on. -/
theorem work_spec {w t : World Data} {action : Transactions.Action Data}
    (hWork : w.work sagas storage constructors action = some t) :
    Transactions.World.step sagas storage w.busses action = some t.busses ∧
      (∀ message, action ≠ .execute message) ∧
      t.sent = w.sent ++ publishing storage constructors w.busses action ∧
      t.issues = w.issues ++ w.busses.issuing action ∧ t.commits = w.commits ∧
      t.correlationId = w.correlationId := by
  unfold work at hWork
  split at hWork
  · cases hWork
  · next hNot =>
      split at hWork
      · cases hWork
      · next hNext =>
          obtain rfl := Option.some.inj hWork
          exact ⟨hNext, hNot, rfl, rfl, rfl, rfl⟩

/-- Only a command handler at work commits. -/
theorem commit_spec {w t : World Data} {place : Nat} {events : List (IEvent Data)}
    (hStep : step sagas storage constructors w (.commit place events) = some t) :
    ∃ command, w.busses.executions[place]? = some ⟨.command command, .handling⟩ ∧
      t = { w with commits := w.commits ++ events.map (Commit.mk command) } := by
  rw [step] at hStep
  split at hStep
  · next command hAt => exact ⟨command, hAt, (Option.some.inj hStep).symm⟩
  · cases hStep

theorem ahead_receive {w : World Data} (h : w.busses.Ahead)
    (message : Transactions.Message Data) : (w.receive message).busses.Ahead := by
  have hExecuted : Transactions.World.step [] .empty w.busses (.execute message) =
      some (w.receive message).busses := rfl
  exact h.step hExecuted

/-- The sagas at work on the busses are ahead in the cache, whatever other
transactions add to it. -/
theorem ahead_of_step {w t : World Data} {action : Action Data} (h : w.busses.Ahead)
    (hStep : step sagas storage constructors w action = some t) : t.busses.Ahead := by
  cases action with
  | deliverCommand place =>
      obtain ⟨command, -, rfl⟩ := Option.map_eq_some_iff.mp hStep
      exact ahead_receive h _
  | deliverEvent place =>
      obtain ⟨commit, -, rfl⟩ := Option.map_eq_some_iff.mp hStep
      exact ahead_receive h _
  | commit place events =>
      obtain ⟨command, -, rfl⟩ := commit_spec hStep
      exact h
  | work action => exact h.step (work_spec hStep).1
  | share key value =>
      obtain rfl := Option.some.inj hStep
      refine h.of_executions (fun _ _ hOld => ?_) fun x hx => Or.inl hx
      exact (MemoryCache.contains_addToSet _ _ _ _ _).mpr (Or.inl hOld)

/-- The commands that the event bus publishes for sagas are those recorded as
issued. -/
theorem publishing_eq_issuing {busses : Transactions.World Data} (h : busses.Ahead) {place : Nat}
    {message : Transactions.Message Data} {event : IEvent Data} {runs : List (SagaRun Data)}
    (hAt : busses.executions[place]? = some ⟨message, .applying event runs⟩) :
    publishing storage constructors busses (.publish place) =
      (busses.issuing (.publish place)).map Issue.command := by
  rw [publishing, Transactions.World.issuing, hAt]
  dsimp only
  by_cases hDone : runs.all (·.left.isEmpty) = true
  · rw [if_pos hDone, if_pos hDone]
    have hLeft : ∀ run ∈ runs, run.left = [] := fun run hRun =>
      List.isEmpty_iff.mp (List.all_eq_true.mp hDone run hRun)
    have hRuns := h _ (List.mem_of_getElem? hAt) event runs rfl
    cases hCollected : collected runs with
    | error reason => rfl
    | ok commands => exact (Transactions.collected_issues hRuns hLeft hCollected).1.symm
  · rw [if_neg hDone, if_neg hDone]
    rfl

theorem command_mem_publishing {busses : Transactions.World Data} (h : busses.Ahead)
    {action : Transactions.Action Data} {issue : Issue Data}
    (hIssue : issue ∈ busses.issuing action) :
    issue.command ∈ publishing storage constructors busses action := by
  cases action with
  | execute message | eventHandled place results | commandHandled place result
    | sagaStep place index => exact absurd hIssue List.not_mem_nil
  | publish place =>
      cases hAt : busses.executions[place]? with
      | none =>
          rw [Transactions.World.issuing, hAt] at hIssue
          exact absurd hIssue List.not_mem_nil
      | some x =>
          obtain ⟨message, phase⟩ := x
          cases phase with
          | applying event runs =>
              rw [publishing_eq_issuing h hAt]
              exact List.mem_map_of_mem hIssue
          | handling | rollingBack failure rawList =>
              rw [Transactions.World.issuing, hAt] at hIssue
              exact absurd hIssue List.not_mem_nil

theorem issues_sent_of_step {w t : World Data} {action : Action Data} (h : w.busses.Ahead)
    (hSent : ∀ issue ∈ w.issues, issue.command ∈ w.sent)
    (hStep : step sagas storage constructors w action = some t) :
    ∀ issue ∈ t.issues, issue.command ∈ t.sent := by
  cases action with
  | deliverCommand place | deliverEvent place =>
      obtain ⟨_, -, rfl⟩ := Option.map_eq_some_iff.mp hStep
      exact hSent
  | commit place events =>
      obtain ⟨command, -, rfl⟩ := commit_spec hStep
      exact hSent
  | work action =>
      obtain ⟨-, -, hSentNow, hIssues, -, -⟩ := work_spec hStep
      intro issue hIssue
      rw [hIssues] at hIssue
      rw [hSentNow]
      rcases List.mem_append.mp hIssue with hOld | hNew
      · exact List.mem_append_left _ (hSent issue hOld)
      · exact List.mem_append_right _ (command_mem_publishing h hNew)
  | share key value =>
      obtain rfl := Option.some.inj hStep
      exact hSent

theorem ahead_execute (fresh : RandomUUID) (cache : MemoryCache) (isLocal : Bool)
    (command : ICommand Data) : (execute fresh cache isLocal command).busses.Ahead := by
  cases isLocal with
  | false => exact Transactions.World.ahead_startingWith cache
  | true =>
      intro x hx event runs hPhase
      obtain rfl := List.mem_singleton.mp hx
      cases hPhase

/-- What sagas issue is published. -/
theorem issues_sent {fresh : RandomUUID} {cache : MemoryCache} {isLocal : Bool}
    {command : ICommand Data} {actions : List (Action Data)} {w : World Data}
    (hRun : Runs.exec (step sagas storage constructors) (execute fresh cache isLocal command)
      actions = some w) : ∀ issue ∈ w.issues, issue.command ∈ w.sent := by
  have hBoth := Runs.invariant_of_step
    (fun w : World Data => w.busses.Ahead ∧ ∀ issue ∈ w.issues, issue.command ∈ w.sent)
    (fun w action t h hStep => ⟨ahead_of_step h.1 hStep, issues_sent_of_step h.1 h.2 hStep⟩)
    ⟨ahead_execute fresh cache isLocal command, List.forall_mem_nil _⟩ hRun
  exact hBoth.2

/-! ## A greeting that was asked for -/

def helloConstructors : RollbackConstructors Unit where
  create := fun command => ⟨none, (), none, command.commandClass.name, "r1"⟩
  fillsDataOnly := fun _ => rfl

/-- The command has no id. -/
def sayHello : World Unit :=
  execute ⟨"tx", by decide⟩ .new true ⟨none, (), none, "SayHelloCommand", "c0"⟩

/-- The event is committed, and a saga answers it. -/
def greetingAnswered (event : IEvent Unit) : List (Action Unit) :=
  [.commit 0 [event], .work (.commandHandled 0 (.ok (.inl (.value "")))), .deliverEvent 0,
    .work (.eventHandled 0 (.ok [.resolved])), .work (.sagaStep 0 0), .work (.publish 0)]

end World

end Moirae.TransactionChain
