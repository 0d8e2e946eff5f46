import Moirae.Core.TransactionLog

/-! Sagas register before they issue: when the event bus publishes a command of
a saga step, the cache has the entry that takes it back. -/
namespace Moirae

variable {Data : Type}

/-- The commands a step returns. -/
def Saga.stepCommands (saga : Saga Data) (event : IEvent Data) (handler : SagaMetadataPayload) :
    Commands Data :=
  match saga.methods handler.propertyKey event with
  | .error _ => []
  | .ok commands => commands

/-- The cache has the entry for the rollback command of the step. -/
def Saga.StepRegistered (cache : MemoryCache) (event : IEvent Data)
    (commandClass : RollbackCommandConstructor) : Prop :=
  cache.Contains (correlationKey event.correlationId) (commandKey commandClass event.streamId)

/-- What a cache contains stays there while a step runs. -/
theorem Saga.contains_runStep {saga : Saga Data} {event : IEvent Data}
    {handler : SagaMetadataPayload} {cache : MemoryCache} {key value : String}
    (h : cache.Contains key value) :
    (saga.runStep event handler cache).1.Contains key value := by
  unfold Saga.runStep
  split
  · exact h
  · split
    · split
      · exact (MemoryCache.contains_addToSet _ _ _ _ _).mpr (Or.inl h)
      · exact h
    · exact h

/-- A step that comes to an end has registered itself, unless it returned
nothing. -/
theorem Saga.registered_runStep {saga : Saga Data} {event : IEvent Data}
    {handler : SagaMetadataPayload} {cache cache' : MemoryCache} {commands : Commands Data}
    (h : saga.runStep event handler cache = (cache', .ok commands)) :
    saga.stepCommands event handler = commands ∧
      (commands ≠ [] → StepRegistered cache' event handler.rollbackCommand) := by
  unfold Saga.runStep at h
  cases hMethod : saga.methods handler.propertyKey event with
  | error reason => simp [hMethod] at h
  | ok returned =>
      have hCommands : saga.stepCommands event handler = returned := by
        rw [stepCommands, hMethod]
      simp only [hMethod] at h
      split at h
      · split at h
        · cases h
          refine ⟨hCommands, fun _ => ?_⟩
          exact (MemoryCache.contains_addToSet _ _ _ _ _).mpr (Or.inr ⟨rfl, rfl⟩)
        · cases h
      · next hEmpty =>
          cases h
          refine ⟨hCommands, fun hSome => ?_⟩
          exact absurd (List.length_pos_of_ne_nil hSome) hEmpty

namespace Transactions

/-- A command that a saga step returned for an event, and the rollback command of
the step. -/
structure Issue (Data : Type) where
  event : IEvent Data
  rollbackCommand : RollbackCommandConstructor
  returned : ICommand Data

/-- The command as the event bus publishes it. -/
def Issue.command (issue : Issue Data) : ICommand Data := linked issue.event issue.returned

def Issue.Registered (issue : Issue Data) (cache : MemoryCache) : Prop :=
  Saga.StepRegistered cache issue.event issue.rollbackCommand

def stepIssues (saga : Saga Data) (event : IEvent Data) (handler : SagaMetadataPayload) :
    List (Issue Data) :=
  ((saga.stepCommands event handler).filterMap id).map fun command =>
    ⟨event, handler.rollbackCommand, command⟩

/-- The commands of all steps of the saga for the event. -/
def SagaRun.issues (run : SagaRun Data) (event : IEvent Data) : List (Issue Data) :=
  (run.saga.handlers event).flatMap (stepIssues run.saga event)

/-- The steps taken so far gave the commands collected so far, and each of them
that gave any is registered. -/
def SagaRun.Ahead (cache : MemoryCache) (event : IEvent Data) (run : SagaRun Data) : Prop :=
  ∀ commands, run.result = .ok commands → ∃ taken,
    run.saga.handlers event = taken ++ run.left ∧
      commands = taken.flatMap (run.saga.stepCommands event) ∧
      ∀ handler ∈ taken, run.saga.stepCommands event handler ≠ [] →
        Saga.StepRegistered cache event handler.rollbackCommand

theorem SagaRun.ahead_start (cache : MemoryCache) (event : IEvent Data) (saga : Saga Data) :
    SagaRun.Ahead cache event ⟨saga, saga.handlers event, .ok []⟩ := by
  intro commands hResult
  refine ⟨[], rfl, ?_, List.forall_mem_nil _⟩
  exact (Except.ok.inj hResult).symm

theorem SagaRun.Ahead.mono {cache cache' : MemoryCache} {event : IEvent Data} {run : SagaRun Data}
    (h : run.Ahead cache event)
    (hKept : ∀ key value, cache.Contains key value → cache'.Contains key value) :
    run.Ahead cache' event := by
  intro commands hResult
  obtain ⟨taken, hLeft, hCommands, hRegistered⟩ := h commands hResult
  exact ⟨taken, hLeft, hCommands, fun handler hTaken hSome =>
    hKept _ _ (hRegistered handler hTaken hSome)⟩

/-- One turn of the loop. -/
theorem SagaRun.turn_spec {run run' : SagaRun Data} {event : IEvent Data}
    {cache cache' : MemoryCache} {more : List Registration}
    (hTurn : run.turn event cache = some (cache', run', more)) :
    (∀ key value, cache.Contains key value → cache'.Contains key value) ∧
      (run.Ahead cache event → run'.Ahead cache' event) := by
  obtain ⟨handler, handlers, commands, hLeft, hResult, -, hRun⟩ := SagaRun.turn_cases hTurn
  have hKept : ∀ key value, cache.Contains key value →
      (run.saga.runStep event handler cache).1.Contains key value :=
    fun key value hOld => Saga.contains_runStep hOld
  rcases hRun with ⟨reason, hFailed, rfl⟩ | ⟨added, hGave, rfl⟩
  · rw [hFailed] at hKept
    exact ⟨hKept, fun _ commands' hResult' => by cases hResult'⟩
  · rw [hGave] at hKept
    refine ⟨hKept, fun hAhead commands' hResult' => ?_⟩
    obtain ⟨taken, hHandlers, hCommands, hRegistered⟩ := hAhead commands hResult
    obtain ⟨hAdded, hStored⟩ := Saga.registered_runStep hGave
    refine ⟨taken ++ [handler], ?_, ?_, ?_⟩
    · rw [List.append_assoc, hHandlers, hLeft]
      rfl
    · rw [List.flatMap_append, ← hCommands, List.flatMap_singleton]
      exact (Except.ok.inj hResult').symm.trans (congrArg (commands ++ ·) hAdded.symm)
    · intro other hOther hSome
      rcases List.mem_append.mp hOther with hOld | hNew
      · exact hKept _ _ (hRegistered other hOld hSome)
      · obtain rfl := List.mem_singleton.mp hNew
        exact hStored (hAdded ▸ hSome)

/-- When no step is left, the commands are those of all steps, and registered. -/
theorem SagaRun.Ahead.issues_registered {cache : MemoryCache} {event : IEvent Data}
    {run : SagaRun Data} (h : run.Ahead cache event) (hDone : run.left = [])
    {commands : Commands Data} (hResult : run.result = .ok commands) :
    (run.issues event).map Issue.command = (commands.filterMap id).map (linked event) ∧
      ∀ issue ∈ run.issues event, issue.Registered cache := by
  obtain ⟨taken, hLeft, hCommands, hRegistered⟩ := h commands hResult
  rw [hDone, List.append_nil] at hLeft
  constructor
  · rw [issues, hLeft, hCommands, List.map_flatMap, List.filterMap_flatMap, List.map_flatMap]
    refine List.flatMap_congr fun handler _ => ?_
    rw [stepIssues, List.map_map]
    rfl
  · intro issue hIssue
    obtain ⟨handler, hHandler, hMem⟩ := List.mem_flatMap.mp hIssue
    obtain ⟨command, hCommand, rfl⟩ := List.mem_map.mp hMem
    refine hRegistered handler (hLeft ▸ hHandler) fun hNone => ?_
    rw [hNone] at hCommand
    exact absurd hCommand List.not_mem_nil

theorem collected_issues {cache : MemoryCache} {event : IEvent Data} {runs : List (SagaRun Data)}
    (hAhead : ∀ run ∈ runs, run.Ahead cache event) (hDone : ∀ run ∈ runs, run.left = [])
    {commands : Commands Data} (hCollected : collected runs = .ok commands) :
    (runs.flatMap (·.issues event)).map Issue.command =
        (commands.filterMap id).map (linked event) ∧
      ∀ issue ∈ runs.flatMap (·.issues event), issue.Registered cache := by
  unfold collected at hCollected
  cases hResults : runs.mapM (·.result) with
  | error reason =>
      rw [hResults] at hCollected
      cases hCollected
  | ok results =>
      rw [hResults] at hCollected
      obtain rfl := Except.ok.inj hCollected
      have hEach := Traversal.mapM_eq_ok_iff.mp hResults
      clear hResults hCollected
      induction runs generalizing results with
      | nil =>
          obtain rfl : results = [] := List.map_eq_nil_iff.mp hEach.symm
          exact ⟨rfl, List.forall_mem_nil _⟩
      | cons run runs ih =>
          obtain ⟨result, rest, rfl, hFirst, hRest⟩ := List.map_eq_cons_iff.mp hEach.symm
          obtain ⟨hCommands, hRegistered⟩ := (hAhead run List.mem_cons_self).issues_registered
            (hDone run List.mem_cons_self) hFirst.symm
          obtain ⟨hCommands', hRegistered'⟩ :=
            ih (fun other hOther => hAhead other (List.mem_cons_of_mem _ hOther))
              (fun other hOther => hDone other (List.mem_cons_of_mem _ hOther)) rest hRest.symm
          constructor
          · rw [List.flatMap_cons, List.map_append, hCommands, hCommands', List.flatten_cons,
              List.filterMap_append, List.map_append]
          · intro issue hIssue
            rw [List.flatMap_cons, List.mem_append] at hIssue
            exact hIssue.elim (hRegistered issue) (hRegistered' issue)

namespace World

variable {sagas : List (Saga Data)} {storage : ConstructorStorage}

/-- The world at the start of a run, with what the cache holds already. -/
def startingWith (cache : MemoryCache) : World Data := { initial with cache }

/-- The commands of saga steps that this step publishes. -/
def issuing (w : World Data) : Action Data → List (Issue Data)
  | .publish place => match w.executions[place]? with
    | some ⟨_, .applying event runs⟩ =>
        if runs.all (·.left.isEmpty) then
          match collected runs with
          | .error _ => []
          | .ok _ => runs.flatMap (·.issues event)
        else []
    | _ => []
  | _ => []

/-- The invariant: every saga at work is ahead in the cache. -/
def Ahead (w : World Data) : Prop :=
  ∀ x ∈ w.executions, ∀ event runs, x.phase = .applying event runs →
    ∀ run ∈ runs, run.Ahead w.cache event

theorem ahead_startingWith (cache : MemoryCache) : (startingWith cache : World Data).Ahead :=
  List.forall_mem_nil _

/-- Executions that are new or changed are looked at, the others stay ahead. -/
theorem Ahead.of_executions {w t : World Data} (h : w.Ahead)
    (hKept : ∀ key value, w.cache.Contains key value → t.cache.Contains key value)
    (hNew : ∀ x ∈ t.executions, x ∈ w.executions ∨ ∀ event runs, x.phase = .applying event runs →
      ∀ run ∈ runs, run.Ahead t.cache event) : t.Ahead := by
  intro x hx event runs hPhase run hRun
  rcases hNew x hx with hOld | hAhead
  · exact (h x hOld event runs hPhase run hRun).mono hKept
  · exact hAhead event runs hPhase run hRun

theorem Ahead.fail {w : World Data} (h : w.Ahead) (place : Nat) (message : Message Data)
    (error : Bool) : (w.fail place message error).Ahead := by
  refine h.of_executions (fun _ _ hOld => hOld) fun x hx => ?_
  rcases List.mem_or_eq_of_mem_set hx with hOld | rfl
  · exact Or.inl hOld
  · exact Or.inr fun _ _ hPhase => by cases hPhase

theorem Ahead.erased {w t : World Data} (h : w.Ahead) (hCache : t.cache = w.cache) {place : Nat}
    (hExecutions : t.executions = w.executions.eraseIdx place) : t.Ahead := by
  refine h.of_executions (fun _ _ hOld => hCache ▸ hOld) fun x hx => Or.inl ?_
  rw [hExecutions] at hx
  exact List.eraseIdx_subset hx

theorem Ahead.eventHandled {w t : World Data} (h : w.Ahead) {place : Nat}
    {results : Except Thrown (List Outcome)}
    (hStep : step sagas storage w (.eventHandled place results) = some t) : t.Ahead := by
  rw [step] at hStep
  split at hStep
  · next event hAt =>
      cases results with
      | error reason =>
          obtain rfl := Option.some.inj hStep
          exact h.erased rfl rfl
      | ok results =>
          dsimp only at hStep
          split at hStep
          · obtain rfl := Option.some.inj hStep
            exact h.fail _ _ _
          · obtain rfl := Option.some.inj hStep
            refine h.of_executions (fun _ _ hOld => hOld) fun x hx => ?_
            rcases List.mem_or_eq_of_mem_set hx with hOld | rfl
            · exact Or.inl hOld
            · refine Or.inr fun event' runs hPhase run hRun => ?_
              obtain ⟨rfl, rfl⟩ := Phase.applying.inj hPhase
              obtain ⟨saga, -, rfl⟩ := List.mem_map.mp hRun
              exact SagaRun.ahead_start w.cache event saga
  · cases hStep

theorem Ahead.commandHandled {w t : World Data} (h : w.Ahead) {place : Nat}
    {result : Except Thrown (Thrown ⊕ Thrown)}
    (hStep : step sagas storage w (.commandHandled place result) = some t) : t.Ahead := by
  cases stepped_of_commandHandled hStep with
  | failed error hAt hRolling hRegistering => exact h.fail _ _ _
  | ended issued hAt hError hRolling hRegistering => exact h.erased rfl rfl

/-- What a saga step makes of the world, and of the run of its saga. -/
theorem sagaStep_spec {w t : World Data} {place index : Nat}
    (hStep : step sagas storage w (.sagaStep place index) = some t) :
    ∃ message event runs run run' more,
      w.executions[place]? = some ⟨message, .applying event runs⟩ ∧ runs[index]? = some run ∧
        run.turn event w.cache = some (t.cache, run', more) ∧
        t.executions = w.executions.set place ⟨message, .applying event (runs.set index run')⟩ ∧
        t.issued = w.issued := by
  rw [step] at hStep
  split at hStep
  · next message event runs hAt =>
      split at hStep
      · cases hStep
      · next cache run' more hTurn =>
          obtain ⟨run, hRun, hTurned⟩ := Option.bind_eq_some_iff.mp hTurn
          obtain rfl := Option.some.inj hStep
          exact ⟨message, event, runs, run, run', more, hAt, hRun, hTurned, rfl, rfl⟩
  · cases hStep

theorem Ahead.sagaStep {w t : World Data} (h : w.Ahead) {place index : Nat}
    (hStep : step sagas storage w (.sagaStep place index) = some t) : t.Ahead := by
  obtain ⟨message, event, runs, run, run', more, hAt, hRun, hTurn, hExecutions, -⟩ :=
    sagaStep_spec hStep
  obtain ⟨hKept, hAhead⟩ := SagaRun.turn_spec hTurn
  have hRuns := h _ (List.mem_of_getElem? hAt) event runs rfl
  refine h.of_executions hKept fun x hx => ?_
  rw [hExecutions] at hx
  rcases List.mem_or_eq_of_mem_set hx with hOld | rfl
  · exact Or.inl hOld
  · refine Or.inr fun event' runs' hPhase other hOther => ?_
    obtain ⟨rfl, rfl⟩ := Phase.applying.inj hPhase
    rcases List.mem_or_eq_of_mem_set hOther with hOldRun | rfl
    · exact (hRuns other hOldRun).mono hKept
    · exact hAhead (hRuns run (List.mem_of_getElem? hRun))

/-- What the execution at this place comes to. -/
theorem publish_spec {w t : World Data} {place : Nat}
    (hStep : step sagas storage w (.publish place) = some t) (h : w.Ahead) :
    t.cache = w.cache ∧ t.executions = w.executions.eraseIdx place ∧
      t.issued = w.issued ++ (w.issuing (.publish place)).map Issue.command ∧
      ∀ issue ∈ w.issuing (.publish place), issue.Registered w.cache := by
  rw [step] at hStep
  rw [issuing]
  split at hStep
  · next message failure rawList hAt =>
      rw [hAt]
      split at hStep <;> obtain rfl := Option.some.inj hStep
      · exact ⟨rfl, rfl, (List.append_nil _).symm, List.forall_mem_nil _⟩
      · exact ⟨rfl, rfl, (List.append_nil _).symm, List.forall_mem_nil _⟩
  · next message event runs hAt =>
      rw [hAt]
      dsimp only
      split at hStep
      · next hDone =>
          rw [if_pos hDone]
          have hLeft : ∀ run ∈ runs, run.left = [] := fun run hRun =>
            List.isEmpty_iff.mp (List.all_eq_true.mp hDone run hRun)
          have hRuns := h _ (List.mem_of_getElem? hAt) event runs rfl
          cases hCollected : collected runs with
          | error reason =>
              rw [hCollected] at hStep
              obtain rfl := Option.some.inj hStep
              exact ⟨rfl, rfl, (List.append_nil _).symm, List.forall_mem_nil _⟩
          | ok commands =>
              rw [hCollected] at hStep
              obtain rfl := Option.some.inj hStep
              obtain ⟨hCommands, hRegistered⟩ := collected_issues hRuns hLeft hCollected
              exact ⟨rfl, rfl, congrArg (w.issued ++ ·) hCommands.symm, hRegistered⟩
      · cases hStep
  · cases hStep

theorem Ahead.step {w t : World Data} {action : Action Data} (h : w.Ahead)
    (hStep : step sagas storage w action = some t) : t.Ahead := by
  cases action with
  | execute message =>
      obtain rfl := Option.some.inj hStep
      refine h.of_executions (fun _ _ hOld => hOld) fun x hx => ?_
      rcases List.mem_append.mp hx with hOld | hNew
      · exact Or.inl hOld
      · obtain rfl := List.mem_singleton.mp hNew
        exact Or.inr fun _ _ hPhase => by cases hPhase
  | eventHandled place results => exact h.eventHandled hStep
  | commandHandled place result => exact h.commandHandled hStep
  | sagaStep place index => exact h.sagaStep hStep
  | publish place =>
      obtain ⟨hCache, hExecutions, -, -⟩ := publish_spec hStep h
      exact h.erased hCache hExecutions

/-- The sets of the transactions only grow. -/
theorem registered_of_step {w t : World Data} {action : Action Data}
    (hStep : World.step sagas storage w action = some t) {issue : Issue Data}
    (hOld : issue.Registered w.cache) : issue.Registered t.cache := by
  cases action with
  | sagaStep place index =>
      obtain ⟨_, _, _, _, _, _, -, -, hTurn, -, -⟩ := sagaStep_spec hStep
      exact (SagaRun.turn_spec hTurn).1 _ _ hOld
  | execute message | eventHandled place results | commandHandled place result | publish place =>
      cases stepped_of_step hStep <;> exact hOld

theorem issued_of_eventHandled {w t : World Data} {place : Nat}
    {results : Except Thrown (List Outcome)}
    (hStep : World.step sagas storage w (.eventHandled place results) = some t) :
    t.issued = w.issued := by
  rw [World.step] at hStep
  split at hStep
  · cases results with
    | error reason =>
        cases hStep
        rfl
    | ok results =>
        dsimp only at hStep
        split at hStep <;> cases hStep <;> rfl
  · cases hStep

theorem issued_of_commandHandled {w t : World Data} {place : Nat}
    {result : Except Thrown (Thrown ⊕ Thrown)}
    (hStep : World.step sagas storage w (.commandHandled place result) = some t) :
    t.issued = w.issued := by
  rw [World.step] at hStep
  split at hStep
  · cases result with
    | error reason =>
        cases hStep
        rfl
    | ok res =>
        dsimp only at hStep
        split at hStep <;> cases hStep <;> rfl
  · cases hStep

/-- Only publishing issues commands. -/
theorem issued_of_step {w t : World Data} {action : Action Data} (h : w.Ahead)
    (hStep : World.step sagas storage w action = some t) :
    t.issued = w.issued ++ (w.issuing action).map Issue.command ∧
      ∀ issue ∈ w.issuing action, issue.Registered w.cache := by
  have hSilent : ∀ other, t.issued = w.issued → w.issuing other = [] →
      t.issued = w.issued ++ (w.issuing other).map Issue.command ∧
        ∀ issue ∈ w.issuing other, issue.Registered w.cache := by
    intro other hSame hNone
    rw [hNone]
    exact ⟨hSame.trans (List.append_nil _).symm, List.forall_mem_nil _⟩
  cases action with
  | publish place => exact (publish_spec hStep h).2.2
  | sagaStep place index =>
      obtain ⟨_, _, _, _, _, _, -, -, -, -, hIssued⟩ := sagaStep_spec hStep
      exact hSilent _ hIssued rfl
  | execute message =>
      obtain rfl := Option.some.inj hStep
      exact hSilent _ rfl rfl
  | eventHandled place results => exact hSilent _ (issued_of_eventHandled hStep) rfl
  | commandHandled place result => exact hSilent _ (issued_of_commandHandled hStep) rfl

/-- In every run, over whatever the cache held before, the event bus publishes
exactly the commands of steps, and when it does, the cache set of the event has
the entry of the step, and keeps it. -/
theorem registered_when_issued {cache : MemoryCache} {before : List (Action Data)}
    {w t : World Data} {action : Action Data}
    (hRun : Runs.exec (World.step sagas storage) (startingWith cache) before = some w)
    (hStep : World.step sagas storage w action = some t) (after : List (Action Data)) :
    t.issued = w.issued ++ (w.issuing action).map Issue.command ∧
      ∀ issue ∈ w.issuing action, issue.Registered w.cache ∧
        Runs.Always (World.step sagas storage) (fun later => issue.Registered later.cache) t
          after := by
  have hAhead := Runs.invariant_of_step Ahead (fun _ _ _ h hNext => h.step hNext)
    (ahead_startingWith cache) hRun
  obtain ⟨hIssued, hRegistered⟩ := issued_of_step hAhead hStep
  refine ⟨hIssued, fun issue hIssue => ⟨hRegistered issue hIssue, ?_⟩⟩
  exact Runs.always_of_allowed (fun later => issue.Registered later.cache) (fun _ => True)
    (fun _ _ _ _ hOld hNext => registered_of_step hNext hOld) (fun _ h => h)
    (registered_of_step hStep (hRegistered issue hIssue)) (fun _ _ => trivial)

section

open SagaManager

def helloIssue : Issue Unit :=
  ⟨helloSaidEvent (some "tx") "hello-1", noMoreHelloCommand, sayWorldCommand⟩

def answerGreeting : List (Action Unit) :=
  [.execute (.event (helloSaidEvent (some "tx") "hello-1")), .eventHandled 0 (.ok [.resolved]),
    .sagaStep 0 0]

/-- A greeting is answered, and another one of the same stream fails later. -/
theorem registered_when_issued_hello :
    ∃ w t : World Unit,
      Runs.exec (World.step [helloWorldSaga] helloStorage) (startingWith .new) answerGreeting =
        some w ∧
      World.step [helloWorldSaga] helloStorage w (.publish 0) = some t ∧
      w.issuing (.publish 0) = [helloIssue] ∧ helloIssue.Registered w.cache ∧
      Runs.Always (World.step [helloWorldSaga] helloStorage)
        (fun later => helloIssue.Registered later.cache) t
        [.execute (.event (helloSaidEvent (some "tx") "hello-1")),
          .eventHandled 0 (.ok [.rejected (.error "Error" "failed")]), .publish 0] := by
  obtain ⟨w, t, hRun, hStep, hIssuing⟩ : ∃ w t,
      Runs.exec (World.step [helloWorldSaga] helloStorage) (startingWith .new) answerGreeting =
        some w ∧ World.step [helloWorldSaga] helloStorage w (.publish 0) = some t ∧
        w.issuing (.publish 0) = [helloIssue] := ⟨_, _, rfl, rfl, rfl⟩
  refine ⟨w, t, hRun, hStep, hIssuing, ?_⟩
  exact (registered_when_issued hRun hStep _).2 helloIssue
    (hIssuing ▸ List.mem_singleton_self _)

end

end World

end Transactions

end Moirae
