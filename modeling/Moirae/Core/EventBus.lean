import Moirae.Core.AggregateRoot
import Moirae.Core.CommandFailure
import Moirae.Core.TransactionLog

/-! The event bus at work on one event, while other executions register
rollback commands in the same cache: its handlers settle, then the sagas process
the event, or what is registered is rolled back. -/
namespace Moirae.EventBus

open SagaManager (registeredCommands RollsBackExactly ReadsBack)
open Transactions (SagaRun)

variable {Data : Type}

/-- What calling an event handler comes to: a promise that settles, or a throw
at once. -/
inductive Call
  | returned (outcome : Outcome)
  | threw (reason : Thrown)
  deriving DecidableEq

/-- What `commandBus.publish` gets here. -/
abbrev Issued (Data : Type) := ICommand Data ⊕ RollbackCommand

/-- What the bus was set up with; `publish` and `pubSub` tell how publishing a
command and distributing an event end. -/
structure Bus (Data : Type) where
  handlerMap : KeyedMap String (List (IEvent Data → Call))
  sagas : List (Saga Data)
  storage : ConstructorStorage
  storageKeyed : storage.Keyed
  publish : Issued Data → Outcome
  pubSub : IEvent Data → Outcome

/-- How a call ends: its promise, the commands that were published, whether the
event was distributed (locally and by the pub-sub engine), and the status of the
bus. What local listeners throw reaches nobody. -/
structure Ending (Data : Type) where
  outcome : Outcome
  published : List (Issued Data)
  distributed : Bool
  status : ESState

/-- The cache with what is registered in it, and the sagas under way. -/
structure Processing (Data : Type) where
  cache : MemoryCache
  registrations : List Registration
  runs : List (SagaRun Data)

/-- The handlers are called in order, up to one that throws at once. -/
def callHandlers (bus : Bus Data) (event : IEvent Data) : Except Thrown (List Outcome) :=
  ((bus.handlerMap.get event.name).getD []).mapM fun handler =>
    match handler event with
    | .returned outcome => .ok outcome
    | .threw reason => .error reason

/-- The id of the event is passed on to the commands, if it has one. -/
def linked (event : IEvent Data) : Issued Data → Issued Data
  | .inl command => .inl (Transactions.linked event command)
  | .inr command => .inr
      (if truthy event.correlationId then { command with correlationId := event.correlationId }
        else command)

/-- The rest of `executeLocal`, once it is known which commands to publish. -/
def finish (bus : Bus Data) (event : IEvent Data) :
    Except Thrown (List (Issued Data)) → Ending Data
  | .error reason => ⟨.rejected reason, [], false, .ACTIVE⟩
  | .ok commands =>
      let published := commands.map (linked event)
      match Outcome.all (published.map bus.publish) with
      | .rejected reason => ⟨.rejected reason, published, false, .ACTIVE⟩
      | .resolved => match bus.pubSub event with
        | .rejected reason => ⟨.rejected reason, published, false, .ACTIVE⟩
        | .resolved => ⟨.resolved, published, true, .IDLE⟩

/-- All sagas are called with the event. -/
def applyEventToSagas (bus : Bus Data) (event : IEvent Data) (cache : MemoryCache)
    (registrations : List Registration) : Processing Data :=
  ⟨cache, registrations, bus.sagas.map fun saga => ⟨saga, saga.handlers event, .ok []⟩⟩

/-- The sagas proceed step by step in any order, with other executions that
register something in between. -/
inductive Proceeds (event : IEvent Data) : Processing Data → Processing Data → Prop
  | refl (p : Processing Data) : Proceeds event p p
  | turn {p last : Processing Data} {index : Nat} {run run' : SagaRun Data}
      {cache : MemoryCache} {more : List Registration} (hRun : p.runs[index]? = some run)
      (hTurn : run.turn event p.cache = some (cache, run', more))
      (rest : Proceeds event ⟨cache, p.registrations ++ more, p.runs.set index run'⟩ last) :
      Proceeds event p last
  | other {p last : Processing Data} (r : Registration)
      (rest : Proceeds event
        ⟨Saga.storeRollbackCommand p.cache r.correlationId r.command r.streamId,
          p.registrations ++ [r], p.runs⟩ last) :
      Proceeds event p last

/-- The ways in which `executeLocal` ends, with what is registered by then. The
cache is that from when the handlers have settled. -/
inductive Executes (bus : Bus Data) (event : IEvent Data) (cache : MemoryCache)
    (registrations : List Registration) : List Registration → Ending Data → Prop
  | threw {reason : Thrown} (hThrew : callHandlers bus event = .error reason) :
      Executes bus event cache registrations registrations
        ⟨.rejected reason, [], false, .ACTIVE⟩
  | rolledBack {results : List Outcome} (hSettled : callHandlers bus event = .ok results)
      (hRejected : Transactions.someRejected results = true) :
      Executes bus event cache registrations registrations
        (finish bus event
          ((SagaManager.rollbackSagas bus.storage cache event.correlationId).map
            (·.map Sum.inr)))
  /-- `Promise.all` rejects with the first saga that fails. -/
  | sagaFailed {results : List Outcome} {last : Processing Data} {run : SagaRun Data}
      {reason : Thrown} (hSettled : callHandlers bus event = .ok results)
      (hRejected : Transactions.someRejected results = false)
      (hProceeds : Proceeds event (applyEventToSagas bus event cache registrations) last)
      (hRun : run ∈ last.runs) (hFailed : run.result = .error reason) :
      Executes bus event cache registrations last.registrations
        (finish bus event (.error reason))
  | applied {results : List Outcome} {last : Processing Data} {commands : Commands Data}
      (hSettled : callHandlers bus event = .ok results)
      (hRejected : Transactions.someRejected results = false)
      (hProceeds : Proceeds event (applyEventToSagas bus event cache registrations) last)
      (hDone : ∀ run ∈ last.runs, run.left = [])
      (hCollected : Transactions.collected last.runs = .ok commands) :
      Executes bus event cache registrations last.registrations
        (finish bus event (.ok ((commands.filterMap id).map Sum.inl)))

/-- Every handler resolves, and every step of every saga returns commands. -/
def AllSucceed (bus : Bus Data) (event : IEvent Data) : Prop :=
  (∀ handler ∈ (bus.handlerMap.get event.name).getD [],
    handler event = .returned .resolved) ∧
  ∀ saga ∈ bus.sagas, ∀ step ∈ saga.handlers event,
    (saga.methods step.propertyKey event).isOk = true

/-- The commands that the steps of the sagas return for the event. -/
def returnedCommands (bus : Bus Data) (event : IEvent Data) : List (ICommand Data) :=
  (bus.sagas.flatMap fun saga => (saga.handlers event).flatMap fun step =>
    (saga.methods step.propertyKey event).toOption.getD []).filterMap id

/-- The event is distributed and the bus idle again. The commands of the sagas
were published if everything succeeded, else the rollback commands of the pairs
registered under the id of the event. -/
def EndsWell (bus : Bus Data) (event : IEvent Data) (registrations : List Registration)
    (ending : Ending Data) : Prop :=
  ending.outcome = .resolved ∧ ending.status = .IDLE ∧ ending.distributed = true ∧
    (AllSucceed bus event →
      ending.published = (returnedCommands bus event).map fun command =>
        .inl (Transactions.linked event command)) ∧
    (¬AllSucceed bus event →
      ∃ commands, RollsBackExactly registrations event.correlationId (.ok commands) ∧
        ending.published = commands.map Sum.inr)

/-- The step returns commands, and there is a cache to register them in. -/
def StepSucceeds (saga : Saga Data) (event : IEvent Data) (step : SagaMetadataPayload) : Prop :=
  ∃ commands, saga.methods step.propertyKey event = .ok commands ∧
    (commands ≠ [] → saga.cacheController = true)

/-- No handler throws at once. If one rejects, the pairs registered under the id
are read back as what they are, and their commands can be published; if none
does, no saga fails and its commands can be published. -/
def Contained (bus : Bus Data) (event : IEvent Data) (registrations : List Registration) : Prop :=
  ∃ results, callHandlers bus event = .ok results ∧ bus.pubSub event = .resolved ∧
    (Transactions.someRejected results = true →
      ReadsBack bus.storage registrations event.correlationId ∧
        ∀ r ∈ registrations, r.correlationId = event.correlationId →
          bus.publish (.inr ⟨r.command, some r.streamId, event.correlationId⟩) = .resolved) ∧
    (Transactions.someRejected results = false →
      (∀ saga ∈ bus.sagas, ∀ step ∈ saga.handlers event, StepSucceeds saga event step) ∧
      ∀ command ∈ returnedCommands bus event,
        bus.publish (.inl (Transactions.linked event command)) = .resolved)

/-! ### The sagas -/

/-- The commands that a step returns, if it does. -/
def stepCommands (saga : Saga Data) (event : IEvent Data) (step : SagaMetadataPayload) :
    Commands Data :=
  (saga.methods step.propertyKey event).toOption.getD []

theorem runStep_ok {saga : Saga Data} {event : IEvent Data} {step : SagaMetadataPayload}
    {cache cache' : MemoryCache} {commands : Commands Data}
    (h : saga.runStep event step cache = (cache', .ok commands)) :
    StepSucceeds saga event step ∧ commands = stepCommands saga event step := by
  unfold Saga.runStep at h
  cases hMethod : saga.methods step.propertyKey event with
  | error reason =>
      rw [hMethod] at h
      cases h
  | ok returned =>
      rw [hMethod] at h
      have hCommands : commands = returned ∧ (returned ≠ [] → saga.cacheController = true) := by
        dsimp only at h
        split at h
        · split at h
          · next hCache =>
              cases h
              exact ⟨rfl, fun _ => hCache⟩
          · cases h
        · next hNone =>
            cases h
            exact ⟨rfl, fun hSome => absurd (List.length_pos_iff.mpr hSome) hNone⟩
      obtain ⟨rfl, hCache⟩ := hCommands
      exact ⟨⟨commands, hMethod, hCache⟩, by rw [stepCommands, hMethod]; rfl⟩

theorem runStep_error {saga : Saga Data} {event : IEvent Data} {step : SagaMetadataPayload}
    {cache cache' : MemoryCache} {reason : Thrown}
    (h : saga.runStep event step cache = (cache', .error reason)) :
    ¬StepSucceeds saga event step := by
  rintro ⟨commands, hMethod, hCache⟩
  unfold Saga.runStep at h
  rw [hMethod] at h
  dsimp only at h
  split at h
  · next hSome =>
      rw [if_pos (hCache (List.length_pos_iff.mp hSome))] at h
      cases h
  · cases h

/-- What the runs of the sagas have in common: one that goes on has collected
what its steps so far returned, one that has failed has a step that fails. -/
def Tracked (event : IEvent Data) (run : SagaRun Data) : Prop :=
  match run.result with
  | .ok commands => ∃ done, run.saga.handlers event = done ++ run.left ∧
      (∀ step ∈ done, StepSucceeds run.saga event step) ∧
      commands = done.flatMap (stepCommands run.saga event)
  | .error _ => run.left = [] ∧
      ∃ step ∈ run.saga.handlers event, ¬StepSucceeds run.saga event step

theorem tracked_turn {event : IEvent Data} {run run' : SagaRun Data}
    {cache cache' : MemoryCache} {more : List Registration} (h : Tracked event run)
    (hTurn : run.turn event cache = some (cache', run', more)) :
    Tracked event run' ∧ run'.saga = run.saga ∧ run'.left.length < run.left.length := by
  obtain ⟨step, left, commands, hLeft, hResult, -, hRun⟩ := SagaRun.turn_cases hTurn
  rw [Tracked, hResult] at h
  obtain ⟨done, hHandlers, hDone, hCommands⟩ := h
  rw [hLeft] at hHandlers
  rcases hRun with ⟨reason, hFailed, rfl⟩ | ⟨added, hGave, rfl⟩
  · refine ⟨⟨rfl, step, ?_, runStep_error hFailed⟩, rfl, by simp [hLeft]⟩
    rw [hHandlers]
    simp
  · obtain ⟨hSucceeds, hAdded⟩ := runStep_ok hGave
    refine ⟨⟨done ++ [step], by simpa using hHandlers, ?_, ?_⟩, rfl, by simp [hLeft]⟩
    · intro other hOther
      rcases List.mem_append.mp hOther with hOld | hNew
      · exact hDone other hOld
      · rw [List.mem_singleton.mp hNew]
        exact hSucceeds
    · rw [hCommands, hAdded]
      simp

/-- The runs are those of the sagas of the bus, each of them tracked. -/
structure Processing.Sound (bus : Bus Data) (event : IEvent Data) (p : Processing Data) :
    Prop where
  sagas_eq : p.runs.map (·.saga) = bus.sagas
  tracked : ∀ run ∈ p.runs, Tracked event run

theorem sound_applyEventToSagas (bus : Bus Data) (event : IEvent Data) (cache : MemoryCache)
    (registrations : List Registration) :
    (applyEventToSagas bus event cache registrations).Sound bus event where
  sagas_eq := by
    rw [applyEventToSagas, List.map_map]
    exact List.map_id _
  tracked := by
    intro run hRun
    obtain ⟨saga, -, rfl⟩ := List.mem_map.mp hRun
    exact ⟨[], rfl, fun _ hMem => absurd hMem List.not_mem_nil, rfl⟩

theorem Processing.Sound.turn {bus : Bus Data} {event : IEvent Data} {p : Processing Data}
    (h : p.Sound bus event) {index : Nat} {run run' : SagaRun Data} {cache : MemoryCache}
    {more : List Registration} (hRun : p.runs[index]? = some run)
    (hTurn : run.turn event p.cache = some (cache, run', more)) :
    Sound bus event ⟨cache, p.registrations ++ more, p.runs.set index run'⟩ := by
  obtain ⟨hTracked, hSaga, -⟩ := tracked_turn (h.tracked run (List.mem_of_getElem? hRun)) hTurn
  obtain ⟨hLt, rfl⟩ := List.getElem?_eq_some_iff.mp hRun
  constructor
  · rw [List.map_set, hSaga, ← List.map_set, List.set_getElem_self]
    exact h.sagas_eq
  · intro other hOther
    rcases List.mem_or_eq_of_mem_set hOther with hOld | rfl
    · exact h.tracked other hOld
    · exact hTracked

theorem Proceeds.sound {bus : Bus Data} {event : IEvent Data} {p last : Processing Data}
    (hProceeds : Proceeds event p last) (h : p.Sound bus event) : last.Sound bus event := by
  induction hProceeds with
  | refl p => exact h
  | turn hRun hTurn rest ih => exact ih (h.turn hRun hTurn)
  | other r rest ih => exact ih ⟨h.sagas_eq, h.tracked⟩

/-- A run with steps left can take a turn. -/
theorem exists_turn {event : IEvent Data} {run : SagaRun Data} (h : Tracked event run)
    (hLeft : run.left ≠ []) (cache : MemoryCache) :
    ∃ cache' run' more, run.turn event cache = some (cache', run', more) := by
  obtain ⟨saga, left, result⟩ := run
  cases left with
  | nil => exact absurd rfl hLeft
  | cons step left =>
      cases result with
      | error reason => cases h.1
      | ok commands =>
          unfold SagaRun.turn
          dsimp only
          rcases saga.runStep event step cache with ⟨cache', reason | added⟩
          · exact ⟨_, _, _, rfl⟩
          · exact ⟨_, _, _, rfl⟩

/-- The sagas come to an end. The induction is on the number of steps left. -/
theorem exists_finished {bus : Bus Data} {event : IEvent Data} (left : Nat) :
    ∀ p : Processing Data, p.Sound bus event → (p.runs.flatMap (·.left)).length ≤ left →
      ∃ last, Proceeds event p last ∧ ∀ run ∈ last.runs, run.left = [] := by
  induction left with
  | zero =>
      intro p _ hLength
      refine ⟨p, .refl p, fun run hRun => ?_⟩
      have hNil : p.runs.flatMap (·.left) = [] := List.eq_nil_of_length_eq_zero (by omega)
      exact List.flatMap_eq_nil_iff.mp hNil run hRun
  | succ left ih =>
      intro p h hLength
      by_cases hDone : ∀ run ∈ p.runs, run.left = []
      · exact ⟨p, .refl p, hDone⟩
      · simp only [not_forall] at hDone
        obtain ⟨run, hRun, hLeft⟩ := hDone
        obtain ⟨cache, run', more, hTurn⟩ := exists_turn (h.tracked run hRun) hLeft p.cache
        have hShorter := (tracked_turn (h.tracked run hRun) hTurn).2.2
        obtain ⟨index, hIndex⟩ := List.mem_iff_getElem?.mp hRun
        have hNext := h.turn hIndex hTurn
        obtain ⟨hLt, rfl⟩ := List.getElem?_eq_some_iff.mp hIndex
        have hFewer : ((p.runs.set index run').flatMap (·.left)).length ≤ left := by
          have hSplit : p.runs = p.runs.take index ++ p.runs[index] :: p.runs.drop (index + 1) := by
            rw [← List.drop_eq_getElem_cons hLt, List.take_append_drop]
          rw [List.set_eq_take_append_cons_drop, if_pos hLt]
          rw [hSplit] at hLength
          simp only [List.flatMap_append, List.flatMap_cons, List.length_append] at hLength ⊢
          omega
        obtain ⟨last, hProceeds, hFinished⟩ := ih _ hNext hFewer
        exact ⟨last, .turn hIndex hTurn hProceeds, hFinished⟩

/-! ### The whole call -/

/-- Finished runs that none of which failed have collected what all steps of
their sagas return. -/
theorem collected_of_finished {event : IEvent Data} {runs : List (SagaRun Data)}
    {lists : List (Commands Data)} (hTracked : ∀ run ∈ runs, Tracked event run)
    (hDone : ∀ run ∈ runs, run.left = []) (hResults : runs.map (·.result) = lists.map .ok) :
    (∀ saga ∈ runs.map (·.saga), ∀ step ∈ saga.handlers event, StepSucceeds saga event step) ∧
      lists.flatten = (runs.map (·.saga)).flatMap fun saga =>
        (saga.handlers event).flatMap (stepCommands saga event) := by
  induction runs generalizing lists with
  | nil =>
      obtain rfl : lists = [] := by simpa using hResults.symm
      simp
  | cons run runs ih =>
      cases lists with
      | nil => simp at hResults
      | cons commands lists =>
          obtain ⟨hResult, hRest⟩ := List.cons_eq_cons.mp hResults
          obtain ⟨hFirst, hTracked⟩ := List.forall_mem_cons.mp hTracked
          obtain ⟨hLeft, hDone⟩ := List.forall_mem_cons.mp hDone
          obtain ⟨hSteps, hFlatten⟩ := ih hTracked hDone hRest
          change run.result = .ok commands at hResult
          rw [Tracked, hResult] at hFirst
          obtain ⟨done, hHandlers, hSucceed, hCommands⟩ := hFirst
          rw [hLeft, List.append_nil] at hHandlers
          rw [List.map_cons, List.flatMap_cons, List.flatten_cons, hHandlers, hFlatten, hCommands]
          exact ⟨List.forall_mem_cons.mpr ⟨hHandlers ▸ hSucceed, hSteps⟩, rfl⟩

theorem collected_eq_ok {bus : Bus Data} {event : IEvent Data} {last : Processing Data}
    {commands : Commands Data} (h : last.Sound bus event)
    (hDone : ∀ run ∈ last.runs, run.left = [])
    (hCollected : Transactions.collected last.runs = .ok commands) :
    (∀ saga ∈ bus.sagas, ∀ step ∈ saga.handlers event, StepSucceeds saga event step) ∧
      commands.filterMap id = returnedCommands bus event := by
  unfold Transactions.collected at hCollected
  cases hLists : last.runs.mapM (·.result) with
  | error reason => simp [hLists] at hCollected
  | ok lists =>
      rw [hLists] at hCollected
      obtain rfl := Except.ok.inj hCollected
      obtain ⟨hSteps, hFlatten⟩ :=
        collected_of_finished h.tracked hDone (Traversal.mapM_eq_ok_iff.mp hLists)
      rw [h.sagas_eq] at hSteps hFlatten
      exact ⟨hSteps, by rw [hFlatten]; rfl⟩

/-- No handler rejects exactly when every one returns a promise that resolves. -/
theorem someRejected_eq_false_iff {bus : Bus Data} {event : IEvent Data}
    {results : List Outcome} (h : callHandlers bus event = .ok results) :
    Transactions.someRejected results = false ↔
      ∀ handler ∈ (bus.handlerMap.get event.name).getD [],
        handler event = .returned .resolved := by
  have hResolved : Transactions.someRejected results = false ↔
      ∀ outcome ∈ results, outcome = .resolved := by
    simp [Transactions.someRejected]
  rw [hResolved]
  constructor
  · intro hAll handler hMem
    obtain ⟨outcome, hOk⟩ := Traversal.exists_ok_iff.mp ⟨_, h⟩ handler hMem
    have hOutcome := hAll outcome ((Traversal.mem_iff h).mpr ⟨handler, hMem, hOk⟩)
    cases hCall : handler event with
    | threw reason => simp [hCall] at hOk
    | returned settled =>
        rw [hCall] at hOk
        rw [← hOutcome, Except.ok.inj hOk]
  · intro hAll outcome hMem
    obtain ⟨handler, hHandler, hOk⟩ := (Traversal.mem_iff h).mp hMem
    rw [hAll handler hHandler] at hOk
    exact (Except.ok.inj hOk).symm

theorem finish_published (bus : Bus Data) (event : IEvent Data) (commands : List (Issued Data)) :
    (finish bus event (.ok commands)).published = commands.map (linked event) := by
  rw [finish]
  split
  · rfl
  · split <;> rfl

/-- The commands are published as they should be exactly when nothing refuses
them, nor the event. -/
theorem endsWell_finish_iff {bus : Bus Data} {event : IEvent Data}
    {registrations : List Registration} {commands : List (Issued Data)}
    (hAll : AllSucceed bus event → commands.map (linked event) =
      (returnedCommands bus event).map fun command => .inl (Transactions.linked event command))
    (hSome : ¬AllSucceed bus event → ∃ built,
      RollsBackExactly registrations event.correlationId (.ok built) ∧
        commands.map (linked event) = built.map Sum.inr) :
    EndsWell bus event registrations (finish bus event (.ok commands)) ↔
      (∀ command ∈ commands, bus.publish (linked event command) = .resolved) ∧
        bus.pubSub event = .resolved := by
  have hPublish : Outcome.all ((commands.map (linked event)).map bus.publish) = .resolved ↔
      ∀ command ∈ commands, bus.publish (linked event command) = .resolved := by
    rw [Outcome.all_eq_resolved_iff, List.forall_mem_map, List.forall_mem_map]
  rw [← hPublish, finish]
  cases Outcome.all ((commands.map (linked event)).map bus.publish) with
  | rejected reason => simp [EndsWell]
  | resolved =>
      cases bus.pubSub event with
      | rejected reason => simp [EndsWell]
      | resolved => exact iff_of_true ⟨rfl, rfl, rfl, hAll, hSome⟩ ⟨rfl, rfl⟩

/-- The rollback commands have the id of the event already. -/
theorem linked_built {storage : ConstructorStorage} {registrations : List Registration}
    {event : IEvent Data} {commands : List RollbackCommand}
    (h : registeredCommands storage registrations event.correlationId = .ok commands)
    {command : RollbackCommand} (hMem : command ∈ commands) :
    linked event (.inr command) = .inr command := by
  obtain ⟨text, -, hBuilt⟩ := (Traversal.mem_iff h).mp hMem
  have hId : command.correlationId = event.correlationId := by
    unfold SagaManager.construct at hBuilt
    split at hBuilt
    · cases hBuilt
    · split at hBuilt
      · cases hBuilt
      · cases hBuilt
        rfl
  rw [linked, ← hId]
  split <;> rfl

/-- The call comes to an end, in one of its ways. -/
theorem exists_executes (bus : Bus Data) (event : IEvent Data) (cache : MemoryCache)
    (registrations : List Registration) :
    ∃ registered ending, Executes bus event cache registrations registered ending := by
  cases hHandlers : callHandlers bus event with
  | error reason => exact ⟨_, _, .threw hHandlers⟩
  | ok results =>
      cases hRejected : Transactions.someRejected results with
      | true => exact ⟨_, _, .rolledBack hHandlers hRejected⟩
      | false =>
          obtain ⟨last, hProceeds, hDone⟩ :=
            exists_finished _ _ (sound_applyEventToSagas bus event cache registrations) le_rfl
          cases hCollected : Transactions.collected last.runs with
          | ok commands => exact ⟨_, _, .applied hHandlers hRejected hProceeds hDone hCollected⟩
          | error reason =>
              have hFails : last.runs.mapM (·.result) = .error reason := by
                unfold Transactions.collected at hCollected
                split at hCollected
                · next hError => rw [hError, Except.error.inj hCollected]
                · cases hCollected
              obtain ⟨run, hRun, hFailed⟩ := Traversal.exists_of_mapM_eq_error hFails
              exact ⟨_, _, .sagaFailed hHandlers hRejected hProceeds hRun hFailed⟩

/-- After a handler has rejected, all depends on the rollback commands. -/
theorem endsWell_rolledBack_iff {bus : Bus Data} {event : IEvent Data} {cache : MemoryCache}
    {registrations : List Registration}
    (hCache : cache.Represents (Registration.entries registrations)) {results : List Outcome}
    (hSettled : callHandlers bus event = .ok results)
    (hRejected : Transactions.someRejected results = true) :
    EndsWell bus event registrations (finish bus event
        ((SagaManager.rollbackSagas bus.storage cache event.correlationId).map
          (·.map Sum.inr))) ↔
      Contained bus event registrations := by
  have hFailed : ¬AllSucceed bus event := by
    rintro ⟨hHandlers, -⟩
    rw [(someRejected_eq_false_iff hSettled).mpr hHandlers] at hRejected
    cases hRejected
  have hContained : Contained bus event registrations ↔ bus.pubSub event = .resolved ∧
      RollsBackExactly registrations event.correlationId
          (registeredCommands bus.storage registrations event.correlationId) ∧
        ∀ r ∈ registrations, r.correlationId = event.correlationId →
          bus.publish (.inr ⟨r.command, some r.streamId, event.correlationId⟩) = .resolved := by
    rw [SagaManager.rollsBackExactly_registeredCommands_iff bus.storageKeyed]
    simp [Contained, hSettled, hRejected]
  rw [hContained, SagaManager.rollbackSagas_eq hCache]
  change EndsWell bus event registrations (finish bus event
    ((registeredCommands bus.storage registrations event.correlationId).map _)) ↔ _
  cases hBuilt : registeredCommands bus.storage registrations event.correlationId with
  | error reason =>
      refine iff_of_false (fun hEnds => ?_) ?_
      · cases hEnds.1
      · rintro ⟨-, ⟨commands, hOk, -⟩, -⟩
        cases hOk
  | ok commands =>
      have hLinked : (commands.map Sum.inr).map (linked event) =
          (commands.map Sum.inr : List (Issued Data)) := by
        rw [List.map_map]
        exact List.map_congr_left fun command hMem => linked_built hBuilt hMem
      change EndsWell bus event registrations
        (finish bus event (.ok (commands.map Sum.inr))) ↔ _
      by_cases hExact : RollsBackExactly registrations event.correlationId (.ok commands)
      · rw [endsWell_finish_iff (fun hAll => absurd hAll hFailed)
          (fun _ => ⟨commands, hExact, hLinked⟩), and_comm, List.forall_mem_map,
          and_iff_right hExact, ← hExact.forall_iff fun command =>
            bus.publish (.inr command) = .resolved]
        refine and_congr_right fun _ => forall₂_congr fun command hMem => ?_
        rw [linked_built hBuilt hMem]
      · -- Whatever is published, it is not what should be.
        refine iff_of_false (fun hEnds => ?_) (fun hAll => hExact hAll.2.1)
        obtain ⟨built, hPairs, hPublished⟩ := hEnds.2.2.2.2 hFailed
        rw [finish_published, hLinked] at hPublished
        rw [List.map_injective_iff.mpr Sum.inr_injective hPublished] at hExact
        exact hExact hPairs

/-- A saga that has failed has a step that fails. -/
theorem not_contained_of_failed {bus : Bus Data} {event : IEvent Data}
    {registrations : List Registration} {results : List Outcome}
    (hSettled : callHandlers bus event = .ok results)
    (hRejected : Transactions.someRejected results = false) {last : Processing Data}
    (hSound : last.Sound bus event) {run : SagaRun Data} (hRun : run ∈ last.runs)
    {reason : Thrown} (hFailed : run.result = .error reason) :
    ¬Contained bus event registrations := by
  rintro ⟨results', hOk, -, -, hSucceed⟩
  obtain rfl := Except.ok.inj (hSettled.symm.trans hOk)
  have hTracked := hSound.tracked run hRun
  rw [Tracked, hFailed] at hTracked
  obtain ⟨-, step, hStep, hFails⟩ := hTracked
  have hSaga : run.saga ∈ bus.sagas := hSound.sagas_eq ▸ List.mem_map_of_mem hRun
  exact hFails ((hSucceed hRejected).1 run.saga hSaga step hStep)

/-- After all sagas are finished, all depends on the commands that they return. -/
theorem endsWell_applied_iff {bus : Bus Data} {event : IEvent Data}
    {registrations registered : List Registration} {results : List Outcome}
    (hSettled : callHandlers bus event = .ok results)
    (hRejected : Transactions.someRejected results = false) {last : Processing Data}
    (hSound : last.Sound bus event) (hDone : ∀ run ∈ last.runs, run.left = [])
    {commands : Commands Data} (hCollected : Transactions.collected last.runs = .ok commands) :
    EndsWell bus event registered
        (finish bus event (.ok ((commands.filterMap id).map Sum.inl))) ↔
      Contained bus event registrations := by
  obtain ⟨hSteps, hCommands⟩ := collected_eq_ok hSound hDone hCollected
  have hAll : AllSucceed bus event := by
    refine ⟨(someRejected_eq_false_iff hSettled).mp hRejected, fun saga hSaga step hStep => ?_⟩
    obtain ⟨returned, hMethod, -⟩ := hSteps saga hSaga step hStep
    rw [hMethod]
    rfl
  have hContained : Contained bus event registrations ↔ bus.pubSub event = .resolved ∧
      ∀ command ∈ returnedCommands bus event,
        bus.publish (.inl (Transactions.linked event command)) = .resolved := by
    simp only [Contained, hSettled, Except.ok.injEq, exists_eq_left', hRejected,
      Bool.false_eq_true, false_implies, true_and, true_implies]
    exact and_congr_right fun _ => and_iff_right hSteps
  rw [hContained, hCommands, endsWell_finish_iff (fun _ => List.map_map ..)
    (fun hFails => absurd hAll hFails), and_comm, List.forall_mem_map]
  rfl

/-- However the call goes, it ends as it should exactly when its failures are
contained. -/
theorem Executes.endsWell_iff {bus : Bus Data} {event : IEvent Data} {cache : MemoryCache}
    {registrations registered : List Registration} {ending : Ending Data}
    (h : Executes bus event cache registrations registered ending)
    (hCache : cache.Represents (Registration.entries registrations)) :
    EndsWell bus event registered ending ↔ Contained bus event registrations := by
  cases h with
  | threw hThrew =>
      refine iff_of_false (fun hEnds => ?_) ?_
      · cases hEnds.1
      · rintro ⟨results, hOk, -⟩
        rw [hThrew] at hOk
        cases hOk
  | rolledBack hSettled hRejected => exact endsWell_rolledBack_iff hCache hSettled hRejected
  | sagaFailed hSettled hRejected hProceeds hRun hFailed =>
      have hSound := hProceeds.sound (sound_applyEventToSagas bus event cache registrations)
      refine iff_of_false (fun hEnds => ?_)
        (not_contained_of_failed hSettled hRejected hSound hRun hFailed)
      cases hEnds.1
  | applied hSettled hRejected hProceeds hDone hCollected =>
      have hSound := hProceeds.sound (sound_applyEventToSagas bus event cache registrations)
      exact endsWell_applied_iff hSettled hRejected hSound hDone hCollected

/-- For every event there is a way in which the call ends, and each of them is
as it should be exactly when no handler throws at once and nothing after the
handlers fails. -/
theorem executeLocal_endsWell_iff (bus : Bus Data) (event : IEvent Data) {cache : MemoryCache}
    {registrations : List Registration}
    (hCache : cache.Represents (Registration.entries registrations)) :
    (∃ registered ending, Executes bus event cache registrations registered ending) ∧
      ∀ registered ending, Executes bus event cache registrations registered ending →
        (EndsWell bus event registered ending ↔ Contained bus event registrations) :=
  ⟨exists_executes bus event cache registrations, fun _ _ h => h.endsWell_iff hCache⟩

/-! ### A greeting that is handled and answered -/

/-- The one handler of a greeting ends in this way, and the one saga answers.
Everything can be published. -/
def greetingBus (call : Call) : Bus Unit where
  handlerMap := KeyedMap.empty.set "HelloSaidEvent" [fun _ => call]
  sagas := [SagaManager.helloWorldSaga]
  storage := SagaManager.helloStorage
  storageKeyed := SagaManager.helloStorage_keyed
  publish _ := .resolved
  pubSub _ := .resolved

theorem executeLocal_endsWell_iff_greeting :
    (∃ registered ending, Executes (greetingBus (.returned .resolved)) (greeting "e1" "tx")
        CommandFailure.greetedCache [CommandFailure.greeted] registered ending) ∧
      ∀ registered ending, Executes (greetingBus (.returned .resolved)) (greeting "e1" "tx")
          CommandFailure.greetedCache [CommandFailure.greeted] registered ending →
        (EndsWell (greetingBus (.returned .resolved)) (greeting "e1" "tx") registered ending ↔
          Contained (greetingBus (.returned .resolved)) (greeting "e1" "tx")
            [CommandFailure.greeted]) :=
  executeLocal_endsWell_iff _ _ CommandFailure.represents_greeted

/-- A handler that throws at once leaves the bus active, and what is registered
is not rolled back. -/
theorem thrown_at_once_not_contained :
    ∃ registered ending,
      Executes (greetingBus (.threw (.error "Error" "no greeting"))) (greeting "e1" "tx")
        CommandFailure.greetedCache [CommandFailure.greeted] registered ending ∧
      ¬EndsWell (greetingBus (.threw (.error "Error" "no greeting"))) (greeting "e1" "tx")
        registered ending := by
  refine ⟨_, _, .threw rfl, fun hEnds => ?_⟩
  cases hEnds.2.1

end Moirae.EventBus
