import Moirae.Core.Transactions

/-! What the busses have published at any time, as a function of the order in
which pairs were registered and failures read them. -/
namespace Moirae.Transactions

variable {Data : Type}

section

variable (storage : ConstructorStorage) (registrations : List Registration) (failure : Failure)

/-- What the failure read: the entries registered under its key until then. -/
def readEntries : ValueSet String :=
  Registration.entries (registrations.take failure.readAt)
    (correlationKey failure.correlationId)

/-- Every entry the failure read can be turned into a command. -/
def Readable : Prop :=
  ∀ text ∈ (readEntries registrations failure).values,
    ∃ command, SagaManager.construct storage failure.correlationId text = .ok command

/-- The rollback commands of the failure, if all of them can be built. -/
def built : Except Thrown (List RollbackCommand) :=
  (readEntries registrations failure).values.mapM
    (SagaManager.construct storage failure.correlationId)

def publications : List Publication :=
  match built storage registrations failure with
  | .error _ => []
  | .ok commands => commands.map fun command => ⟨failure, command⟩

end

section

variable {storage : ConstructorStorage} {registrations : List Registration} {failure : Failure}

/-- What a failure reads can be read when the commands can be built from it. -/
theorem readable_iff : Readable storage registrations failure ↔
    ∃ commands, built storage registrations failure = .ok commands :=
  Traversal.exists_ok_iff.symm

/-- What is registered later was not read. -/
theorem readEntries_append (h : failure.readAt ≤ registrations.length)
    (more : List Registration) :
    readEntries (registrations ++ more) failure = readEntries registrations failure := by
  rw [readEntries, readEntries, List.take_append_of_le_length h]

/-- Registrations that come later are not read. -/
theorem readable_append (h : failure.readAt ≤ registrations.length)
    (more : List Registration) :
    Readable storage (registrations ++ more) failure ↔
      Readable storage registrations failure := by
  rw [Readable, Readable, readEntries_append h]

/-- They add nothing to what a failure publishes. -/
theorem publications_append (h : failure.readAt ≤ registrations.length)
    (more : List Registration) :
    publications storage (registrations ++ more) failure =
      publications storage registrations failure := by
  rw [publications, publications, built, built, readEntries_append h]

/-- A failure that cannot build its commands publishes nothing. -/
theorem publications_eq_nil (h : ¬Readable storage registrations failure) :
    publications storage registrations failure = [] := by
  cases hBuilt : built storage registrations failure with
  | error reason => rw [publications, hBuilt]
  | ok commands => exact absurd (readable_iff.mpr ⟨commands, hBuilt⟩) h

/-- A failure that publishes something has read the set. -/
theorem readable_of_mem_publications {publication : Publication}
    (h : publication ∈ publications storage registrations failure) :
    Readable storage registrations failure := by
  by_contra hNot
  rw [publications_eq_nil hNot] at h
  exact absurd h List.not_mem_nil

/-- The commands of a readable failure, one for each entry it read. -/
theorem mem_publications (hReadable : Readable storage registrations failure)
    {publication : Publication} :
    publication ∈ publications storage registrations failure ↔
      publication.cause = failure ∧ ∃ text ∈ (readEntries registrations failure).values,
        SagaManager.construct storage failure.correlationId text = .ok publication.command := by
  obtain ⟨commands, hBuilt⟩ := readable_iff.mp hReadable
  rw [publications, hBuilt, ← Traversal.mem_iff hBuilt]
  obtain ⟨cause, command⟩ := publication
  simp only [List.mem_map, Publication.mk.injEq]
  constructor
  · rintro ⟨other, hMem, hCause, rfl⟩
    exact ⟨hCause.symm, hMem⟩
  · rintro ⟨hCause, hMem⟩
    exact ⟨command, hMem, hCause.symm, rfl⟩

end

/-- An element stays in a list when another place is taken. -/
theorem mem_eraseIdx_of_ne {α : Type} {xs : List α} {x : α} {place : Nat} (h : x ∈ xs)
    (hNot : xs[place]? ≠ some x) : x ∈ xs.eraseIdx place := by
  obtain ⟨i, hi⟩ := List.mem_iff_getElem?.mp h
  refine List.mem_eraseIdx_iff_getElem?.mpr ⟨i, ?_, hi⟩
  rintro rfl
  exact hNot hi

/-- An element stays in a list when another place is written. -/
theorem mem_set_of_ne {α : Type} {xs : List α} {x y : α} {place : Nat} (h : x ∈ xs)
    (hNot : xs[place]? ≠ some x) : x ∈ xs.set place y := by
  obtain ⟨i, hi⟩ := List.mem_iff_getElem?.mp h
  refine List.mem_iff_getElem?.mpr ⟨i, ?_⟩
  have hPlace : place ≠ i := by
    rintro rfl
    exact hNot hi
  rw [List.getElem?_set_ne hPlace, hi]

/-- What the next turn of a saga registers. -/
def SagaRun.registers (run : SagaRun Data) (event : IEvent Data) : List Registration :=
  match run.left, run.result with
  | handler :: _, .ok _ => registered run.saga event handler
  | _, _ => []

/-- A turn registers what it was seen to register. -/
theorem SagaRun.registers_of_turn {run run' : SagaRun Data} {event : IEvent Data}
    {cache cache' : MemoryCache} {more : List Registration}
    (hTurn : run.turn event cache = some (cache', run', more)) : run.registers event = more := by
  obtain ⟨handler, handlers, commands, hLeft, hResult, rfl, -⟩ := SagaRun.turn_cases hTurn
  rw [registers, hLeft, hResult]

/-- A step of a saga registers in the cache what it should. -/
theorem represents_runStep (saga : Saga Data) (event : IEvent Data)
    (handler : SagaMetadataPayload) {cache : MemoryCache} {registrations : List Registration}
    (h : cache.Represents (Registration.entries registrations)) :
    (saga.runStep event handler cache).1.Represents
      (Registration.entries (registrations ++ registered saga event handler)) := by
  cases hMethod : saga.methods handler.propertyKey event with
  | error reason =>
      simp only [Saga.runStep, registered, hMethod, List.append_nil]
      exact h
  | ok more =>
      cases hCache : saga.cacheController with
      | true =>
          simp only [registered, hMethod, hCache, if_true]
          exact (Saga.represents_runStep hCache h hMethod).2
      | false =>
          simp only [Saga.runStep, registered, hMethod, hCache, Bool.false_eq_true,
            if_false, List.append_nil]
          split <;> exact h

/-- A turn of a saga registers in the cache what it says. -/
theorem SagaRun.represents_turn {run run' : SagaRun Data} {event : IEvent Data}
    {cache cache' : MemoryCache} {registrations more : List Registration}
    (hTurn : run.turn event cache = some (cache', run', more))
    (h : cache.Represents (Registration.entries registrations)) :
    cache'.Represents (Registration.entries (registrations ++ more)) := by
  obtain ⟨handler, handlers, commands, -, -, rfl, hRun⟩ := SagaRun.turn_cases hTurn
  have hStep := represents_runStep run.saga event handler h
  rcases hRun with ⟨reason, hFailed, -⟩ | ⟨added, hGave, -⟩
  · rw [hFailed] at hStep
    exact hStep
  · rw [hGave] at hStep
    exact hStep

namespace World

variable {sagas : List (Saga Data)} {storage : ConstructorStorage}

/-- The failure whose rollback commands are up in this step. -/
def rollingBack (w : World Data) : Action Data → Option Failure
  | .publish place => match w.executions[place]? with
    | some ⟨_, .rollingBack failure _⟩ => some failure
    | _ => none
  | _ => none

/-- The pairs that are registered in this step. -/
def registering (w : World Data) : Action Data → List Registration
  | .sagaStep place index => match w.executions[place]? with
    | some ⟨_, .applying event runs⟩ => match runs[index]? with
      | some run => run.registers event
      | none => []
    | _ => []
  | _ => []

/-- Everything one step of a run can do. -/
inductive Stepped (storage : ConstructorStorage) (w : World Data) :
    Action Data → World Data → Prop where
  | started (message : Message Data) :
      Stepped storage w (.execute message)
        { w with executions := w.executions ++ [⟨message, .handling⟩] }
  | failed {action : Action Data} {place : Nat} {message : Message Data} (error : Bool)
      (hAt : w.executions[place]? = some ⟨message, .handling⟩)
      (hRolling : w.rollingBack action = none) (hRegistering : w.registering action = []) :
      Stepped storage w action (w.fail place message error)
  | applying {place : Nat} {event : IEvent Data} {results : Except Thrown (List Outcome)}
      (runs : List (SagaRun Data))
      (hAt : w.executions[place]? = some ⟨.event event, .handling⟩) :
      Stepped storage w (.eventHandled place results)
        { w with executions := w.executions.set place ⟨.event event, .applying event runs⟩ }
  /-- A saga has its turn. -/
  | turned {place index : Nat} {message : Message Data} {event : IEvent Data}
      {runs runs' : List (SagaRun Data)} {cache : MemoryCache}
      (hAt : w.executions[place]? = some ⟨message, .applying event runs⟩)
      (hCache : ∀ before, w.cache.Represents (Registration.entries before) →
        cache.Represents
          (Registration.entries (before ++ w.registering (.sagaStep place index)))) :
      Stepped storage w (.sagaStep place index)
        { w with
          cache
          executions := w.executions.set place ⟨message, .applying event runs'⟩
          registrations := w.registrations ++ w.registering (.sagaStep place index) }
  /-- An execution ends without a rollback command. -/
  | ended {action : Action Data} {place : Nat} {x : Execution Data}
      (issued : List (ICommand Data)) (hAt : w.executions[place]? = some x)
      (hError : ∀ failure rawList, x.phase = .rollingBack failure rawList → ∃ reason,
        SagaManager.rollbackCommands storage x.message.correlationId rawList = .error reason)
      (hRolling : ∀ failure, w.rollingBack action = some failure →
        ∃ rawList, x.phase = .rollingBack failure rawList)
      (hRegistering : w.registering action = []) :
      Stepped storage w action { w with executions := w.executions.eraseIdx place, issued }
  | rolledBack {place : Nat} {message : Message Data} {failure : Failure}
      {rawList : List String} {commands : List RollbackCommand}
      (hAt : w.executions[place]? = some ⟨message, .rollingBack failure rawList⟩)
      (hCommands : SagaManager.rollbackCommands storage message.correlationId rawList =
        .ok commands) :
      Stepped storage w (.publish place)
        { w with
          executions := w.executions.eraseIdx place
          rollbacks := w.rollbacks ++ [failure]
          published := w.published ++ commands.map fun command => ⟨failure, command⟩ }

/-- An execution that ends while its handlers are running rolls nothing back. -/
theorem Stepped.ended_handling {w : World Data} {action : Action Data} {place : Nat}
    {message : Message Data} (hAt : w.executions[place]? = some ⟨message, .handling⟩)
    (hRolling : w.rollingBack action = none) (hRegistering : w.registering action = []) :
    Stepped storage w action { w with executions := w.executions.eraseIdx place } := by
  refine .ended w.issued hAt (fun _ _ hPhase => by cases hPhase) (fun failure hFailure => ?_)
    hRegistering
  rw [hRolling] at hFailure
  cases hFailure

/-- The handlers of an event have settled. -/
theorem stepped_of_eventHandled {w w' : World Data} {place : Nat}
    {results : Except Thrown (List Outcome)}
    (h : step sagas storage w (.eventHandled place results) = some w') :
    Stepped storage w (.eventHandled place results) w' := by
  cases hAt : w.executions[place]? with
  | none => simp [step, hAt] at h
  | some x =>
      rcases x with ⟨⟨event⟩ | ⟨command⟩, _ | ⟨failure, rawList⟩ | ⟨event', runs⟩⟩ <;>
        simp only [step, hAt, reduceCtorEq] at h
      cases results with
      | error reason =>
          cases h
          exact .ended_handling hAt rfl rfl
      | ok results =>
          simp only at h
          split at h
          · cases h
            exact .failed _ hAt rfl rfl
          · cases h
            exact .applying _ hAt

/-- The handler of a command has settled. -/
theorem stepped_of_commandHandled {w w' : World Data} {place : Nat}
    {result : Except Thrown (Thrown ⊕ Thrown)}
    (h : step sagas storage w (.commandHandled place result) = some w') :
    Stepped storage w (.commandHandled place result) w' := by
  cases hAt : w.executions[place]? with
  | none => simp [step, hAt] at h
  | some x =>
      rcases x with ⟨⟨event⟩ | ⟨command⟩, _ | ⟨failure, rawList⟩ | ⟨event', runs⟩⟩ <;>
        simp only [step, hAt, reduceCtorEq] at h
      cases result with
      | error reason =>
          cases h
          exact .ended_handling hAt rfl rfl
      | ok res =>
          simp only at h
          split at h
          · cases h
            exact .failed _ hAt rfl rfl
          · cases h
            exact .ended_handling hAt rfl rfl

/-- A saga has gone through one of its steps. -/
theorem stepped_of_sagaStep {w w' : World Data} {place index : Nat}
    (h : step sagas storage w (.sagaStep place index) = some w') :
    Stepped storage w (.sagaStep place index) w' := by
  cases hAt : w.executions[place]? with
  | none => simp [step, hAt] at h
  | some x =>
      obtain ⟨message, phase⟩ := x
      cases phase with
      | handling => simp [step, hAt] at h
      | rollingBack failure rawList => simp [step, hAt] at h
      | applying event runs =>
          simp only [step, hAt] at h
          split at h
          · cases h
          · next cache run more hTurn =>
              cases h
              obtain ⟨old, hOld, hTurned⟩ := Option.bind_eq_some_iff.mp hTurn
              have hMore : w.registering (.sagaStep place index) = more := by
                simp only [registering, hAt, hOld]
                exact SagaRun.registers_of_turn hTurned
              rw [← hMore] at hTurned ⊢
              exact .turned hAt (fun before hBefore => SagaRun.represents_turn hTurned hBefore)

/-- What an execution has to publish goes out. -/
theorem stepped_of_publish {w w' : World Data} {place : Nat}
    (h : step sagas storage w (.publish place) = some w') :
    Stepped storage w (.publish place) w' := by
  cases hAt : w.executions[place]? with
  | none => simp [step, hAt] at h
  | some x =>
      obtain ⟨message, phase⟩ := x
      cases phase with
      | handling => simp [step, hAt] at h
      | rollingBack failure rawList =>
          simp only [step, hAt] at h
          cases hCommands :
              SagaManager.rollbackCommands storage message.correlationId rawList with
          | error reason =>
              simp only [hCommands, Option.some.injEq] at h
              rw [← h]
              refine .ended w.issued hAt (fun failure' rawList' hPhase => ?_)
                (fun failure' hFailure => ?_) rfl
              · cases hPhase
                exact ⟨reason, hCommands⟩
              · simp only [rollingBack, hAt, Option.some.injEq] at hFailure
                exact ⟨rawList, hFailure ▸ rfl⟩
          | ok commands =>
              simp only [hCommands, Option.some.injEq] at h
              rw [← h]
              exact .rolledBack hAt hCommands
      | applying event runs =>
          have hRolling : ∀ failure, w.rollingBack (.publish place) = some failure →
              ∃ rawList, Phase.applying event runs = .rollingBack failure rawList := by
            intro failure hFailure
            simp [rollingBack, hAt] at hFailure
          simp only [step, hAt] at h
          split at h
          · split at h
            · cases h
              exact .ended w.issued hAt (fun _ _ hPhase => by cases hPhase) hRolling rfl
            · cases h
              exact .ended _ hAt (fun _ _ hPhase => by cases hPhase) hRolling rfl
          · cases h

/-- Every step is one of these. -/
theorem stepped_of_step {w w' : World Data} {action : Action Data}
    (h : step sagas storage w action = some w') : Stepped storage w action w' := by
  cases action with
  | execute message =>
      cases h
      exact .started message
  | eventHandled place results => exact stepped_of_eventHandled h
  | commandHandled place result => exact stepped_of_commandHandled h
  | sagaStep place index => exact stepped_of_sagaStep h
  | publish place => exact stepped_of_publish h

/-- The invariant: the cache holds what was registered, a failure in progress
holds what it read, and what was published are the commands of the failures
that got through. -/
structure Logged (storage : ConstructorStorage) (w : World Data) : Prop where
  cache : w.cache.Represents (Registration.entries w.registrations)
  reading : ∀ x ∈ w.executions, ∀ failure rawList, x.phase = .rollingBack failure rawList →
    failure ∈ w.failures ∧ failure.correlationId = x.message.correlationId ∧
      rawList = (readEntries w.registrations failure).values.map JsonString.stringify
  readAt_le : ∀ failure ∈ w.failures, failure.readAt ≤ w.registrations.length
  rollbacks_subset : ∀ failure ∈ w.rollbacks, failure ∈ w.failures ∧
    Readable storage w.registrations failure
  published : w.published = w.rollbacks.flatMap (publications storage w.registrations)
  handled : ∀ failure ∈ w.failures, failure ∈ w.rollbacks ∨
    (∃ x ∈ w.executions, ∃ rawList, x.phase = .rollingBack failure rawList) ∨
    ¬Readable storage w.registrations failure

/-- Nothing has happened. -/
theorem logged_initial : (initial : World Data).Logged storage where
  cache := MemoryCache.represents_new
  reading := List.forall_mem_nil _
  readAt_le := List.forall_mem_nil _
  rollbacks_subset := List.forall_mem_nil _
  published := rfl
  handled := List.forall_mem_nil _

/-- The commands that a failure in progress will publish. -/
theorem rollbackCommands_eq_built {correlationId : Option String} {rawList : List String}
    {registrations : List Registration} {failure : Failure}
    (hId : failure.correlationId = correlationId)
    (hRaw : rawList = (readEntries registrations failure).values.map JsonString.stringify) :
    SagaManager.rollbackCommands storage correlationId rawList =
      built storage registrations failure := by
  rw [SagaManager.rollbackCommands, hRaw, MemoryCache.parseSet_stringify, ← hId]
  rfl

/-- Where the executions change, an execution in progress that is not replaced
is still there. -/
theorem Logged.handled_of_executions {w : World Data} (h : w.Logged storage)
    (executions : List (Execution Data)) {place : Nat} {x : Execution Data}
    (hAt : w.executions[place]? = some x)
    (hPhase : ∀ failure rawList, x.phase ≠ .rollingBack failure rawList)
    (hKept : ∀ y ∈ w.executions, w.executions[place]? ≠ some y → y ∈ executions) :
    ∀ failure ∈ w.failures, failure ∈ w.rollbacks ∨
      (∃ y ∈ executions, ∃ rawList, y.phase = .rollingBack failure rawList) ∨
      ¬Readable storage w.registrations failure := by
  intro failure hFailure
  rcases h.handled failure hFailure with hDone | ⟨y, hy, rawList, hReading⟩ | hNot
  · exact Or.inl hDone
  · refine Or.inr (Or.inl ⟨y, hKept y hy ?_, rawList, hReading⟩)
    intro hSame
    rw [hAt] at hSame
    obtain rfl := Option.some.inj hSame
    exact hPhase failure rawList hReading
  · exact Or.inr (Or.inr hNot)

/-- A failure reads the set as it is now. -/
theorem Logged.fail {w : World Data} (h : w.Logged storage) {place : Nat}
    {message : Message Data} (hAt : w.executions[place]? = some ⟨message, .handling⟩)
    (error : Bool) : (w.fail place message error).Logged storage := by
  obtain ⟨hLt, -⟩ := List.getElem?_eq_some_iff.mp hAt
  have hKept := h.handled_of_executions (w.fail place message error).executions
    hAt (fun _ _ hPhase => by cases hPhase) (fun y hy hNot => mem_set_of_ne hy hNot)
  refine ⟨h.cache, ?_, ?_, ?_, h.published, ?_⟩
  · intro x hMem failure rawList hPhase
    rcases List.mem_or_eq_of_mem_set hMem with hOld | rfl
    · obtain ⟨hFailure, hRest⟩ := h.reading x hOld failure rawList hPhase
      exact ⟨List.mem_append_left _ hFailure, hRest⟩
    · obtain ⟨rfl, rfl⟩ := Phase.rollingBack.inj hPhase
      refine ⟨List.mem_append_right _ (List.mem_singleton_self _), rfl, ?_⟩
      rw [h.cache, readEntries]
      simp only [World.fail, List.take_length]
  · intro failure hMem
    rcases List.mem_append.mp hMem with hOld | hNew
    · exact h.readAt_le failure hOld
    · rw [List.mem_singleton.mp hNew]
      exact Nat.le_refl _
  · intro failure hMem
    obtain ⟨hFailure, hReadable⟩ := h.rollbacks_subset failure hMem
    exact ⟨List.mem_append_left _ hFailure, hReadable⟩
  · intro failure hMem
    rcases List.mem_append.mp hMem with hOld | hNew
    · exact hKept failure hOld
    · rw [List.mem_singleton.mp hNew]
      exact Or.inr (Or.inl ⟨_, List.mem_set hLt _, _, rfl⟩)

/-- A turn of a saga adds what it registers to the set. -/
theorem Logged.turned {w : World Data} (h : w.Logged storage) {place : Nat}
    {message : Message Data} {event : IEvent Data} {runs runs' : List (SagaRun Data)}
    {cache : MemoryCache} {more : List Registration}
    (hAt : w.executions[place]? = some ⟨message, .applying event runs⟩)
    (hCache : cache.Represents (Registration.entries (w.registrations ++ more))) :
    Logged storage
      { w with
        cache
        executions := w.executions.set place ⟨message, .applying event runs'⟩
        registrations := w.registrations ++ more } := by
  refine ⟨hCache, ?_, ?_, ?_, ?_, ?_⟩
  · intro x hMem failure rawList hPhase
    rcases List.mem_or_eq_of_mem_set hMem with hOld | rfl
    · obtain ⟨hFailure, hId, hRaw⟩ := h.reading x hOld failure rawList hPhase
      refine ⟨hFailure, hId, ?_⟩
      rw [readEntries_append (h.readAt_le failure hFailure), hRaw]
    · cases hPhase
  · intro failure hMem
    rw [List.length_append]
    exact Nat.le_add_right_of_le (h.readAt_le failure hMem)
  · intro failure hMem
    obtain ⟨hFailure, hReadable⟩ := h.rollbacks_subset failure hMem
    exact ⟨hFailure, (readable_append (h.readAt_le failure hFailure) more).mpr hReadable⟩
  · change w.published = _
    rw [h.published]
    refine List.flatMap_congr (fun failure hMem => ?_)
    exact (publications_append (h.readAt_le failure (h.rollbacks_subset failure hMem).1) more).symm
  · intro failure hMem
    have hKept := h.handled_of_executions
      (w.executions.set place ⟨message, .applying event runs'⟩) hAt
      (fun _ _ hPhase => by cases hPhase) (fun y hy hNot => mem_set_of_ne hy hNot)
    rcases hKept failure hMem with hDone | hReading | hNot
    · exact Or.inl hDone
    · exact Or.inr (Or.inl hReading)
    · exact Or.inr (Or.inr (fun hReadable =>
        hNot ((readable_append (h.readAt_le failure hMem) more).mp hReadable)))

/-- An execution ends that has nothing more to publish. -/
theorem Logged.ended {w : World Data} (h : w.Logged storage) {place : Nat} {x : Execution Data}
    (issued : List (ICommand Data)) (hAt : w.executions[place]? = some x)
    (hError : ∀ failure rawList, x.phase = .rollingBack failure rawList → ∃ reason,
      SagaManager.rollbackCommands storage x.message.correlationId rawList = .error reason) :
    Logged storage { w with executions := w.executions.eraseIdx place, issued } := by
  refine ⟨h.cache, fun y hMem => h.reading y (List.eraseIdx_subset hMem), h.readAt_le,
    h.rollbacks_subset, h.published, ?_⟩
  intro failure hFailure
  rcases h.handled failure hFailure with hDone | ⟨y, hy, rawList, hReading⟩ | hNot
  · exact Or.inl hDone
  · by_cases hSame : w.executions[place]? = some y
    · -- This failure could not build its commands.
      obtain rfl := Option.some.inj (hAt.symm.trans hSame)
      obtain ⟨reason, hReason⟩ := hError failure rawList hReading
      obtain ⟨-, hId, hRaw⟩ := h.reading x hy failure rawList hReading
      rw [rollbackCommands_eq_built hId hRaw] at hReason
      refine Or.inr (Or.inr (fun hReadable => ?_))
      obtain ⟨commands, hOk⟩ := readable_iff.mp hReadable
      rw [hOk] at hReason
      cases hReason
    · exact Or.inr (Or.inl ⟨y, mem_eraseIdx_of_ne hy hSame, rawList, hReading⟩)
  · exact Or.inr (Or.inr hNot)

/-- A failure publishes what it has read. -/
theorem Logged.rolledBack {w : World Data} (h : w.Logged storage) {place : Nat}
    {message : Message Data} {failure : Failure} {rawList : List String}
    {commands : List RollbackCommand}
    (hAt : w.executions[place]? = some ⟨message, .rollingBack failure rawList⟩)
    (hCommands : SagaManager.rollbackCommands storage message.correlationId rawList =
      .ok commands) :
    Logged storage
      { w with
        executions := w.executions.eraseIdx place
        rollbacks := w.rollbacks ++ [failure]
        published := w.published ++ commands.map fun command => ⟨failure, command⟩ } := by
  obtain ⟨hFailure, hId, hRaw⟩ :=
    h.reading _ (List.mem_of_getElem? hAt) failure rawList rfl
  rw [rollbackCommands_eq_built hId hRaw] at hCommands
  refine ⟨h.cache, fun y hMem => h.reading y (List.eraseIdx_subset hMem), h.readAt_le, ?_, ?_, ?_⟩
  · intro other hMem
    rcases List.mem_append.mp hMem with hOld | hNew
    · exact h.rollbacks_subset other hOld
    · rw [List.mem_singleton.mp hNew]
      exact ⟨hFailure, readable_iff.mpr ⟨commands, hCommands⟩⟩
  · rw [List.flatMap_append, ← h.published, List.flatMap_singleton, publications, hCommands]
  · intro other hOther
    rcases h.handled other hOther with hDone | ⟨y, hy, rawList', hReading⟩ | hNot
    · exact Or.inl (List.mem_append_left _ hDone)
    · by_cases hSame : w.executions[place]? = some y
      · obtain rfl := Option.some.inj (hAt.symm.trans hSame)
        obtain ⟨rfl, -⟩ := Phase.rollingBack.inj hReading
        exact Or.inl (List.mem_append_right _ (List.mem_singleton_self _))
      · exact Or.inr (Or.inl ⟨y, mem_eraseIdx_of_ne hy hSame, rawList', hReading⟩)
    · exact Or.inr (Or.inr hNot)

/-- Every step keeps the log right. -/
theorem step_logged {w w' : World Data} {action : Action Data} (hInv : w.Logged storage)
    (h : step sagas storage w action = some w') : w'.Logged storage := by
  cases stepped_of_step h with
  | started message =>
      refine ⟨hInv.cache, ?_, hInv.readAt_le, hInv.rollbacks_subset, hInv.published, ?_⟩
      · intro x hMem failure rawList hPhase
        rcases List.mem_append.mp hMem with hOld | hNew
        · exact hInv.reading x hOld failure rawList hPhase
        · rw [List.mem_singleton.mp hNew] at hPhase
          cases hPhase
      · intro failure hFailure
        rcases hInv.handled failure hFailure with hDone | ⟨y, hy, hReading⟩ | hNot
        · exact Or.inl hDone
        · exact Or.inr (Or.inl ⟨y, List.mem_append_left _ hy, hReading⟩)
        · exact Or.inr (Or.inr hNot)
  | failed error hAt hRolling => exact hInv.fail hAt error
  | @applying place event results runs hAt =>
      refine ⟨hInv.cache, ?_, hInv.readAt_le, hInv.rollbacks_subset, hInv.published,
        hInv.handled_of_executions _ hAt (fun _ _ hPhase => by cases hPhase)
          (fun y hy hNot => mem_set_of_ne hy hNot)⟩
      intro x hMem failure rawList hPhase
      rcases List.mem_or_eq_of_mem_set hMem with hOld | rfl
      · exact hInv.reading x hOld failure rawList hPhase
      · cases hPhase
  | turned hAt hCache => exact hInv.turned hAt (hCache _ hInv.cache)
  | ended issued hAt hError hRolling => exact hInv.ended issued hAt hError
  | rolledBack hAt hCommands => exact hInv.rolledBack hAt hCommands

/-! ## What one step adds -/

/-- The rollback commands that this step publishes. -/
def publishing (storage : ConstructorStorage) (w : World Data) (action : Action Data) :
    List Publication :=
  match w.rollingBack action with
  | none => []
  | some failure => publications storage w.registrations failure

/-- The registrations grow by those of the step. -/
theorem registrations_of_step {w w' : World Data} {action : Action Data}
    (h : step sagas storage w action = some w') :
    w'.registrations = w.registrations ++ w.registering action := by
  cases stepped_of_step h with
  | started message => exact (List.append_nil _).symm
  | failed error hAt hRolling hRegistering =>
      rw [hRegistering, List.append_nil]
      rfl
  | applying runs hAt => exact (List.append_nil _).symm
  | turned hAt hCache => rfl
  | ended issued hAt hError hRolling hRegistering => rw [hRegistering, List.append_nil]
  | rolledBack hAt hCommands => exact (List.append_nil _).symm

/-- So does what was published. -/
theorem Logged.published_of_step {w w' : World Data} (hInv : w.Logged storage)
    {action : Action Data} (h : step sagas storage w action = some w') :
    w'.published = w.published ++ w.publishing storage action := by
  cases stepped_of_step h with
  | started message => exact (List.append_nil _).symm
  | failed error hAt hRolling hRegistering =>
      rw [publishing, hRolling, List.append_nil]
      rfl
  | applying runs hAt => exact (List.append_nil _).symm
  | turned hAt hCache => exact (List.append_nil _).symm
  | @ended _ place x issued hAt hError hRolling hRegistering =>
      have hNone : w.publishing storage action = [] := by
        cases hFailure : w.rollingBack action with
        | none => rw [publishing, hFailure]
        | some failure =>
            obtain ⟨rawList, hPhase⟩ := hRolling failure hFailure
            obtain ⟨reason, hReason⟩ := hError failure rawList hPhase
            obtain ⟨-, hId, hRaw⟩ :=
              hInv.reading x (List.mem_of_getElem? hAt) failure rawList hPhase
            rw [rollbackCommands_eq_built hId hRaw] at hReason
            simp only [publishing, hFailure, publications, hReason]
      rw [hNone, List.append_nil]
  | @rolledBack place message failure rawList commands hAt hCommands =>
      obtain ⟨-, hId, hRaw⟩ := hInv.reading _ (List.mem_of_getElem? hAt) failure rawList rfl
      rw [rollbackCommands_eq_built hId hRaw] at hCommands
      simp only [publishing, rollingBack, hAt, publications, hCommands]

/-- A step registers pairs or publishes rollback commands, not both. -/
theorem registering_or_rollingBack (w : World Data) (action : Action Data) :
    w.registering action = [] ∨ w.rollingBack action = none := by
  cases action with
  | publish place => exact Or.inl rfl
  | _ => exact Or.inr rfl

end World

end Moirae.Transactions
