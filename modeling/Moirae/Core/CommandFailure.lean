import Moirae.Core.BaseBus
import Moirae.Core.Message
import Moirae.Core.SagaRollback

/-! How the command bus ends an execution. A failure reaches it as a missing
handler, which is thrown, or as an error in the place of a result. -/
namespace Moirae

/-- `Promise.all`. Of several rejections the first in the list stands for the
one that comes first. -/
def Outcome.all (outcomes : List Outcome) : Outcome :=
  (outcomes.find? (· ≠ .resolved)).getD .resolved

theorem Outcome.all_eq_resolved_iff {outcomes : List Outcome} :
    Outcome.all outcomes = .resolved ↔ ∀ outcome ∈ outcomes, outcome = .resolved := by
  unfold Outcome.all
  cases hFind : outcomes.find? (· ≠ .resolved) with
  | none =>
      rw [List.find?_eq_none] at hFind
      exact iff_of_true rfl (by simpa using hFind)
  | some rejected =>
      have hRejected : rejected ≠ .resolved := by simpa using List.find?_some hFind
      refine iff_of_false hRejected (fun hAll => hRejected ?_)
      exact hAll rejected (List.mem_of_find?_eq_some hFind)

/-- The rollback commands for what is registered under a correlation id. -/
def SagaManager.registeredCommands (storage : ConstructorStorage)
    (registrations : List Registration) (correlationId : Option String) :
    Except Thrown (List RollbackCommand) :=
  (Registration.entries registrations (correlationKey correlationId)).values.mapM
    (construct storage correlationId)

namespace SagaManager

variable {storage : ConstructorStorage} {registrations : List Registration}
  {correlationId : Option String}

/-- The commands that are built are those of the pairs registered exactly when
all of them are read back. -/
theorem rollsBackExactly_registeredCommands_iff (hKeyed : storage.Keyed) :
    RollsBackExactly registrations correlationId
        (registeredCommands storage registrations correlationId) ↔
      ReadsBack storage registrations correlationId :=
  rollsBackExactly_iff_readsBack fun _ _ _ hGet => hKeyed _ _ hGet

/-- No command is built if nothing is registered under the key, or an entry
names no class. -/
theorem no_registeredCommands_iff :
    (∀ commands, registeredCommands storage registrations correlationId = .ok commands →
        commands = []) ↔
      (∀ r ∈ registrations, render r.correlationId ≠ render correlationId) ∨
        ∃ r ∈ registrations, render r.correlationId = render correlationId ∧
          storage.get (Separated.upTo ':' r.entry) = none := by
  constructor
  · intro hNone
    by_cases hAll : ∀ r ∈ registrations, render r.correlationId = render correlationId →
        storage.get (Separated.upTo ':' r.entry) ≠ none
    · obtain ⟨commands, hCommands⟩ := Traversal.exists_ok_iff.mpr fun text hText => by
        obtain ⟨r, hr, hRender, rfl⟩ := mem_entries_correlationKey.mp hText
        exact (exists_construct_iff correlationId).mpr (hAll r hr hRender)
      refine Or.inl fun r hr hRender => ?_
      have hEntry := mem_entries_correlationKey.mpr ⟨r, hr, hRender, rfl⟩
      obtain ⟨command, hBuilt⟩ := Traversal.exists_ok_iff.mp ⟨commands, hCommands⟩ _ hEntry
      have hMem := (Traversal.mem_iff hCommands).mpr ⟨_, hEntry, hBuilt⟩
      rw [hNone commands hCommands] at hMem
      exact List.not_mem_nil hMem
    · push Not at hAll
      exact Or.inr hAll
  · rintro (hNone | ⟨r, hr, hRender, hGet⟩) commands hCommands
    · refine List.eq_nil_iff_forall_not_mem.mpr fun command hMem => ?_
      obtain ⟨text, hText, -⟩ := (Traversal.mem_iff hCommands).mp hMem
      obtain ⟨r, hr, hRender, -⟩ := mem_entries_correlationKey.mp hText
      exact hNone r hr hRender
    · have hEntry := mem_entries_correlationKey.mpr ⟨r, hr, hRender, rfl⟩
      have hBuilt := Traversal.exists_ok_iff.mp ⟨commands, hCommands⟩ _ hEntry
      exact absurd hGet ((exists_construct_iff correlationId).mp hBuilt)

/-- Nothing is what should be rolled back where nothing is registered. -/
theorem rollsBackExactly_nil_iff :
    RollsBackExactly registrations correlationId (.ok []) ↔
      ∀ r ∈ registrations, r.correlationId ≠ correlationId := by
  constructor
  · rintro ⟨commands, hNil, -, hExact⟩ r hr hId
    have hMem := (hExact _).mpr ⟨r, hr, hId, rfl⟩
    rw [← Except.ok.inj hNil] at hMem
    exact List.not_mem_nil hMem
  · intro hNone
    refine ⟨[], rfl, List.nodup_nil, fun command => iff_of_false List.not_mem_nil ?_⟩
    rintro ⟨r, hr, hId, -⟩
    exact hNone r hr hId

/-- What holds of all commands rolled back holds of those of the pairs. -/
theorem RollsBackExactly.forall_iff {commands : List RollbackCommand}
    (h : RollsBackExactly registrations correlationId (.ok commands))
    (P : RollbackCommand → Prop) :
    (∀ command ∈ commands, P command) ↔ ∀ r ∈ registrations, r.correlationId = correlationId →
      P ⟨r.command, some r.streamId, correlationId⟩ := by
  obtain ⟨_, hSame, -, hExact⟩ := h
  rw [← Except.ok.inj hSame] at hExact
  constructor
  · intro hAll r hr hId
    exact hAll _ ((hExact _).mpr ⟨r, hr, hId, rfl⟩)
  · intro hAll command hMem
    obtain ⟨r, hr, hId, rfl⟩ := (hExact command).mp hMem
    exact hAll r hr hId

end SagaManager

namespace CommandFailure

open SagaManager (registeredCommands RollsBackExactly ReadsBack)

variable {Evt Options Result : Type} [Respondable Evt]

/-- What the bus was set up with. `errorName` is the name of a result that is an
instance of `Error`; `publish` tells how publishing a command ends. -/
structure Bus (Evt Options Result : Type) where
  handlerMap : KeyedMap String (Handler Evt Options Result)
  errorName : Result → Option String
  storage : ConstructorStorage
  storageKeyed : storage.Keyed
  publish : RollbackCommand → Outcome
  /-- The methods `catch` of the filters, by the name of the error. -/
  errorHandlers : KeyedMap String (Evt → Result ⊕ Thrown → Outcome)

/-- How a call ends: its promise, the commands that were published, and the
status of the bus. -/
structure Ending where
  outcome : Outcome
  published : List RollbackCommand
  status : ESState
  deriving DecidableEq

/-- `res instanceof Error`, with its name. -/
def Bus.instanceofError (bus : Bus Evt Options Result) : Result ⊕ Thrown → Option String
  | .inl res => bus.errorName res
  | .inr (.error name _) => some name
  | .inr (.value _) => none

/-- Calling the filter for an error, if there is one. -/
def Bus.catchError (bus : Bus Evt Options Result) (command : Evt) (name : String)
    (res : Result ⊕ Thrown) : Outcome :=
  match bus.errorHandlers.get name with
  | none => .resolved
  | some handler => handler command res

/-- `executeLocal` for a command with this correlation id. The cache is that
from when the handler has ended. -/
def Bus.executeLocal (bus : Bus Evt Options Result) (cache : MemoryCache) (command : Evt)
    (correlationId : Option String) (options : Options) : Ending :=
  match BaseBus.executeLocal bus.handlerMap command options with
  | .error reason => ⟨.rejected reason, [], .ACTIVE⟩
  | .ok res => match bus.instanceofError res with
    | none => ⟨.resolved, [], .IDLE⟩
    | some name => match SagaManager.rollbackSagas bus.storage cache correlationId with
      | .error reason => ⟨.rejected reason, [], .ACTIVE⟩
      | .ok rollbackCommands => match Outcome.all (rollbackCommands.map bus.publish) with
        | .rejected reason => ⟨.rejected reason, rollbackCommands, .ACTIVE⟩
        | .resolved => match bus.catchError command name res with
          | .rejected reason => ⟨.rejected reason, rollbackCommands, .ACTIVE⟩
          | .resolved => ⟨.resolved, rollbackCommands, .IDLE⟩

/-- How the handler of a command ends, if there is one. -/
def Bus.handled (bus : Bus Evt Options Result) (command : Evt) (options : Options) :
    Option (Except Thrown Result) :=
  (bus.handlerMap.get (Respondable.name command)).map fun handler => handler command options

/-- A failed execution rolls back the pairs registered under the id and leaves the
bus idle, one that completes rolls nothing back. -/
def Bus.EndsWell (bus : Bus Evt Options Result) (registrations : List Registration)
    (command : Evt) (correlationId : Option String) (options : Options) (ending : Ending) :
    Prop :=
  match bus.handled command options with
  | some (.ok _) => ending.published = []
  | _ => ending.status = .IDLE ∧
      RollsBackExactly registrations correlationId (.ok ending.published)

/-- The pairs are read back as what they are, their commands can be published,
and the filter for the error does not fail itself. -/
def Bus.RollsBack (bus : Bus Evt Options Result) (registrations : List Registration)
    (command : Evt) (correlationId : Option String) (name : String) (err : Thrown) : Prop :=
  ReadsBack bus.storage registrations correlationId ∧
    (∀ r ∈ registrations, r.correlationId = correlationId →
      bus.publish ⟨r.command, some r.streamId, correlationId⟩ = .resolved) ∧
    bus.catchError command name (.inr err) = .resolved

/-- There is a handler. If it throws an `Error`, everything can be rolled back;
if it throws something else, nothing has to be; and if it returns an `Error`,
nothing is there to be, or an entry names no class. -/
def Bus.Recognises (bus : Bus Evt Options Result) (registrations : List Registration)
    (command : Evt) (correlationId : Option String) (options : Options) : Prop :=
  match bus.handled command options with
  | none => False
  | some (.error (.error name message)) =>
      bus.RollsBack registrations command correlationId name (.error name message)
  | some (.error (.value _)) => ∀ r ∈ registrations, r.correlationId ≠ correlationId
  | some (.ok res) => bus.errorName res = none ∨
      (∀ r ∈ registrations, render r.correlationId ≠ render correlationId) ∨
        ∃ r ∈ registrations, render r.correlationId = render correlationId ∧
          bus.storage.get (Separated.upTo ':' r.entry) = none

section

variable {bus : Bus Evt Options Result} {cache : MemoryCache}
  {registrations : List Registration} {command : Evt} {correlationId : Option String}
  {options : Options}

/-- What the bus ends with when it has found an error. -/
theorem executeLocal_of_error (h : cache.Represents (Registration.entries registrations))
    {res : Result ⊕ Thrown} {name : String}
    (hRes : BaseBus.executeLocal bus.handlerMap command options = .ok res)
    (hError : bus.instanceofError res = some name) :
    bus.executeLocal cache command correlationId options =
      match registeredCommands bus.storage registrations correlationId with
      | .error reason => ⟨.rejected reason, [], .ACTIVE⟩
      | .ok rollbackCommands => match Outcome.all (rollbackCommands.map bus.publish) with
        | .rejected reason => ⟨.rejected reason, rollbackCommands, .ACTIVE⟩
        | .resolved => match bus.catchError command name res with
          | .rejected reason => ⟨.rejected reason, rollbackCommands, .ACTIVE⟩
          | .resolved => ⟨.resolved, rollbackCommands, .IDLE⟩ := by
  rw [Bus.executeLocal, hRes]
  dsimp only
  rw [hError]
  dsimp only
  rw [SagaManager.rollbackSagas_eq h]
  rfl

/-- The published commands are those that can be built, if any can. -/
theorem published_of_error (h : cache.Represents (Registration.entries registrations))
    {res : Result ⊕ Thrown} {name : String}
    (hRes : BaseBus.executeLocal bus.handlerMap command options = .ok res)
    (hError : bus.instanceofError res = some name) :
    (bus.executeLocal cache command correlationId options).published = [] ↔
      ∀ commands, registeredCommands bus.storage registrations correlationId = .ok commands →
        commands = [] := by
  rw [executeLocal_of_error h hRes hError]
  cases registeredCommands bus.storage registrations correlationId with
  | error reason => exact iff_of_true rfl (fun commands hOk => by cases hOk)
  | ok commands =>
      have hPublished : ∀ ending : Ending, ending.published = commands →
          (ending.published = [] ↔ ∀ other, Except.ok (ε := Thrown) commands = .ok other →
            other = []) := by
        rintro ending rfl
        exact ⟨fun hNil other hOk => Except.ok.inj hOk ▸ hNil, fun hAll => hAll _ rfl⟩
      apply hPublished
      dsimp only
      split
      · rfl
      · split <;> rfl

/-- After a handler has thrown an `Error`, all depends on the rollback commands and
the filter. -/
theorem endsIdle_of_error (h : cache.Represents (Registration.entries registrations))
    {err : Thrown} {name : String}
    (hRes : BaseBus.executeLocal bus.handlerMap command options = .ok (.inr err))
    (hError : bus.instanceofError (.inr err) = some name) :
    ((bus.executeLocal cache command correlationId options).status = .IDLE ∧
      RollsBackExactly registrations correlationId
        (.ok (bus.executeLocal cache command correlationId options).published)) ↔
      bus.RollsBack registrations command correlationId name err := by
  rw [executeLocal_of_error h hRes hError, Bus.RollsBack,
    ← SagaManager.rollsBackExactly_registeredCommands_iff bus.storageKeyed]
  cases registeredCommands bus.storage registrations correlationId with
  | error reason => simp [RollsBackExactly]
  | ok commands =>
      have hAll : Outcome.all (commands.map bus.publish) = .resolved ↔
          ∀ rollbackCommand ∈ commands, bus.publish rollbackCommand = .resolved := by
        rw [Outcome.all_eq_resolved_iff, List.forall_mem_map]
      dsimp only
      constructor
      · rintro ⟨hIdle, hExact⟩
        cases hPublish : Outcome.all (commands.map bus.publish) with
        | rejected reason => simp [hPublish] at hIdle
        | resolved =>
            cases hCatch : bus.catchError command name (.inr err) with
            | rejected reason => simp [hPublish, hCatch] at hIdle
            | resolved =>
                simp only [hPublish, hCatch] at hExact
                exact ⟨hExact, (hExact.forall_iff _).mp (hAll.mp hPublish), rfl⟩
      · rintro ⟨hExact, hPublish, hCatch⟩
        rw [hAll.mpr ((hExact.forall_iff _).mpr hPublish), hCatch]
        exact ⟨rfl, hExact⟩

/-- A result that is returned leads to no rollback, unless it is taken for an error. -/
theorem published_of_returned (h : cache.Represents (Registration.entries registrations))
    {res : Result}
    (hRes : BaseBus.executeLocal bus.handlerMap command options = .ok (.inl res)) :
    (bus.executeLocal cache command correlationId options).published = [] ↔
      bus.errorName res = none ∨
        (∀ r ∈ registrations, render r.correlationId ≠ render correlationId) ∨
          ∃ r ∈ registrations, render r.correlationId = render correlationId ∧
            bus.storage.get (Separated.upTo ':' r.entry) = none := by
  rw [← SagaManager.no_registeredCommands_iff]
  cases hName : bus.errorName res with
  | none =>
      refine iff_of_true ?_ (Or.inl rfl)
      rw [Bus.executeLocal, hRes]
      dsimp only
      rw [Bus.instanceofError, hName]
  | some name =>
      have hError : bus.instanceofError (.inl res) = some name := hName
      rw [published_of_error h hRes hError]
      simp

/-- What is thrown and is no error passes for a result. -/
theorem endsIdle_of_value {text : String}
    (hRes : BaseBus.executeLocal bus.handlerMap command options = .ok (.inr (.value text))) :
    ((bus.executeLocal cache command correlationId options).status = .IDLE ∧
      RollsBackExactly registrations correlationId
        (.ok (bus.executeLocal cache command correlationId options).published)) ↔
      ∀ r ∈ registrations, r.correlationId ≠ correlationId := by
  have hEnding : bus.executeLocal cache command correlationId options = ⟨.resolved, [], .IDLE⟩ := by
    rw [Bus.executeLocal, hRes]
    rfl
  rw [hEnding, ← SagaManager.rollsBackExactly_nil_iff]
  exact and_iff_right rfl

/-- The bus does what it should in exactly the cases that it recognises. -/
theorem endsWell_iff_recognises (h : cache.Represents (Registration.entries registrations)) :
    bus.EndsWell registrations command correlationId options
        (bus.executeLocal cache command correlationId options) ↔
      bus.Recognises registrations command correlationId options := by
  unfold Bus.EndsWell Bus.Recognises Bus.handled
  cases hGet : bus.handlerMap.get (Respondable.name command) with
  | none =>
      have hRes : BaseBus.executeLocal bus.handlerMap command options =
          .error (handlerNotFoundError (Respondable.name command)) := by
        rw [BaseBus.executeLocal, hGet]
      refine iff_of_false (fun hEnds => ?_) id
      have hStatus := hEnds.1
      rw [Bus.executeLocal, hRes] at hStatus
      cases hStatus
  | some handler =>
      rw [Option.map_some]
      cases hHandler : handler command options with
      | ok res =>
          have hRes : BaseBus.executeLocal bus.handlerMap command options = .ok (.inl res) := by
            rw [BaseBus.executeLocal, hGet]
            dsimp only
            rw [hHandler]
          exact published_of_returned h hRes
      | error err =>
          have hRes : BaseBus.executeLocal bus.handlerMap command options = .ok (.inr err) := by
            rw [BaseBus.executeLocal, hGet]
            dsimp only
            rw [hHandler]
          cases err with
          | error name message => exact endsIdle_of_error h hRes rfl
          | value text => exact endsIdle_of_value hRes

end

/-! ### An answer that cannot be given -/

/-- The command that answers a greeting. -/
def sayWorld : Message := ⟨"SayWorldCommand", "c1", true, none, none⟩

/-- The handler of the command ends in this way. Everything can be published. -/
def answering (result : Except Thrown Unit) : Bus Message Unit Unit where
  handlerMap := KeyedMap.empty.set "SayWorldCommand" fun _ _ => result
  errorName _ := none
  storage := SagaManager.helloStorage
  storageKeyed := SagaManager.helloStorage_keyed
  publish _ := .resolved
  errorHandlers := .empty

/-- The greeting that the command answers. -/
def greeted : Registration := ⟨some "tx", SagaManager.noMoreHelloCommand, "hello-1"⟩

/-- The cache in which it is registered. -/
def greetedCache : MemoryCache :=
  Saga.storeRollbackCommand .new greeted.correlationId greeted.command greeted.streamId

theorem represents_greeted : greetedCache.Represents (Registration.entries [greeted]) := by
  have hNew : MemoryCache.new.Represents (Registration.entries []) := MemoryCache.represents_new
  exact represents_storeRollbackCommand hNew greeted

theorem endsWell_iff_recognises_greeted :
    (answering (.error (.error "Error" "no answer"))).EndsWell [greeted] sayWorld (some "tx") ()
        ((answering (.error (.error "Error" "no answer"))).executeLocal greetedCache sayWorld
          (some "tx") ()) ↔
      (answering (.error (.error "Error" "no answer"))).Recognises [greeted] sayWorld
        (some "tx") () :=
  endsWell_iff_recognises represents_greeted

/-- A text that is thrown passes for a result: the greeting is not taken back. -/
theorem thrown_text_not_rolled_back :
    ¬(answering (.error (.value "no answer"))).EndsWell [greeted] sayWorld (some "tx") ()
      ((answering (.error (.value "no answer"))).executeLocal greetedCache sayWorld
        (some "tx") ()) := by
  intro hEnds
  have hNone := SagaManager.rollsBackExactly_nil_iff.mp hEnds.2
  exact hNone greeted (List.mem_singleton_self _) rfl

end CommandFailure

end Moirae
