import Moirae.Core.Event
import Moirae.Core.MemoryCache
import Moirae.Text.Separated

/-! Sagas: running the steps for an event, registering rollback commands in the
cache, and building the commands that roll a transaction back. -/
namespace Moirae

/-- The class of a rollback command. Two classes may share a name. -/
structure RollbackCommandConstructor where
  name : String
  id : Nat
  deriving DecidableEq, Repr

/-- `new Constructor(streamId, correlationId)`. -/
structure RollbackCommand where
  commandClass : RollbackCommandConstructor
  streamId : Option String
  correlationId : Option String
  deriving DecidableEq, Repr

/-- The classes by name, as far as they are rollback commands. -/
abbrev ConstructorStorage := KeyedMap String RollbackCommandConstructor

/-- `ConstructorStorage.set`. -/
def ConstructorStorage.register (storage : ConstructorStorage)
    (commandClass : RollbackCommandConstructor) : ConstructorStorage :=
  storage.set commandClass.name commandClass

/-- Each class is stored under its own name. -/
def ConstructorStorage.Keyed (storage : ConstructorStorage) : Prop :=
  ∀ name commandClass, storage.get name = some commandClass → commandClass.name = name

theorem ConstructorStorage.keyed_empty : ConstructorStorage.Keyed .empty := by
  intro name commandClass hGet
  rw [KeyedMap.get_empty] at hGet
  cases hGet

theorem ConstructorStorage.Keyed.register {storage : ConstructorStorage} (h : storage.Keyed)
    (commandClass : RollbackCommandConstructor) : (storage.register commandClass).Keyed := by
  intro name found hGet
  rw [ConstructorStorage.register, KeyedMap.get_set] at hGet
  split at hGet
  · next hSame => rw [← Option.some.inj hGet, hSame]
  · exact h name found hGet

def CORRELATION_PREFIX : String := "moirae__correlation"

/-- The cache key of a transaction. -/
def correlationKey (correlationId : Option String) : String :=
  CORRELATION_PREFIX ++ "__" ++ render correlationId

/-- What is stored for a rollback command. -/
def commandKey (commandConstructor : RollbackCommandConstructor) (streamId : String) : String :=
  Separated.join ':' commandConstructor.name streamId

/-- Keys are shared exactly by ids that are rendered alike. -/
theorem correlationKey_eq_iff {a b : Option String} :
    correlationKey a = correlationKey b ↔ render a = render b := by
  constructor
  · intro h
    have hList := congrArg String.toList h
    simp only [correlationKey, String.toList_append] at hList
    exact String.toList_injective (List.append_cancel_left hList)
  · intro h
    rw [correlationKey, correlationKey, h]

/-- The event is the name of its class, the method is found by `propertyKey`. -/
structure SagaMetadataPayload where
  event : String
  propertyKey : String
  rollbackCommand : RollbackCommandConstructor

/-- The list a step returns. It may hold nothing in some places. -/
abbrev Commands (Data : Type) := List (Option (ICommand Data))

/-- `_commandConstructors` is left out: nothing reads it. -/
structure Saga (Data : Type) where
  /-- What the `SagaStep` decorators left behind, in order. -/
  metadata : List SagaMetadataPayload
  methods : String → IEvent Data → Except Thrown (Commands Data)
  /-- Is the cache set? -/
  cacheController : Bool
  sagaMap : KeyedMap String (List SagaMetadataPayload)

namespace Saga

variable {Data : Type}

def onApplicationBootstrap (saga : Saga Data) : Saga Data :=
  { saga with
    sagaMap := saga.metadata.foldl
      (fun sagaMap sagaMeta =>
        sagaMap.set sagaMeta.event (((sagaMap.get sagaMeta.event).getD []) ++ [sagaMeta]))
      saga.sagaMap }

/-- The steps for an event. -/
def handlers (saga : Saga Data) (event : IEvent Data) : List SagaMetadataPayload :=
  (saga.sagaMap.get event.name).getD []

def storeRollbackCommand (cache : MemoryCache) (correlationId : Option String)
    (commandConstructor : RollbackCommandConstructor) (streamId : String) : MemoryCache :=
  (cache.addToSet (correlationKey correlationId) (commandKey commandConstructor streamId)).1

/-- One turn of the loop in `process`. -/
def runStep (saga : Saga Data) (event : IEvent Data) (handler : SagaMetadataPayload)
    (cache : MemoryCache) : MemoryCache × Except Thrown (Commands Data) :=
  match saga.methods handler.propertyKey event with
  | .error reason => (cache, .error reason)
  | .ok commands =>
      if commands.length > 0 then
        if saga.cacheController then
          (storeRollbackCommand cache event.correlationId handler.rollbackCommand
            event.streamId, .ok commands)
        else (cache, .error (.error "Error" ""))
      else (cache, .ok commands)

/-- The loop over the steps that are left. The first one that throws ends it. -/
def processSteps (saga : Saga Data) (event : IEvent Data) :
    List SagaMetadataPayload → MemoryCache → MemoryCache × Except Thrown (Commands Data)
  | [], cache => (cache, .ok [])
  | handler :: handlers, cache =>
      match runStep saga event handler cache with
      | (cache, .error reason) => (cache, .error reason)
      | (cache, .ok commands) =>
          match processSteps saga event handlers cache with
          | (cache, .error reason) => (cache, .error reason)
          | (cache, .ok rest) => (cache, .ok (commands ++ rest))

def process (saga : Saga Data) (event : IEvent Data) (cache : MemoryCache) :
    MemoryCache × Except Thrown (Commands Data) :=
  processSteps saga event (saga.handlers event) cache

end Saga

namespace SagaManager

/-- The rollback command for an entry of the set. What follows a second colon
is not looked at. -/
def construct (storage : ConstructorStorage) (correlationId : Option String)
    (commandKey : String) : Except Thrown RollbackCommand :=
  match Separated.split ':' commandKey with
  | [] => .error (.error "TypeError" "Constructor is not a constructor")
  | name :: rest => match storage.get name with
    | none => .error (.error "TypeError" "Constructor is not a constructor")
    | some commandClass => .ok ⟨commandClass, rest.head?, correlationId⟩

/-- What `rollbackSagas` makes of the texts it read from the cache. -/
def rollbackCommands (storage : ConstructorStorage) (correlationId : Option String)
    (rawList : List String) : Except Thrown (List RollbackCommand) :=
  match MemoryCache.parseSet none rawList with
  | .error reason => .error reason
  | .ok commandArrays => commandArrays.mapM (construct storage correlationId)

def rollbackSagas (storage : ConstructorStorage) (cache : MemoryCache)
    (correlationId : Option String) : Except Thrown (List RollbackCommand) :=
  rollbackCommands storage correlationId
    (cache.handleReadFromSet (correlationKey correlationId))

end SagaManager

/-! ## What is registered -/

/-- A step for an event with this id and stream returned commands, so that the
rollback command of the step was registered. -/
structure Registration where
  correlationId : Option String
  command : RollbackCommandConstructor
  streamId : String
  deriving DecidableEq, Repr

namespace Registration

def key (r : Registration) : String := correlationKey r.correlationId

def entry (r : Registration) : String := commandKey r.command r.streamId

/-- The entries that the registrations leave under a key, in order of first
registration. -/
def entries (registrations : List Registration) (key : String) : ValueSet String :=
  ((registrations.filter (·.key = key)).map entry).foldl ValueSet.add .empty

theorem mem_entries {registrations : List Registration} {key text : String} :
    text ∈ (entries registrations key).values ↔
      ∃ r ∈ registrations, r.key = key ∧ r.entry = text := by
  rw [entries, ValueSet.mem_foldl_add]
  simp only [ValueSet.values_empty, List.not_mem_nil, false_or, List.mem_map, List.mem_filter,
    decide_eq_true_eq, and_assoc]

theorem entries_append (registrations : List Registration) (r : Registration) :
    entries (registrations ++ [r]) =
      Function.update (entries registrations) r.key
        ((entries registrations r.key).add r.entry) := by
  funext key
  by_cases h : r.key = key
  · subst h
    rw [Function.update_self, entries, List.filter_append, List.map_append, List.foldl_append]
    simp [entries]
  · rw [Function.update_of_ne (Ne.symm h), entries, List.filter_append]
    simp [entries, h]

end Registration

/-- Storing a rollback command is registering it. -/
theorem represents_storeRollbackCommand {cache : MemoryCache}
    {registrations : List Registration}
    (h : cache.Represents (Registration.entries registrations)) (r : Registration) :
    (Saga.storeRollbackCommand cache r.correlationId r.command r.streamId).Represents
      (Registration.entries (registrations ++ [r])) := by
  rw [Registration.entries_append]
  exact h.addToSet _ _

/-- What one turn of the loop registers. -/
def Saga.stepRegisters {Data : Type} (event : IEvent Data) (handler : SagaMetadataPayload)
    (commands : Commands Data) : List Registration :=
  if commands.length > 0 then
    [⟨event.correlationId, handler.rollbackCommand, event.streamId⟩]
  else []

/-- What is registered by the steps up to the first one that throws. -/
def Saga.registers {Data : Type} (saga : Saga Data) (event : IEvent Data) :
    List SagaMetadataPayload → List Registration
  | [] => []
  | handler :: handlers => match saga.methods handler.propertyKey event with
    | .error _ => []
    | .ok commands => stepRegisters event handler commands ++ registers saga event handlers

/-- Running a step of a saga that has its cache registers what it should. -/
theorem Saga.represents_runStep {Data : Type} {saga : Saga Data} {cache : MemoryCache}
    {registrations : List Registration} {event : IEvent Data} {handler : SagaMetadataPayload}
    {commands : Commands Data} (hCache : saga.cacheController = true)
    (h : cache.Represents (Registration.entries registrations))
    (hMethod : saga.methods handler.propertyKey event = .ok commands) :
    (saga.runStep event handler cache).2 = .ok commands ∧
      (saga.runStep event handler cache).1.Represents
        (Registration.entries (registrations ++ stepRegisters event handler commands)) := by
  unfold Saga.runStep stepRegisters
  simp only [hMethod, hCache, if_true]
  by_cases hSome : commands.length > 0
  · rw [if_pos hSome, if_pos hSome]
    exact ⟨rfl, represents_storeRollbackCommand h
      ⟨event.correlationId, handler.rollbackCommand, event.streamId⟩⟩
  · rw [if_neg hSome, if_neg hSome, List.append_nil]
    exact ⟨rfl, h⟩

theorem Saga.represents_processSteps {Data : Type} {saga : Saga Data} {event : IEvent Data}
    (hCache : saga.cacheController = true) {handlers : List SagaMetadataPayload}
    {cache : MemoryCache} {registrations : List Registration}
    (h : cache.Represents (Registration.entries registrations)) :
    (saga.processSteps event handlers cache).1.Represents
      (Registration.entries (registrations ++ saga.registers event handlers)) := by
  induction handlers generalizing cache registrations with
  | nil =>
      rw [Saga.registers, List.append_nil]
      exact h
  | cons handler handlers ih =>
      cases hMethod : saga.methods handler.propertyKey event with
      | error reason =>
          simp only [processSteps, runStep, registers, hMethod, List.append_nil]
          exact h
      | ok commands =>
          obtain ⟨hResult, hStep⟩ := Saga.represents_runStep hCache h hMethod
          have hRest := ih hStep
          rw [List.append_assoc] at hRest
          simp only [processSteps, registers, hMethod]
          cases hRun : saga.runStep event handler cache with
          | mk cache' result =>
              rw [hRun] at hResult hRest
              simp only at hResult hRest
              simp only [hResult]
              cases hLoop : saga.processSteps event handlers cache' with
              | mk cache'' outcome =>
                  rw [hLoop] at hRest
                  cases outcome <;> exact hRest

/-- Processing an event registers what its steps should register. -/
theorem Saga.represents_process {Data : Type} {saga : Saga Data} {event : IEvent Data}
    (hCache : saga.cacheController = true) {cache : MemoryCache}
    {registrations : List Registration}
    (h : cache.Represents (Registration.entries registrations)) :
    (saga.process event cache).1.Represents
      (Registration.entries (registrations ++ saga.registers event (saga.handlers event))) :=
  represents_processSteps hCache h

namespace SagaManager

/-- Rolling back builds one command for each entry registered under the key. -/
theorem rollbackSagas_eq {storage : ConstructorStorage} {cache : MemoryCache}
    {registrations : List Registration}
    (h : cache.Represents (Registration.entries registrations))
    (correlationId : Option String) :
    rollbackSagas storage cache correlationId =
      (Registration.entries registrations (correlationKey correlationId)).values.mapM
        (construct storage correlationId) := by
  rw [rollbackSagas, rollbackCommands, h, MemoryCache.parseSet_stringify]

/-- The entry of a class that is found under its colon-free name gives back the
class, and the stream id up to its first colon. -/
theorem construct_commandKey {storage : ConstructorStorage}
    {commandClass : RollbackCommandConstructor}
    (hFound : storage.get commandClass.name = some commandClass)
    (hName : ':' ∉ commandClass.name.toList) (correlationId : Option String)
    (streamId : String) :
    construct storage correlationId (commandKey commandClass streamId) =
      .ok ⟨commandClass, some (Separated.upTo ':' streamId), correlationId⟩ := by
  obtain ⟨rest, hSplit⟩ := Separated.split_join hName streamId
  rw [construct, commandKey, hSplit]
  simp only [hFound, List.head?_cons]

end SagaManager

end Moirae
