import Moirae.Collections.Traversal
import Moirae.Core.Saga

/-! Which steps a saga runs when saga classes extend one another. A decorator
copies the list that its class inherits and adds to the copy; an instance groups
the list it finds by event, and calls the methods by name. -/
namespace Moirae

variable {Data : Type}

/-- A method, with the arguments of the `SagaStep` decorators above it. -/
structure SagaMethod (Data : Type) where
  decorators : List (String × RollbackCommandConstructor)
  body : IEvent Data → Except Thrown (Commands Data)

/-- What a class declares itself. Its prototype is the object with this id. -/
structure SagaClass (Data : Type) where
  id : Nat
  members : KeyedMap String (SagaMethod Data)

/-- A class with its ancestors, up to the one that extends `Saga`. -/
abbrev PrototypeChain (Data : Type) := List (SagaClass Data)

/-- The metadata that prototypes have of their own, under `SAGA_METADATA`. -/
abbrev SagaMetadata := KeyedMap Nat (List SagaMetadataPayload)

/-- `Reflect.getMetadata`: own metadata, or what the nearest ancestor has. -/
def SagaMetadata.getMetadata (store : SagaMetadata) :
    PrototypeChain Data → Option (List SagaMetadataPayload)
  | [] => none
  | target :: ancestors => (store.get target.id).or (getMetadata store ancestors)

/-- The decorator, called with a prototype and the name of a method. -/
def SagaStep (event : String) (rollbackCommand : RollbackCommandConstructor)
    (target : SagaClass Data) (ancestors : PrototypeChain Data) (propertyKey : String)
    (store : SagaMetadata) : SagaMetadata :=
  let sagas := (store.getMetadata (target :: ancestors)).getD []
  store.set target.id (sagas ++ [⟨event, propertyKey, rollbackCommand⟩])

namespace SagaClass

/-- The decorators of one method: the one next to it is called first. -/
def decorate (target : SagaClass Data) (ancestors : PrototypeChain Data) (store : SagaMetadata)
    (member : String × SagaMethod Data) : SagaMetadata :=
  member.2.decorators.foldr
    (fun decorator => SagaStep decorator.1 decorator.2 target ancestors member.1) store

/-- A class declaration is evaluated: its methods are decorated as they stand. -/
def define (target : SagaClass Data) (ancestors : PrototypeChain Data) (store : SagaMetadata) :
    SagaMetadata :=
  target.members.entries.foldl (target.decorate ancestors) store

end SagaClass

namespace PrototypeChain

/-- The method an instance has under a name. -/
def method : PrototypeChain Data → String → Option (SagaMethod Data)
  | [], _ => none
  | target :: ancestors, propertyKey =>
      (target.members.get propertyKey).or (method ancestors propertyKey)

def define (store : SagaMetadata) : PrototypeChain Data → SagaMetadata
  | [] => store
  | target :: ancestors => target.define ancestors store

end PrototypeChain

/-- The metadata after a program has declared these classes. -/
def SagaMetadata.ofProgram (classes : List (PrototypeChain Data)) : SagaMetadata :=
  classes.foldl PrototypeChain.define .empty

/-- Classes in the order of their declarations. Each extends `Saga` or a class
before it, and has a prototype of its own. -/
inductive Declared : List (PrototypeChain Data) → Prop
  | nil : Declared []
  | extend {classes : List (PrototypeChain Data)} {target : SagaClass Data}
      {ancestors : PrototypeChain Data} (h : Declared classes)
      (hBase : ancestors = [] ∨ ancestors ∈ classes)
      (hNew : ∀ chain ∈ classes, ∀ other ∈ chain, other.id ≠ target.id) :
      Declared (classes ++ [target :: ancestors])

structure SagaHierarchy (Data : Type) where
  classes : List (PrototypeChain Data)
  declared : Declared classes

/-- A new instance of a class, its cache set or not. -/
def SagaHierarchy.newInstance (hierarchy : SagaHierarchy Data) (chain : PrototypeChain Data)
    (cacheController : Bool) : Saga Data where
  metadata := ((SagaMetadata.ofProgram hierarchy.classes).getMetadata chain).getD []
  methods propertyKey event := match chain.method propertyKey with
    | none => .error (.error "TypeError" "this[handler.propertyKey] is not a function")
    | some method => method.body event
  cacheController := cacheController
  sagaMap := .empty

/-! ## What the decorators leave behind -/

/-- The steps that the class itself declares. -/
def SagaClass.steps (target : SagaClass Data) : List SagaMetadataPayload :=
  target.members.entries.flatMap fun (propertyKey, member) =>
    member.decorators.reverse.map fun (event, rollbackCommand) =>
      ⟨event, propertyKey, rollbackCommand⟩

/-- The steps that the class and its ancestors declare, from base to subclass. -/
def PrototypeChain.steps : PrototypeChain Data → List SagaMetadataPayload
  | [] => []
  | target :: ancestors => steps ancestors ++ target.steps

namespace SagaMetadata

/-- Metadata of a prototype outside the chain is not seen. -/
theorem getMetadata_set {store : SagaMetadata} {id : Nat} {chain : PrototypeChain Data}
    (h : ∀ other ∈ chain, other.id ≠ id) (sagas : List SagaMetadataPayload) :
    getMetadata (store.set id sagas) chain = store.getMetadata chain := by
  induction chain with
  | nil => rfl
  | cons target ancestors ih =>
      obtain ⟨hTarget, hAncestors⟩ := List.forall_mem_cons.mp h
      rw [getMetadata, getMetadata, ih hAncestors, KeyedMap.get_set_ne _ hTarget]

end SagaMetadata

theorem getMetadata_sagaStep (event : String) (rollbackCommand : RollbackCommandConstructor)
    (target : SagaClass Data) (ancestors : PrototypeChain Data) (propertyKey : String)
    (store : SagaMetadata) :
    (SagaStep event rollbackCommand target ancestors propertyKey store).getMetadata
        (target :: ancestors) =
      some ((store.getMetadata (target :: ancestors)).getD [] ++
        [⟨event, propertyKey, rollbackCommand⟩]) := by
  rw [SagaStep, SagaMetadata.getMetadata, KeyedMap.get_set_self, Option.some_or]

namespace SagaClass

/-- The store after a run of the decorators: the steps were added for the class,
and other prototypes have what they had. -/
structure Added (target : SagaClass Data) (ancestors : PrototypeChain Data)
    (store store' : SagaMetadata) (steps : List SagaMetadataPayload) : Prop where
  own : (store'.getMetadata (target :: ancestors)).getD [] =
    (store.getMetadata (target :: ancestors)).getD [] ++ steps
  others : ∀ id, id ≠ target.id → store'.get id = store.get id
  chains : ∀ chain : PrototypeChain Data, (∀ other ∈ chain, other.id ≠ target.id) →
    store'.getMetadata chain = store.getMetadata chain

variable {target : SagaClass Data} {ancestors : PrototypeChain Data}
  {store store' store'' : SagaMetadata} {steps more : List SagaMetadataPayload}

theorem Added.refl : target.Added ancestors store store [] :=
  ⟨(List.append_nil _).symm, fun _ _ => rfl, fun _ _ => rfl⟩

theorem Added.trans (h : target.Added ancestors store store' steps)
    (hMore : target.Added ancestors store' store'' more) :
    target.Added ancestors store store'' (steps ++ more) where
  own := by rw [hMore.own, h.own, List.append_assoc]
  others id hId := by rw [hMore.others id hId, h.others id hId]
  chains chain hChain := by rw [hMore.chains chain hChain, h.chains chain hChain]

theorem added_sagaStep (event : String) (rollbackCommand : RollbackCommandConstructor)
    (propertyKey : String) :
    target.Added ancestors store
      (SagaStep event rollbackCommand target ancestors propertyKey store)
      [⟨event, propertyKey, rollbackCommand⟩] where
  own := by rw [getMetadata_sagaStep, Option.getD_some]
  others id hId := KeyedMap.get_set_ne _ hId _
  chains _ hChain := SagaMetadata.getMetadata_set hChain _

theorem added_decorate (store : SagaMetadata) (member : String × SagaMethod Data) :
    target.Added ancestors store (target.decorate ancestors store member)
      (member.2.decorators.reverse.map fun (event, rollbackCommand) =>
        ⟨event, member.1, rollbackCommand⟩) := by
  obtain ⟨propertyKey, decorators, body⟩ := member
  unfold decorate
  induction decorators with
  | nil => exact .refl
  | cons decorator decorators ih =>
      rw [List.foldr_cons, List.reverse_cons, List.map_append]
      exact ih.trans (added_sagaStep _ _ _)

theorem added_define (store : SagaMetadata) :
    target.Added ancestors store (target.define ancestors store) target.steps := by
  unfold define steps
  induction target.members.entries generalizing store with
  | nil => exact .refl
  | cons member members ih =>
      rw [List.foldl_cons, List.flatMap_cons]
      exact (added_decorate store member).trans (ih _)

end SagaClass

/-- What holds after the classes have been declared: each sees the steps of its
chain, and ids that nobody has taken have no metadata. -/
structure SagaMetadata.Holds (store : SagaMetadata) (classes : List (PrototypeChain Data)) :
    Prop where
  sees : ∀ chain ∈ classes, (store.getMetadata chain).getD [] = chain.steps
  free : ∀ id, (∀ chain ∈ classes, ∀ other ∈ chain, other.id ≠ id) → store.get id = none

theorem SagaMetadata.Holds.define {store : SagaMetadata} {classes : List (PrototypeChain Data)}
    {target : SagaClass Data} {ancestors : PrototypeChain Data} (h : store.Holds classes)
    (hBase : ancestors = [] ∨ ancestors ∈ classes)
    (hNew : ∀ chain ∈ classes, ∀ other ∈ chain, other.id ≠ target.id) :
    (target.define ancestors store).Holds (classes ++ [target :: ancestors]) := by
  have hAdded : target.Added ancestors store (target.define ancestors store) target.steps :=
    SagaClass.added_define store
  have hAncestors : (store.getMetadata ancestors).getD [] = ancestors.steps := by
    rcases hBase with rfl | hBase
    · rfl
    · exact h.sees ancestors hBase
  -- a class inherits the list of its base until its first decorator runs
  have hInherited : (store.getMetadata (target :: ancestors)).getD [] = ancestors.steps := by
    rw [getMetadata, h.free target.id hNew, Option.none_or, hAncestors]
  constructor
  · intro chain hChain
    rcases List.mem_append.mp hChain with hOld | hLast
    · rw [hAdded.chains chain (hNew chain hOld), h.sees chain hOld]
    · rw [List.mem_singleton.mp hLast, hAdded.own, hInherited, PrototypeChain.steps]
  · intro id hFree
    have hOld : ∀ chain ∈ classes, ∀ other ∈ chain, other.id ≠ id := fun chain hChain =>
      hFree chain (List.mem_append_left _ hChain)
    have hId : id ≠ target.id := fun hSame =>
      hFree _ (List.mem_append_right _ (List.mem_singleton_self _)) target List.mem_cons_self
        hSame.symm
    rw [hAdded.others id hId, h.free id hOld]

theorem Declared.holds {classes : List (PrototypeChain Data)} (h : Declared classes) :
    (SagaMetadata.ofProgram classes).Holds classes := by
  induction h with
  | nil => exact ⟨fun _ hChain => absurd hChain List.not_mem_nil, fun _ _ => rfl⟩
  | extend h hBase hNew ih =>
      rw [SagaMetadata.ofProgram, List.foldl_append]
      exact ih.define hBase hNew

/-- The list an instance finds is what its class and the ancestors declare. -/
theorem SagaHierarchy.metadata_newInstance (hierarchy : SagaHierarchy Data)
    {chain : PrototypeChain Data} (h : chain ∈ hierarchy.classes) (cacheController : Bool) :
    (hierarchy.newInstance chain cacheController).metadata = chain.steps :=
  hierarchy.declared.holds.sees chain h

/-! ## Grouping by event -/

namespace Saga

/-- Grouping keeps the order of the steps for one event. -/
theorem get_foldl_group (metadata : List SagaMetadataPayload)
    (sagaMap : KeyedMap String (List SagaMetadataPayload)) (event : String) :
    ((metadata.foldl (fun sagaMap sagaMeta =>
        sagaMap.set sagaMeta.event (((sagaMap.get sagaMeta.event).getD []) ++ [sagaMeta]))
      sagaMap).get event).getD [] =
      (sagaMap.get event).getD [] ++ metadata.filter (·.event = event) := by
  induction metadata generalizing sagaMap with
  | nil => simp
  | cons sagaMeta metadata ih =>
      rw [List.foldl_cons, ih, KeyedMap.get_set, List.filter_cons]
      by_cases hEvent : sagaMeta.event = event
      · subst hEvent
        simp
      · simp [hEvent, Ne.symm hEvent]

theorem handlers_onApplicationBootstrap {saga : Saga Data} (h : saga.sagaMap = .empty)
    (event : IEvent Data) :
    saga.onApplicationBootstrap.handlers event = saga.metadata.filter (·.event = event.name) := by
  rw [handlers, onApplicationBootstrap, get_foldl_group, h]
  rfl

/-! ## Calling steps -/

/-- Calling a method for an event. It fails when the method throws, and when it
returns commands although there is no cache. -/
def call (saga : Saga Data) (event : IEvent Data) (propertyKey : String) :
    Except Thrown (Commands Data) :=
  match saga.methods propertyKey event with
  | .error reason => .error reason
  | .ok commands =>
      if commands.length > 0 ∧ saga.cacheController = false then .error (.error "Error" "")
      else .ok commands

/-- The methods that the loop of `process` calls. -/
def calls (saga : Saga Data) (event : IEvent Data) :
    List SagaMetadataPayload → MemoryCache → List String
  | [], _ => []
  | handler :: handlers, cache =>
      handler.propertyKey :: match runStep saga event handler cache with
        | (_, .error _) => []
        | (cache, .ok _) => calls saga event handlers cache

end Saga

/-- `process` calls each of these methods once, in this order, up to the first that
fails, and returns the concatenation of what they return. -/
def Saga.ProcessesBy (saga : Saga Data) (event : IEvent Data) (cache : MemoryCache)
    (propertyKeys : List String) : Prop :=
  saga.calls event (saga.handlers event) cache =
      Traversal.reached (saga.call event) propertyKeys ∧
    (saga.process event cache).2 = (propertyKeys.mapM (saga.call event)).map List.flatten

/-- Where none of the methods fails, each is called and the results are joined. -/
theorem Saga.ProcessesBy.of_ok {saga : Saga Data} {event : IEvent Data} {cache : MemoryCache}
    {propertyKeys : List String} (h : saga.ProcessesBy event cache propertyKeys)
    {results : List (Commands Data)}
    (hResults : propertyKeys.map (saga.call event) = results.map .ok) :
    saga.calls event (saga.handlers event) cache = propertyKeys ∧
      (saga.process event cache).2 = .ok results.flatten := by
  have hAll : ∀ propertyKey ∈ propertyKeys, (saga.call event propertyKey).isOk := by
    intro propertyKey hKey
    have hMem : saga.call event propertyKey ∈ results.map .ok :=
      hResults ▸ List.mem_map_of_mem hKey
    obtain ⟨commands, -, hCommands⟩ := List.mem_map.mp hMem
    rw [← hCommands]
    rfl
  rw [h.1, h.2, Traversal.reached_eq_self hAll, Traversal.mapM_eq_ok_iff.mpr hResults]
  exact ⟨rfl, rfl⟩

theorem Saga.runStep_snd (saga : Saga Data) (event : IEvent Data) (handler : SagaMetadataPayload)
    (cache : MemoryCache) :
    (saga.runStep event handler cache).2 = saga.call event handler.propertyKey := by
  unfold Saga.runStep Saga.call
  cases saga.methods handler.propertyKey event with
  | error reason => rfl
  | ok commands =>
      by_cases hSome : commands.length > 0
      · cases saga.cacheController <;> simp [hSome]
      · simp [hSome]

/-- The loop calls the methods of the steps in turn. -/
theorem Saga.processesBy_handlers (saga : Saga Data) (event : IEvent Data) (cache : MemoryCache) :
    saga.ProcessesBy event cache ((saga.handlers event).map (·.propertyKey)) := by
  unfold Saga.ProcessesBy Saga.process
  induction saga.handlers event generalizing cache with
  | nil => exact ⟨rfl, rfl⟩
  | cons handler handlers ih =>
      have hStep := saga.runStep_snd event handler cache
      rw [List.map_cons, Saga.calls, Saga.processSteps, Traversal.reached, List.mapM_cons]
      cases hRun : saga.runStep event handler cache with
      | mk cache' result =>
          rw [hRun] at hStep
          simp only at hStep
          obtain ⟨hCalls, hResult⟩ := ih cache'
          rw [← hStep]
          cases result with
          | error reason => exact ⟨rfl, rfl⟩
          | ok commands =>
              refine ⟨congrArg _ hCalls, ?_⟩
              cases hRest : saga.processSteps event handlers cache' with
              | mk cache'' outcome =>
                  rw [hRest] at hResult
                  simp only at hResult
                  subst hResult
                  simp only [hRest]
                  cases (handlers.map (·.propertyKey)).mapM (saga.call event) <;> rfl

/-! ## Dispatch -/

/-- The methods declared for the event in a class and its ancestors, from base to
subclass, as often as they are declared. -/
def PrototypeChain.stepKeys (chain : PrototypeChain Data) (event : IEvent Data) : List String :=
  (chain.steps.filter (·.event = event.name)).map (·.propertyKey)

namespace SagaHierarchy

/-- An instance of a class after one `onApplicationBootstrap`. -/
def bootstrapped (hierarchy : SagaHierarchy Data) (chain : PrototypeChain Data)
    (cacheController : Bool) : Saga Data :=
  (hierarchy.newInstance chain cacheController).onApplicationBootstrap

/-- An event is processed by calling each of the different methods that are
declared for it. -/
def DispatchesExactly (hierarchy : SagaHierarchy Data) (chain : PrototypeChain Data)
    (cacheController : Bool) (event : IEvent Data) (cache : MemoryCache) : Prop :=
  (hierarchy.bootstrapped chain cacheController).ProcessesBy event cache
    ((chain.stepKeys event).foldl ValueSet.add .empty).values

variable {hierarchy : SagaHierarchy Data} {chain : PrototypeChain Data}

theorem handlers_bootstrapped (h : chain ∈ hierarchy.classes) (cacheController : Bool)
    (event : IEvent Data) :
    ((hierarchy.bootstrapped chain cacheController).handlers event).map (·.propertyKey) =
      chain.stepKeys event := by
  rw [bootstrapped, Saga.handlers_onApplicationBootstrap rfl, metadata_newInstance hierarchy h,
    PrototypeChain.stepKeys]

/-- Only methods of the class or its ancestors are called. -/
theorem mem_stepKeys_of_called (h : chain ∈ hierarchy.classes) {cacheController : Bool}
    {event : IEvent Data} {cache : MemoryCache} {propertyKey : String}
    (hCalled : propertyKey ∈ (hierarchy.bootstrapped chain cacheController).calls event
      ((hierarchy.bootstrapped chain cacheController).handlers event) cache) :
    propertyKey ∈ chain.stepKeys event := by
  rw [((hierarchy.bootstrapped chain cacheController).processesBy_handlers event cache).1,
    handlers_bootstrapped h] at hCalled
  exact (Traversal.reached_prefix_self _).subset hCalled

/-- A method that is declared twice for the event is called twice, unless a
method before its second declaration fails. -/
theorem dispatchesExactly_iff (h : chain ∈ hierarchy.classes) (cacheController : Bool)
    (event : IEvent Data) (cache : MemoryCache) :
    hierarchy.DispatchesExactly chain cacheController event cache ↔
      ((chain.stepKeys event).takeWhile fun propertyKey =>
        ((hierarchy.newInstance chain cacheController).call event propertyKey).isOk).Nodup := by
  have hHandlers := (hierarchy.bootstrapped chain cacheController).processesBy_handlers event cache
  rw [handlers_bootstrapped h] at hHandlers
  obtain ⟨hCalls, hResult⟩ := hHandlers
  have hCall : (hierarchy.newInstance chain cacheController).call event =
      (hierarchy.bootstrapped chain cacheController).call event := rfl
  rw [hCall, DispatchesExactly, Saga.ProcessesBy, hCalls, hResult]
  constructor
  · intro ⟨hReached, _⟩
    exact (Traversal.reached_distinct_iff _).mp hReached
  · intro hOnce
    obtain ⟨hReached, hResults⟩ := Traversal.once_each hOnce
    exact ⟨hReached, congrArg _ hResults⟩

/-! ## A base class with one step -/

def testRollbackCommand : RollbackCommandConstructor := ⟨"TestRollbackCommand", 0⟩

def testEvent : IEvent Unit := ⟨none, (), none, "TestEvent", "123456789", 0, "e1"⟩

/-- A step that returns one command of this name. -/
def testMethod (command : String) (decorators : List (String × RollbackCommandConstructor)) :
    SagaMethod Unit :=
  ⟨decorators, fun _ => .ok [some ⟨none, (), none, command, "c1"⟩]⟩

def baseSaga : SagaClass Unit :=
  ⟨0, ⟨[("handleTestEvent", testMethod "BaseCommand" [("TestEvent", testRollbackCommand)])],
    by decide⟩⟩

/-- Overrides the step, and has one of its own. -/
def overridingSaga : SagaClass Unit :=
  ⟨1, ⟨[("handleTestEvent", testMethod "OverridingCommand" []),
    ("notify", testMethod "NotifyCommand" [("TestEvent", testRollbackCommand)])], by decide⟩⟩

/-- Overrides the step and decorates it as the base class does. -/
def redecoratingSaga : SagaClass Unit :=
  ⟨2, ⟨[("handleTestEvent",
    testMethod "RedecoratingCommand" [("TestEvent", testRollbackCommand)])], by decide⟩⟩

/-- Two classes extend the same base. -/
def testHierarchy : SagaHierarchy Unit where
  classes := [[baseSaga], [overridingSaga, baseSaga], [redecoratingSaga, baseSaga]]
  declared := by
    have hBase : Declared [[baseSaga]] := .extend .nil (.inl rfl) (by simp)
    have hOverriding : Declared [[baseSaga], [overridingSaga, baseSaga]] :=
      .extend hBase (.inr (by simp)) (by simp [baseSaga, overridingSaga])
    exact .extend hOverriding (.inr (by simp))
      (by simp [baseSaga, overridingSaga, redecoratingSaga])

theorem dispatchesExactly_iff_overriding :
    testHierarchy.DispatchesExactly [overridingSaga, baseSaga] true testEvent .new :=
  (dispatchesExactly_iff (by simp [testHierarchy]) true testEvent .new).mpr (by decide)

/-- The step is called twice, and its command is issued twice. -/
theorem not_dispatchesExactly_redecorating :
    [redecoratingSaga, baseSaga] ∈ testHierarchy.classes ∧
      ¬testHierarchy.DispatchesExactly [redecoratingSaga, baseSaga] true testEvent .new := by
  constructor
  · simp [testHierarchy]
  · intro h
    have hCalls := h.1
    revert hCalls
    decide

end SagaHierarchy

end Moirae
