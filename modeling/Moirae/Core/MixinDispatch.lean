import Moirae.Core.AggregateRoot
import Moirae.Core.Mixin

/-! Which `Apply` handler runs on an aggregate with mixins. Its name is metadata,
where the target and then the first mixin win; the method of that name is a
property, where the last mixin wins. -/
namespace Moirae.MixinDispatch

/-- The metadata key that `Apply` sets for an event type. -/
def applyKey (event : String) : String := "__apply_event_metadata__:" ++ event

/-- A class to be mixed in. Its methods are functions of its own; `owner` tells
classes of one name apart. -/
structure HandlerClass extends MixinClass where
  owner : String
  methods_own : ∀ name member, methods.get name = some member → member = .method owner name
  /-- `Apply` stands on a method of the class. -/
  applied : ∀ event name, metadata.own.get (applyKey event) = some name → methods.has name

/-- A class that extends `AggregateRoot`: what is found on its prototype, own or
inherited, and its constructor, an object with properties of its own. -/
structure Aggregate where
  name : String
  methods : KeyedMap String Member
  methods_named : ∀ name member, methods.get name = some member →
    ∃ owner, member = .method owner name
  methods_ne_constructor : methods.get "constructor" = none
  metadata : KeyedMap String String
  applied : ∀ event name, metadata.get (applyKey event) = some name → methods.has name
  statics : MixinTarget

namespace Aggregate

/-- A class decorator is called with the constructor of the class. -/
def addMixin (aggregate : Aggregate) (mixins : List HandlerClass) : Aggregate :=
  { aggregate with
    statics := aggregate.statics.applyMixins (mixins.map HandlerClass.toMixinClass) }

/-- A new instance: its methods and metadata are those of the prototype. -/
def newInstance (aggregate : Aggregate) : MixinTarget := .fresh ⟨.empty, aggregate.metadata⟩

def mixedInstance (aggregate : Aggregate) (mixins : List HandlerClass) : MixinTarget :=
  aggregate.newInstance.applyMixins (mixins.map HandlerClass.toMixinClass)

/-- Reading a property of an instance. -/
def property (aggregate : Aggregate) (this : MixinTarget) (name : String) : Option Member :=
  (this.properties.get name).or (aggregate.methods.get name)

def unhandledEventError (aggregate : Aggregate) (this : MixinTarget) (event : String) : Thrown :=
  .error "UnhandledEventError"
    ("Aggregate " ++ this.constructorName aggregate.name ++ " cannot handle event: " ++ event)

/-- The handler that `AggregateRoot.apply` calls. An empty name counts as none. -/
def applyHandler (aggregate : Aggregate) (this : MixinTarget) (event : String) :
    Except Thrown Member :=
  match this.metadata.getMetadata (applyKey event) with
  | none => .error (aggregate.unhandledEventError this event)
  | some handlerName =>
      if handlerName = "" then .error (aggregate.unhandledEventError this event)
      else
        match aggregate.property this handlerName with
        | none => .error (.error "TypeError" "Cannot read properties of undefined (reading 'call')")
        | some handler => .ok handler

/-- The handler of the class itself. -/
def declared (aggregate : Aggregate) (event : String) : Option Member :=
  (aggregate.metadata.get (applyKey event)).bind aggregate.methods.get

end Aggregate

def HandlerClass.declared (mixin : HandlerClass) (event : String) : Option Member :=
  (mixin.metadata.own.get (applyKey event)).bind mixin.methods.get

/-- The last mixin that declares a handler for the event. -/
def lastDeclaring (mixins : List HandlerClass) (event : String) : Option HandlerClass :=
  mixins.reverse.find? (·.metadata.own.has (applyKey event))

/-- The last mixin that has a method of this name. -/
def lastWith (mixins : List HandlerClass) (name : String) : Option HandlerClass :=
  mixins.reverse.find? (·.methods.has name)

variable (aggregate : Aggregate) (mixins : List HandlerClass) (event : String)

/-- The handler that mixins are to put in place: that of the last mixin which
declares one, else that of the class. -/
def intended : Option Member :=
  match lastDeclaring mixins event with
  | some mixin => mixin.declared event
  | none => aggregate.declared event

/-- The intended handler runs on an instance that the mixins were applied to. -/
def OverridesOnInstance : Prop :=
  ∀ handler, intended aggregate mixins event = some handler →
    aggregate.applyHandler (aggregate.mixedInstance mixins) event = .ok handler

/-- The intended handler runs on instances of the decorated class. -/
def OverridesOnClass : Prop :=
  ∀ handler, intended aggregate mixins event = some handler →
    (aggregate.addMixin mixins).applyHandler (aggregate.addMixin mixins).newInstance event =
      .ok handler

/-- The name that an instance with mixins has for the handler of the event. -/
def nameOnInstance : Option String :=
  (aggregate.metadata.get (applyKey event)).or
    (mixins.findSome? (·.metadata.getMetadata (applyKey event)))

/-- The last mixin that declares a handler has given it the name in use, which no
later mixin of another class uses; without such a mixin, none has a method of the
name that the class has given to its handler. -/
def NamesAgree : Prop :=
  match lastDeclaring mixins event with
  | some mixin => ∃ name, name ≠ "" ∧ nameOnInstance aggregate mixins event = some name ∧
      mixin.metadata.own.get (applyKey event) = some name ∧
      ∀ later, lastWith mixins name = some later → later.owner = mixin.owner
  | none => ∀ name, aggregate.metadata.get (applyKey event) = some name → name ≠ "" ∧
      ∀ later, lastWith mixins name = some later →
        aggregate.methods.get name = some (.method later.owner name)

/-- No mixin declares a handler, unless it is the one that the class has inherited
from the last that does. -/
def NothingToOverride : Prop :=
  match lastDeclaring mixins event with
  | some mixin => ∃ name, name ≠ "" ∧ aggregate.metadata.get (applyKey event) = some name ∧
      mixin.metadata.own.get (applyKey event) = some name ∧
      aggregate.methods.get name = some (.method mixin.owner name)
  | none => aggregate.metadata.get (applyKey event) ≠ some ""

variable {aggregate mixins event}

theorem applyHandler_eq_ok_iff {this : MixinTarget} {handler : Member} :
    aggregate.applyHandler this event = .ok handler ↔ ∃ name,
      this.metadata.getMetadata (applyKey event) = some name ∧ name ≠ "" ∧
        aggregate.property this name = some handler := by
  rw [Aggregate.applyHandler]
  cases this.metadata.getMetadata (applyKey event) with
  | none => simp
  | some name =>
      by_cases hEmpty : name = ""
      · simp [hEmpty]
      · cases hProperty : aggregate.property this name <;> simp [hEmpty, hProperty]

theorem getMetadata_mixedInstance :
    (aggregate.mixedInstance mixins).metadata.getMetadata (applyKey event) =
      nameOnInstance aggregate mixins event := by
  rw [Aggregate.mixedInstance, MixinTarget.getMetadata_applyMixins, List.findSome?_map]
  rfl

/-- A mixin with a method of this name has its own function there. -/
theorem HandlerClass.get_methods {mixin : HandlerClass} {name : String}
    (h : mixin.methods.has name) : mixin.methods.get name = some (.method mixin.owner name) := by
  obtain ⟨member, hMember⟩ := Option.isSome_iff_exists.mp h
  rw [hMember, mixin.methods_own name member hMember]

theorem findSome?_methods (mixins : List HandlerClass) (name : String) :
    mixins.findSome? (·.methods.get name) =
      (mixins.find? (·.methods.has name)).map fun mixin => .method mixin.owner name := by
  induction mixins with
  | nil => rfl
  | cons mixin mixins ih =>
      rw [List.findSome?_cons, List.find?_cons]
      cases hHas : mixin.methods.has name with
      | true =>
          rw [HandlerClass.get_methods hHas]
          rfl
      | false =>
          have hNone : mixin.methods.get name = none := by
            simpa [KeyedMap.has] using hHas
          rw [hNone]
          exact ih

theorem property_mixedInstance {name : String} (h : name ≠ "constructor") :
    aggregate.property (aggregate.mixedInstance mixins) name =
      ((lastWith mixins name).map fun mixin => .method mixin.owner name).or
        (aggregate.methods.get name) := by
  have hLookup : ∀ mixin : HandlerClass,
      mixin.toMixinClass.prototype.lookup name = mixin.methods.get name := by
    intro mixin
    rw [MixinClass.prototype, List.lookup_cons, beq_eq_false_iff_ne.mpr h]
    rfl
  rw [Aggregate.property, Aggregate.mixedInstance, MixinTarget.get_properties_applyMixins,
    ← List.map_reverse, List.findSome?_map, lastWith, ← findSome?_methods]
  simp only [Function.comp_def, hLookup]
  rw [Aggregate.newInstance, MixinTarget.fresh, KeyedMap.get_empty, Option.or_none]

/-- A method that is found on an instance with mixins has the name under which it
is found: what `constructor` holds is no method. -/
theorem eq_name_of_property {name owner own : String}
    (h : aggregate.property (aggregate.mixedInstance mixins) name = some (.method owner own)) :
    name ≠ "constructor" ∧ name = own := by
  by_cases hName : name = "constructor"
  · subst hName
    rw [Aggregate.property, aggregate.methods_ne_constructor, Option.or_none,
      Aggregate.mixedInstance, MixinTarget.get_properties_applyMixins] at h
    cases hFound : (mixins.map HandlerClass.toMixinClass).reverse.findSome?
        (·.prototype.lookup "constructor") with
    | none =>
        rw [hFound] at h
        cases h
    | some member =>
        obtain ⟨baseCtor, -, hMember⟩ := List.exists_of_findSome?_eq_some hFound
        cases hMember
        rw [hFound] at h
        cases h
  · rw [property_mixedInstance hName] at h
    cases hLast : lastWith mixins name with
    | some later =>
        rw [hLast] at h
        cases h
        exact ⟨hName, rfl⟩
    | none =>
        rw [hLast] at h
        obtain ⟨owner', hMethod⟩ := aggregate.methods_named name _ h
        cases hMethod
        exact ⟨hName, rfl⟩

/-- The class of the last declaring mixin has the handler under the declared name. -/
theorem exists_name_of_lastDeclaring {mixin : HandlerClass}
    (h : lastDeclaring mixins event = some mixin) : ∃ name, mixin ∈ mixins ∧
      mixin.metadata.own.get (applyKey event) = some name ∧ mixin.methods.has name ∧
        mixin.declared event = some (.method mixin.owner name) := by
  have hMem := List.mem_of_find?_eq_some h
  have hDeclares := List.find?_some h
  obtain ⟨name, hName⟩ := Option.isSome_iff_exists.mp hDeclares
  have hHas := mixin.applied event name hName
  refine ⟨name, List.mem_reverse.mp hMem, hName, hHas, ?_⟩
  rw [HandlerClass.declared, hName]
  exact HandlerClass.get_methods hHas

theorem HandlerClass.ne_constructor {mixin : HandlerClass} {name : String}
    (h : mixin.methods.has name) : name ≠ "constructor" := by
  rintro rfl
  rw [KeyedMap.has, mixin.methods_ne_constructor] at h
  cases h

/-- The class has a method under the name that it has given to its handler. -/
theorem Aggregate.exists_method {name : String}
    (h : aggregate.metadata.get (applyKey event) = some name) : ∃ owner,
      aggregate.methods.get name = some (.method owner name) ∧
        aggregate.declared event = some (.method owner name) := by
  obtain ⟨member, hMember⟩ := Option.isSome_iff_exists.mp (aggregate.applied event name h)
  obtain ⟨owner, rfl⟩ := aggregate.methods_named name member hMember
  refine ⟨owner, hMember, ?_⟩
  rw [Aggregate.declared, h]
  exact hMember

theorem Aggregate.ne_constructor {name : String}
    (h : aggregate.metadata.get (applyKey event) = some name) : name ≠ "constructor" := by
  rintro rfl
  obtain ⟨owner, hMethod, -⟩ := aggregate.exists_method h
  rw [aggregate.methods_ne_constructor] at hMethod
  cases hMethod

theorem lastWith_isSome {mixin : HandlerClass} (hMem : mixin ∈ mixins) {name : String}
    (h : mixin.methods.has name) : ∃ later, lastWith mixins name = some later := by
  refine Option.isSome_iff_exists.mp ?_
  rw [lastWith, List.find?_isSome]
  exact ⟨mixin, List.mem_reverse.mpr hMem, h⟩

theorem overridesOnInstance_iff_of_declared {mixin : HandlerClass}
    (h : lastDeclaring mixins event = some mixin) :
    OverridesOnInstance aggregate mixins event ↔ NamesAgree aggregate mixins event := by
  obtain ⟨own, hMem, hOwn, hHas, hDeclared⟩ := exists_name_of_lastDeclaring h
  obtain ⟨last, hLast⟩ := lastWith_isSome hMem hHas
  have hProperty : aggregate.property (aggregate.mixedInstance mixins) own =
      some (.method last.owner own) := by
    rw [property_mixedInstance (HandlerClass.ne_constructor hHas), hLast]
    rfl
  rw [OverridesOnInstance, intended, NamesAgree, h]
  simp only [hDeclared, Option.some.injEq, forall_eq', applyHandler_eq_ok_iff,
    getMetadata_mixedInstance, hOwn]
  constructor
  · rintro ⟨name, hName, hNe, hFound⟩
    obtain rfl := (eq_name_of_property hFound).2
    refine ⟨name, hNe, hName, rfl, ?_⟩
    intro later hLater
    rw [hProperty] at hFound
    cases hLast.symm.trans hLater
    exact (Member.method.inj (Option.some.inj hFound)).1
  · rintro ⟨name, hNe, hName, rfl, hLater⟩
    exact ⟨own, hName, hNe, by rw [hProperty, hLater last hLast]⟩

theorem overridesOnInstance_iff_of_not_declared (h : lastDeclaring mixins event = none) :
    OverridesOnInstance aggregate mixins event ↔ NamesAgree aggregate mixins event := by
  rw [OverridesOnInstance, intended, NamesAgree, h]
  simp only [applyHandler_eq_ok_iff, getMetadata_mixedInstance]
  constructor
  · intro hOverrides name hName
    obtain ⟨owner, hMethod, hDeclared⟩ := aggregate.exists_method hName
    obtain ⟨used, hUsed, hNe, hFound⟩ := hOverrides _ hDeclared
    rw [nameOnInstance, hName] at hUsed
    cases hUsed
    refine ⟨hNe, ?_⟩
    intro later hLater
    rw [property_mixedInstance (aggregate.ne_constructor hName), hLater] at hFound
    rw [hMethod]
    exact hFound.symm
  · intro hAgree handler hHandler
    obtain ⟨name, hName, hMethod⟩ := Option.bind_eq_some_iff.mp hHandler
    obtain ⟨hNe, hLater⟩ := hAgree name hName
    refine ⟨name, by rw [nameOnInstance, hName]; rfl, hNe, ?_⟩
    rw [property_mixedInstance (aggregate.ne_constructor hName)]
    cases hLast : lastWith mixins name with
    | none => exact hMethod
    | some later => exact (hLater later hLast).symm.trans hMethod

/-- The decorator changes the constructor only, which instances never read. -/
theorem applyHandler_addMixin :
    (aggregate.addMixin mixins).applyHandler (aggregate.addMixin mixins).newInstance event =
      aggregate.applyHandler aggregate.newInstance event := rfl

theorem overridesOnClass_iff :
    OverridesOnClass aggregate mixins event ↔ NothingToOverride aggregate mixins event := by
  have hHandler : ∀ handler, aggregate.applyHandler aggregate.newInstance event = .ok handler ↔
      ∃ name, aggregate.metadata.get (applyKey event) = some name ∧ name ≠ "" ∧
        aggregate.methods.get name = some handler := fun handler => applyHandler_eq_ok_iff
  rw [OverridesOnClass, intended, NothingToOverride]
  simp only [applyHandler_addMixin, hHandler]
  cases hLast : lastDeclaring mixins event with
  | some mixin =>
      obtain ⟨own, hMem, hOwn, hHas, hDeclared⟩ := exists_name_of_lastDeclaring hLast
      simp only [hDeclared, Option.some.injEq, forall_eq', hOwn]
      constructor
      · rintro ⟨name, hName, hNe, hMethod⟩
        obtain ⟨owner, hNamed⟩ := aggregate.methods_named name _ hMethod
        obtain rfl : own = name := (Member.method.inj hNamed).2
        exact ⟨own, hNe, hName, rfl, hMethod⟩
      · rintro ⟨name, hNe, hName, rfl, hMethod⟩
        exact ⟨own, hName, hNe, hMethod⟩
  | none =>
      constructor
      · intro hOverrides hName
        obtain ⟨owner, -, hDeclared⟩ := aggregate.exists_method hName
        obtain ⟨name, hName', hNe, -⟩ := hOverrides _ hDeclared
        rw [hName] at hName'
        cases hName'
        exact hNe rfl
      · intro hNe handler hDeclared
        obtain ⟨name, hName, hMethod⟩ := Option.bind_eq_some_iff.mp hDeclared
        refine ⟨name, hName, ?_, hMethod⟩
        rintro rfl
        exact hNe hName

/-- Mixins override as intended on an instance exactly when the names of the
handlers agree, and through the decorator exactly when there is nothing to
override. -/
theorem overrides_iff (aggregate : Aggregate) (mixins : List HandlerClass) (event : String) :
    (OverridesOnInstance aggregate mixins event ↔ NamesAgree aggregate mixins event) ∧
    (OverridesOnClass aggregate mixins event ↔ NothingToOverride aggregate mixins event) := by
  refine ⟨?_, overridesOnClass_iff⟩
  cases hLast : lastDeclaring mixins event with
  | none => exact overridesOnInstance_iff_of_not_declared hLast
  | some mixin => exact overridesOnInstance_iff_of_declared hLast

section AggregateRoot

variable {State Data : Type} (cls : AggregateClass State Data)
  (body : Member → State → IEvent Data → State)

/-- What `AggregateRoot` finds on the object in the place of the handlers of its
class. -/
def Aggregate.seenOn (aggregate : Aggregate) (this : MixinTarget) : AggregateClass State Data :=
  { cls with
    name := this.constructorName aggregate.name
    applyHandler := fun event => (aggregate.applyHandler this event).toOption.map body }

variable {cls body}

/-- Where mixins override as intended, `apply` runs the body of the intended
handler. -/
theorem apply_seenOn {handler : Member} {root : AggregateRoot State Data} {event : IEvent Data}
    (hIntended : intended aggregate mixins event.name = some handler)
    (hOverrides : OverridesOnInstance aggregate mixins event.name) {fromHistory : Bool}
    (hLive : (cls.deleted root.state && !fromHistory) = false) :
    AggregateRoot.apply (aggregate.seenOn cls body (aggregate.mixedInstance mixins)) root event
      fromHistory = .ok (root.handled (body handler) event fromHistory) := by
  have hHandler := hOverrides handler hIntended
  rw [AggregateRoot.apply]
  simp only [Aggregate.seenOn, hHandler, Except.toOption, Option.map_some, hLive]
  rfl

end AggregateRoot

section DynamicMixin

def testAggregate : Aggregate where
  name := "TestAggregate"
  methods := .set .empty "onTestEvent" (.method "TestAggregate" "onTestEvent")
  methods_named := by
    intro name member h
    rw [KeyedMap.get_set] at h
    split at h
    · next hName =>
        cases h
        exact ⟨"TestAggregate", by rw [hName]⟩
    · cases h
  methods_ne_constructor := by decide
  metadata := .set .empty (applyKey "TestEvent") "onTestEvent"
  applied := by
    intro event name h
    rw [KeyedMap.get_set] at h
    split at h
    · cases h
      rfl
    · cases h
  statics := .fresh ⟨.empty, .empty⟩

/-- A mixin with a handler of its own for the event. -/
def dynamicMixin : HandlerClass where
  name := "DynamicMixin"
  owner := "DynamicMixin"
  methods := .set .empty "handleTest" (.method "DynamicMixin" "handleTest")
  methods_own := by
    intro name member h
    rw [KeyedMap.get_set] at h
    split at h
    · next hName =>
        cases h
        rw [hName]
    · cases h
  methods_ne_constructor := by decide
  metadata := ⟨.set .empty (applyKey "TestEvent") "handleTest", .empty⟩
  applied := by
    intro event name h
    rw [KeyedMap.get_set] at h
    split at h
    · cases h
      rfl
    · cases h

/-- The mixin declares a handler under another name, and the one of the class
runs all the same. -/
theorem handler_of_class_runs :
    intended testAggregate [dynamicMixin] "TestEvent" =
        some (.method "DynamicMixin" "handleTest") ∧
      testAggregate.applyHandler (testAggregate.mixedInstance [dynamicMixin]) "TestEvent" =
        .ok (.method "TestAggregate" "onTestEvent") ∧
      ¬ OverridesOnInstance testAggregate [dynamicMixin] "TestEvent" ∧
      ¬ OverridesOnClass testAggregate [dynamicMixin] "TestEvent" := by
  have hIntended : intended testAggregate [dynamicMixin] "TestEvent" =
      some (.method "DynamicMixin" "handleTest") := by rfl
  have hRuns : testAggregate.applyHandler (testAggregate.mixedInstance [dynamicMixin]) "TestEvent" =
      .ok (.method "TestAggregate" "onTestEvent") := by rfl
  refine ⟨hIntended, hRuns, ?_, ?_⟩
  · intro h
    have hSame := hRuns.symm.trans (h _ hIntended)
    simp at hSame
  · intro h
    have hClass : testAggregate.applyHandler testAggregate.newInstance "TestEvent" =
        .ok (.method "TestAggregate" "onTestEvent") := by rfl
    have hSame := hClass.symm.trans (h _ hIntended)
    simp at hSame

end DynamicMixin

end Moirae.MixinDispatch
