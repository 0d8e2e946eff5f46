import Moirae.Core.AggregateCopy

/-! How far the copy that `getAggregatePriorTo` makes is an aggregate of the
past, when the handlers only read and assign fields. -/
namespace Moirae

/-- An aggregate class whose handlers assign fields, with values that depend on
the fields and the event. -/
structure FieldClass (Value Data : Type) where
  name : String
  initial : Slots Value
  /-- Does a value count as true? -/
  truthy : Field Value → Bool
  applyHandler : String → Option (Slots Value → IEvent Data → Slots Value)

/-- The fields after some were assigned. -/
def Slots.assign {Value : Type} (fields assigned : Slots Value) : Slots Value :=
  fun name => (assigned name).or (fields name)

namespace FieldClass

open AggregateRoot (filed)

variable {Value Data : Type} (cls : FieldClass Value Data)

def toObjectClass : ObjectClass Value Data where
  name := cls.name
  initial := ⟨fun _ _ => none, cls.initial, []⟩
  deleted domain := match domain.visible "deleted" with
    | none => false
    | some field => cls.truthy field
  applyHandler name := (cls.applyHandler name).map fun handler domain event =>
    { domain with own := domain.own.assign (handler domain.visible event) }
  rollbackHandler _ := none
  applyThrows _ _ _ := none
  rollbackThrows _ _ _ := none
  inherited_eq := by
    intro name handler h domain event
    obtain ⟨handler', -, rfl⟩ := Option.map_eq_some_iff.mp h
    rfl

/-- What the handler of an event makes of the fields. -/
def handle (fields : Slots Value) (event : IEvent Data) : Slots Value :=
  match cls.applyHandler event.name with
  | none => fields
  | some handler => fields.assign (handler fields event)

/-- The fold of events over the fields. -/
def fold (fields : Slots Value) (events : List (IEvent Data)) : Slots Value :=
  events.foldl cls.handle fields

/-- The same fields and time of the last event. -/
def SameState (root root' : AggregateRoot (Domain Value) Data) : Prop :=
  root.state.visible = root'.state.visible ∧ root.updatedAt = root'.updatedAt

section

variable {cls}

/-- It makes no difference to what is visible where a field is assigned. -/
theorem visible_handle (domain : Domain Value) (event : IEvent Data) :
    (cls.toObjectClass.handle domain event).visible = cls.handle domain.visible event := by
  have hHandler : cls.toObjectClass.applyHandler event.name =
      (cls.applyHandler event.name).map fun handler domain event =>
        { domain with own := domain.own.assign (handler domain.visible event) } := rfl
  rw [ThrowingClass.handle, hHandler, handle]
  cases cls.applyHandler event.name with
  | none => rfl
  | some handler =>
      funext name
      simp only [Option.map_some, Domain.visible, Slots.assign, List.findSome?_cons]
      cases handler domain.visible event name <;> rfl

@[simp] theorem visible_initial : cls.toObjectClass.initial.visible = cls.initial := by
  funext name
  change ([cls.initial].findSome? fun slots => slots name) = cls.initial name
  rw [List.findSome?_cons]
  cases cls.initial name <;> rfl

theorem visible_fold (domain : Domain Value) (events : List (IEvent Data)) :
    (cls.toObjectClass.fold domain events).visible = cls.fold domain.visible events := by
  induction events generalizing domain with
  | nil => rfl
  | cons event events ih =>
      rw [ThrowingClass.fold_cons, ih, visible_handle]
      rfl

/-- Handlers that never throw take every event they are there for. -/
theorem takesAll_of_handlers {events : List (IEvent Data)}
    (h : ∀ event ∈ events, (cls.applyHandler event.name).isSome = true) (domain : Domain Value) :
    cls.toObjectClass.TakesAll true domain events := by
  induction events generalizing domain with
  | nil => trivial
  | cons event events ih =>
      obtain ⟨hEvent, hRest⟩ := List.forall_mem_cons.mp h
      refine ⟨⟨fun _ => rfl, ?_, rfl⟩, ih hRest _⟩
      change ((cls.applyHandler event.name).map _).isSome = true
      rwa [Option.isSome_map]

theorem handlers_of_takesAll {events : List (IEvent Data)} {domain : Domain Value}
    (h : cls.toObjectClass.TakesAll true domain events) :
    ∀ event ∈ events, (cls.applyHandler event.name).isSome = true := by
  induction events generalizing domain with
  | nil => exact fun _ hMem => absurd hMem List.not_mem_nil
  | cons event events ih =>
      obtain ⟨⟨-, hHandler, -⟩, hRest⟩ := h
      refine List.forall_mem_cons.mpr ⟨?_, ih hRest⟩
      change ((cls.applyHandler event.name).map _).isSome = true at hHandler
      rwa [Option.isSome_map] at hHandler

/-- The time of the last event that was applied. -/
theorem handledAll_updatedAt {events : List (IEvent Data)} (hSome : events ≠ [])
    (root : AggregateRoot (Domain Value) Data) (fromHistory : Bool) :
    (cls.toObjectClass.handledAll root events fromHistory).updatedAt =
      (events.getLast?).map (·.timestamp) := by
  induction events generalizing root with
  | nil => exact absurd rfl hSome
  | cons event events ih =>
      rw [ThrowingClass.handledAll_cons]
      cases events with
      | nil => rfl
      | cons next events =>
          rw [ih (List.cons_ne_nil _ _), List.getLast?_cons_cons]

/-- Whatever was applied to an aggregate has set the time. -/
theorem updatedAt_of_applied {root last : AggregateRoot (Domain Value) Data}
    {events : List (IEvent Data)} (h : cls.toObjectClass.Applied root events last)
    (hSome : events ≠ [] ∨ root.updatedAt ≠ none) : last.updatedAt ≠ none := by
  induction h with
  | nil root => exact hSome.resolve_left (not_not.mpr rfl)
  | cons fromHistory first rest ih =>
      obtain ⟨-, rfl⟩ := ThrowingClass.apply_eq_none_iff.mp first
      exact ih (Or.inr (Option.some_ne_none _))

/-- The first entry with the id of an event is the event itself when no two
entries have the same id. -/
theorem uuid_ne_of_mem_take {history : List (IEvent Data)}
    (hDistinct : (history.map (·.uuid)).Nodup) {i : Nat} (hLt : i < history.length)
    {other : IEvent Data} (hOther : other ∈ history.take i) : other.uuid ≠ history[i].uuid := by
  rw [← List.take_append_drop i history, List.drop_eq_getElem_cons hLt, List.map_append,
    List.nodup_append] at hDistinct
  exact hDistinct.2.2 _ (List.mem_map_of_mem hOther) _ (List.mem_map_of_mem List.mem_cons_self)

/-- What the history holds has been handled before. -/
theorem handlers_of_applied {root last : AggregateRoot (Domain Value) Data}
    {events : List (IEvent Data)} (h : cls.toObjectClass.Applied root events last)
    (hNew : root.eventHistory = []) :
    ∀ event ∈ last.eventHistory, (cls.applyHandler event.name).isSome = true := by
  obtain ⟨-, -, hHistory, hTakes⟩ := h.spec
  intro event hMem
  rw [hHistory, hNew, List.nil_append] at hMem
  obtain ⟨original, hOriginal, rfl⟩ := List.mem_map.mp hMem
  rw [AggregateRoot.filed_name]
  exact handlers_of_takesAll hTakes original hOriginal

/-- The copy that is asked for is the aggregate as it is, with the entries before
the event applied once more. -/
theorem getAggregatePriorTo_entry {root : AggregateRoot (Domain Value) Data}
    (hDistinct : (root.eventHistory.map (·.uuid)).Nodup) {i : Nat}
    (hLt : i < root.eventHistory.length)
    (hHandlers : ∀ event ∈ root.eventHistory.take i,
      (cls.applyHandler event.name).isSome = true) {fuel : Nat}
    (hFuel : root.eventHistory.length ≤ fuel) :
    cls.toObjectClass.getAggregatePriorTo fuel root root.eventHistory[i] =
      some (ObjectClass.original root (cls.toObjectClass.handledAll (ObjectClass.copied root)
          (root.eventHistory.take i) true),
        .ok (cls.toObjectClass.handledAll (ObjectClass.copied root)
          (root.eventHistory.take i) true)) := by
  have hSplit : root.eventHistory = root.eventHistory.take i ++
      root.eventHistory[i] :: root.eventHistory.drop (i + 1) := by
    rw [← List.drop_eq_getElem_cons hLt, List.take_append_drop]
  rw [ObjectClass.getAggregatePriorTo_eq hSplit rfl
      (fun _ => uuid_ne_of_mem_take hDistinct hLt) hFuel,
    ThrowingClass.applyAll_of_takesAll _ (takesAll_of_handlers hHandlers _)]

/-- Both have applied the same events, and a new aggregate without any has no time. -/
theorem sameState_handledAll_iff {root : AggregateRoot (Domain Value) Data}
    (hTime : root.updatedAt ≠ none) (streamId : String) (events : List (IEvent Data)) :
    SameState (cls.toObjectClass.handledAll (ObjectClass.copied root) events true)
        (cls.toObjectClass.handledAll (.new cls.toObjectClass.toAggregateClass streamId) events
          true) ↔
      events ≠ [] ∧ cls.fold root.state.visible events = cls.fold cls.initial events := by
  unfold SameState
  simp only [ThrowingClass.handledAll_state, visible_fold, ObjectClass.copied,
    Domain.visible_create, AggregateRoot.new, visible_initial]
  by_cases hNil : events = []
  · -- The copy has kept the time of the last event.
    subst hNil
    exact iff_of_false (fun hSame => hTime hSame.2) (fun hSome => hSome.1 rfl)
  · rw [handledAll_updatedAt hNil, handledAll_updatedAt hNil]
    simp only [and_true, ne_eq, hNil, not_false_eq_true, true_and]

/-- The copy is in the state of a new aggregate with the earlier events exactly
when there are earlier events, and they make the same of the current fields as
of the initial ones. -/
theorem sameState_iff {streamId : String} {root : AggregateRoot (Domain Value) Data}
    {applied : List (IEvent Data)}
    (hApplied : cls.toObjectClass.Applied
      (.new cls.toObjectClass.toAggregateClass streamId) applied root)
    (hDistinct : (root.eventHistory.map (·.uuid)).Nodup) {i : Nat} {event : IEvent Data}
    (hEvent : root.eventHistory[i]? = some event) :
    ∃ root' copy fresh,
      (∀ fuel, root.eventHistory.length ≤ fuel →
        cls.toObjectClass.getAggregatePriorTo fuel root event = some (root', .ok copy)) ∧
      cls.toObjectClass.applyAll true (.new cls.toObjectClass.toAggregateClass streamId)
        (root.eventHistory.take i) = (fresh, none) ∧
      (SameState copy fresh ↔ 0 < i ∧
        cls.fold root.state.visible (root.eventHistory.take i) =
          cls.fold cls.initial (root.eventHistory.take i)) := by
  obtain ⟨hLt, rfl⟩ := List.getElem?_eq_some_iff.mp hEvent
  have hHandlers : ∀ event ∈ root.eventHistory.take i,
      (cls.applyHandler event.name).isSome = true :=
    fun event hMem => handlers_of_applied hApplied rfl event (List.mem_of_mem_take hMem)
  have hFresh := ThrowingClass.applyAll_of_takesAll
    (.new cls.toObjectClass.toAggregateClass streamId) (takesAll_of_handlers hHandlers _)
  refine ⟨_, _, _, fun fuel hFuel => getAggregatePriorTo_entry hDistinct hLt hHandlers hFuel,
    hFresh, ?_⟩
  have hTime : root.updatedAt ≠ none := by
    refine updatedAt_of_applied hApplied (Or.inl ?_)
    rintro rfl
    rw [hApplied.spec.2.2.1] at hLt
    exact absurd hLt (Nat.not_lt_zero i)
  have hTake : root.eventHistory.take i ≠ [] ↔ 0 < i := by
    rw [Ne, List.take_eq_nil_iff, not_or, Nat.pos_iff_ne_zero]
    refine and_iff_left ?_
    intro hNil
    simp [hNil] at hLt
  rw [sameState_handledAll_iff hTime, hTake]

/-! ### Counting greetings in a field -/

/-- `greetings` counts the greetings, `last` has the id of the latest one. -/
def countingHello : FieldClass String Unit where
  name := "CountingAggregate"
  initial := fun _ => none
  truthy := fun _ => true
  applyHandler
    | "HelloSaidEvent" => some fun fields event name =>
        match name, fields "greetings" with
        | "greetings", some (.primitive greetings) => some (.primitive (greetings ++ "I"))
        | "greetings", _ => some (.primitive "I")
        | "last", _ => some (.primitive event.uuid)
        | _, _ => none
    | _ => none

/-- A new aggregate that two greetings were applied to. -/
def twoGreetings : AggregateRoot (Domain String) Unit :=
  countingHello.toObjectClass.handledAll
    (.new countingHello.toObjectClass.toAggregateClass "hello-1")
    [greeting "e1" "tx", greeting "e2" "tx"] false

theorem applied_twoGreetings : countingHello.toObjectClass.Applied
    (.new countingHello.toObjectClass.toAggregateClass "hello-1")
    [greeting "e1" "tx", greeting "e2" "tx"] twoGreetings :=
  .cons false rfl (.cons false rfl (.nil _))

theorem sameState_iff_twoGreetings :
    ∃ root' copy fresh,
      (∀ fuel, 2 ≤ fuel → countingHello.toObjectClass.getAggregatePriorTo fuel twoGreetings
        (greeting "e2" "tx") = some (root', .ok copy)) ∧
      countingHello.toObjectClass.applyAll true
        (.new countingHello.toObjectClass.toAggregateClass "hello-1") [greeting "e1" "tx"] =
          (fresh, none) ∧
      (SameState copy fresh ↔ 0 < 1 ∧
        countingHello.fold twoGreetings.state.visible [greeting "e1" "tx"] =
          countingHello.fold countingHello.initial [greeting "e1" "tx"]) :=
  sameState_iff applied_twoGreetings (by decide) (i := 1) rfl

/-- The copy counts the first greeting three times: it starts with both. -/
theorem copy_counts_again :
    (twoGreetings.eventHistory.map (·.uuid)).Nodup ∧
    twoGreetings.eventHistory[1]? = some (greeting "e2" "tx") ∧
    ∃ root' copy, countingHello.toObjectClass.getAggregatePriorTo 2 twoGreetings
        (greeting "e2" "tx") = some (root', .ok copy) ∧
      ¬SameState copy (countingHello.toObjectClass.handledAll
        (.new countingHello.toObjectClass.toAggregateClass "hello-1")
        [greeting "e1" "tx"] true) := by
  refine ⟨by decide, rfl, _, _, rfl, fun hSame => ?_⟩
  have hGreetings := congrFun hSame.1 "greetings"
  revert hGreetings
  decide

end

end FieldClass

end Moirae
