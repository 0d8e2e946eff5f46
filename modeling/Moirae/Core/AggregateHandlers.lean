import Moirae.Core.AggregateRoot

/-! Aggregates with handlers that may throw, in the middle of a change too, and
how the factory populates them. -/
namespace Moirae

/-- An aggregate class whose handlers may throw. What the `Apply` handlers give
is then the state at that point. -/
structure ThrowingClass (State Data : Type) extends AggregateClass State Data where
  applyThrows : String → State → IEvent Data → Option Thrown
  rollbackThrows : String → State → IEvent Data → Option Thrown

/-- A class whose handlers never throw. -/
def AggregateClass.throwing {State Data : Type} (cls : AggregateClass State Data) :
    ThrowingClass State Data :=
  { cls with applyThrows := fun _ _ _ => none, rollbackThrows := fun _ _ _ => none }

namespace ThrowingClass

open AggregateRoot (filed)

variable {State Data : Type} (cls : ThrowingClass State Data)

def apply (root : AggregateRoot State Data) (event : IEvent Data) (fromHistory : Bool) :
    AggregateRoot State Data × Option Thrown :=
  if cls.deleted root.state && !fromHistory then
    (root, some (AggregateRoot.aggregateDeletedError cls.toAggregateClass root))
  else
    match cls.applyHandler event.name with
    | none => (root, some (AggregateRoot.unhandledEventError cls.toAggregateClass event))
    | some handler => match cls.applyThrows event.name root.state event with
      | some reason => ({ root with state := handler root.state event }, some reason)
      | none => (root.handled handler event fromHistory, none)

/-- Apply events one after the other, up to the first that throws. -/
def applyAll (fromHistory : Bool) (root : AggregateRoot State Data) :
    List (IEvent Data) → AggregateRoot State Data × Option Thrown
  | [] => (root, none)
  | event :: events => match cls.apply root event fromHistory with
    | (root', some reason) => (root', some reason)
    | (root', none) => applyAll fromHistory root' events

/-- `mergeContext`, once `readFromStream` has resolved with the events. -/
def mergeContext (streamId : String) (events : List (IEvent Data)) :
    Except Thrown (AggregateRoot State Data) :=
  match cls.applyAll true (.new cls.toAggregateClass streamId) events with
  | (_, some reason) => .error reason
  | (aggregate, none) => .ok { aggregate with commitFn := true }

/-- Calls of `apply`, by someone who catches what they throw. Next to the
aggregate stand the events that were applied, as they are kept. -/
def applyEach (root : AggregateRoot State Data) :
    List (IEvent Data) → AggregateRoot State Data × List (IEvent Data)
  | [] => (root, [])
  | event :: events => match cls.apply root event false with
    | (root', some _) => applyEach root' events
    | (root', none) =>
        ((applyEach root' events).1, filed root.streamId event :: (applyEach root' events).2)

/-- What the handler of an event makes of a state. -/
def handle (state : State) (event : IEvent Data) : State :=
  match cls.applyHandler event.name with
  | none => state
  | some handler => handler state event

/-- The fold of events over a state. -/
def fold (state : State) (events : List (IEvent Data)) : State :=
  events.foldl cls.handle state

/-- The event has a handler, which does not throw in this state. -/
def Accepts (state : State) (event : IEvent Data) : Prop :=
  (cls.applyHandler event.name).isSome = true ∧ cls.applyThrows event.name state event = none

/-- An aggregate in this state accepts the event and is not deleted, unless it
is being populated. -/
def Takes (fromHistory : Bool) (state : State) (event : IEvent Data) : Prop :=
  (cls.deleted state = true → fromHistory = true) ∧ cls.Accepts state event

/-- Each of the events is taken, in the state that those before it lead to. -/
def TakesAll (fromHistory : Bool) : State → List (IEvent Data) → Prop
  | _, [] => True
  | state, event :: events =>
      cls.Takes fromHistory state event ∧ TakesAll fromHistory (cls.handle state event) events

section Decidable

variable (fromHistory : Bool)

instance Accepts.decidable (state : State) (event : IEvent Data) :
    Decidable (cls.Accepts state event) :=
  inferInstanceAs (Decidable (_ ∧ _))

instance Takes.decidable (state : State) (event : IEvent Data) :
    Decidable (cls.Takes fromHistory state event) :=
  inferInstanceAs (Decidable ((_ → _) ∧ cls.Accepts state event))

instance TakesAll.decidable :
    ∀ (state : State) (events : List (IEvent Data)),
      Decidable (cls.TakesAll fromHistory state events)
  | _, [] => instDecidableTrue
  | state, event :: events =>
      have := TakesAll.decidable (cls.handle state event) events
      inferInstanceAs (Decidable (cls.Takes fromHistory state event ∧ _))

end Decidable

/-- The aggregate once the handlers of all the events ran. -/
def handledAll (root : AggregateRoot State Data) (events : List (IEvent Data))
    (fromHistory : Bool) : AggregateRoot State Data :=
  events.foldl (fun root event => root.handled cls.handle event fromHistory) root

section

variable {cls}

theorem handle_of_handler {event : IEvent Data} {handler : State → IEvent Data → State}
    (h : cls.applyHandler event.name = some handler) (state : State) :
    cls.handle state event = handler state event := by
  rw [handle, h]

/-- The class that never throws behaves like the one it was made from. -/
theorem apply_throwing (pure : AggregateClass State Data) (root : AggregateRoot State Data)
    (event : IEvent Data) (fromHistory : Bool) :
    pure.throwing.apply root event fromHistory =
      match AggregateRoot.apply pure root event fromHistory with
      | .error reason => (root, some reason)
      | .ok root' => (root', none) := by
  unfold apply AggregateRoot.apply
  change (if pure.deleted root.state && !fromHistory then _ else _) = _
  split
  · rfl
  · change (match pure.applyHandler event.name with | none => _ | some handler => _) = _
    cases pure.applyHandler event.name with
    | none => rfl
    | some handler => rfl

/-- An event that is taken is applied. -/
theorem apply_of_takes {root : AggregateRoot State Data} {event : IEvent Data}
    {fromHistory : Bool} (h : cls.Takes fromHistory root.state event) :
    cls.apply root event fromHistory = (root.handled cls.handle event fromHistory, none) := by
  obtain ⟨hLive, hHandler, hThrows⟩ := h
  obtain ⟨handler, hHandler⟩ := Option.isSome_iff_exists.mp hHandler
  have hAllowed : ¬(cls.deleted root.state && !fromHistory) = true := by
    cases hDeleted : cls.deleted root.state with
    | false => simp
    | true => simp [hLive hDeleted]
  rw [apply, if_neg hAllowed, hHandler]
  dsimp only
  rw [hThrows]
  simp [AggregateRoot.handled, handle_of_handler hHandler]

/-- What refusing an event does: an aggregate that is deleted or has no handler
stays the same, a handler that throws leaves its state behind. -/
theorem apply_of_refuses {root : AggregateRoot State Data} {event : IEvent Data}
    {fromHistory : Bool} (h : ¬cls.Takes fromHistory root.state event) :
    ∃ reason, cls.apply root event fromHistory =
      ({ root with
          state :=
            if cls.deleted root.state = true ∧ fromHistory = false then root.state
            else cls.handle root.state event }, some reason) := by
  unfold apply
  by_cases hDeleted : (cls.deleted root.state && !fromHistory) = true
  · have hBoth : cls.deleted root.state = true ∧ fromHistory = false := by simpa using hDeleted
    rw [if_pos hDeleted, if_pos hBoth]
    exact ⟨_, rfl⟩
  · have hNot : ¬(cls.deleted root.state = true ∧ fromHistory = false) := by simpa using hDeleted
    rw [if_neg hDeleted, if_neg hNot]
    cases hHandler : cls.applyHandler event.name with
    | none =>
        rw [handle, hHandler]
        exact ⟨_, rfl⟩
    | some handler =>
        rw [handle, hHandler]
        dsimp only
        cases hThrows : cls.applyThrows event.name root.state event with
        | some reason => exact ⟨reason, rfl⟩
        | none =>
            refine absurd ⟨fun hTrue => ?_, by rw [hHandler]; rfl, hThrows⟩ h
            simpa [hTrue] using hNot

/-- Exactly the events that are taken are applied. -/
theorem apply_eq_none_iff {root root' : AggregateRoot State Data} {event : IEvent Data}
    {fromHistory : Bool} :
    cls.apply root event fromHistory = (root', none) ↔
      cls.Takes fromHistory root.state event ∧
        root' = root.handled cls.handle event fromHistory := by
  constructor
  · intro h
    by_cases hTakes : cls.Takes fromHistory root.state event
    · rw [apply_of_takes hTakes] at h
      exact ⟨hTakes, (Prod.mk.inj h).1.symm⟩
    · obtain ⟨reason, hRefused⟩ := apply_of_refuses hTakes
      rw [hRefused] at h
      simp at h
  · rintro ⟨hTakes, rfl⟩
    exact apply_of_takes hTakes

/-- Whatever a throwing `apply` does, it only does to the state. -/
theorem apply_eq_of_throws {root root' : AggregateRoot State Data} {event : IEvent Data}
    {fromHistory : Bool} {reason : Thrown}
    (h : cls.apply root event fromHistory = (root', some reason)) :
    root' = { root with state := root'.state } := by
  have hRefuses : ¬cls.Takes fromHistory root.state event := by
    intro hTakes
    rw [apply_of_takes hTakes] at h
    simp at h
  obtain ⟨reason', hRefused⟩ := apply_of_refuses hRefuses
  rw [hRefused] at h
  obtain ⟨rfl, -⟩ := Prod.mk.inj h
  rfl

/-! ### Many events -/

@[simp] theorem fold_nil (state : State) : cls.fold state [] = state := rfl

@[simp] theorem fold_cons (state : State) (event : IEvent Data) (events : List (IEvent Data)) :
    cls.fold state (event :: events) = cls.fold (cls.handle state event) events := rfl

theorem fold_append (state : State) (before after : List (IEvent Data)) :
    cls.fold state (before ++ after) = cls.fold (cls.fold state before) after :=
  List.foldl_append

@[simp] theorem handledAll_cons (root : AggregateRoot State Data) (event : IEvent Data)
    (events : List (IEvent Data)) (fromHistory : Bool) :
    cls.handledAll root (event :: events) fromHistory =
      cls.handledAll (root.handled cls.handle event fromHistory) events fromHistory := rfl

@[simp] theorem handledAll_state (root : AggregateRoot State Data) (events : List (IEvent Data))
    (fromHistory : Bool) :
    (cls.handledAll root events fromHistory).state = cls.fold root.state events := by
  induction events generalizing root with
  | nil => rfl
  | cons event events ih =>
      rw [handledAll_cons, ih]
      rfl

@[simp] theorem handledAll_streamId (root : AggregateRoot State Data)
    (events : List (IEvent Data)) (fromHistory : Bool) :
    (cls.handledAll root events fromHistory).streamId = root.streamId := by
  induction events generalizing root with
  | nil => rfl
  | cons event events ih =>
      rw [handledAll_cons, ih]
      rfl

@[simp] theorem handledAll_eventHistory (root : AggregateRoot State Data)
    (events : List (IEvent Data)) (fromHistory : Bool) :
    (cls.handledAll root events fromHistory).eventHistory =
      root.eventHistory ++ events.map (filed root.streamId) := by
  induction events generalizing root with
  | nil => simp [handledAll]
  | cons event events ih =>
      rw [handledAll_cons, ih]
      simp [AggregateRoot.handled]

@[simp] theorem handledAll_lastCommittedIndex (root : AggregateRoot State Data)
    (events : List (IEvent Data)) :
    (cls.handledAll root events false).lastCommittedIndex = root.lastCommittedIndex := by
  induction events generalizing root with
  | nil => rfl
  | cons event events ih =>
      rw [handledAll_cons, ih]
      rfl

/-- Events that are all taken are all applied. -/
theorem applyAll_of_takesAll (root : AggregateRoot State Data) {events : List (IEvent Data)}
    {fromHistory : Bool} (h : cls.TakesAll fromHistory root.state events) :
    cls.applyAll fromHistory root events = (cls.handledAll root events fromHistory, none) := by
  induction events generalizing root with
  | nil => rfl
  | cons event events ih =>
      obtain ⟨hTakes, hRest⟩ := h
      rw [applyAll, apply_of_takes hTakes]
      exact ih _ hRest

/-- Events that are not all taken have a first one that is refused. -/
theorem exists_refused {fromHistory : Bool} {state : State} {events : List (IEvent Data)}
    (h : ¬cls.TakesAll fromHistory state events) :
    ∃ before event after, events = before ++ event :: after ∧
      cls.TakesAll fromHistory state before ∧
      ¬cls.Takes fromHistory (cls.fold state before) event := by
  induction events generalizing state with
  | nil => exact absurd trivial h
  | cons event events ih =>
      by_cases hTakes : cls.Takes fromHistory state event
      · have hRest : ¬cls.TakesAll fromHistory (cls.handle state event) events :=
          fun hAll => h ⟨hTakes, hAll⟩
        obtain ⟨before, refused, after, rfl, hBefore, hRefused⟩ := ih hRest
        exact ⟨event :: before, refused, after, rfl, ⟨hTakes, hBefore⟩, hRefused⟩
      · exact ⟨[], event, events, rfl, trivial, hTakes⟩

/-- Applying events stops at the first that is refused. Those before it stay
applied. -/
theorem applyAll_of_refuses {root : AggregateRoot State Data} {fromHistory : Bool}
    {before after : List (IEvent Data)} {event : IEvent Data}
    (hBefore : cls.TakesAll fromHistory root.state before)
    (hRefused : ¬cls.Takes fromHistory (cls.fold root.state before) event) :
    ∃ reason, cls.applyAll fromHistory root (before ++ event :: after) =
      ((cls.apply (cls.handledAll root before fromHistory) event fromHistory).1,
        some reason) := by
  induction before generalizing root with
  | nil =>
      have hFirst : ¬cls.Takes fromHistory root.state event := hRefused
      obtain ⟨reason, hApply⟩ := apply_of_refuses hFirst
      refine ⟨reason, ?_⟩
      change cls.applyAll fromHistory root (event :: after) =
        ((cls.apply root event fromHistory).1, some reason)
      rw [applyAll, hApply]
  | cons first before ih =>
      obtain ⟨hTakes, hRest⟩ := hBefore
      rw [List.cons_append, applyAll, apply_of_takes hTakes]
      exact ih hRest hRefused

/-- Whatever was applied before one event failed stays in the history. -/
theorem applyAll_eventHistory (fromHistory : Bool) (root : AggregateRoot State Data)
    (events : List (IEvent Data)) :
    root.eventHistory <+: (cls.applyAll fromHistory root events).1.eventHistory := by
  induction events generalizing root with
  | nil => exact List.prefix_refl _
  | cons event events ih =>
      rw [applyAll]
      rcases hApply : cls.apply root event fromHistory with ⟨next, _ | reason⟩
      · obtain ⟨-, rfl⟩ := apply_eq_none_iff.mp hApply
        have hFirst : root.eventHistory <+:
            (root.handled cls.handle event fromHistory).eventHistory := List.prefix_append _ _
        exact hFirst.trans (ih _)
      · have hHistory := congrArg AggregateRoot.eventHistory (apply_eq_of_throws hApply)
        exact ⟨[], (List.append_nil _).trans hHistory.symm⟩

/-- The events were applied to the first aggregate, each as a new one or from
the history, and led to the second. -/
inductive Applied (cls : ThrowingClass State Data) :
    AggregateRoot State Data → List (IEvent Data) → AggregateRoot State Data → Prop
  | nil (root : AggregateRoot State Data) : Applied cls root [] root
  | cons {root next last : AggregateRoot State Data} {event : IEvent Data}
      {events : List (IEvent Data)} (fromHistory : Bool)
      (first : cls.apply root event fromHistory = (next, none))
      (rest : Applied cls next events last) : Applied cls root (event :: events) last

theorem Applied.spec {root last : AggregateRoot State Data} {events : List (IEvent Data)}
    (h : cls.Applied root events last) :
    last.state = cls.fold root.state events ∧ last.streamId = root.streamId ∧
      last.eventHistory = root.eventHistory ++ events.map (filed root.streamId) ∧
      cls.TakesAll true root.state events := by
  induction h with
  | nil root => simp [TakesAll]
  | cons fromHistory first rest ih =>
      obtain ⟨⟨-, hAccepts⟩, rfl⟩ := apply_eq_none_iff.mp first
      obtain ⟨hState, hStream, hHistory, hTakes⟩ := ih
      refine ⟨hState, hStream, ?_, ⟨fun _ => rfl, hAccepts⟩, hTakes⟩
      rw [hHistory]
      simp [AggregateRoot.handled]

end

end ThrowingClass

end Moirae
