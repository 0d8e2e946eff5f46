import Mathlib.Data.List.Induction
import Moirae.Collections.Traversal
import Moirae.Core.AggregateHandlers

/-! Rolling a transaction back: when that is all or nothing, and what the
rollback events restore when each is the inverse of its event. -/
namespace Moirae

namespace ThrowingClass

open AggregateRoot (filed)

variable {State Data : Type} (cls : ThrowingClass State Data)

/-- The rollback event for an event of the transaction. -/
def rollbackEvent (root : AggregateRoot State Data) (correlationId : Option String)
    (event : IEvent Data) : Except Thrown (IEvent Data) :=
  match cls.rollbackHandler event.name with
  | none => .error (AggregateRoot.unhandledEventError cls.toAggregateClass event)
  | some handler => match cls.rollbackThrows event.name root.state event with
    | some reason => .error reason
    | none => .ok { handler root.state event with correlationId }

/-- All rollback events of the transaction, latest first. -/
def rollbackEvents (root : AggregateRoot State Data) (correlationId : Option String) :
    Except Thrown (List (IEvent Data)) :=
  (root.transaction correlationId).mapM (cls.rollbackEvent root correlationId)

/-- All rollback events are made before the first one is applied. The result is
how many there are. -/
def rollback (root : AggregateRoot State Data) (correlationId : Option String) :
    AggregateRoot State Data × Except Thrown Nat :=
  match cls.rollbackEvents root correlationId with
  | .error reason => (root, .error reason)
  | .ok compensating => match cls.applyAll false root compensating with
    | (root', some reason) => (root', .error reason)
    | (root', none) => (root', .ok compensating.length)

/-- One rollback event is appended for each event of the transaction, or the
call throws and nothing has changed. -/
def AllOrNothing (root : AggregateRoot State Data) (correlationId : Option String) : Prop :=
  ((cls.rollback root correlationId).2 =
      .ok (root.eventHistory.filter (·.correlationId = correlationId)).length ∧
    ∃ compensating, cls.rollbackEvents root correlationId = .ok compensating ∧
      (cls.rollback root correlationId).1.eventHistory =
        root.eventHistory ++ compensating.map (filed root.streamId)) ∨
  ((∃ reason, (cls.rollback root correlationId).2 = .error reason) ∧
    (cls.rollback root correlationId).1.state = root.state ∧
    (cls.rollback root correlationId).1.eventHistory = root.eventHistory ∧
    (cls.rollback root correlationId).1.uncommittedEventHistory = root.uncommittedEventHistory)

/-- When all the rollback events can be made, the aggregate takes each of them
after the others, or refuses the very first one without a change. -/
def Unbroken (root : AggregateRoot State Data) (correlationId : Option String) : Prop :=
  ∀ compensating, cls.rollbackEvents root correlationId = .ok compensating →
    cls.TakesAll false root.state compensating ∨
      ∃ first rest, compensating = first :: rest ∧ ¬cls.Takes false root.state first ∧
        (cls.deleted root.state = true ∨ cls.handle root.state first = root.state)

section

variable {cls}

/-- A class that never throws rolls back like the one it was made from. -/
theorem rollback_throwing (pure : AggregateClass State Data) (root : AggregateRoot State Data)
    (correlationId : Option String) :
    pure.throwing.rollback root correlationId =
      AggregateRoot.rollback pure root correlationId := by
  have hAll : ∀ (root : AggregateRoot State Data) (events : List (IEvent Data)),
      pure.throwing.applyAll false root events = AggregateRoot.applyAll pure root events := by
    intro root events
    induction events generalizing root with
    | nil => rfl
    | cons event events ih =>
        rw [applyAll, AggregateRoot.applyAll, apply_throwing]
        cases AggregateRoot.apply pure root event false with
        | error reason => rfl
        | ok root' => exact ih root'
  unfold rollback AggregateRoot.rollback
  simp only [hAll]
  rfl

theorem rollbackEvents_length {root : AggregateRoot State Data} {correlationId : Option String}
    {compensating : List (IEvent Data)}
    (h : cls.rollbackEvents root correlationId = .ok compensating) :
    compensating.length =
      (root.eventHistory.filter (·.correlationId = correlationId)).length := by
  have hLength := congrArg List.length (Traversal.mapM_eq_ok_iff.mp h)
  rw [List.length_map, List.length_map, AggregateRoot.transaction, List.length_reverse] at hLength
  exact hLength.symm

theorem rollback_of_takesAll {root : AggregateRoot State Data} {correlationId : Option String}
    {compensating : List (IEvent Data)}
    (hMade : cls.rollbackEvents root correlationId = .ok compensating)
    (h : cls.TakesAll false root.state compensating) :
    cls.rollback root correlationId =
      (cls.handledAll root compensating false, .ok compensating.length) := by
  rw [rollback, hMade]
  dsimp only
  rw [applyAll_of_takesAll root h]

/-- What is applied before the first refusal stays applied. -/
theorem rollback_of_refuses {root : AggregateRoot State Data} {correlationId : Option String}
    {before after : List (IEvent Data)} {event : IEvent Data}
    (hMade : cls.rollbackEvents root correlationId = .ok (before ++ event :: after))
    (hBefore : cls.TakesAll false root.state before)
    (hRefused : ¬cls.Takes false (cls.fold root.state before) event) :
    ∃ reason, cls.rollback root correlationId =
      ({ cls.handledAll root before false with
          state :=
            if cls.deleted (cls.fold root.state before) = true then cls.fold root.state before
            else cls.handle (cls.fold root.state before) event }, .error reason) := by
  obtain ⟨reason, hAll⟩ : ∃ reason, cls.applyAll false root (before ++ event :: after) =
      ((cls.apply (cls.handledAll root before false) event false).1, some reason) :=
    applyAll_of_refuses hBefore hRefused
  have hRefuses : ¬cls.Takes false (cls.handledAll root before false).state event := by
    rw [handledAll_state]
    exact hRefused
  obtain ⟨reason', hApply⟩ := apply_of_refuses hRefuses
  refine ⟨reason, ?_⟩
  rw [rollback, hMade]
  dsimp only
  rw [hAll, hApply]
  simp

/-- The condition on the rollback events that were made. -/
theorem unbroken_iff {root : AggregateRoot State Data} {correlationId : Option String}
    {compensating : List (IEvent Data)}
    (hMade : cls.rollbackEvents root correlationId = .ok compensating) :
    cls.Unbroken root correlationId ↔ cls.TakesAll false root.state compensating ∨
      ∃ first rest, compensating = first :: rest ∧ ¬cls.Takes false root.state first ∧
        (cls.deleted root.state = true ∨ cls.handle root.state first = root.state) := by
  unfold Unbroken
  rw [hMade]
  exact ⟨fun h => h compensating rfl, fun h other hOther => Except.ok.inj hOther ▸ h⟩

/-- Nothing is applied before the first event, so only a handler of it that threw
can have changed something. -/
theorem allOrNothing_iff_of_refuses_first {root : AggregateRoot State Data}
    {correlationId : Option String} {first : IEvent Data} {rest : List (IEvent Data)}
    (hMade : cls.rollbackEvents root correlationId = .ok (first :: rest))
    (hRefused : ¬cls.Takes false root.state first) :
    cls.AllOrNothing root correlationId ↔
      cls.deleted root.state = true ∨ cls.handle root.state first = root.state := by
  have hFirst : cls.rollbackEvents root correlationId = .ok ([] ++ first :: rest) := hMade
  have hNone : cls.TakesAll false root.state [] := trivial
  obtain ⟨reason, hRollback⟩ : ∃ reason, cls.rollback root correlationId =
      ({ root with
          state :=
            if cls.deleted root.state = true then root.state
            else cls.handle root.state first }, .error reason) :=
    rollback_of_refuses hFirst hNone hRefused
  have hState : (if cls.deleted root.state = true then root.state
      else cls.handle root.state first) = root.state ↔
      cls.deleted root.state = true ∨ cls.handle root.state first = root.state := by
    by_cases hDeleted : cls.deleted root.state = true <;> simp [hDeleted]
  rw [AllOrNothing, hRollback]
  constructor
  · rintro (⟨hOk, -⟩ | ⟨-, hSame, -⟩)
    · cases hOk
    · exact hState.mp hSame
  · intro hSame
    exact Or.inr ⟨⟨reason, rfl⟩, hState.mpr hSame, rfl, rfl⟩

/-- A refusal after the first event leaves some of the rollback applied. -/
theorem not_allOrNothing_of_refuses_later {root : AggregateRoot State Data}
    {correlationId : Option String} {first event : IEvent Data} {before after : List (IEvent Data)}
    (hMade : cls.rollbackEvents root correlationId = .ok (first :: before ++ event :: after))
    (hBefore : cls.TakesAll false root.state (first :: before))
    (hRefused : ¬cls.Takes false (cls.fold root.state (first :: before)) event) :
    ¬cls.AllOrNothing root correlationId := by
  obtain ⟨reason, hRollback⟩ := rollback_of_refuses hMade hBefore hRefused
  rw [AllOrNothing, hRollback]
  rintro (⟨hOk, -⟩ | ⟨-, -, hHistory, -⟩)
  · cases hOk
  · have hLength := congrArg List.length hHistory
    simp [AggregateRoot.handled] at hLength

/-- A rollback is all or nothing unless it breaks off half way. -/
theorem allOrNothing_iff_unbroken (root : AggregateRoot State Data)
    (correlationId : Option String) :
    cls.AllOrNothing root correlationId ↔ cls.Unbroken root correlationId := by
  cases hMade : cls.rollbackEvents root correlationId with
  | error reason =>
      have hResult : cls.rollback root correlationId = (root, .error reason) := by
        rw [rollback, hMade]
      refine iff_of_true (Or.inr ?_) ?_
      · rw [hResult]
        exact ⟨⟨reason, rfl⟩, rfl, rfl, rfl⟩
      · intro compensating hOk
        rw [hMade] at hOk
        cases hOk
  | ok compensating =>
      rw [unbroken_iff hMade]
      by_cases hAll : cls.TakesAll false root.state compensating
      · refine iff_of_true (Or.inl ?_) (Or.inl hAll)
        rw [rollback_of_takesAll hMade hAll, rollbackEvents_length hMade]
        exact ⟨rfl, compensating, hMade, handledAll_eventHistory ..⟩
      · obtain ⟨before, event, after, rfl, hBefore, hRefused⟩ := exists_refused hAll
        cases before with
        | nil =>
            rw [allOrNothing_iff_of_refuses_first hMade hRefused]
            constructor
            · intro hSame
              exact Or.inr ⟨event, after, rfl, hRefused, hSame⟩
            · rintro (hTakesAll | ⟨first, rest, hFirst, -, hSame⟩)
              · exact absurd hTakesAll hAll
              · obtain ⟨rfl, -⟩ := List.cons_eq_cons.mp hFirst
                exact hSame
        | cons first before =>
            refine iff_of_false (not_allOrNothing_of_refuses_later hMade hBefore hRefused) ?_
            rintro (hTakesAll | ⟨other, rest, hFirst, hOther, -⟩)
            · exact hAll hTakesAll
            · obtain ⟨rfl, -⟩ := List.cons_eq_cons.mp hFirst
              exact hOther hBefore.1

/-- The aggregate that counts greetings, with a second way to greet. Taking that
one back makes an event that nothing handles. -/
def wavingHello : ThrowingClass Nat Unit :=
  AggregateClass.throwing
    { helloAggregate with
      applyHandler := fun name =>
        if name = "WavedEvent" then some fun greetings _ => greetings + 1
        else helloAggregate.applyHandler name
      rollbackHandler := fun name =>
        if name = "WavedEvent" then some fun _ event =>
          ⟨none, (), none, "WaveTakenBackEvent", "", 0, event.uuid ++ "-rollback"⟩
        else helloAggregate.rollbackHandler name }

/-- A wave and a greeting, of which only the greeting is taken back. -/
theorem rollback_half_done :
    ¬wavingHello.AllOrNothing
      (wavingHello.handledAll (.new wavingHello.toAggregateClass "hello-1")
        [{ greeting "e1" "tx" with name := "WavedEvent" }, greeting "e2" "tx"] false)
      (some "tx") := by
  rintro (⟨hOk, -⟩ | ⟨-, hState, -⟩)
  · cases hOk
  · cases hState

/-! ### Rollback events that are inverses -/

/-- What rolling an event back applies: the event that `undo` makes of it, as
part of the same transaction. -/
def compensation (undo : IEvent Data → IEvent Data) (event : IEvent Data) : IEvent Data :=
  { undo event with correlationId := event.correlationId }

/-- The `Rollback` handler for the event is a function of the event alone, and
applying the event and then its rollback event restores the state, whichever it
is. The handler gets the event as it is kept. -/
structure Inverse (cls : ThrowingClass State Data) (undo : IEvent Data → IEvent Data)
    (streamId : String) (event : IEvent Data) : Prop where
  pure : ∃ handler, cls.rollbackHandler event.name = some handler ∧ ∀ state,
    cls.rollbackThrows event.name state (filed streamId event) = none ∧
      handler state (filed streamId event) = undo (filed streamId event)
  accepts_undo : ∀ state,
    cls.Accepts (cls.handle state event) (compensation undo (filed streamId event))
  restores : ∀ state,
    cls.handle (cls.handle state event) (compensation undo (filed streamId event)) = state

/-- The compensations in the reverse order take the state back. The induction
is on the events from the last one, which is compensated first. -/
theorem takesAll_compensations {undo : IEvent Data → IEvent Data} {streamId : String}
    {state : State} {events : List (IEvent Data)}
    (hInverse : ∀ event ∈ events, cls.Inverse undo streamId event)
    (hLive : ∀ done, done <+: events → cls.deleted (cls.fold state done) = false) :
    cls.TakesAll false (cls.fold state events)
        (events.reverse.map fun event => compensation undo (filed streamId event)) ∧
      cls.fold (cls.fold state events)
        (events.reverse.map fun event => compensation undo (filed streamId event)) = state := by
  induction events using List.reverseRecOn with
  | nil => exact ⟨trivial, rfl⟩
  | append_singleton events event ih =>
      have hEvent := hInverse event (by simp)
      have hRest := ih (fun other hOther => hInverse other (List.mem_append_left _ hOther))
        (fun done hDone => hLive done (hDone.trans (List.prefix_append _ _)))
      have hLast := hLive _ (List.prefix_refl _)
      rw [fold_append] at hLast ⊢
      rw [List.reverse_append, List.reverse_singleton, List.singleton_append, List.map_cons,
        fold_cons, TakesAll]
      change cls.deleted (cls.handle (cls.fold state events) event) = false at hLast
      change (cls.Takes false (cls.handle (cls.fold state events) event) _ ∧ _) ∧ _
      rw [fold_cons, fold_nil, hEvent.restores]
      refine ⟨⟨⟨fun hDeleted => ?_, hEvent.accepts_undo _⟩, hRest.1⟩, hRest.2⟩
      rw [hLast] at hDeleted
      cases hDeleted

theorem rollbackEvents_of_inverse {undo : IEvent Data → IEvent Data}
    {root : AggregateRoot State Data} {correlationId : Option String}
    {before events : List (IEvent Data)} {streamId : String}
    (hHistory : root.eventHistory = before ++ events.map (filed streamId))
    (hBefore : ∀ event ∈ before, event.correlationId ≠ correlationId)
    (hEvents : ∀ event ∈ events, event.correlationId = correlationId)
    (hInverse : ∀ event ∈ events, cls.Inverse undo streamId event) :
    cls.rollbackEvents root correlationId =
      .ok (events.reverse.map fun event => compensation undo (filed streamId event)) := by
  have hTransaction : root.transaction correlationId = events.reverse.map (filed streamId) := by
    have hNone : before.filter (·.correlationId = correlationId) = [] := by
      simpa using hBefore
    have hAll : (events.map (filed streamId)).filter (·.correlationId = correlationId) =
        events.map (filed streamId) := by
      simpa using hEvents
    rw [AggregateRoot.transaction, hHistory, List.filter_append, hNone, hAll, List.nil_append,
      List.map_reverse]
  rw [rollbackEvents, hTransaction, Traversal.mapM_eq_ok_iff, List.map_map, List.map_map]
  apply List.map_congr_left
  intro event hMem
  rw [List.mem_reverse] at hMem
  obtain ⟨handler, hHandler, hPure⟩ := (hInverse event hMem).pure
  have hName : (filed streamId event).name = event.name := AggregateRoot.filed_name ..
  change cls.rollbackEvent root correlationId (filed streamId event) = .ok _
  rw [rollbackEvent, hName, hHandler]
  dsimp only
  rw [(hPure root.state).1]
  simp [compensation, (hPure root.state).2, hEvents event hMem]

/-- When the last events are those of the transaction and have inverses, rolling
it back restores the state from before them, and appends their rollback events
in the reverse order. -/
theorem rollback_restores {undo : IEvent Data → IEvent Data} {correlationId : String}
    {root₀ root : AggregateRoot State Data} {events : List (IEvent Data)}
    (hApplied : cls.Applied root₀ events root)
    (hBefore : ∀ event ∈ root₀.eventHistory, event.correlationId ≠ some correlationId)
    (hEvents : ∀ event ∈ events, event.correlationId = some correlationId)
    (hInverse : ∀ event ∈ events, cls.Inverse undo root₀.streamId event)
    (hLive : ∀ done, done <+: events → cls.deleted (cls.fold root₀.state done) = false) :
    ∃ root' appended, cls.rollback root (some correlationId) = (root', .ok events.length) ∧
      root'.state = root₀.state ∧ root'.eventHistory = root.eventHistory ++ appended ∧
      appended = (events.reverse.map fun event =>
        filed root₀.streamId (compensation undo (filed root₀.streamId event))) ∧
      ∀ event ∈ appended, event.correlationId = some correlationId := by
  obtain ⟨hState, hStream, hHistory, -⟩ := hApplied.spec
  have hMade := rollbackEvents_of_inverse hHistory hBefore hEvents hInverse
  obtain ⟨hTakes, hRestored⟩ := takesAll_compensations hInverse hLive
  rw [← hState] at hTakes hRestored
  have hResult := rollback_of_takesAll hMade hTakes
  rw [List.length_map, List.length_reverse] at hResult
  refine ⟨_, _, hResult, ?_, handledAll_eventHistory .., ?_, ?_⟩
  · rw [handledAll_state, hRestored]
  · rw [hStream, List.map_map]
    rfl
  · intro event hMem
    obtain ⟨made, hMade, rfl⟩ := List.mem_map.mp hMem
    obtain ⟨original, hOriginal, rfl⟩ := List.mem_map.mp hMade
    rw [AggregateRoot.filed_correlationId, compensation, AggregateRoot.filed_correlationId]
    exact hEvents original (List.mem_reverse.mp hOriginal)

/-- What the `Rollback` handler of `helloAggregate` makes of a greeting. -/
def takeBack (event : IEvent Unit) : IEvent Unit :=
  ⟨none, (), none, "HelloTakenBackEvent", "", 0, event.uuid ++ "-rollback"⟩

theorem inverse_hello {event : IEvent Unit} (h : event.name = "HelloSaidEvent") :
    helloAggregate.throwing.Inverse takeBack "hello-1" event := by
  have hHandle : ∀ state, helloAggregate.throwing.handle state event = state + 1 := by
    intro state
    rw [handle, h]
    rfl
  refine ⟨⟨_, by rw [h]; rfl, fun _ => ⟨rfl, rfl⟩⟩, fun state => ⟨rfl, rfl⟩, fun state => ?_⟩
  rw [hHandle]
  rfl

/-- Two greetings of one transaction, taken back. -/
theorem rollback_restores_hello :
    let events := [greeting "e1" "tx", greeting "e2" "tx"]
    let root := helloAggregate.throwing.handledAll (.new helloAggregate "hello-1") events false
    ∃ root' appended, helloAggregate.throwing.rollback root (some "tx") = (root', .ok 2) ∧
      root'.state = 0 ∧ root'.eventHistory = root.eventHistory ++ appended ∧
      appended = (events.reverse.map fun event =>
        filed "hello-1" (compensation takeBack (filed "hello-1" event))) ∧
      ∀ event ∈ appended, event.correlationId = some "tx" := by
  intro events root
  have hApplied : helloAggregate.throwing.Applied (.new helloAggregate "hello-1") events root :=
    .cons false rfl (.cons false rfl (.nil _))
  have hNames : ∀ event ∈ events,
      event.correlationId = some "tx" ∧ event.name = "HelloSaidEvent" := by
    simp [events, greeting]
  exact rollback_restores hApplied (List.forall_mem_nil _) (fun event hMem => (hNames event hMem).1)
    (fun event hMem => inverse_hello (hNames event hMem).2) (fun _ _ => rfl)

end

end ThrowingClass

end Moirae
