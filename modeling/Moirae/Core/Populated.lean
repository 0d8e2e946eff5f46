import Moirae.Core.AggregateHistory

/-! Aggregates that were populated from a stream: what they are, and what they
commit after more events were applied to them. -/
namespace Moirae

namespace ThrowingClass

open AggregateRoot (filed linkEvent)

variable {State Data : Type} (cls : ThrowingClass State Data)

/-- The aggregate that `mergeContext` makes of these events of the stream. -/
structure Populated (streamId : String) (events : List (IEvent Data))
    (aggregate : AggregateRoot State Data) : Prop where
  streamId : aggregate.streamId = streamId
  history : aggregate.eventHistory = events
  state : aggregate.state = cls.fold cls.initial events
  commitFn : aggregate.commitFn = true
  start : aggregate.uncommittedStart = events.length

variable {cls} {streamId : String} {events : List (IEvent Data)}
  {aggregate : AggregateRoot State Data}

theorem mergeContext_populated (hStored : ∀ event ∈ events, event.streamId = streamId)
    (hReplays : cls.TakesAll true cls.initial events) :
    ∃ aggregate, cls.mergeContext streamId events = .ok aggregate ∧
      cls.Populated streamId events aggregate := by
  have hHistory : (cls.handledAll (.new cls.toAggregateClass streamId) events true).eventHistory =
      events := by
    rw [handledAll_eventHistory]
    exact map_filed_of_stored hStored
  refine ⟨_, mergeContext_of_takesAll hReplays, handledAll_streamId .., hHistory,
    handledAll_state .., rfl, ?_⟩
  have hStart : (cls.handledAll (.new cls.toAggregateClass streamId) events true).uncommittedStart =
      (cls.handledAll (.new cls.toAggregateClass streamId) events true).eventHistory.length :=
    handledAll_uncommittedStart rfl events
  rw [hHistory] at hStart
  exact hStart

/-- Events that were all applied were all taken. -/
theorem applyAll_eq_none {root root' : AggregateRoot State Data} {fromHistory : Bool}
    (h : cls.applyAll fromHistory root events = (root', none)) :
    cls.TakesAll fromHistory root.state events ∧
      root' = cls.handledAll root events fromHistory := by
  by_cases hTakes : cls.TakesAll fromHistory root.state events
  · rw [applyAll_of_takesAll root hTakes] at h
    exact ⟨hTakes, (Prod.mk.inj h).1.symm⟩
  · obtain ⟨before, event, after, rfl, hBefore, hRefused⟩ := exists_refused hTakes
    obtain ⟨reason, hAll⟩ : ∃ reason, cls.applyAll fromHistory root
        (before ++ event :: after) = (_, some reason) := applyAll_of_refuses hBefore hRefused
    rw [hAll] at h
    cases h

/-- Whatever `mergeContext` returns is populated, from events that are all
taken. -/
theorem populated_of_mergeContext (hStored : ∀ event ∈ events, event.streamId = streamId)
    (h : cls.mergeContext streamId events = .ok aggregate) :
    cls.Populated streamId events aggregate ∧ cls.TakesAll true cls.initial events := by
  have hReplays : cls.TakesAll true cls.initial events := by
    unfold mergeContext at h
    split at h
    · cases h
    · next hAll => exact (applyAll_eq_none hAll).1
  obtain ⟨other, hOther, hPopulated⟩ := mergeContext_populated hStored hReplays
  rw [h] at hOther
  exact ⟨Except.ok.inj hOther ▸ hPopulated, hReplays⟩

theorem takesAll_append_iff {fromHistory : Bool} {state : State}
    {before after : List (IEvent Data)} :
    cls.TakesAll fromHistory state (before ++ after) ↔
      cls.TakesAll fromHistory state before ∧
        cls.TakesAll fromHistory (cls.fold state before) after := by
  induction before generalizing state with
  | nil => simp [TakesAll]
  | cons event before ih =>
      rw [List.cons_append, TakesAll, TakesAll, ih, fold_cons, and_assoc]

@[simp] theorem handledAll_commitFn (root : AggregateRoot State Data)
    (events : List (IEvent Data)) (fromHistory : Bool) :
    (cls.handledAll root events fromHistory).commitFn = root.commitFn := by
  induction events generalizing root with
  | nil => rfl
  | cons event events ih =>
      rw [handledAll_cons, ih]
      rfl

/-- What is applied to a populated aggregate is what it commits. -/
theorem Populated.commit (h : cls.Populated streamId events aggregate)
    (applied : List (IEvent Data)) (initiatorCommand : Option (ICommand Data)) :
    AggregateRoot.commit cls.toAggregateClass (cls.handledAll aggregate applied false)
        initiatorCommand =
      .ok (applied.map fun event => linkEvent initiatorCommand (filed streamId event)) := by
  have hUncommitted : (cls.handledAll aggregate applied false).uncommittedEventHistory =
      applied.map (filed streamId) := by
    have hStart : (cls.handledAll aggregate applied false).uncommittedStart =
        aggregate.uncommittedStart := by
      unfold AggregateRoot.uncommittedStart
      rw [handledAll_lastCommittedIndex]
    rw [AggregateRoot.uncommittedEventHistory_eq, hStart, h.start, handledAll_eventHistory,
      h.history, h.streamId, List.drop_left]
  rw [AggregateRoot.commit, handledAll_commitFn, h.commitFn, if_pos rfl, hUncommitted,
    List.map_map]
  rfl

end ThrowingClass

end Moirae
