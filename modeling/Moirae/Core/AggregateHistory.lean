import Moirae.Core.AggregateHandlers
import Moirae.Core.MemoryStore

/-! The history of an aggregate that was populated from a stream, and which
part of it is uncommitted, whatever the calls of `apply` after that do. -/
namespace Moirae

namespace ThrowingClass

open AggregateRoot (filed)

variable {State Data : Type} {cls : ThrowingClass State Data}

/-- Populating an aggregate counts everything as committed. -/
theorem handledAll_uncommittedStart {root : AggregateRoot State Data}
    (h : root.uncommittedStart = root.eventHistory.length) (events : List (IEvent Data)) :
    (cls.handledAll root events true).uncommittedStart =
      (cls.handledAll root events true).eventHistory.length := by
  induction events generalizing root with
  | nil => exact h
  | cons event events ih =>
      apply ih
      simp [AggregateRoot.handled, AggregateRoot.uncommittedStart]

/-- An event of the stream is kept as it is. -/
theorem filed_of_stored {streamId : String} {event : IEvent Data}
    (h : event.streamId = streamId) : filed streamId event = event := by
  subst h
  unfold filed
  split <;> rfl

theorem map_filed_of_stored {streamId : String} {events : List (IEvent Data)}
    (h : ∀ event ∈ events, event.streamId = streamId) :
    events.map (filed streamId) = events := by
  induction events with
  | nil => rfl
  | cons event events ih =>
      obtain ⟨hFirst, hRest⟩ := List.forall_mem_cons.mp h
      rw [List.map_cons, filed_of_stored hFirst, ih hRest]

/-- Events that never make a handler throw are applied as in a replay. -/
theorem applyAll_replays (pure : AggregateClass State Data) (root : AggregateRoot State Data)
    (events : List (IEvent Data)) :
    (∃ last, pure.throwing.applyAll true root events = (last, none) ∧
      AggregateFactory.replay pure root events = .ok last) ∨
    ∃ last reason, pure.throwing.applyAll true root events = (last, some reason) ∧
      AggregateFactory.replay pure root events = .error reason := by
  induction events generalizing root with
  | nil => exact Or.inl ⟨root, rfl, rfl⟩
  | cons event events ih =>
      rw [applyAll, apply_throwing, AggregateFactory.replay, List.foldlM_cons]
      cases AggregateRoot.apply pure root event true with
      | error reason => exact Or.inr ⟨root, reason, rfl, rfl⟩
      | ok root' => exact ih root'

/-- Populating from the store in memory, with handlers that never throw, is the
same thing. -/
theorem mergeContext_throwing (pure : AggregateClass State Data) (store : MemoryStore Data)
    (streamId : String) :
    pure.throwing.mergeContext streamId (store.readFromStream streamId) =
      AggregateFactory.mergeContext pure store streamId := by
  have hClass : pure.throwing.toAggregateClass = pure := rfl
  rw [mergeContext, AggregateFactory.mergeContext, hClass]
  obtain ⟨last, hAll, hReplay⟩ | ⟨last, reason, hAll, hReplay⟩ :=
    applyAll_replays pure (.new pure streamId) (store.readFromStream streamId)
  · rw [hAll, hReplay]
  · rw [hAll, hReplay]

theorem mergeContext_of_takesAll {streamId : String} {events : List (IEvent Data)}
    (h : cls.TakesAll true cls.initial events) :
    cls.mergeContext streamId events =
      .ok { cls.handledAll (.new cls.toAggregateClass streamId) events true with
        commitFn := true } := by
  have hApplied := applyAll_of_takesAll (.new cls.toAggregateClass streamId) h
  rw [mergeContext, hApplied]

/-- Calls of `apply` append to the history what they apply, and nothing else. -/
theorem applyEach_spec (root : AggregateRoot State Data) (calls : List (IEvent Data)) :
    (cls.applyEach root calls).1.eventHistory =
        root.eventHistory ++ (cls.applyEach root calls).2 ∧
      (cls.applyEach root calls).1.uncommittedStart = root.uncommittedStart := by
  induction calls generalizing root with
  | nil => simp [applyEach]
  | cons event calls ih =>
      rw [applyEach]
      rcases hApply : cls.apply root event false with ⟨root', _ | reason⟩
      · obtain ⟨hHistory, hStart⟩ := ih root'
        obtain ⟨-, rfl⟩ := apply_eq_none_iff.mp hApply
        refine ⟨?_, hStart⟩
        dsimp only
        rw [hHistory]
        simp [AggregateRoot.handled]
      · obtain ⟨hHistory, hStart⟩ := ih root'
        rw [apply_eq_of_throws hApply] at hHistory hStart ⊢
        exact ⟨hHistory, hStart⟩

/-- A throwing `apply` leaves the history and what is uncommitted of it alone. -/
theorem apply_frame {root root' : AggregateRoot State Data} {event : IEvent Data}
    {fromHistory : Bool} {reason : Thrown}
    (h : cls.apply root event fromHistory = (root', some reason)) :
    root'.eventHistory = root.eventHistory ∧
      root'.uncommittedEventHistory = root.uncommittedEventHistory ∧
      root'.updatedAt = root.updatedAt := by
  rw [apply_eq_of_throws h]
  exact ⟨rfl, rfl, rfl⟩

/-- After `mergeContext`, the history is the stored stream and what was applied
since, which is what is uncommitted. A call that throws changes none of it, and
while the aggregate is deleted every call throws. -/
theorem apply_after_mergeContext {streamId : String} {stored : List (IEvent Data)}
    (hStored : ∀ event ∈ stored, event.streamId = streamId)
    (hReplays : cls.TakesAll true cls.initial stored) :
    ∃ aggregate, cls.mergeContext streamId stored = .ok aggregate ∧
      aggregate.state = cls.fold cls.initial stored ∧
      ∀ calls root applied, cls.applyEach aggregate calls = (root, applied) →
        root.eventHistory = stored ++ applied ∧ root.uncommittedEventHistory = applied ∧
        ∀ event root' thrown, cls.apply root event false = (root', thrown) →
          (thrown ≠ none → root'.eventHistory = root.eventHistory ∧
            root'.uncommittedEventHistory = root.uncommittedEventHistory ∧
            root'.updatedAt = root.updatedAt) ∧
          (cls.deleted root.state = true → thrown ≠ none) := by
  refine ⟨_, mergeContext_of_takesAll hReplays, by simp [AggregateRoot.new], ?_⟩
  intro calls root applied hCalls
  have hStart :
      (cls.handledAll (.new cls.toAggregateClass streamId) stored true).uncommittedStart =
        (cls.handledAll (.new cls.toAggregateClass streamId) stored true).eventHistory.length :=
    handledAll_uncommittedStart rfl stored
  have hHistory : (cls.handledAll (.new cls.toAggregateClass streamId) stored true).eventHistory =
      stored := by
    rw [handledAll_eventHistory]
    exact map_filed_of_stored hStored
  obtain ⟨hRoot, hRootStart⟩ := applyEach_spec
    { cls.handledAll (.new cls.toAggregateClass streamId) stored true with commitFn := true } calls
  rw [hCalls] at hRoot hRootStart
  dsimp only at hRoot hRootStart
  rw [hHistory] at hRoot hStart
  have hUncommitted : root.uncommittedEventHistory = applied := by
    rw [AggregateRoot.uncommittedEventHistory_eq, hRoot, hRootStart]
    exact List.drop_left' hStart.symm
  refine ⟨hRoot, hUncommitted, fun event root' thrown hApply => ⟨fun hThrown => ?_, ?_⟩⟩
  · obtain ⟨reason, rfl⟩ := Option.ne_none_iff_exists'.mp hThrown
    exact apply_frame hApply
  · rintro hDeleted rfl
    obtain ⟨⟨hLive, -⟩, -⟩ := apply_eq_none_iff.mp hApply
    exact absurd (hLive hDeleted) Bool.false_ne_true

/-! ### Taking back a greeting that was never said -/

/-- The aggregate that counts greetings, which does not go below zero. -/
def strictHello : ThrowingClass Nat Unit :=
  { helloAggregate.throwing with
    applyThrows := fun name greetings _ =>
      if name = "HelloTakenBackEvent" ∧ greetings = 0 then
        some (.error "Error" "there is no greeting to take back")
      else none }

/-- Takes a greeting back, in the stream `hello-1`. -/
def takenBack (uuid : String) : IEvent Unit :=
  ⟨some "tx", (), none, "HelloTakenBackEvent", "hello-1", 0, uuid⟩

theorem apply_after_mergeContext_hello :
    ∃ aggregate, strictHello.mergeContext "hello-1" [greeting "e1" "tx"] = .ok aggregate ∧
      aggregate.state = strictHello.fold 0 [greeting "e1" "tx"] ∧
      ∀ calls root applied, strictHello.applyEach aggregate calls = (root, applied) →
        root.eventHistory = [greeting "e1" "tx"] ++ applied ∧
        root.uncommittedEventHistory = applied ∧
        ∀ event root' thrown, strictHello.apply root event false = (root', thrown) →
          (thrown ≠ none → root'.eventHistory = root.eventHistory ∧
            root'.uncommittedEventHistory = root.uncommittedEventHistory ∧
            root'.updatedAt = root.updatedAt) ∧
          (strictHello.deleted root.state = true → thrown ≠ none) :=
  strictHello.apply_after_mergeContext (by simp [greeting]) (by decide)

/-- A stored event may have a handler that throws when it is replayed, and then
there is no aggregate. -/
theorem mergeContext_throws :
    (∀ event ∈ [takenBack "e1"], event.streamId = "hello-1" ∧
      (strictHello.applyHandler event.name).isSome = true) ∧
    ¬∃ aggregate, strictHello.mergeContext "hello-1" [takenBack "e1"] = .ok aggregate := by
  refine ⟨by decide, ?_⟩
  rintro ⟨aggregate, h⟩
  cases h

end ThrowingClass

end Moirae
