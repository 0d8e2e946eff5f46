import Moirae.Core.MemoryStore
import Moirae.Runs.Execution

/-! An aggregate at work on its stream: events are applied and committed, in any
order. Committing does not move the index of the last committed event. -/
namespace Moirae.AggregateCommit

variable {State Data : Type}

/-- The aggregate, the store, and what has happened so far: the uuids of the
events applied, in order, and whether the last action was a successful commit. -/
structure World (State Data : Type) where
  root : AggregateRoot State Data
  store : MemoryStore Data
  applied : List String
  committed : Bool

inductive Action (Data : Type)
  | apply (event : IEvent Data)
  | commit (initiatorCommand : Option (ICommand Data))

/-- `commit` assigns to the uncommitted events themselves. The uuid tells which
of the events held anywhere are these objects. -/
def touch (initiatorCommand : Option (ICommand Data)) (uuids : List String)
    (event : IEvent Data) : IEvent Data :=
  if event.uuid ∈ uuids then AggregateRoot.linkEvent initiatorCommand event else event

theorem touch_streamId (initiatorCommand : Option (ICommand Data)) (uuids : List String)
    (event : IEvent Data) : (touch initiatorCommand uuids event).streamId = event.streamId := by
  unfold touch
  split
  · exact AggregateRoot.linkEvent_streamId initiatorCommand event
  · rfl

namespace World

variable (cls : AggregateClass State Data)

/-- The aggregate was just obtained from the store. -/
def initial (store : MemoryStore Data) (root : AggregateRoot State Data) : World State Data :=
  { root, store, applied := [], committed := false }

/-- The world after the events were assigned to and appended. -/
def afterCommit (w : World State Data) (initiatorCommand : Option (ICommand Data))
    (events : List (IEvent Data)) : World State Data :=
  let uuids := w.root.uncommittedEventHistory.map (·.uuid)
  { w with
    root := { w.root with
      eventHistory := w.root.eventHistory.map (touch initiatorCommand uuids) }
    store := (w.store.assign (touch initiatorCommand uuids)
      (touch_streamId initiatorCommand uuids)).appendToStream events
    committed := true }

def step (w : World State Data) : Action Data → Option (World State Data)
  | .apply event => match w.root.apply cls event false with
    | .error _ => some { w with committed := false }
    | .ok root =>
        some { w with root, applied := w.applied ++ [event.uuid], committed := false }
  | .commit initiatorCommand => match w.root.commit cls initiatorCommand with
    | .error _ => some { w with committed := false }
    | .ok events => some (w.afterCommit initiatorCommand events)

/-- After a successful commit, the stream is what it was at first followed by
every event applied, once and in order; nothing is uncommitted; and populating
the aggregate anew gives its state. -/
def Stored (initialStore : MemoryStore Data) (w : World State Data) : Prop :=
  w.committed = true →
    (w.store.readFromStream w.root.streamId).map (·.uuid) =
      (initialStore.readFromStream w.root.streamId).map (·.uuid) ++ w.applied ∧
    w.root.uncommittedEventHistory = [] ∧
    ∃ fresh, AggregateFactory.mergeContext cls w.store w.root.streamId = .ok fresh ∧
      fresh.state = w.root.state

/-- Commits come before any event is applied. -/
def NothingApplied (w : World State Data) : Action Data → Prop
  | .apply _ => True
  | .commit _ => w.applied = []

/-- The invariant: the index stays where populating the aggregate left it, and
nothing else changes either before the first event is applied. -/
structure Indexed (initialStore : MemoryStore Data) (initialRoot : AggregateRoot State Data)
    (w : World State Data) : Prop where
  commitFn : w.root.commitFn = true
  start : w.root.uncommittedStart = initialRoot.eventHistory.length
  length : w.root.eventHistory.length = initialRoot.eventHistory.length + w.applied.length
  untouched : w.applied = [] → w.root = initialRoot ∧ w.store = initialStore

section

variable {cls} {initialStore : MemoryStore Data} {initialRoot : AggregateRoot State Data}

theorem indexed_initial {streamId : String}
    (hMerge : AggregateFactory.mergeContext cls initialStore streamId = .ok initialRoot) :
    (initial initialStore initialRoot).Indexed initialStore initialRoot := by
  obtain ⟨-, hCommit, hStart⟩ := AggregateFactory.mergeContext_spec hMerge
  exact ⟨hCommit, hStart, rfl, fun _ => ⟨rfl, rfl⟩⟩

/-- With the index in its place, all that was applied counts as uncommitted. -/
theorem Indexed.uncommitted_eq_nil_iff {w : World State Data}
    (h : w.Indexed initialStore initialRoot) :
    w.root.uncommittedEventHistory = [] ↔ w.applied = [] := by
  rw [AggregateRoot.uncommittedEventHistory_eq, List.drop_eq_nil_iff, h.start, h.length,
    ← List.length_eq_zero_iff]
  omega

theorem step_commit {w : World State Data} (h : w.Indexed initialStore initialRoot)
    (initiatorCommand : Option (ICommand Data)) :
    step cls w (.commit initiatorCommand) = some (w.afterCommit initiatorCommand
      (w.root.uncommittedEventHistory.map (AggregateRoot.linkEvent initiatorCommand))) := by
  simp only [step, AggregateRoot.commit, h.commitFn, if_true]

/-- A commit with nothing applied writes nothing. -/
theorem Indexed.afterCommit_of_nil {w : World State Data}
    (h : w.Indexed initialStore initialRoot) (hNone : w.applied = [])
    (initiatorCommand : Option (ICommand Data)) :
    w.afterCommit initiatorCommand
        (w.root.uncommittedEventHistory.map (AggregateRoot.linkEvent initiatorCommand)) =
      { w with committed := true } := by
  have hEmpty := h.uncommitted_eq_nil_iff.mpr hNone
  have hTouch : ∀ event : IEvent Data, touch initiatorCommand [] event = event := fun _ =>
    if_neg List.not_mem_nil
  obtain ⟨root, store, applied, committed⟩ := w
  dsimp only at hEmpty
  simp only [afterCommit, hEmpty, List.map_nil, MemoryStore.assign_id _ hTouch,
    MemoryStore.appendToStream, List.foldl_nil]
  have hHistory : root.eventHistory.map (touch initiatorCommand []) = root.eventHistory := by
    rw [funext hTouch]
    exact List.map_id _
  rw [hHistory]

theorem step_indexed {w w' : World State Data} {action : Action Data}
    (hInv : w.Indexed initialStore initialRoot) (h : step cls w action = some w') :
    w'.Indexed initialStore initialRoot := by
  cases action with
  | apply event =>
      cases hApply : w.root.apply cls event false with
      | error reason =>
          simp only [step, hApply, Option.some.injEq] at h
          rw [← h]
          exact ⟨hInv.commitFn, hInv.start, hInv.length, hInv.untouched⟩
      | ok root =>
          simp only [step, hApply, Option.some.injEq] at h
          rw [← h]
          obtain ⟨-, handler, -, rfl⟩ := AggregateRoot.apply_eq_ok_iff.mp hApply
          refine ⟨hInv.commitFn, hInv.start, ?_, fun hNone => ?_⟩
          · have hLength := hInv.length
            simp only [AggregateRoot.handled, List.length_append, List.length_singleton, hLength,
              Nat.add_assoc]
          · exact absurd hNone (List.append_ne_nil_of_right_ne_nil _ (List.cons_ne_nil _ _))
  | commit initiatorCommand =>
      rw [step_commit hInv, Option.some.injEq] at h
      by_cases hNone : w.applied = []
      · rw [hInv.afterCommit_of_nil hNone] at h
        rw [← h]
        exact ⟨hInv.commitFn, hInv.start, hInv.length, hInv.untouched⟩
      · rw [← h]
        refine ⟨hInv.commitFn, hInv.start, ?_, fun hNil => absurd hNil hNone⟩
        exact (List.length_map _).trans hInv.length

/-- A commit leaves everything stored exactly when nothing was applied. -/
theorem step_stored_iff {streamId : String}
    (hMerge : AggregateFactory.mergeContext cls initialStore streamId = .ok initialRoot)
    {w w' : World State Data} {action : Action Data}
    (hInv : w.Indexed initialStore initialRoot) (h : step cls w action = some w') :
    w'.Stored cls initialStore ↔ w.NothingApplied action := by
  cases action with
  | apply event =>
      refine iff_of_true (fun hCommitted => ?_) trivial
      cases hApply : w.root.apply cls event false <;>
        simp only [step, hApply, Option.some.injEq] at h <;>
        rw [← h] at hCommitted <;>
        exact absurd hCommitted Bool.false_ne_true
  | commit initiatorCommand =>
      have hNext := step_indexed hInv h
      rw [step_commit hInv, Option.some.injEq] at h
      constructor
      · intro hStored
        have hCommitted : w'.committed = true := by rw [← h]; rfl
        have hNil := hNext.uncommitted_eq_nil_iff.mp (hStored hCommitted).2.1
        rw [← h] at hNil
        exact hNil
      · intro hNone _
        rw [hInv.afterCommit_of_nil hNone] at h
        obtain ⟨hRoot, hStore⟩ := hInv.untouched hNone
        rw [← h]
        dsimp only
        refine ⟨?_, hInv.uncommitted_eq_nil_iff.mpr hNone, initialRoot, ?_, ?_⟩
        · rw [hStore, hNone, List.append_nil]
        · rw [hStore, hRoot, (AggregateFactory.mergeContext_spec hMerge).1]
          exact hMerge
        · rw [hRoot]

/-- Along every run of one aggregate, commits leave the stream, the list of
uncommitted events and a new aggregate as they should be if and only if no
commit comes after an event was applied: the index of the last committed event
is never moved, so each commit hands over all events applied so far again. -/
theorem stored_iff_nothingApplied (streamId : String)
    (hMerge : AggregateFactory.mergeContext cls initialStore streamId = .ok initialRoot)
    (as : List (Action Data)) :
    Runs.Always (step cls) (Stored cls initialStore) (initial initialStore initialRoot) as ↔
      Runs.StepsMeet (step cls) NothingApplied (initial initialStore initialRoot) as :=
  Runs.always_iff_stepsMeet (Indexed initialStore initialRoot) (fun _ => True)
    (fun _ _ _ _ hInv hStep => step_indexed hInv hStep)
    (fun _ _ _ _ hInv _ hStep => step_stored_iff hMerge hInv hStep)
    (indexed_initial hMerge) (fun hCommitted => absurd hCommitted Bool.false_ne_true)
    (fun _ _ => trivial)

end

/-- A stream with one event, and a run that commits first. -/
theorem stored_iff_nothingApplied_hello :
    ∃ root, AggregateFactory.mergeContext helloAggregate
        (MemoryStore.bootstrapped.push (greeting "e1" "tx")) "hello-1" = .ok root ∧
      (Runs.Always (step helloAggregate)
          (Stored helloAggregate (MemoryStore.bootstrapped.push (greeting "e1" "tx")))
          (initial (MemoryStore.bootstrapped.push (greeting "e1" "tx")) root)
          [.commit none, .apply (greeting "e2" "tx")] ↔
        Runs.StepsMeet (step helloAggregate) NothingApplied
          (initial (MemoryStore.bootstrapped.push (greeting "e1" "tx")) root)
          [.commit none, .apply (greeting "e2" "tx")]) :=
  ⟨_, rfl, stored_iff_nothingApplied "hello-1" rfl _⟩

/-- With two commits the first event is stored twice, and both events still
count as uncommitted. -/
theorem commit_stores_again :
    ∃ root w, AggregateFactory.mergeContext helloAggregate .bootstrapped "hello-1" = .ok root ∧
      Runs.exec (step helloAggregate) (initial .bootstrapped root)
        [.apply (greeting "e1" "tx"), .commit none, .apply (greeting "e2" "tx"),
          .commit none] = some w ∧
      (w.store.readFromStream "hello-1").map (·.uuid) = ["e1", "e1", "e2"] ∧
      w.root.uncommittedEventHistory.map (·.uuid) = ["e1", "e2"] ∧
      ¬Runs.Always (step helloAggregate) (Stored helloAggregate .bootstrapped)
        (initial .bootstrapped root)
        [.apply (greeting "e1" "tx"), .commit none, .apply (greeting "e2" "tx"),
          .commit none] := by
  refine ⟨_, _, rfl, rfl, by decide, by decide, fun hAlways => ?_⟩
  have hUncommitted := (hAlways.last rfl rfl).2.1
  revert hUncommitted
  decide

end World

end Moirae.AggregateCommit
