import Moirae.Core.TransactionChain

/-! Request metadata along a transaction: from an event to the commands that
sagas answer it with, and from these to the events committed with them. -/
namespace Moirae

/-- `metadata[key]`, where metadata may be missing. -/
def metadataValue (metadata : Option IRequestMetadata) (key : String) : Option String :=
  metadata.bind (·.get key)

theorem linkEvent_metadata {Data : Type} (command : ICommand Data) (event : IEvent Data) :
    (AggregateRoot.linkEvent (some command) event).metadata =
      match command.metadata with
      | none => event.metadata
      | some metadata =>
          some (metadata.entries.foldl (fun merged entry => merged.set entry.1 entry.2)
            (event.metadata.getD .empty)) := by
  unfold AggregateRoot.linkEvent
  simp only [Option.bind_some]
  cases command.metadata with
  | none =>
      dsimp only
      split <;> rfl
  | some metadata => rfl

/-- A committed event has the metadata of the command over its own. -/
theorem metadataValue_linkEvent {Data : Type} (command : ICommand Data) (event : IEvent Data)
    (key : String) :
    metadataValue (AggregateRoot.linkEvent (some command) event).metadata key =
      (metadataValue command.metadata key).or (metadataValue event.metadata key) := by
  rw [linkEvent_metadata]
  cases command.metadata with
  | none => rfl
  | some metadata =>
      have hBase : (event.metadata.getD .empty).get key = metadataValue event.metadata key := by
        cases event.metadata <;> rfl
      have hMerged := KeyedMap.get_foldl_set (event.metadata.getD .empty) metadata.distinct key
      exact hMerged.trans (congrArg _ hBase)

/-- The metadata of the event are in the result under all their keys, and with
their values, unless one of the messages sets the key itself. -/
def KeepsMetadata {Data : Type} (event : IEvent Data) (own : List (Option IRequestMetadata))
    (result : Option IRequestMetadata) : Prop :=
  ∀ entry ∈ (event.metadata.getD .empty).entries,
    metadataValue result entry.1 ≠ none ∧
      ((∀ metadata ∈ own, metadataValue metadata entry.1 = none) →
        metadataValue result entry.1 = some entry.2)

namespace TransactionChain

open Transactions (Issue linked)

variable {Data : Type} {sagas : List (Saga Data)} {storage : ConstructorStorage}
  {constructors : RollbackConstructors Data}

/-- The command sets every key of the event itself. -/
def SetsAllKeys (issue : Issue Data) : Prop :=
  ∀ entry ∈ (issue.event.metadata.getD .empty).entries,
    metadataValue issue.returned.metadata entry.1 ≠ none

instance (issue : Issue Data) : Decidable (SetsAllKeys issue) :=
  inferInstanceAs (Decidable (∀ entry ∈ (issue.event.metadata.getD .empty).entries,
    metadataValue issue.returned.metadata entry.1 ≠ none))

/-- The event bus passes on the id only. -/
theorem command_metadata (issue : Issue Data) :
    issue.command.metadata = issue.returned.metadata := by
  unfold Issue.command linked
  split <;> rfl

theorem keepsMetadata_command_iff (issue : Issue Data) :
    KeepsMetadata issue.event [issue.returned.metadata] issue.command.metadata ↔
      SetsAllKeys issue := by
  rw [command_metadata]
  refine forall₂_congr fun entry _ => ⟨And.left, fun hSet => ⟨hSet, fun hNone => ?_⟩⟩
  exact absurd (hNone _ (List.mem_singleton_self _)) hSet

/-- What the command sets is in the events committed with it. -/
theorem keepsMetadata_committed {issue : Issue Data} (h : SetsAllKeys issue)
    {commit : Commit Data} (hCommand : commit.command = issue.command) :
    KeepsMetadata issue.event [issue.returned.metadata, commit.event.metadata]
      commit.committed.metadata := by
  intro entry hEntry
  have hSet := h entry hEntry
  obtain ⟨value, hValue⟩ := Option.ne_none_iff_exists'.mp hSet
  have hCommitted : metadataValue commit.committed.metadata entry.1 = some value := by
    rw [Commit.committed, metadataValue_linkEvent, hCommand, command_metadata, hValue]
    rfl
  refine ⟨hCommitted ▸ Option.some_ne_none value, fun hNone => ?_⟩
  exact absurd (hNone _ List.mem_cons_self) hSet

namespace World

/-- For every command that a saga issued for an event: the command keeps the
metadata of the event, and so do the events committed with it. -/
def MetadataKept (w : World Data) : Prop :=
  ∀ issue ∈ w.issues,
    KeepsMetadata issue.event [issue.returned.metadata] issue.command.metadata ∧
      ∀ commit ∈ w.commits, commit.command = issue.command →
        KeepsMetadata issue.event [issue.returned.metadata, commit.event.metadata]
          commit.committed.metadata

/-- The sagas put the metadata of the event into their commands themselves. -/
def SagasSetAllKeys (w : World Data) : Action Data → Prop
  | .work action => ∀ issue ∈ w.busses.issuing action, SetsAllKeys issue
  | _ => True

theorem metadataKept_iff (w : World Data) :
    w.MetadataKept ↔ ∀ issue ∈ w.issues, SetsAllKeys issue := by
  refine forall₂_congr fun issue _ => ?_
  rw [keepsMetadata_command_iff]
  exact and_iff_left_of_imp fun hSet commit _ hCommand => keepsMetadata_committed hSet hCommand

theorem metadataKept_step_iff {w t : World Data} {action : Action Data} (h : w.MetadataKept)
    (hStep : step sagas storage constructors w action = some t) :
    t.MetadataKept ↔ w.SagasSetAllKeys action := by
  rw [metadataKept_iff] at h ⊢
  cases action with
  | deliverCommand place | deliverEvent place =>
      obtain ⟨_, -, rfl⟩ := Option.map_eq_some_iff.mp hStep
      exact iff_of_true h trivial
  | commit place events =>
      obtain ⟨command, -, rfl⟩ := commit_spec hStep
      exact iff_of_true h trivial
  | work action =>
      obtain ⟨-, -, -, hIssues, -, -⟩ := work_spec hStep
      rw [hIssues, List.forall_mem_append]
      exact and_iff_right h
  | share key value =>
      obtain rfl := Option.some.inj hStep
      exact iff_of_true h trivial

/-- In every run that starts with `execute`, the metadata of events are kept
exactly if the sagas copy them: the event bus does not merge them. -/
theorem metadataKept_iff_sagasSetAllKeys (sagas : List (Saga Data))
    (storage : ConstructorStorage) (constructors : RollbackConstructors Data)
    (fresh : RandomUUID) (cache : MemoryCache) (isLocal : Bool) (command : ICommand Data)
    (actions : List (Action Data)) :
    Runs.Always (step sagas storage constructors) MetadataKept
        (execute fresh cache isLocal command) actions ↔
      Runs.StepsMeet (step sagas storage constructors) SagasSetAllKeys
        (execute fresh cache isLocal command) actions :=
  Runs.always_iff_stepsMeet (fun _ => True) (fun _ => True) (fun _ _ _ _ _ _ => trivial)
    (fun _ _ _ _ _ h hStep => metadataKept_step_iff h hStep) trivial
    (List.forall_mem_nil _) (fun _ _ => trivial)

section

open SagaManager

/-- A greeting with the locale of the request. -/
def localGreeting : IEvent Unit :=
  { helloSaidEvent none "hello-1" with metadata := some (.set .empty "locale" "en") }

/-- The saga answers the greeting with a command without metadata. -/
theorem locale_lost :
    ¬ Runs.Always (step [helloWorldSaga] helloStorage helloConstructors) MetadataKept sayHello
      (greetingAnswered localGreeting) := by
  intro hAlways
  obtain ⟨w, hRun, issue, hIssue, hLost⟩ : ∃ w,
      Runs.exec (step [helloWorldSaga] helloStorage helloConstructors) sayHello
        (greetingAnswered localGreeting) = some w ∧
      ∃ issue ∈ w.issues, ¬ SetsAllKeys issue :=
    ⟨_, rfl, _, List.mem_cons_self, by decide⟩
  exact hLost ((metadataKept_iff w).mp (hAlways.last hRun) issue hIssue)

end

end World

end TransactionChain

end Moirae
