import Moirae.Core.TransactionLog

/-! What the busses owe a transaction when one of its handlers fails: that only
its own pairs are rolled back, and each of them at most once. For both, the exact
condition on the registrations and the failures. -/
namespace Moirae

/-- The command that rolls the pair back for this transaction. -/
def Registration.rollbackFor (r : Registration) (correlationId : String) : RollbackCommand :=
  ⟨r.command, some r.streamId, some correlationId⟩

namespace SagaManager

/-- The entry is read back as this pair: its first two pieces are the name that
the class is found under, and the stream id. -/
def StandsFor (storage : ConstructorStorage) (r : Registration) (text : String) : Prop :=
  match Separated.split ':' text with
  | name :: streamId :: _ => storage.get name = some r.command ∧ streamId = r.streamId
  | _ => False

instance (storage : ConstructorStorage) (r : Registration) (text : String) :
    Decidable (StandsFor storage r text) :=
  match hSplit : Separated.split ':' text with
  | [] => .isFalse (by simp [StandsFor, hSplit])
  | [_] => .isFalse (by simp [StandsFor, hSplit])
  | name :: streamId :: _ =>
      decidable_of_iff (storage.get name = some r.command ∧ streamId = r.streamId)
        (by simp [StandsFor, hSplit])

/-- What an entry stands for is the pair whose command is built from it. -/
theorem construct_eq_rollbackFor_iff {storage : ConstructorStorage}
    {correlationId : Option String} {text : String} {r : Registration} {id : String} :
    construct storage correlationId text = .ok (r.rollbackFor id) ↔
      correlationId = some id ∧ StandsFor storage r text := by
  cases hSplit : Separated.split ':' text with
  | nil => simp [construct, StandsFor, hSplit]
  | cons name rest =>
      cases rest with
      | nil =>
          cases hGet : storage.get name <;>
            simp [construct, StandsFor, hSplit, hGet, Registration.rollbackFor]
      | cons streamId rest =>
          cases hGet : storage.get name with
          | none => simp [construct, StandsFor, hSplit, hGet]
          | some commandClass =>
              simp only [construct, StandsFor, hSplit, hGet, List.head?_cons,
                Registration.rollbackFor, Except.ok.injEq, RollbackCommand.mk.injEq,
                Option.some.injEq]
              constructor
              · rintro ⟨hClass, hStream, hId⟩
                exact ⟨hId, hClass, hStream⟩
              · rintro ⟨hId, hClass, hStream⟩
                exact ⟨hClass, hStream, hId⟩

end SagaManager

namespace Transactions.World

variable {Data : Type} {sagas : List (Saga Data)} {storage : ConstructorStorage}

/-- What was published are the commands of the failures that got through, one
for each entry they read. -/
theorem Logged.mem_published {w : World Data} (h : w.Logged storage)
    {publication : Publication} :
    publication ∈ w.published ↔ publication.cause ∈ w.rollbacks ∧
      ∃ text ∈ (readEntries w.registrations publication.cause).values,
        SagaManager.construct storage publication.cause.correlationId text =
          .ok publication.command := by
  rw [h.published, List.mem_flatMap]
  constructor
  · rintro ⟨failure, hFailure, hMem⟩
    obtain ⟨rfl, hRead⟩ := (mem_publications (h.rollbacks_subset failure hFailure).2).mp hMem
    exact ⟨hFailure, hRead⟩
  · rintro ⟨hFailure, hRead⟩
    exact ⟨publication.cause, hFailure,
      (mem_publications (h.rollbacks_subset _ hFailure).2).mpr ⟨rfl, hRead⟩⟩

/-! ## Only the pairs of the same transaction -/

/-- A rollback command is published for a failing message only if the message
has an id and the pair was registered under that id. -/
def Isolated (w : World Data) : Prop :=
  ∀ publication ∈ w.published, ∃ correlationId,
    publication.cause.correlationId = some correlationId ∧
      ∃ r ∈ w.registrations, r.correlationId = some correlationId ∧
        publication.command = r.rollbackFor correlationId

/-- If this step publishes for a failure, its message has an id, and every entry
it read stands for a pair that was registered under this id. -/
def ReadsOwnPairs (storage : ConstructorStorage) (w : World Data) (action : Action Data) : Prop :=
  ∀ failure, w.rollingBack action = some failure → Readable storage w.registrations failure →
    ∀ text ∈ (readEntries w.registrations failure).values, ∃ correlationId,
      failure.correlationId = some correlationId ∧
        ∃ r ∈ w.registrations, r.correlationId = some correlationId ∧
          SagaManager.StandsFor storage r text

/-- What the step publishes is isolated exactly when it reads its own pairs. -/
theorem publishing_isolated_iff {w : World Data} {action : Action Data} :
    (∀ publication ∈ w.publishing storage action, ∃ correlationId,
      publication.cause.correlationId = some correlationId ∧
        ∃ r ∈ w.registrations, r.correlationId = some correlationId ∧
          publication.command = r.rollbackFor correlationId) ↔
      w.ReadsOwnPairs storage action := by
  cases hFailure : w.rollingBack action with
  | none => simp [publishing, ReadsOwnPairs, hFailure]
  | some failure =>
      simp only [publishing, ReadsOwnPairs, hFailure, Option.some.injEq]
      constructor
      · rintro hIsolated _ rfl hReadable text hText
        obtain ⟨command, hBuilt⟩ := hReadable text hText
        obtain ⟨correlationId, hId, r, hr, hSame, rfl⟩ :=
          hIsolated ⟨failure, command⟩ ((mem_publications hReadable).mpr ⟨rfl, text, hText, hBuilt⟩)
        exact ⟨correlationId, hId, r, hr, hSame,
          (SagaManager.construct_eq_rollbackFor_iff.mp hBuilt).2⟩
      · intro hOwn publication hMem
        have hReadable := readable_of_mem_publications hMem
        obtain ⟨rfl, text, hText, hBuilt⟩ := (mem_publications hReadable).mp hMem
        obtain ⟨correlationId, hId, r, hr, hSame, hStands⟩ := hOwn _ rfl hReadable text hText
        have hPair := SagaManager.construct_eq_rollbackFor_iff.mpr ⟨hId, hStands⟩
        exact ⟨correlationId, hId, r, hr, hSame, Except.ok.inj (hBuilt.symm.trans hPair)⟩

theorem step_isolated_iff {w w' : World Data} {action : Action Data} (hInv : w.Logged storage)
    (hIsolated : w.Isolated) (h : step sagas storage w action = some w') :
    w'.Isolated ↔ w.ReadsOwnPairs storage action := by
  rw [← publishing_isolated_iff, Isolated, hInv.published_of_step h, registrations_of_step h]
  rcases w.registering_or_rollingBack action with hNone | hNone
  · rw [hNone, List.append_nil]
    constructor
    · exact fun hAll publication hMem => hAll publication (List.mem_append_right _ hMem)
    · intro hNew publication hMem
      rcases List.mem_append.mp hMem with hOld | hNow
      · exact hIsolated publication hOld
      · exact hNew publication hNow
  · have hNothing : w.publishing storage action = [] := by rw [publishing, hNone]
    rw [hNothing, List.append_nil]
    refine iff_of_true (fun publication hMem => ?_) (List.forall_mem_nil _)
    obtain ⟨correlationId, hId, r, hr, hPair⟩ := hIsolated publication hMem
    exact ⟨correlationId, hId, r, List.mem_append_left _ hr, hPair⟩

/-- Along every run, the busses keep transactions apart exactly if every failure
that publishes has an id and reads only pairs of its own. A missing id and the
id `undefined` share a key, and a colon cuts the stream id. -/
theorem isolated_iff_readsOwnPairs (sagas : List (Saga Data)) (storage : ConstructorStorage)
    (as : List (Action Data)) :
    Runs.Always (step sagas storage) Isolated initial as ↔
      Runs.StepsMeet (step sagas storage) (ReadsOwnPairs storage) initial as :=
  Runs.always_iff_stepsMeet (Logged storage) (fun _ => True)
    (fun _ _ _ _ hInv hStep => step_logged hInv hStep)
    (fun _ _ _ _ hInv hIsolated hStep => step_isolated_iff hInv hIsolated hStep)
    logged_initial (List.forall_mem_nil _) (fun _ _ => trivial)

section

open SagaManager

def failed : Thrown := .error "Error" "failed"

/-- Both greetings carry no id. The second one fails, and takes back the first. -/
def unrelatedGreetings : List (Action Unit) :=
  [.execute (.event (helloSaidEvent none "hello-1")), .eventHandled 0 (.ok [.resolved]),
    .sagaStep 0 0, .publish 0, .execute (.event (helloSaidEvent none "hello-2")),
    .eventHandled 0 (.ok [.rejected failed]), .publish 0]

/-- The greeting that succeeded is taken back with the one that did not. -/
theorem unrelated_greeting_rolled_back :
    ¬Runs.Always (step [helloWorldSaga] helloStorage) Isolated initial unrelatedGreetings := by
  intro hAlways
  obtain ⟨w, hRun, hMem⟩ : ∃ w,
      Runs.exec (step [helloWorldSaga] helloStorage) initial unrelatedGreetings = some w ∧
        ⟨⟨none, 1, true⟩, ⟨noMoreHelloCommand, some "hello-1", none⟩⟩ ∈ w.published :=
    ⟨_, rfl, by decide⟩
  obtain ⟨correlationId, hId, -⟩ := hAlways.last hRun _ hMem
  cases hId

end

/-! ## Each pair at most once -/

/-- How often a rollback command was published. -/
def timesPublished (w : World Data) (command : RollbackCommand) : Nat :=
  (w.published.map Publication.command).count command

/-- Of the entries that a failure of the transaction read, how many stand for the
pair. -/
def entriesFor (storage : ConstructorStorage) (registrations : List Registration)
    (correlationId : String) (r : Registration) (failure : Failure) : Nat :=
  if failure.correlationId = some correlationId then
    (readEntries registrations failure).values.countP (SagaManager.StandsFor storage r)
  else 0

/-- Each registered pair has its rollback command published at most once. -/
def AtMostOnce (w : World Data) : Prop :=
  ∀ r ∈ w.registrations, ∀ correlationId, r.correlationId = some correlationId →
    w.timesPublished (r.rollbackFor correlationId) ≤ 1

/-- A failure of the transaction read an entry that stands for the pair. -/
def Reads (storage : ConstructorStorage) (w : World Data) (correlationId : String)
    (r : Registration) (failure : Failure) : Prop :=
  0 < entriesFor storage w.registrations correlationId r failure

/-- None of the failures rolled back so far read two entries for the pair, and
no two of them read one. -/
def ReadOnceSoFar (storage : ConstructorStorage) (w : World Data) (correlationId : String)
    (r : Registration) : Prop :=
  (∀ failure ∈ w.rollbacks, entriesFor storage w.registrations correlationId r failure ≤ 1) ∧
    w.rollbacks.Pairwise fun failure later =>
      ¬(w.Reads storage correlationId r failure ∧ w.Reads storage correlationId r later)

/-- If this step publishes for a failure, and it read an entry for a pair of its
transaction, this is the only one, and no failure rolled back before read one:
it is the first failure since the pair was registered. If the step registers a
pair, at most one failure took another pair for it. -/
def ReadsOnce (storage : ConstructorStorage) (w : World Data) (action : Action Data) : Prop :=
  (∀ failure, w.rollingBack action = some failure → Readable storage w.registrations failure →
    ∀ r ∈ w.registrations, ∀ correlationId, r.correlationId = some correlationId →
      w.Reads storage correlationId r failure →
        entriesFor storage w.registrations correlationId r failure = 1 ∧
          ∀ earlier ∈ w.rollbacks, ¬w.Reads storage correlationId r earlier) ∧
  ∀ r ∈ w.registering action, ∀ correlationId, r.correlationId = some correlationId →
    w.ReadOnceSoFar storage correlationId r

/-- Of all the entries that the failures rolled back so far have read. -/
def timesRead (storage : ConstructorStorage) (w : World Data) (correlationId : String)
    (r : Registration) : Nat :=
  (w.rollbacks.map (entriesFor storage w.registrations correlationId r)).sum

/-- A failure publishes a command as often as it read an entry that stands for
its pair. -/
theorem count_publications {registrations : List Registration} {failure : Failure}
    (hReadable : Readable storage registrations failure) (correlationId : String)
    (r : Registration) :
    ((publications storage registrations failure).map Publication.command).count
        (r.rollbackFor correlationId) =
      entriesFor storage registrations correlationId r failure := by
  obtain ⟨commands, hBuilt⟩ := readable_iff.mp hReadable
  have hCommands : (publications storage registrations failure).map Publication.command =
      commands := by
    rw [publications, hBuilt]
    simp only [List.map_map]
    exact List.map_id commands
  have hCount : commands.count (r.rollbackFor correlationId) =
      (commands.map Except.ok).countP fun result : Except Thrown RollbackCommand =>
        result = .ok (r.rollbackFor correlationId) := by
    rw [List.countP_map, List.count]
    refine List.countP_congr (fun command _ => ?_)
    simp
  rw [hCommands, hCount, ← Traversal.mapM_eq_ok_iff.mp hBuilt, List.countP_map, entriesFor]
  simp only [Function.comp_def, SagaManager.construct_eq_rollbackFor_iff]
  split
  · next hId => simp [hId]
  · next hId => simp [hId]

theorem Logged.timesPublished_eq {w : World Data} (h : w.Logged storage) (correlationId : String)
    (r : Registration) :
    w.timesPublished (r.rollbackFor correlationId) = w.timesRead storage correlationId r := by
  rw [timesPublished, timesRead, h.published, List.map_flatMap, List.count_flatMap]
  refine congrArg List.sum (List.map_congr_left (fun failure hFailure => ?_))
  exact count_publications (h.rollbacks_subset failure hFailure).2 correlationId r

/-- How often a command was published after a step. -/
theorem Logged.timesPublished_of_step {w w' : World Data} (hInv : w.Logged storage)
    {action : Action Data} (h : step sagas storage w action = some w')
    (command : RollbackCommand) :
    w'.timesPublished command = w.timesPublished command +
      ((w.publishing storage action).map Publication.command).count command := by
  rw [timesPublished, hInv.published_of_step h, List.map_append, List.count_append]
  rfl

/-- A sum is zero or one exactly if all numbers are, and no two of them are
positive. -/
theorem sum_map_le_one_iff {α : Type} (count : α → Nat) (xs : List α) :
    (xs.map count).sum ≤ 1 ↔
      (∀ x ∈ xs, count x ≤ 1) ∧ xs.Pairwise fun x y => ¬(0 < count x ∧ 0 < count y) := by
  induction xs with
  | nil => simp
  | cons x xs ih =>
      have hNone : (xs.map count).sum = 0 ↔ ∀ y ∈ xs, ¬0 < count y := by
        simp only [List.sum_eq_zero_iff_forall_eq_nat, List.forall_mem_map, Nat.not_lt,
          Nat.le_zero]
      rw [List.map_cons, List.sum_cons, List.forall_mem_cons, List.pairwise_cons]
      constructor
      · intro hSum
        obtain ⟨hSmall, hPairs⟩ := ih.mp (Nat.le_of_add_left_le hSum)
        refine ⟨⟨Nat.le_of_add_right_le hSum, hSmall⟩, fun y hy hBoth => ?_, hPairs⟩
        have hRest : (xs.map count).sum = 0 := by omega
        exact hNone.mp hRest y hy hBoth.2
      · rintro ⟨⟨hx, hSmall⟩, hFirst, hPairs⟩
        have hRest := ih.mpr ⟨hSmall, hPairs⟩
        by_cases hZero : count x = 0
        · omega
        · have hRestZero : (xs.map count).sum = 0 :=
            hNone.mpr fun y hy hPos => hFirst y hy ⟨Nat.pos_of_ne_zero hZero, hPos⟩
          omega

theorem readOnceSoFar_iff {w : World Data} {correlationId : String} {r : Registration} :
    w.ReadOnceSoFar storage correlationId r ↔ w.timesRead storage correlationId r ≤ 1 :=
  (sum_map_le_one_iff _ _).symm

theorem timesRead_eq_zero_iff {w : World Data} {correlationId : String} {r : Registration} :
    w.timesRead storage correlationId r = 0 ↔
      ∀ earlier ∈ w.rollbacks, ¬w.Reads storage correlationId r earlier := by
  simp only [timesRead, Reads, List.sum_eq_zero_iff_forall_eq_nat, List.forall_mem_map,
    Nat.not_lt, Nat.le_zero]

/-- One more failure keeps a pair read at most once exactly if it is the first
to read it, where it does. -/
theorem timesRead_add_le_one_iff {w : World Data} {correlationId : String} {r : Registration}
    (hOnce : w.timesRead storage correlationId r ≤ 1) (failure : Failure) :
    w.timesRead storage correlationId r +
        entriesFor storage w.registrations correlationId r failure ≤ 1 ↔
      (w.Reads storage correlationId r failure →
        entriesFor storage w.registrations correlationId r failure = 1 ∧
          ∀ earlier ∈ w.rollbacks, ¬w.Reads storage correlationId r earlier) := by
  rw [← timesRead_eq_zero_iff, Reads]
  omega

theorem step_atMostOnce_iff {w w' : World Data} {action : Action Data} (hInv : w.Logged storage)
    (hOnce : w.AtMostOnce) (h : step sagas storage w action = some w') :
    w'.AtMostOnce ↔ w.ReadsOnce storage action := by
  simp only [AtMostOnce, ReadsOnce, registrations_of_step h, hInv.timesPublished_of_step h,
    List.forall_mem_append, hInv.timesPublished_eq, readOnceSoFar_iff]
  cases hFailure : w.rollingBack action with
  | none =>
      -- Nothing is published: only the pairs registered now are new.
      have hNothing : w.publishing storage action = [] := by rw [publishing, hFailure]
      simp only [hNothing, List.map_nil, List.count_nil, Nat.add_zero, reduceCtorEq]
      refine and_congr_left' (iff_of_true (fun r hr correlationId hId => ?_) (by simp))
      rw [← hInv.timesPublished_eq]
      exact hOnce r hr correlationId hId
  | some failure =>
      have hNone : w.registering action = [] :=
        (w.registering_or_rollingBack action).resolve_right (by rw [hFailure]; simp)
      have hPublishing : w.publishing storage action =
          publications storage w.registrations failure := by
        rw [publishing, hFailure]
      simp only [hNone, hPublishing, Option.some.injEq, forall_eq', List.not_mem_nil,
        false_implies, implies_true, and_true]
      have hBefore : ∀ r ∈ w.registrations, ∀ correlationId,
          r.correlationId = some correlationId → w.timesRead storage correlationId r ≤ 1 := by
        intro r hr correlationId hId
        rw [← hInv.timesPublished_eq]
        exact hOnce r hr correlationId hId
      by_cases hReadable : Readable storage w.registrations failure
      · simp only [hReadable, true_implies, count_publications]
        exact forall_congr' fun r => forall_congr' fun hr => forall_congr' fun correlationId =>
          forall_congr' fun hId => timesRead_add_le_one_iff (hBefore r hr correlationId hId) failure
      · rw [publications_eq_nil hReadable]
        exact iff_of_true hBefore (fun hRead => absurd hRead hReadable)

/-- Along every run, no registered pair is rolled back twice exactly if each
failure is the first one since its pairs were registered. The set is never
dropped, so every later failure reads them again. -/
theorem atMostOnce_iff_readsOnce (sagas : List (Saga Data)) (storage : ConstructorStorage)
    (as : List (Action Data)) :
    Runs.Always (step sagas storage) AtMostOnce initial as ↔
      Runs.StepsMeet (step sagas storage) (ReadsOnce storage) initial as :=
  Runs.always_iff_stepsMeet (Logged storage) (fun _ => True)
    (fun _ _ _ _ hInv hStep => step_logged hInv hStep)
    (fun _ _ _ _ hInv hOnce hStep => step_atMostOnce_iff hInv hOnce hStep)
    logged_initial (List.forall_mem_nil _) (fun _ _ => trivial)

section

open SagaManager

/-- Two greetings of one transaction, and the answers to both of them fail. -/
def failingAnswers : List (Action Unit) :=
  [.execute (.event (helloSaidEvent (some "tx") "hello-1")), .eventHandled 0 (.ok [.resolved]),
    .sagaStep 0 0, .publish 0,
    .execute (.event (helloSaidEvent (some "tx") "hello-2")), .eventHandled 0 (.ok [.resolved]),
    .sagaStep 0 0, .publish 0,
    .execute (.command (linked (helloSaidEvent (some "tx") "hello-1") sayWorldCommand)),
    .commandHandled 0 (.ok (.inr failed)), .publish 0,
    .execute (.command (linked (helloSaidEvent (some "tx") "hello-2") sayWorldCommand)),
    .commandHandled 0 (.ok (.inr failed)), .publish 0]

/-- The first greeting is taken back by both failures. -/
theorem rolled_back_again :
    ¬Runs.Always (step [helloWorldSaga] helloStorage) AtMostOnce initial failingAnswers := by
  intro hAlways
  obtain ⟨w, hRun, hMem, hTwice⟩ : ∃ w,
      Runs.exec (step [helloWorldSaga] helloStorage) initial failingAnswers = some w ∧
        ⟨some "tx", noMoreHelloCommand, "hello-1"⟩ ∈ w.registrations ∧
        w.timesPublished ⟨noMoreHelloCommand, some "hello-1", some "tx"⟩ = 2 :=
    ⟨_, rfl, by decide, by decide⟩
  have hOnce := hAlways.last hRun _ hMem "tx" rfl
  rw [Registration.rollbackFor, hTwice] at hOnce
  exact absurd hOnce (by decide)

end

end Transactions.World

end Moirae
