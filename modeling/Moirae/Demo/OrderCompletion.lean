import Moirae.Demo.OrderAtomicity

/-! How orders end: each one that is under way can be brought to its end by steps
of its own. -/
namespace Moirae.Orders

open Demo Account
open Inventory (inventoryAggregate)

variable {stamp : IEvent EventData → String × Nat}

namespace World

variable {s t : World} {order : IEvent EventData} {phase : Phase} {correlationId : String}

/-! ## Steps that are possible -/

/-- A rollback that has loaded its account can end. -/
theorem step_resumeRollBack {k : Nat} {r : RollingBack} {aggregate : AccountAggregate}
    {store : MemoryStore EventData} (hr : s.rollbacks[k]? = some r)
    (hMerged : r.stage = .merged aggregate)
    (hStore : rollbackAccount stamp s.store aggregate r.issued r.command.correlationId =
      .ok store) :
    s.step stamp (.resumeRollBack k) =
      some ((s.setRollback k { r with stage := .ended (.ok ()) }).appended store) := by
  simp only [World.step, hr, Option.bind_some, World.resumeRollBack, hMerged, hStore]

/-- A rollback that waits can load its account. -/
theorem step_rollBack {k : Nat} {r : RollingBack} {aggregate : AccountAggregate}
    (hr : s.rollbacks[k]? = some r) (hWaiting : r.stage = .waiting)
    (hMerge : (accountAggregate stamp).mergeContext (r.command.streamId.getD "")
      (s.store.readFromStream (r.command.streamId.getD "")) = .ok aggregate) :
    s.step stamp (.rollBack k) =
      some (s.setRollback k { r with stage := .merged aggregate }) := by
  simp only [World.step, hr, Option.bind_some, World.rollBack, hWaiting, hMerge]

/-- A step of the transaction itself: a delivery of one of its events that no
handler rejects, or what is done about one of its commands. -/
def Own (correlationId : String) (s : World) : Action → Prop
  | .settle place rejected => rejected = false ∧
      ∃ event ∈ s.pending[place]?, event.correlationId = some correlationId
  | .remove j | .resumeRemove j _ _ =>
      ∃ r ∈ s.removals[j]?, r.command.correlationId = some correlationId
  | .rollBack k | .resumeRollBack k =>
      ∃ r ∈ s.rollbacks[k]?, r.command.correlationId = some correlationId
  | _ => False

/-- The order is over. -/
def Ended (order : IEvent EventData) (s : World) : Prop :=
  s.Follows order .removed ∨ s.Follows order .takenBack

/-- One step more, when the rollback has loaded the account. -/
theorem Follows.canEnd_merged (h : s.Follows order phase) (hSound : s.Sound stamp)
    (hStreams : s.Streams stamp) {k : Nat} {r : RollingBack} {aggregate : AccountAggregate}
    (hOwn : order.correlationId = some correlationId)
    (hr : s.rollbacks[k]? = some r) (hId : r.command.correlationId = order.correlationId)
    (hMerged : r.stage = .merged aggregate) :
    Runs.CanReach (World.step stamp) (World.Own correlationId) (Ended order) 1 s := by
  obtain ⟨hRevocable, hStore⟩ :=
    (h.rollback_succeeds hSound hStreams (List.mem_of_getElem? hr) hId).stored aggregate hMerged
  have hEnded : Ended order ((s.setRollback k { r with stage := .ended (.ok ()) }).appended
      (s.store.appendToStream (r.committed stamp aggregate))) :=
    Or.inr (h.rolledBack hSound hr hMerged hRevocable hId)
  have hMeets : s.Own correlationId (.resumeRollBack k) := ⟨r, hr, hId.trans hOwn⟩
  exact (Runs.CanReach.here hEnded 0).after (step_resumeRollBack hr hMerged hStore) hMeets

/-- A rollback always gets to its end, in two steps. -/
theorem Follows.canEnd_failing (h : s.Follows order .failing) (hSound : s.Sound stamp)
    (hStreams : s.Streams stamp) (hOwn : order.correlationId = some correlationId) :
    Runs.CanReach (World.step stamp) (World.Own correlationId) (Ended order) 2 s := by
  have hSome : 0 < s.failing order := by
    rw [h.failing]
    decide
  obtain ⟨k, r, hr, hOpen, hId⟩ := exists_of_failing hSome
  have hMem := List.mem_of_getElem? hr
  cases hStage : r.stage with
  | ended outcome =>
      rw [hStage] at hOpen
      cases hOpen
  | merged aggregate =>
      exact (h.canEnd_merged hSound hStreams hOwn hr hId hStage).mono (by decide) fun _ ht => ht
  | waiting =>
      obtain ⟨aggregate, hMerge⟩ := (h.rollback_succeeds hSound hStreams hMem hId).merges
      have hEffect : Effect stamp s (.rollBack k)
          (s.setRollback k { r with stage := .merged aggregate }) :=
        .rollbackMerged hr hStage hMerge
      obtain ⟨phase, hFollows⟩ := h.effect hSound hStreams hOwn hEffect trivial
      have hNext : (s.setRollback k { r with stage := .merged aggregate }).rollbacks[k]? =
          some { r with stage := .merged aggregate } :=
        List.getElem?_set_self (List.getElem?_eq_some_iff.mp hr).1
      exact (hFollows.canEnd_merged (hSound.effect hEffect) (hStreams.effect hSound hEffect) hOwn
        hNext hId rfl).after (step_rollBack hr hStage hMerge) ⟨r, hr, hId.trans hOwn⟩

/-- The goods are removed, or the removal fails and the rollback follows. -/
theorem Follows.canEnd_removal (h : s.Follows order phase) (hSound : s.Sound stamp)
    (hStreams : s.Streams stamp) (hOwn : order.correlationId = some correlationId) {j : Nat}
    {r : Removing} {aggregate : Inventory.InventoryAggregate} (hr : s.removals[j]? = some r)
    (hId : r.command.correlationId = order.correlationId) (hMerged : r.stage = .merged aggregate) :
    Runs.CanReach (World.step stamp) (World.Own correlationId) (Ended order) 3 s := by
  have hOpen : r.stage.isOpen = true := by
    rw [hMerged]
    rfl
  obtain ⟨hCommit, hStart, hStream⟩ :=
    (hSound.removals r (List.mem_of_getElem? hr)).merged aggregate hMerged
  cases hStore : Inventory.removeInventory s.store aggregate r.command
      (Inventory.inventoryRemovedEvent aggregate.streamId (removeInput r.command).quantity "" 0)
      (removeInput r.command).quantity with
  | error reason =>
      have hStep : s.step stamp (.resumeRemove j "" 0) =
          some ((s.setRemoval j { r with stage := .ended (.error reason) }).failed
            r.command.correlationId) := by
        simp only [World.step, hr, Option.bind_some, World.resumeRemove, hMerged, hStore]
      have hEffect : Effect stamp s (.resumeRemove j "" 0) _ := .removalFailed reason hr hOpen
      exact ((h.removalFailed hSound reason hr hOpen hId).canEnd_failing (hSound.effect hEffect)
        (hStreams.effect hSound hEffect) hOwn).after hStep ⟨r, hr, hId.trans hOwn⟩
  | ok store =>
      have hStep : s.step stamp (.resumeRemove j "" 0) =
          some ((s.setRemoval j { r with stage := .ended (.ok ()) }).appended store) := by
        simp only [World.step, hr, Option.bind_some, World.resumeRemove, hMerged, hStore]
      have hRemoved := removeInventory_ok hCommit hStart rfl hStore
      rw [hStream] at hRemoved
      have hEnded : Ended order ((s.setRemoval j { r with stage := .ended (.ok ()) }).appended
          store) := by
        rw [hRemoved]
        exact Or.inl (h.removed hSound hStreams "" 0 hr hOpen hId)
      have hMeets : s.Own correlationId (.resumeRemove j "" 0) := ⟨r, hr, hId.trans hOwn⟩
      exact (Runs.CanReach.here hEnded 2).after hStep hMeets

/-- Four steps at most, when the goods are to be removed. -/
theorem Follows.canEnd_removing (h : s.Follows order .removing) (hSound : s.Sound stamp)
    (hStreams : s.Streams stamp) (hOwn : order.correlationId = some correlationId) :
    Runs.CanReach (World.step stamp) (World.Own correlationId) (Ended order) 4 s := by
  have hSome : 0 < s.removing order := by
    rw [h.removing]
    decide
  obtain ⟨r, hMem, hThis⟩ := List.countP_pos_iff.mp hSome
  rw [Bool.and_eq_true, decide_eq_true_iff] at hThis
  obtain ⟨hOpen, hId⟩ := hThis
  obtain ⟨j, hr⟩ := List.mem_iff_getElem?.mp hMem
  cases hStage : r.stage with
  | ended outcome =>
      rw [hStage] at hOpen
      cases hOpen
  | merged aggregate =>
      exact (h.canEnd_removal hSound hStreams hOwn hr hId hStage).mono (by decide) fun _ ht => ht
  | waiting =>
      cases hMerge : AggregateFactory.mergeContext inventoryAggregate s.store
          (removeInput r.command).inventoryId with
      | error reason =>
          have hStep : s.step stamp (.remove j) =
              some ((s.setRemoval j { r with stage := .ended (.error reason) }).failed
                r.command.correlationId) := by
            simp only [World.step, hr, Option.bind_some, World.remove, hStage, hMerge]
          have hEffect : Effect stamp s (.remove j) _ := .removalFailed reason hr hOpen
          have hRest := (h.removalFailed hSound reason hr hOpen hId).canEnd_failing
            (hSound.effect hEffect) (hStreams.effect hSound hEffect) hOwn
          exact (hRest.after hStep ⟨r, hr, hId.trans hOwn⟩).mono (by decide) fun _ ht => ht
      | ok aggregate =>
          have hStep : s.step stamp (.remove j) =
              some (s.setRemoval j { r with stage := .merged aggregate }) := by
            simp only [World.step, hr, Option.bind_some, World.remove, hStage, hMerge]
          have hEffect : Effect stamp s (.remove j) _ := .removalMerged hr hStage hMerge
          obtain ⟨phase, hFollows⟩ := h.effect hSound hStreams hOwn hEffect trivial
          have hNext : (s.setRemoval j { r with stage := .merged aggregate }).removals[j]? =
              some { r with stage := .merged aggregate } :=
            List.getElem?_set_self (List.getElem?_eq_some_iff.mp hr).1
          exact (hFollows.canEnd_removal (hSound.effect hEffect) (hStreams.effect hSound hEffect)
            hOwn hNext hId rfl).after hStep ⟨r, hr, hId.trans hOwn⟩

/-- Five steps at most, when the order is to be delivered. -/
theorem Follows.canEnd_placed (h : s.Follows order .placed) (hSound : s.Sound stamp)
    (hStreams : s.Streams stamp) (hOwn : order.correlationId = some correlationId) :
    Runs.CanReach (World.step stamp) (World.Own correlationId) (Ended order) 5 s := by
  have hSome : 0 < s.placing order := by
    rw [h.placing]
    decide
  obtain ⟨event, hMem, hThis⟩ := List.countP_pos_iff.mp hSome
  rw [decide_eq_true_iff] at hThis
  obtain ⟨hName, hSame⟩ := hThis
  obtain ⟨place, hPlace⟩ := List.mem_iff_getElem?.mp hMem
  obtain ⟨id, hId, hUUID⟩ := ((hSound.events event (hSound.pending event hMem)).order
    hName).transaction
  obtain ⟨command, hCommand, hInventory, hQuantity, hSettle⟩ :=
    settle_order stamp { s with pending := s.pending.eraseIdx place } hName (hId ▸ hUUID.truthy)
  have hStep := step_settle stamp hPlace false
  rw [hSettle] at hStep
  have hEffect : Effect stamp s (.settle place false) _ :=
    .ordered hPlace hName hCommand hInventory hQuantity
  exact ((h.ordered hPlace hName hSame hCommand).canEnd_removing (hSound.effect hEffect)
    (hStreams.effect hSound hEffect) hOwn).after hStep
      ⟨rfl, event, hPlace, hSame.trans hOwn⟩

/-- An order can end from every phase. -/
theorem Follows.canEnd (h : s.Follows order phase) (hSound : s.Sound stamp)
    (hStreams : s.Streams stamp) (hOwn : order.correlationId = some correlationId) :
    Runs.CanReach (World.step stamp) (World.Own correlationId) (Ended order) 5 s := by
  cases phase with
  | placed => exact h.canEnd_placed hSound hStreams hOwn
  | removing =>
      exact (h.canEnd_removing hSound hStreams hOwn).mono (by decide) fun _ ht => ht
  | failing => exact (h.canEnd_failing hSound hStreams hOwn).mono (by decide) fun _ ht => ht
  | removed =>
      have hEnded : Ended order s := Or.inl h
      exact Runs.CanReach.here hEnded 5
  | takenBack =>
      have hEnded : Ended order s := Or.inr h
      exact Runs.CanReach.here hEnded 5

/-- No order is stuck: whatever has happened so far but a rejection in its
transaction, at most five steps of its own bring it to its end. -/
theorem order_can_end (stamp : IEvent EventData → String × Nat) (correlationId : String)
    (actions : List Action)
    (hOrderly : Runs.StepsMeet (World.step stamp) World.Orderly World.new actions)
    (h : Runs.StepsMeet (World.step stamp) (World.Handled correlationId) World.new actions)
    (hRun : Runs.exec (World.step stamp) World.new actions = some s)
    (hOrder : order ∈ s.store.sent) (hName : order.name = "OrderCreatedEvent")
    (hId : order.correlationId = some correlationId) :
    Runs.CanReach (World.step stamp) (World.Own correlationId)
      (fun t => ((t.Delivered order ∧ t.Paid order) ∨ (t.goods order = [] ∧ t.Refunded order)) ∧
        ¬ t.UnderWay order) 5 s := by
  obtain ⟨hSound, hStreams, hPhase⟩ :=
    (always_tracked stamp correlationId actions hOrderly h).last hRun
  obtain ⟨phase, hFollows⟩ := hPhase order hOrder hName hId
  apply (hFollows.canEnd hSound hStreams hId).mono (Nat.le_refl 5)
  intro t hEnded
  rcases hEnded with ht | ht
  · rw [ht.underWay_iff]
    exact ⟨Or.inl ⟨ht.delivered rfl, ht.paid (by decide)⟩, by decide⟩
  · rw [ht.underWay_iff]
    exact ⟨Or.inr ⟨ht.kept (by decide), ht.refunded rfl⟩, by decide⟩

/-- The second of the orders for lamps. -/
def lampOrder : IEvent EventData :=
  AggregateRoot.linkEvent
    (some (lampCommand "00000000-0000-4000-8000-000000000006"))
    (orderCreatedEvent "00000000-0000-4000-8000-00000000000a" (some 30)
      "00000000-0000-4000-8000-00000000000d"
      ⟨"00000000-0000-4000-8000-00000000000a", "00000000-0000-4000-8000-00000000000b", 1⟩ "e8" 8)

/-- The lamps after so many steps. -/
def lampsAfter (count : Nat) : World :=
  (Runs.exec (World.step lampStamp) World.new (lampsOrdered.take count)).getD World.new

/-- The state that the first steps of the run of the lamps end in. -/
theorem exec_lampsAfter (count : Nat)
    (h : (Runs.exec (World.step lampStamp) World.new (lampsOrdered.take count)).isSome = true) :
    Runs.exec (World.step lampStamp) World.new (lampsOrdered.take count) =
      some (lampsAfter count) := by
  obtain ⟨s, hs⟩ := Option.isSome_iff_exists.mp h
  rw [lampsAfter, hs]
  rfl

/-- The second order is placed, and can be brought to its end. -/
theorem order_can_end_lamps :
    Runs.CanReach (World.step lampStamp) (World.Own "00000000-0000-4000-8000-000000000006")
      (fun t => ((t.Delivered lampOrder ∧ t.Paid lampOrder) ∨
        (t.goods lampOrder = [] ∧ t.Refunded lampOrder)) ∧ ¬ t.UnderWay lampOrder) 5
      (lampsAfter 17) := by
  have hAll : (Runs.exec (World.step lampStamp) World.new (lampsOrdered.take 17)).isSome = true ∧
      lampOrder ∈ (lampsAfter 17).store.sent := by decide +kernel
  have hOrderly : Runs.StepsMeet (World.step lampStamp) World.Orderly World.new
      (lampsOrdered.take 17) := by decide +kernel
  have hHandled := stepsMeet_of_accepts lampStamp "00000000-0000-4000-8000-000000000006"
    (show ∀ a ∈ lampsOrdered.take 17, Accepts a by decide)
  exact order_can_end lampStamp _ _ hOrderly hHandled (exec_lampsAfter 17 hAll.1) hAll.2 rfl rfl

end World

end Moirae.Orders
