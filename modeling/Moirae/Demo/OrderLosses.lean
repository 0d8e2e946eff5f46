import Moirae.Demo.OrderCompletion

/-! Orders whose events are rejected. Before the saga has seen the order, nothing
is registered that could take it back. Once its goods are removed, its account is
rolled back and they stay removed. -/
namespace Moirae.Orders

open Demo Account

variable {stamp : IEvent EventData → String × Nat}

namespace World

/-- Nothing is to be done for the order, and nothing was, but that its cost was
withdrawn. -/
structure Lost (s : World) (order : IEvent EventData) : Prop where
  sent : order ∈ s.store.sent
  name : order.name = "OrderCreatedEvent"
  placing : s.placing order = 0
  removals : ∀ r ∈ s.removals, r.command.correlationId ≠ order.correlationId
  rollbacks : ∀ r ∈ s.rollbacks, r.stage.isOpen = true →
    r.command.correlationId ≠ order.correlationId
  goods : s.goods order = []
  paid : s.Paid order

section

variable {s t : World} {order : IEvent EventData}

/-- A lost order is not on its way any more. -/
theorem Lost.not_underWay (h : s.Lost order) : ¬ s.UnderWay order := by
  have hRemoving : s.removing order = 0 := by
    rw [World.removing, List.countP_eq_zero]
    intro r hr hThis
    rw [Bool.and_eq_true, decide_eq_true_iff] at hThis
    exact h.removals r hr hThis.2
  have hFailing : s.failing order = 0 := by
    rw [World.failing, List.countP_eq_zero]
    intro r hr hThis
    rw [Bool.and_eq_true, decide_eq_true_iff] at hThis
    exact h.rollbacks r hr hThis.1 hThis.2
  rw [UnderWay, h.placing, hRemoving, hFailing]
  omega

/-- Whoever fails, nothing is registered for the order. -/
theorem Lost.rollbackSagas (h : s.Lost order) (hSound : s.Sound stamp)
    (correlationId linked : Option String) : (s.rollbackSagas correlationId linked).Lost order := by
  obtain ⟨more, hEq, hMore⟩ := hSound.rollbackSagas_apart (fun _ => h.removals) linked
  rw [hEq]
  refine { h with rollbacks := fun r hr => ?_ }
  rcases List.mem_append.mp hr with hOld | hNew
  · exact h.rollbacks r hOld
  · exact fun _ => hMore r hNew

/-- Events of other transactions do not bring the order back. -/
theorem Lost.appendAll (h : s.Lost order) {more : List (IEvent EventData)}
    (hMore : ∀ event ∈ more, event.correlationId ≠ order.correlationId) :
    (s.appended (s.store.appendToStream more)).Lost order where
  sent := mem_sent_appendAll h.sent more
  name := h.name
  placing := (placing_appendAll hMore).trans h.placing
  removals := h.removals
  rollbacks := h.rollbacks
  goods := (goods_appendAll hMore).trans h.goods
  paid := by
    rw [Paid, booked_appendAll hMore]
    exact h.paid

/-- Neither does one event of another transaction. -/
theorem Lost.push (h : s.Lost order) {event : IEvent EventData}
    (hEvent : event.correlationId ≠ order.correlationId) :
    (s.appended (s.store.push event)).Lost order := by
  have hAll : ∀ other ∈ [event], other.correlationId ≠ order.correlationId := by
    intro other hOther
    rw [List.mem_singleton.mp hOther]
    exact hEvent
  exact h.appendAll hAll

/-- A removal may go on, for none is of the order. -/
theorem Lost.setRemoval (h : s.Lost order) {j : Nat} {r : Removing}
    (hr : s.removals[j]? = some r) (stage : Stage Inventory.InventoryAggregate) :
    (s.setRemoval j { r with stage }).Lost order := by
  refine { h with removals := fun other hOther => ?_ }
  rcases List.mem_or_eq_of_mem_set hOther with hOld | rfl
  · exact h.removals other hOld
  · exact h.removals r (List.mem_of_getElem? hr)

/-- A rollback may go on, as long as one that has ended stays so. -/
theorem Lost.setRollback (h : s.Lost order) {k : Nat} {r : RollingBack}
    (hr : s.rollbacks[k]? = some r) {stage : Stage AccountAggregate}
    (hOpen : stage.isOpen = true → r.stage.isOpen = true) :
    (s.setRollback k { r with stage }).Lost order := by
  refine { h with rollbacks := fun other hOther => ?_ }
  rcases List.mem_or_eq_of_mem_set hOther with hOld | rfl
  · exact h.rollbacks other hOld
  · exact fun hThis => h.rollbacks r (List.mem_of_getElem? hr) (hOpen hThis)

/-- A delivery ends. -/
theorem Lost.erase (h : s.Lost order) (place : Nat) :
    ({ s with pending := s.pending.eraseIdx place } : World).Lost order :=
  { h with placing := placing_erase h.placing place }

/-- Whatever happens, the order stays lost. -/
theorem Lost.effect (h : s.Lost order) (hSound : s.Sound stamp) {correlationId : String}
    (hOwn : order.correlationId = some correlationId) {a : Action}
    (hEffect : Effect stamp s a t) : t.Lost order := by
  cases hEffect with
  | creating accounts inventories => exact { h with }
  | @refused _ accounts inventories ids id hPrepared hFresh =>
      have hDraw : (({ s with accounts, inventories } : World).draw ids).Lost order := { h with }
      have hNext : ({ s with accounts, inventories } : World).Sound stamp :=
        { hSound with prepared := hPrepared }
      exact hDraw.rollbackSagas (hNext.draw ids) (some id) none
  | @created _ accounts inventories ids event hPrepared hStream hNew hId hName =>
      have hDraw : (({ s with accounts, inventories } : World).draw ids).Lost order := { h with }
      exact hDraw.push (hSound.apart_created h.sent hOwn fun id hThis => (hId id hThis).2)
  | called hDrawn hMerge => exact { h with }
  | @requestFailed _ i r aggregate reason hr hMerged =>
      have hSet : (s.setRequest i { r with stage := .ended (.error reason) }).Lost order :=
        { h with }
      exact hSet.rollbackSagas (hSound.setRequest hr fun _ hThis => by cases hThis) _ none
  | @requested _ i r aggregate uuid uuid' now hr hMerged =>
      have hSet : (s.setRequest i { r with stage := .ended (.ok ()) }).Lost order := { h with }
      apply hSet.appendAll
      intro event hEvent
      rw [(committed_of_mem hEvent).correlationId]
      exact hSound.apart_request h.sent hr hMerged
  | caught uuid now hr =>
      apply h.push
      intro hSame
      rw [hOwn] at hSame
      cases hSame
  | removalFailed reason hr hOpen =>
      exact (h.setRemoval hr _).rollbackSagas
        (hSound.setRemoval hr fun _ hThis => by cases hThis) _ none
  | removalMerged hr hWaiting hMerge => exact h.setRemoval hr _
  | @removed _ j r aggregate uuid now hr hMerged =>
      apply (h.setRemoval hr (.ended (.ok ()))).push
      rw [Removing.removedEvent, AggregateRoot.linkEvent_correlationId]
      exact h.removals r (List.mem_of_getElem? hr)
  | rollbackFailed reason hr hWhy =>
      exact (h.setRollback hr fun hThis => by cases hThis).rollbackSagas
        (hSound.setRollback hr fun _ hThis => by cases hThis) _ none
  | rollbackMerged hr hWaiting hMerge =>
      apply h.setRollback hr
      rw [hWaiting]
      exact id
  | @rolledBack k r aggregate hr hMerged hRevocable =>
      have hMem := List.mem_of_getElem? hr
      have hEnded : (s.setRollback k { r with stage := .ended (.ok ()) }).Lost order :=
        h.setRollback hr fun hThis => by cases hThis
      apply hEnded.appendAll
      intro event hEvent
      rw [(hSound.committed_rollback hMem hMerged hRevocable hEvent).1]
      exact h.rollbacks r hMem (by rw [hMerged]; rfl)
  | @rejected place event hPlace => exact (h.erase place).rollbackSagas (hSound.erase place) _ _
  | @ordered place event command hPlace hName hId hInventory hQuantity =>
      have hApart := apart_of_placing h.placing (List.mem_of_getElem? hPlace) hName
      refine { h.erase place with removals := fun r hr => ?_ }
      rcases List.mem_append.mp hr with hOld | hNew
      · exact h.removals r hOld
      · obtain rfl := List.mem_singleton.mp hNew
        rw [hId]
        exact hApart
  | @settled place event hPlace hName => exact h.erase place

/-- The handlers of the event of an order reject before the saga has seen it. -/
theorem Follows.lost (h : s.Follows order phase) (hSound : s.Sound stamp) {place : Nat}
    (hPlace : s.pending[place]? = some order) (linked : Option String) :
    (({ s with pending := s.pending.eraseIdx place } : World).rollbackSagas order.correlationId
      linked).Lost order := by
  obtain rfl := h.phase_of_pending (List.mem_of_getElem? hPlace) h.name rfl
  have hNone : ∀ r ∈ s.removals, r.command.correlationId ≠ order.correlationId := by
    intro r hr hId
    exact h.asked.mp ⟨r, hr, hId⟩ rfl
  have hErased : ({ s with pending := s.pending.eraseIdx place } : World).Lost order := by
    constructor
    case sent => exact h.sent
    case name => exact h.name
    case placing =>
      have hPlacing := placing_erase_self hPlace h.name rfl
      rw [h.placing] at hPlacing
      exact Nat.succ.inj hPlacing
    case removals => exact hNone
    case rollbacks =>
      intro r hr hOpen hId
      cases h.phase_of_rollback hr hOpen hId
    case goods => exact h.kept (by decide)
    case paid => exact h.paid (by decide)
  exact hErased.rollbackSagas (hSound.erase place) order.correlationId linked

/-- When a handler of the event of an order itself rejects, the order is neither
delivered nor refunded, however long the run goes on. -/
theorem rejected_order_lost (stamp : IEvent EventData → String × Nat) (correlationId : String)
    (actions : List Action)
    (hOrderly : Runs.StepsMeet (World.step stamp) World.Orderly World.new actions)
    (h : Runs.StepsMeet (World.step stamp) (World.Handled correlationId) World.new actions)
    (hRun : Runs.exec (World.step stamp) World.new actions = some s)
    (hName : order.name = "OrderCreatedEvent") (hId : order.correlationId = some correlationId)
    {place : Nat} (hPlace : s.pending[place]? = some order) :
    ∃ t, s.step stamp (.settle place true) = some t ∧
      ∀ after, Runs.StepsMeet (World.step stamp) World.Orderly t after →
        Runs.Always (World.step stamp)
          (fun u => u.goods order = [] ∧ u.Paid order ∧ ¬ u.UnderWay order) t after := by
  obtain ⟨hSound, hStreams, hPhase⟩ :=
    (always_tracked stamp correlationId actions hOrderly h).last hRun
  have hOrder := hSound.pending order (List.mem_of_getElem? hPlace)
  obtain ⟨phase, hFollows⟩ := hPhase order hOrder hName hId
  have hStep := step_settle stamp hPlace true
  unfold World.settle at hStep
  rw [if_pos rfl] at hStep
  have hLost := hFollows.lost hSound hPlace
    (if truthy order.correlationId then order.correlationId else none)
  have hOpen : s.Orderly (.settle place true) := trivial
  have hRejected := step_effect hSound hOpen hStep
  refine ⟨_, hStep, fun after hAfter => ?_⟩
  apply Runs.always_of_stepsMeet (fun u => u.Sound stamp ∧ u.Lost order) (fun _ => True)
    ?_ ?_ ?_ (fun _ _ => trivial) hAfter
  · intro u a v _ hInv hNext hMeets
    have hEffect := step_effect hInv.1 hMeets hNext
    exact ⟨hInv.1.effect hEffect, hInv.2.effect hInv.1 hId hEffect⟩
  · intro u hInv
    exact ⟨hInv.2.goods, hInv.2.paid, hInv.2.not_underWay⟩
  · exact ⟨hSound.effect hRejected, hLost⟩

/-- The second order for lamps is rejected, and somebody else pays for one. -/
theorem rejected_order_lost_lamps :
    ∃ t, (lampsAfter 17).step lampStamp (.settle 7 true) = some t ∧
      Runs.Always (World.step lampStamp)
        (fun u => u.goods lampOrder = [] ∧ u.Paid lampOrder ∧ ¬ u.UnderWay lampOrder) t
        [.pay true "00000000-0000-4000-8000-00000000000a" 30
          (lampCommand "00000000-0000-4000-8000-000000000007"), .resume 4 "e10" "" 9] := by
  have hAll : (Runs.exec (World.step lampStamp) World.new (lampsOrdered.take 17)).isSome = true ∧
      (lampsAfter 17).pending[7]? = some lampOrder := by decide +kernel
  have hOrderly : Runs.StepsMeet (World.step lampStamp) World.Orderly World.new
      (lampsOrdered.take 17) := by decide +kernel
  have hHandled := stepsMeet_of_accepts lampStamp "00000000-0000-4000-8000-000000000006"
    (show ∀ a ∈ lampsOrdered.take 17, Accepts a by decide)
  have hAfter : ∀ t ∈ (lampsAfter 17).step lampStamp (.settle 7 true),
      Runs.StepsMeet (World.step lampStamp) World.Orderly t
        [.pay true "00000000-0000-4000-8000-00000000000a" 30
          (lampCommand "00000000-0000-4000-8000-000000000007"), .resume 4 "e10" "" 9] := by
    decide +kernel
  obtain ⟨t, hStep, hAlways⟩ := rejected_order_lost lampStamp _ _ hOrderly hHandled
    (exec_lampsAfter 17 hAll.1) rfl rfl hAll.2
  exact ⟨t, hStep, hAlways _ (hAfter t hStep)⟩

/-! ## A rejection behind the delivery -/

/-- What was withdrawn for the order was given back, at least once. -/
def Returned (s : World) (order : IEvent EventData) : Prop :=
  ∃ withdrawn ∈ s.booked order, Withdrawal order withdrawn ∧
    ∃ returned ∈ s.booked order, Revokes withdrawn returned

/-- A rollback of the account is to come, and nothing was taken back before. -/
structure Returning (s : World) (order : IEvent EventData) : Prop where
  paid : s.Paid order
  failing : 0 < s.failing order
  loaded : ∀ r ∈ s.rollbacks, r.command.correlationId = order.correlationId →
    ∀ aggregate, r.stage = .merged aggregate →
      aggregate.eventHistory.filter (·.correlationId = order.correlationId) = s.booked order

/-- The goods are given away: nothing puts them back, and the money goes back. -/
structure GivenAway (s : World) (order : IEvent EventData) : Prop where
  sent : order ∈ s.store.sent
  name : order.name = "OrderCreatedEvent"
  placing : s.placing order = 0
  removing : s.removing order = 0
  delivered : s.Delivered order
  back : s.Returning order ∨ s.Returned order

/-- Money that was given back once was given back. -/
theorem Refunded.returned (h : s.Refunded order) : s.Returned order := by
  obtain ⟨withdrawn, returned, removed, hWithdrawn, hReturned, -, hBooked⟩ := h
  refine ⟨withdrawn, ?_, hWithdrawn, returned, ?_, hReturned⟩
  · rw [hBooked]
    simp
  · rw [hBooked]
    simp

/-- What was given back stays so when more is booked. -/
theorem Returned.mono (h : s.Returned order) (hBooked : s.booked order ⊆ t.booked order) :
    t.Returned order := by
  obtain ⟨withdrawn, hMem, hWithdrawn, returned, hReturned, hRevokes⟩ := h
  exact ⟨withdrawn, hBooked hMem, hWithdrawn, returned, hBooked hReturned, hRevokes⟩

/-- What has been loaded to be taken back is the order with its withdrawal. -/
theorem Returning.exists_withdrawn (h : s.Returning order) {r : RollingBack}
    (hr : r ∈ s.rollbacks) (hId : r.command.correlationId = order.correlationId)
    {aggregate : AccountAggregate} (hMerged : r.stage = .merged aggregate) :
    ∃ withdrawn, Withdrawal order withdrawn ∧ s.booked order = [order, withdrawn] ∧
      aggregate.eventHistory.filter (·.correlationId = order.correlationId) =
        [order, withdrawn] := by
  obtain ⟨withdrawn, hWithdrawn, hBooked⟩ := h.paid
  exact ⟨withdrawn, hWithdrawn, hBooked, (h.loaded r hr hId aggregate hMerged).trans hBooked⟩

/-- The rollback of the order finds what it needs. -/
theorem Returning.rollback_succeeds (h : s.Returning order) (hSound : s.Sound stamp)
    (hStreams : s.Streams stamp) (hOrder : order ∈ s.store.sent)
    (hName : order.name = "OrderCreatedEvent") {r : RollingBack} (hr : r ∈ s.rollbacks)
    (hId : r.command.correlationId = order.correlationId) : s.Succeeds stamp r := by
  apply hSound.rollback_succeeds hStreams hOrder hName hr hId
  intro aggregate hMerged
  obtain ⟨withdrawn, hWithdrawn, -, hHistory⟩ := h.exists_withdrawn hr hId hMerged
  exact ⟨withdrawn, hWithdrawn, hHistory⟩

/-! ### Steps that leave the order alone -/

/-- A step that books nothing for the order, and after which no rollback for it
is missing. -/
theorem GivenAway.of_eq (h : s.GivenAway order) (hSent : order ∈ t.store.sent)
    (hPlacing : t.placing order = s.placing order)
    (hRemoving : t.removing order = s.removing order) (hGoods : t.goods order = s.goods order)
    (hBooked : t.booked order = s.booked order)
    (hBack : s.Returning order → 0 < t.failing order ∧ ∀ r ∈ t.rollbacks,
      r.command.correlationId = order.correlationId → ∀ aggregate, r.stage = .merged aggregate →
        aggregate.eventHistory.filter (·.correlationId = order.correlationId) =
          s.booked order) : t.GivenAway order where
  sent := hSent
  name := h.name
  placing := hPlacing.trans h.placing
  removing := hRemoving.trans h.removing
  delivered := by
    rw [Delivered, hGoods]
    exact h.delivered
  back := by
    rcases h.back with hReturning | hReturned
    · obtain ⟨hFailing, hLoaded⟩ := hBack hReturning
      refine Or.inl ⟨?_, hFailing, ?_⟩
      · rw [Paid, hBooked]
        exact hReturning.paid
      · rw [hBooked]
        exact hLoaded
    · exact Or.inr (hReturned.mono (by rw [hBooked]; exact List.Subset.refl _))

/-- A step that the order does not see. -/
theorem GivenAway.of_same (h : s.GivenAway order) (hStore : t.store = s.store)
    (hPending : t.pending = s.pending) (hRemovals : t.removals = s.removals)
    (hRollbacks : t.rollbacks = s.rollbacks) : t.GivenAway order := by
  apply h.of_eq
  · rw [hStore]
    exact h.sent
  · rw [World.placing, hPending, World.placing]
  · rw [World.removing, hRemovals, World.removing]
  · rw [World.goods, hStore, World.goods]
  · rw [World.booked, hStore, World.booked]
  · intro hReturning
    rw [World.failing, hRollbacks]
    exact ⟨hReturning.failing, hReturning.loaded⟩

/-- Rollback commands may be published, also for the order. -/
theorem GivenAway.rollbackSagas (h : s.GivenAway order) (hSound : s.Sound stamp)
    (correlationId linked : Option String) :
    (s.rollbackSagas correlationId linked).GivenAway order := by
  obtain ⟨commands, -, hEq, -, -⟩ := rollbackSagas_cases hSound correlationId linked
  rw [hEq]
  refine h.of_eq h.sent rfl rfl rfl rfl fun hReturning => ⟨?_, ?_⟩
  · change 0 < (s.rollbacks ++ _).countP _
    rw [List.countP_append]
    exact Nat.add_pos_left hReturning.failing _
  · intro r hr hId aggregate hMerged
    rcases List.mem_append.mp hr with hOld | hNew
    · exact hReturning.loaded r hOld hId aggregate hMerged
    · obtain ⟨command, -, rfl⟩ := List.mem_map.mp hNew
      cases hMerged

/-- Events of other transactions leave the goods given away. -/
theorem GivenAway.appendAll (h : s.GivenAway order) {more : List (IEvent EventData)}
    (hMore : ∀ event ∈ more, event.correlationId ≠ order.correlationId) :
    (s.appended (s.store.appendToStream more)).GivenAway order :=
  h.of_eq (mem_sent_appendAll h.sent more) (placing_appendAll hMore) rfl (goods_appendAll hMore)
    (booked_appendAll hMore) fun hReturning => ⟨hReturning.failing, hReturning.loaded⟩

/-- So does one event of another transaction. -/
theorem GivenAway.push (h : s.GivenAway order) {event : IEvent EventData}
    (hEvent : event.correlationId ≠ order.correlationId) :
    (s.appended (s.store.push event)).GivenAway order := by
  have hAll : ∀ other ∈ [event], other.correlationId ≠ order.correlationId := by
    intro other hOther
    rw [List.mem_singleton.mp hOther]
    exact hEvent
  exact h.appendAll hAll

/-- A removal that is open is one of another order and may go on. -/
theorem GivenAway.setRemoval (h : s.GivenAway order) {j : Nat} {r : Removing}
    (hr : s.removals[j]? = some r) (hOpen : r.stage.isOpen = true)
    (stage : Stage Inventory.InventoryAggregate) :
    (s.setRemoval j { r with stage }).GivenAway order := by
  have hNot := apart_of_removing h.removing (List.mem_of_getElem? hr) hOpen
  exact h.of_eq h.sent rfl (removing_setRemoval hr fun hThis => absurd hThis hNot) rfl rfl
    fun hReturning => ⟨hReturning.failing, hReturning.loaded⟩

/-- A rollback goes on. For the order it stays open, unless the money was given
back. -/
theorem GivenAway.setRollback (h : s.GivenAway order) {k : Nat} {r : RollingBack}
    (hr : s.rollbacks[k]? = some r) {stage : Stage AccountAggregate}
    (hSame : s.Returning order → r.command.correlationId = order.correlationId →
      stage.isOpen = r.stage.isOpen)
    (hLoaded : s.Returning order → r.command.correlationId = order.correlationId →
      ∀ aggregate, stage = .merged aggregate →
        aggregate.eventHistory.filter (·.correlationId = order.correlationId) = s.booked order) :
    (s.setRollback k { r with stage }).GivenAway order := by
  refine h.of_eq h.sent rfl rfl rfl rfl fun hReturning => ⟨?_, ?_⟩
  · rw [failing_setRollback hr (hSame hReturning)]
    exact hReturning.failing
  · intro other hOther hId
    rcases List.mem_or_eq_of_mem_set hOther with hOld | rfl
    · exact hReturning.loaded other hOld hId
    · exact hLoaded hReturning hId

/-- A delivery ends. -/
theorem GivenAway.erase (h : s.GivenAway order) (place : Nat) :
    ({ s with pending := s.pending.eraseIdx place } : World).GivenAway order :=
  h.of_eq h.sent ((placing_erase h.placing place).trans h.placing.symm) rfl rfl rfl
    fun hReturning => ⟨hReturning.failing, hReturning.loaded⟩

/-! ### Rollbacks for the order -/

/-- What takes events back brings no goods and no order. -/
theorem goods_of_revoking {more : List (IEvent EventData)} (h : ∀ event ∈ more, Revoking event) :
    (s.appended (s.store.appendToStream more)).goods order = s.goods order := by
  have hNone : (more.filter fun event => event.name = "InventoryRemovedEvent" ∧
      event.correlationId = order.correlationId) = [] := by
    rw [List.filter_eq_nil_iff]
    intro event hEvent hThis
    rcases h event hEvent with hName | hName <;> simp [hName] at hThis
  change (s.store.appendToStream more).sent.filter _ = s.store.sent.filter _
  rw [sent_appendToStream, List.filter_append, hNone, List.append_nil]

/-- No revoking event is delivered as an order. -/
theorem placing_of_revoking {more : List (IEvent EventData)}
    (h : ∀ event ∈ more, Revoking event) :
    (s.appended (s.store.appendToStream more)).placing order = s.placing order := by
  rw [appended_appendToStream]
  change (s.pending ++ more).countP _ = s.pending.countP _
  rw [List.countP_append, Nat.add_eq_left, List.countP_eq_zero]
  intro event hEvent hThis
  rcases h event hEvent with hName | hName <;> simp [hName] at hThis

/-- What was booked stays booked. -/
theorem booked_subset_appendAll (s : World) (order : IEvent EventData)
    (more : List (IEvent EventData)) :
    s.booked order ⊆ (s.appended (s.store.appendToStream more)).booked order := by
  change s.booked order ⊆ ((s.store.appendToStream more).readFromStream order.streamId).filter _
  rw [MemoryStore.readFromStream_appendToStream, List.filter_append]
  exact List.subset_append_left _ _

/-- The first rollback of the account gives the money back. A later one takes
back what it has loaded once more. -/
theorem GivenAway.rolledBack (h : s.GivenAway order) (hSound : s.Sound stamp) {k : Nat}
    {r : RollingBack} {aggregate : AccountAggregate} (hr : s.rollbacks[k]? = some r)
    (hMerged : r.stage = .merged aggregate)
    (hRevocable : ∀ event ∈ aggregate.eventHistory,
      event.correlationId = r.command.correlationId → Revocable event)
    (hId : r.command.correlationId = order.correlationId) :
    ((s.setRollback k { r with stage := .ended (.ok ()) }).appended
      (s.store.appendToStream (r.committed stamp aggregate))).GivenAway order := by
  have hMem := List.mem_of_getElem? hr
  have hRevoking : ∀ made ∈ r.committed stamp aggregate, Revoking made := fun made hMade =>
    (hSound.committed_rollback hMem hMerged hRevocable hMade).2.1
  have hGoods : ((s.setRollback k { r with stage := .ended (.ok ()) }).appended
      (s.store.appendToStream (r.committed stamp aggregate))).goods order = s.goods order :=
    goods_of_revoking (s := s.setRollback k _) hRevoking
  constructor
  case sent => exact mem_sent_appendAll (s := s.setRollback k _) h.sent _
  case name => exact h.name
  case placing => exact (placing_of_revoking (s := s.setRollback k _) hRevoking).trans h.placing
  case removing => exact h.removing
  case delivered =>
    rw [Delivered, hGoods]
    exact h.delivered
  case back =>
    right
    rcases h.back with hReturning | hReturned
    · obtain ⟨withdrawn, hWithdrawn, hBooked, hHistory⟩ :=
        hReturning.exists_withdrawn hMem hId hMerged
      exact (hSound.refunded_rolledBack hr hMerged hRevocable hId hWithdrawn hBooked
        (hId ▸ hHistory)).1.returned
    · exact hReturned.mono (booked_subset_appendAll (s.setRollback k _) order _)

/-- Whatever happens, the goods stay away and the money goes back. -/
theorem GivenAway.effect (h : s.GivenAway order) (hSound : s.Sound stamp)
    (hStreams : s.Streams stamp) {correlationId : String}
    (hOwn : order.correlationId = some correlationId) {a : Action}
    (hEffect : Effect stamp s a t) : t.GivenAway order := by
  cases hEffect with
  | creating accounts inventories => exact h.of_same rfl rfl rfl rfl
  | @refused _ accounts inventories ids id hPrepared hFresh =>
      have hDraw : (({ s with accounts, inventories } : World).draw ids).GivenAway order :=
        h.of_same rfl rfl rfl rfl
      have hNext : ({ s with accounts, inventories } : World).Sound stamp :=
        { hSound with prepared := hPrepared }
      exact hDraw.rollbackSagas (hNext.draw ids) (some id) none
  | @created _ accounts inventories ids event hPrepared hStream hNew hId hName =>
      have hDraw : (({ s with accounts, inventories } : World).draw ids).GivenAway order :=
        h.of_same rfl rfl rfl rfl
      exact hDraw.push (hSound.apart_created h.sent hOwn fun id hThis => (hId id hThis).2)
  | called hDrawn hMerge => exact h.of_same rfl rfl rfl rfl
  | @requestFailed _ i r aggregate reason hr hMerged =>
      have hSet : (s.setRequest i { r with stage := .ended (.error reason) }).GivenAway order :=
        h.of_same rfl rfl rfl rfl
      exact hSet.rollbackSagas (hSound.setRequest hr fun _ hThis => by cases hThis) _ none
  | @requested _ i r aggregate uuid uuid' now hr hMerged =>
      have hSet : (s.setRequest i { r with stage := .ended (.ok ()) }).GivenAway order :=
        h.of_same rfl rfl rfl rfl
      apply hSet.appendAll
      intro event hEvent
      rw [(committed_of_mem hEvent).correlationId]
      exact hSound.apart_request h.sent hr hMerged
  | caught uuid now hr =>
      apply h.push
      intro hSame
      rw [hOwn] at hSame
      cases hSame
  | removalFailed reason hr hOpen =>
      exact (h.setRemoval hr hOpen _).rollbackSagas
        (hSound.setRemoval hr fun _ hThis => by cases hThis) _ none
  | removalMerged hr hWaiting hMerge => exact h.setRemoval hr (by rw [hWaiting]; rfl) _
  | @removed _ j r aggregate uuid now hr hMerged =>
      have hOpen : r.stage.isOpen = true := by
        rw [hMerged]
        rfl
      apply (h.setRemoval hr hOpen (.ended (.ok ()))).push
      rw [Removing.removedEvent, AggregateRoot.linkEvent_correlationId]
      exact apart_of_removing h.removing (List.mem_of_getElem? hr) hOpen
  | @rollbackFailed _ k r reason hr hWhy =>
      have hMem := List.mem_of_getElem? hr
      have hNot : s.Returning order → r.command.correlationId ≠ order.correlationId := by
        intro hReturning hId
        have hSucceeds := hReturning.rollback_succeeds hSound hStreams h.sent h.name hMem hId
        exact hSucceeds.not_failed hWhy
      exact (h.setRollback hr (fun hThis hId => absurd hId (hNot hThis))
        fun hThis hId => absurd hId (hNot hThis)).rollbackSagas
          (hSound.setRollback hr fun _ hThis => by cases hThis) _ none
  | @rollbackMerged _ k r aggregate hr hWaiting hMerge =>
      refine h.setRollback hr (fun _ _ => by rw [hWaiting]; rfl) fun _ hId other hOther => ?_
      obtain rfl : aggregate = other := by
        injection hOther
      exact hSound.booked_of_mergeContext h.sent h.name (List.mem_of_getElem? hr) hId hMerge
  | @rolledBack k r aggregate hr hMerged hRevocable =>
      by_cases hId : r.command.correlationId = order.correlationId
      · exact h.rolledBack hSound hr hMerged hRevocable hId
      · have hSet : (s.setRollback k { r with stage := .ended (.ok ()) }).GivenAway order :=
          h.setRollback hr (fun _ hThis => absurd hThis hId) fun _ hThis => absurd hThis hId
        apply hSet.appendAll
        intro event hEvent hSame
        have hMade := (hSound.committed_rollback (List.mem_of_getElem? hr) hMerged hRevocable
          hEvent).1
        exact hId (hMade.symm.trans hSame)
  | @rejected place event hPlace => exact (h.erase place).rollbackSagas (hSound.erase place) _ _
  | @ordered place event command hPlace hName hId hInventory hQuantity =>
      have hApart : command.correlationId ≠ order.correlationId := by
        rw [hId]
        exact apart_of_placing h.placing (List.mem_of_getElem? hPlace) hName
      exact (h.erase place).of_eq h.sent rfl (removing_concat hApart) rfl rfl
        fun hReturning => ⟨hReturning.failing, hReturning.loaded⟩
  | @settled place event hPlace hName => exact h.erase place

/-! ### The rejection and what follows -/

/-- An event of the transaction is rejected after the goods have been removed. -/
theorem Follows.givenAway (h : s.Follows order .removed) (hSound : s.Sound stamp) (place : Nat)
    (linked : Option String) :
    (({ s with pending := s.pending.eraseIdx place } : World).rollbackSagas order.correlationId
      linked).GivenAway order := by
  have hAsked : ({ s with pending := s.pending.eraseIdx place } : World).Asked order :=
    h.asked.mpr (by decide)
  rw [(hSound.erase place).rollbackSagas_order h.sent h.name hAsked]
  have hPlacing := h.placing
  rw [if_neg (by decide), World.placing, List.countP_eq_zero] at hPlacing
  constructor
  case sent => exact h.sent
  case name => exact h.name
  case placing =>
    rw [World.placing, List.countP_eq_zero]
    exact fun event hEvent => hPlacing event (List.mem_of_mem_eraseIdx hEvent)
  case removing => exact h.removing
  case delivered => exact h.delivered rfl
  case back =>
    refine Or.inl ⟨h.paid (by decide), ?_, ?_⟩
    · change 0 < (s.rollbacks ++ [_]).countP _
      rw [List.countP_append, List.countP_singleton, if_pos (by simp [Stage.isOpen])]
      exact Nat.succ_pos _
    · intro r hr hId aggregate hMerged
      rcases List.mem_append.mp hr with hOld | hNew
      · exact h.loaded r hOld hId aggregate hMerged
      · rw [List.mem_singleton.mp hNew] at hMerged
        cases hMerged

/-- Whatever else is under way, a rollback that is loaded needs one more step. -/
theorem GivenAway.canReturn_merged (h : s.GivenAway order) (hSound : s.Sound stamp)
    (hStreams : s.Streams stamp) {correlationId : String}
    (hOwn : order.correlationId = some correlationId) (hReturning : s.Returning order) {k : Nat}
    {r : RollingBack} {aggregate : AccountAggregate} (hr : s.rollbacks[k]? = some r)
    (hId : r.command.correlationId = order.correlationId)
    (hMerged : r.stage = .merged aggregate) :
    Runs.CanReach (World.step stamp) (World.Own correlationId) (fun t => t.Returned order) 1 s := by
  have hMem := List.mem_of_getElem? hr
  have hSucceeds := hReturning.rollback_succeeds hSound hStreams h.sent h.name hMem hId
  obtain ⟨hRevocable, hStore⟩ := hSucceeds.stored aggregate hMerged
  obtain ⟨withdrawn, hWithdrawn, hBooked, hHistory⟩ :=
    hReturning.exists_withdrawn hMem hId hMerged
  have hReturned := (hSound.refunded_rolledBack hr hMerged hRevocable hId hWithdrawn hBooked
    (hId ▸ hHistory)).1.returned
  have hMeets : s.Own correlationId (.resumeRollBack k) := ⟨r, hr, hId.trans hOwn⟩
  exact (Runs.CanReach.here (P := fun t : World => t.Returned order) hReturned 0).after
    (step_resumeRollBack hr hMerged hStore) hMeets

/-- The money is given back by now, or two steps of the transaction do it. -/
theorem GivenAway.canReturn (h : s.GivenAway order) (hSound : s.Sound stamp)
    (hStreams : s.Streams stamp) {correlationId : String}
    (hOwn : order.correlationId = some correlationId) :
    Runs.CanReach (World.step stamp) (World.Own correlationId) (fun t => t.Returned order) 2 s := by
  rcases h.back with hReturning | hReturned
  · obtain ⟨k, r, hr, hOpen, hId⟩ := exists_of_failing hReturning.failing
    have hMem := List.mem_of_getElem? hr
    cases hStage : r.stage with
    | ended outcome =>
        rw [hStage] at hOpen
        cases hOpen
    | merged aggregate =>
        exact (h.canReturn_merged hSound hStreams hOwn hReturning hr hId hStage).mono (by decide)
          fun _ ht => ht
    | waiting =>
        obtain ⟨aggregate, hMerge⟩ :=
          (hReturning.rollback_succeeds hSound hStreams h.sent h.name hMem hId).merges
        have hEffect : Effect stamp s (.rollBack k)
            (s.setRollback k { r with stage := .merged aggregate }) :=
          .rollbackMerged hr hStage hMerge
        have hGone := h.effect hSound hStreams hOwn hEffect
        have hNext : (s.setRollback k { r with stage := .merged aggregate }).rollbacks[k]? =
            some { r with stage := .merged aggregate } :=
          List.getElem?_set_self (List.getElem?_eq_some_iff.mp hr).1
        have hMeets : s.Own correlationId (.rollBack k) := ⟨r, hr, hId.trans hOwn⟩
        rcases hGone.back with hStill | hDone
        · exact (hGone.canReturn_merged (hSound.effect hEffect) (hStreams.effect hSound hEffect)
            hOwn hStill hNext hId rfl).after (step_rollBack hr hStage hMerge) hMeets
        · exact (Runs.CanReach.here (P := fun t : World => t.Returned order) hDone 1).after
            (step_rollBack hr hStage hMerge) hMeets
  · exact Runs.CanReach.here (P := fun t : World => t.Returned order) hReturned 2

/-- When a handler of an event of the transaction rejects after the goods have
been removed, they stay removed in every run that follows, and the money goes
back: the saga has no rollback for an inventory. -/
theorem returned_after_delivery (stamp : IEvent EventData → String × Nat) (correlationId : String)
    (actions : List Action)
    (hOrderly : Runs.StepsMeet (World.step stamp) World.Orderly World.new actions)
    (h : Runs.StepsMeet (World.step stamp) (World.Handled correlationId) World.new actions)
    (hRun : Runs.exec (World.step stamp) World.new actions = some s)
    (hOrder : order ∈ s.store.sent) (hName : order.name = "OrderCreatedEvent")
    (hId : order.correlationId = some correlationId) (hDelivered : s.Delivered order)
    {place : Nat} {event : IEvent EventData} (hPlace : s.pending[place]? = some event)
    (hEvent : event.correlationId = some correlationId) :
    ∃ t, s.step stamp (.settle place true) = some t ∧
      ∀ after, Runs.StepsMeet (World.step stamp) World.Orderly t after →
        Runs.Always (World.step stamp)
          (fun u => u.Delivered order ∧ (u.Returned order ∨ u.Paid order ∧ 0 < u.failing order) ∧
            Runs.CanReach (World.step stamp) (World.Own correlationId)
              (fun v => v.Returned order) 2 u) t after := by
  obtain ⟨hSound, hStreams, hPhase⟩ :=
    (always_tracked stamp correlationId actions hOrderly h).last hRun
  obtain ⟨phase, hFollows⟩ := hPhase order hOrder hName hId
  obtain rfl : phase = .removed := by
    by_contra hNot
    obtain ⟨removed, hGoods, -⟩ := hDelivered
    rw [hFollows.kept hNot] at hGoods
    cases hGoods
  have hStep := step_settle stamp hPlace true
  unfold World.settle at hStep
  rw [if_pos rfl, hEvent.trans hId.symm] at hStep
  have hGone := hFollows.givenAway hSound place
    (if truthy order.correlationId then order.correlationId else none)
  have hOpen : s.Orderly (.settle place true) := trivial
  have hEffect := step_effect hSound hOpen hStep
  refine ⟨_, hStep, fun after hAfter => ?_⟩
  apply Runs.always_of_stepsMeet
    (fun u => (u.Sound stamp ∧ u.Streams stamp) ∧ u.GivenAway order) (fun _ => True)
    ?_ ?_ ?_ (fun _ _ => trivial) hAfter
  · intro u a v _ hInv hNext hMeets
    have hThis := step_effect hInv.1.1 hMeets hNext
    exact ⟨⟨hInv.1.1.effect hThis, hInv.1.2.effect hInv.1.1 hThis⟩,
      hInv.2.effect hInv.1.1 hInv.1.2 hId hThis⟩
  · intro u hInv
    refine ⟨hInv.2.delivered, ?_, hInv.2.canReturn hInv.1.1 hInv.1.2 hId⟩
    rcases hInv.2.back with hReturning | hReturned
    · exact Or.inr ⟨hReturning.paid, hReturning.failing⟩
    · exact Or.inl hReturned
  · exact ⟨⟨hSound.effect hEffect, hStreams.effect hSound hEffect⟩, hGone⟩

/-- The event that the lamp was removed, which waits for its handlers. -/
def lampRemoved : IEvent EventData :=
  AggregateRoot.linkEvent
    (some (lampCommand "00000000-0000-4000-8000-000000000006"))
    (Inventory.inventoryRemovedEvent "00000000-0000-4000-8000-00000000000b" 1 "e10" 9)

/-- The lamp is removed, and then two events of its order are rejected. -/
theorem returned_after_delivery_lamps :
    ∃ t, (lampsAfter 20).step lampStamp (.settle 8 true) = some t ∧
      Runs.Always (World.step lampStamp)
        (fun u => u.Delivered lampOrder ∧
          (u.Returned lampOrder ∨ u.Paid lampOrder ∧ 0 < u.failing lampOrder) ∧
          Runs.CanReach (World.step lampStamp) (World.Own "00000000-0000-4000-8000-000000000006")
            (fun v => v.Returned lampOrder) 2 u) t
        [.settle 7 true, .rollBack 1, .rollBack 2, .resumeRollBack 1, .resumeRollBack 2] := by
  have hHandled := stepsMeet_of_accepts lampStamp "00000000-0000-4000-8000-000000000006"
    (show ∀ a ∈ lampsOrdered.take 20, Accepts a by decide)
  have hOrderly : Runs.StepsMeet (World.step lampStamp) World.Orderly World.new
      (lampsOrdered.take 20) := by decide +kernel
  have hAll : (Runs.exec (World.step lampStamp) World.new (lampsOrdered.take 20)).isSome = true ∧
      lampOrder ∈ (lampsAfter 20).store.sent ∧
      (lampsAfter 20).pending[8]? = some lampRemoved ∧
      (lampsAfter 20).goods lampOrder = [lampRemoved] := by decide +kernel
  obtain ⟨hRun, hOrder, hPlace, hGoods⟩ := hAll
  have hAfter : ∀ t ∈ (lampsAfter 20).step lampStamp (.settle 8 true),
      Runs.StepsMeet (World.step lampStamp) World.Orderly t
        [.settle 7 true, .rollBack 1, .rollBack 2, .resumeRollBack 1, .resumeRollBack 2] := by
    decide +kernel
  obtain ⟨t, hStep, hAlways⟩ := returned_after_delivery lampStamp _ _ hOrderly hHandled
    (exec_lampsAfter 20 hRun) hOrder rfl rfl ⟨lampRemoved, hGoods, rfl, rfl⟩ hPlace rfl
  exact ⟨t, hStep, hAlways _ (hAfter t hStep)⟩

end

end World

end Moirae.Orders
