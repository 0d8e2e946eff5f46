import Moirae.Demo.OrderPhases

/-! Orders are atomic as long as no handler of their events rejects: either the
goods are removed and the money stays withdrawn, or both stay where they were. -/
namespace Moirae.Orders

open Demo Account
open AggregateRoot (linkEvent)

variable {stamp : IEvent EventData → String × Nat}

/-- The request for an order commits the order and its withdrawal. -/
theorem committed_order {r : Requested} {input : CreateOrderInput} {id : String}
    {price : Option Int} (hRequest : r.request = .order input id price) (uuid uuid' : String)
    (now : Nat) :
    ∃ order withdrawn, r.committed uuid uuid' now = [order, withdrawn] ∧
      order.name = "OrderCreatedEvent" ∧ Withdrawal order withdrawn := by
  refine ⟨_, _, by rw [Requested.committed, hRequest]; rfl, ?_, ?_, ?_, ?_⟩
  · rw [AggregateRoot.linkEvent_name]
    rfl
  · rw [AggregateRoot.linkEvent_name]
    rfl
  · rw [AggregateRoot.linkEvent_correlationId, AggregateRoot.linkEvent_correlationId]
    rfl
  · rw [AggregateRoot.linkEvent_data, AggregateRoot.linkEvent_data]
    rfl

namespace World

section

variable {s t : World} {order : IEvent EventData} {phase : Phase}

/-- Nothing has been done for the order. -/
structure Untouched (s : World) (order : IEvent EventData) : Prop where
  placing : s.placing order = 0
  removals : ∀ r ∈ s.removals, r.command.correlationId ≠ order.correlationId
  rollbacks : ∀ r ∈ s.rollbacks, r.command.correlationId ≠ order.correlationId
  goods : s.goods order = []
  booked : s.booked order = []

/-- An order in whose transaction there is no event yet is untouched. -/
theorem Sound.untouched (h : s.Sound stamp)
    (hUnused : ∀ event ∈ s.store.sent, event.correlationId ≠ order.correlationId) :
    s.Untouched order := by
  constructor
  case placing =>
    rw [placing, List.countP_eq_zero]
    intro event hEvent hThis
    exact hUnused event (h.pending event hEvent) (of_decide_eq_true hThis).2
  case removals =>
    intro removal hRemoval
    obtain ⟨other, hOther, -, hId, -⟩ := (h.removals removal hRemoval).ordered
    rw [hId]
    exact hUnused other hOther
  case rollbacks =>
    intro rollback hRollback
    obtain ⟨other, hOther, -, hCommand⟩ := (h.rollbacks rollback hRollback).ordered
    rw [hCommand]
    exact hUnused other hOther
  case goods =>
    rw [goods, List.filter_eq_nil_iff]
    intro event hEvent hThis
    exact hUnused event hEvent (of_decide_eq_true hThis).2
  case booked =>
    rw [booked, List.filter_eq_nil_iff]
    intro event hEvent hThis
    rw [h.filed] at hEvent
    exact hUnused event (List.mem_of_mem_filter hEvent) (of_decide_eq_true hThis)

/-- With its two events an untouched order is in its first phase. -/
theorem Untouched.placed (h : s.Untouched order) (hName : order.name = "OrderCreatedEvent")
    {withdrawn : IEvent EventData} (hWithdrawn : Withdrawal order withdrawn)
    (hStream : withdrawn.streamId = order.streamId) :
    (s.appended (s.store.appendToStream [order, withdrawn])).Follows order .placed := by
  rw [appended_appendToStream]
  constructor
  case sent =>
    change order ∈ (s.store.appendToStream _).sent
    rw [sent_appendToStream]
    simp
  case name => exact hName
  case placing =>
    have hNone := h.placing
    change s.pending.countP _ = 0 at hNone
    change (s.pending ++ [order, withdrawn]).countP _ = 1
    rw [List.countP_append, hNone]
    simp [hName, hWithdrawn.name]
  case removing =>
    change s.removals.countP _ = 0
    rw [List.countP_eq_zero]
    intro removal hRemoval
    simp [h.removals removal hRemoval]
  case failing =>
    change s.rollbacks.countP _ = 0
    rw [List.countP_eq_zero]
    intro rollback hRollback
    simp [h.rollbacks rollback hRollback]
  case asked =>
    constructor
    · intro hAsked
      obtain ⟨removal, hRemoval, hId⟩ := hAsked
      exact absurd hId (h.removals removal hRemoval)
    · exact fun hThis => absurd rfl hThis
  case delivered => exact fun hThis => by cases hThis
  case kept =>
    intro _
    have hNone := h.goods
    change s.store.sent.filter _ = [] at hNone
    change (s.store.appendToStream _).sent.filter _ = []
    rw [sent_appendToStream, List.filter_append, hNone]
    simp [hName, hWithdrawn.name]
  case refunded => exact fun hThis => by cases hThis
  case paid =>
    intro _
    have hNone := h.booked
    change (s.store.readFromStream order.streamId).filter _ = [] at hNone
    refine ⟨withdrawn, hWithdrawn, ?_⟩
    change ((s.store.appendToStream _).readFromStream order.streamId).filter _ = _
    rw [MemoryStore.readFromStream_appendToStream, List.filter_append, hNone]
    simp [hStream, hWithdrawn.correlationId]
  case loaded => exact fun rollback hRollback hId => absurd hId (h.rollbacks rollback hRollback)

/-- An order starts in its first phase. -/
theorem Sound.follows_placed (h : s.Sound stamp) {i : Nat} {r : Requested}
    {aggregate : AccountAggregate} {uuid uuid' : String} {now : Nat}
    (hr : s.requests[i]? = some r) (hMerged : r.stage = .merged aggregate)
    (hOrder : order ∈ r.committed uuid uuid' now) (hName : order.name = "OrderCreatedEvent") :
    ((s.setRequest i { r with stage := .ended (.ok ()) }).appended
      (s.store.appendToStream (r.committed uuid uuid' now))).Follows order .placed := by
  have hCommitted := committed_of_mem hOrder
  obtain ⟨input, id, price, hRequest, -⟩ := hCommitted.order hName
  obtain ⟨first, withdrawn, hBoth, -, hWithdrawn⟩ := committed_order hRequest uuid uuid' now
  obtain rfl : first = order := by
    rw [hBoth] at hOrder
    rcases List.mem_pair.mp hOrder with rfl | rfl
    · rfl
    · rw [hWithdrawn.name] at hName
      simp at hName
  have hStream : withdrawn.streamId = first.streamId := by
    have hMem : withdrawn ∈ r.committed uuid uuid' now := by
      rw [hBoth]
      simp
    rw [(committed_of_mem hMem).streamId, hCommitted.streamId]
  have hUntouched : s.Untouched first := by
    apply h.untouched
    intro event hEvent
    rw [hCommitted.correlationId]
    exact (((h.requests r (List.mem_of_getElem? hr)).merged aggregate hMerged).2 event hEvent).1
  have hEnded : (s.setRequest i { r with stage := .ended (.ok ()) }).Untouched first :=
    { hUntouched with }
  rw [hBoth]
  exact hEnded.placed hName hWithdrawn hStream

/-- No handler of an event of the transaction rejects. -/
def Handled (correlationId : String) (s : World) : Action → Prop
  | .settle place rejected => ∀ event, s.pending[place]? = some event →
      event.correlationId = some correlationId → rejected = false
  | _ => True

instance Handled.decidable (correlationId : String) (s : World) :
    ∀ a : Action, Decidable (s.Handled correlationId a)
  | .settle place rejected => inferInstanceAs (Decidable (∀ event ∈ s.pending[place]?,
      event.correlationId = some correlationId → rejected = false))
  | .createAccount .. | .resumeCreateAccount .. | .createInventory ..
  | .resumeCreateInventory .. | .catchDuplicate .. | .pay .. | .order .. | .resume ..
  | .catchError .. | .remove .. | .resumeRemove .. | .rollBack .. | .resumeRollBack .. =>
      instDecidableTrue

/-- No handler of an event rejects. -/
def Accepts : Action → Prop
  | .settle _ rejected => rejected = false
  | _ => True

instance Accepts.decidable : DecidablePred Accepts
  | .settle _ rejected => inferInstanceAs (Decidable (rejected = false))
  | .createAccount .. | .resumeCreateAccount .. | .createInventory ..
  | .resumeCreateInventory .. | .catchDuplicate .. | .pay .. | .order .. | .resume ..
  | .catchError .. | .remove .. | .resumeRemove .. | .rollBack .. | .resumeRollBack .. =>
      instDecidableTrue

/-- When no handler rejects anything, none rejects an event of this transaction. -/
theorem handled_of_accepts {a : Action} (h : Accepts a) (correlationId : String) (s : World) :
    s.Handled correlationId a := by
  cases a with
  | settle place rejected => exact fun _ _ _ => h
  | _ => trivial

/-- The condition of a run that rejects nothing. -/
theorem stepsMeet_of_accepts (stamp : IEvent EventData → String × Nat) (correlationId : String)
    {actions : List Action} (h : ∀ a ∈ actions, Accepts a) :
    Runs.StepsMeet (World.step stamp) (World.Handled correlationId) World.new actions :=
  Runs.stepsMeet_of_mem fun a ha => handled_of_accepts (h a ha) correlationId

/-- Whatever happens, an order goes on from phase to phase. -/
theorem Follows.effect (h : s.Follows order phase) (hSound : s.Sound stamp)
    (hStreams : s.Streams stamp) {correlationId : String}
    (hOwn : order.correlationId = some correlationId) {a : Action}
    (hEffect : Effect stamp s a t) (hHandled : s.Handled correlationId a) :
    ∃ phase', t.Follows order phase' := by
  have hProper := hSound.events order h.sent
  cases hEffect with
  | creating accounts inventories => exact ⟨phase, { h with }⟩
  | @refused _ accounts inventories ids id hPrepared hFresh =>
      have hDraw : (({ s with accounts, inventories } : World).draw ids).Follows order phase :=
        { h with }
      have hNext : ({ s with accounts, inventories } : World).Sound stamp :=
        { hSound with prepared := hPrepared }
      refine ⟨phase, hDraw.rollbackSagas (hNext.draw ids) (fun hSame => ?_) none⟩
      exact hFresh (hProper.correlationId id hSame.symm)
  | @created _ accounts inventories ids event hPrepared hStream hNew hId hName =>
      have hDraw : (({ s with accounts, inventories } : World).draw ids).Follows order phase :=
        { h with }
      have hApart := hSound.apart_created h.sent hOwn fun id hThis => (hId id hThis).2
      exact ⟨phase, hDraw.push hApart⟩
  | called hDrawn hMerge => exact ⟨phase, { h with }⟩
  | @requestFailed _ i r aggregate reason hr hMerged =>
      have hSet : (s.setRequest i { r with stage := .ended (.error reason) }).Follows order phase :=
        { h with }
      have hSetSound : (s.setRequest i { r with stage := .ended (.error reason) }).Sound stamp :=
        hSound.setRequest hr fun _ hThis => by cases hThis
      exact ⟨phase, hSet.rollbackSagas hSetSound (hSound.apart_request h.sent hr hMerged) none⟩
  | @requested _ i r aggregate uuid uuid' now hr hMerged =>
      have hSet : (s.setRequest i { r with stage := .ended (.ok ()) }).Follows order phase :=
        { h with }
      refine ⟨phase, hSet.appendAll fun event hEvent => ?_⟩
      rw [(committed_of_mem hEvent).correlationId]
      exact hSound.apart_request h.sent hr hMerged
  | caught uuid now hr =>
      refine ⟨phase, h.push fun hSame => ?_⟩
      rw [hOwn] at hSame
      cases hSame
  | @removalFailed _ j r reason hr hOpen =>
      by_cases hId : r.command.correlationId = order.correlationId
      · exact ⟨.failing, h.removalFailed hSound reason hr hOpen hId⟩
      · have hSet : (s.setRemoval j { r with stage := .ended (.error reason) }).Follows order
            phase := h.setRemoval hr fun hThis => absurd hThis hId
        have hSetSound : (s.setRemoval j { r with stage := .ended (.error reason) }).Sound stamp :=
          hSound.setRemoval hr fun _ hThis => by cases hThis
        exact ⟨phase, hSet.rollbackSagas hSetSound hId none⟩
  | removalMerged hr hWaiting hMerge =>
      refine ⟨phase, h.setRemoval hr fun _ => ?_⟩
      rw [hWaiting]
      rfl
  | @removed _ j r aggregate uuid now hr hMerged =>
      by_cases hId : r.command.correlationId = order.correlationId
      · exact ⟨.removed, h.removed hSound hStreams uuid now hr (by rw [hMerged]; rfl) hId⟩
      · have hSet : (s.setRemoval j { r with stage := .ended (.ok ()) }).Follows order phase :=
          h.setRemoval hr fun hThis => absurd hThis hId
        refine ⟨phase, hSet.push fun hSame => ?_⟩
        rw [Removing.removedEvent, AggregateRoot.linkEvent_correlationId] at hSame
        exact hId hSame
  | @rollbackFailed _ k r reason hr hWhy =>
      have hMem := List.mem_of_getElem? hr
      by_cases hId : r.command.correlationId = order.correlationId
      · exact absurd hWhy (h.rollback_succeeds hSound hStreams hMem hId).not_failed
      · have hSet : (s.setRollback k { r with stage := .ended (.error reason) }).Follows order
            phase := h.setRollback hr (fun hThis => absurd hThis hId) fun hThis => absurd hThis hId
        have hSetSound : (s.setRollback k { r with stage := .ended (.error reason) }).Sound
            stamp := hSound.setRollback hr fun _ hThis => by cases hThis
        refine ⟨phase, hSet.rollbackSagas hSetSound (fun hSame => ?_) none⟩
        rcases (hSound.rollbacks r hMem).linked with hNone | hLinked
        · rw [hNone, hOwn] at hSame
          cases hSame
        · exact hId (hLinked.symm.trans hSame)
  | @rollbackMerged _ k r aggregate hr hWaiting hMerge =>
      refine ⟨phase, h.setRollback hr (fun _ => by rw [hWaiting]; rfl) fun hId other hOther => ?_⟩
      obtain rfl : aggregate = other := by
        injection hOther
      exact hSound.booked_of_mergeContext h.sent h.name (List.mem_of_getElem? hr) hId hMerge
  | @rolledBack k r aggregate hr hMerged hRevocable =>
      by_cases hId : r.command.correlationId = order.correlationId
      · exact ⟨.takenBack, h.rolledBack hSound hr hMerged hRevocable hId⟩
      · have hSet : (s.setRollback k { r with stage := .ended (.ok ()) }).Follows order phase :=
          h.setRollback hr (fun hThis => absurd hThis hId) fun hThis => absurd hThis hId
        refine ⟨phase, hSet.appendAll fun event hEvent hSame => ?_⟩
        have hMade := (hSound.committed_rollback (List.mem_of_getElem? hr) hMerged hRevocable
          hEvent).1
        exact hId (hMade.symm.trans hSame)
  | @rejected place event hPlace =>
      have hNot : event.correlationId ≠ order.correlationId := by
        intro hSame
        have hFalse := hHandled event hPlace (hSame.trans hOwn)
        cases hFalse
      exact ⟨phase, (h.erase hPlace fun hThis => hNot hThis.2).rollbackSagas
        (hSound.erase place) hNot _⟩
  | @ordered place event command hPlace hName hId hInventory hQuantity =>
      by_cases hSame : event.correlationId = order.correlationId
      · exact ⟨.removing, h.ordered hPlace hName hSame hId⟩
      · have hErase := h.erase hPlace fun hThis => hSame hThis.2
        have hApart : command.correlationId ≠ order.correlationId := hId ▸ hSame
        refine ⟨phase, hErase.of_eq h.sent rfl (removing_concat hApart) rfl ?_ rfl rfl h.loaded⟩
        simp [Asked, or_and_right, exists_or, hApart]
  | settled hPlace hName => exact ⟨phase, h.erase hPlace fun hThis => hName hThis.1⟩

end

/-- An execution or a delivery for the order is still to come. -/
def UnderWay (s : World) (order : IEvent EventData) : Prop :=
  0 < s.placing order + s.removing order + s.failing order

/-- The order in this transaction is settled or under way, and the goods are
removed and the money is kept only together. -/
def Atomic (correlationId : String) (s : World) : Prop :=
  ∀ order ∈ s.store.sent, order.name = "OrderCreatedEvent" →
    order.correlationId = some correlationId →
      (s.Delivered order ∧ s.Paid order ∧ ¬ s.UnderWay order) ∨
      (s.goods order = [] ∧ s.Refunded order ∧ ¬ s.UnderWay order) ∨
      (s.goods order = [] ∧ s.Paid order ∧ s.UnderWay order)

/-- An order is under way until its goods are removed or its money is back. -/
theorem Follows.underWay_iff {s : World} {order : IEvent EventData} {phase : Phase}
    (h : s.Follows order phase) :
    s.UnderWay order ↔ phase = .placed ∨ phase = .removing ∨ phase = .failing := by
  rw [UnderWay, h.placing, h.removing, h.failing]
  cases phase <;> decide

/-- In every phase the order is complete, undone or still under way. -/
theorem Follows.atomic {s : World} {order : IEvent EventData} {phase : Phase}
    (h : s.Follows order phase) :
    (s.Delivered order ∧ s.Paid order ∧ ¬ s.UnderWay order) ∨
      (s.goods order = [] ∧ s.Refunded order ∧ ¬ s.UnderWay order) ∨
      (s.goods order = [] ∧ s.Paid order ∧ s.UnderWay order) := by
  rw [h.underWay_iff]
  cases phase with
  | placed => exact Or.inr (Or.inr ⟨h.kept (by decide), h.paid (by decide), by decide⟩)
  | removing => exact Or.inr (Or.inr ⟨h.kept (by decide), h.paid (by decide), by decide⟩)
  | removed => exact Or.inl ⟨h.delivered rfl, h.paid (by decide), by decide⟩
  | failing => exact Or.inr (Or.inr ⟨h.kept (by decide), h.paid (by decide), by decide⟩)
  | takenBack => exact Or.inr (Or.inl ⟨h.kept (by decide), h.refunded rfl, by decide⟩)

/-- Orders come from requests only. -/
theorem Sound.sent_effect {s t : World} (h : s.Sound stamp) {a : Action}
    (hEffect : Effect stamp s a t) {order : IEvent EventData} (hOrder : order ∈ t.store.sent)
    (hName : order.name = "OrderCreatedEvent") :
    order ∈ s.store.sent ∨ t.Follows order .placed := by
  have hPush : ∀ event : IEvent EventData, event.name ≠ "OrderCreatedEvent" →
      order ∈ (s.store.push event).sent → order ∈ s.store.sent := by
    intro event hEvent hMem
    rcases List.mem_append.mp hMem with hOld | hNew
    · exact hOld
    · rw [List.mem_singleton.mp hNew] at hName
      exact absurd hName hEvent
  cases hEffect with
  | creating accounts inventories => exact Or.inl hOrder
  | refused accounts inventories ids hPrepared hFresh =>
      rw [World.failed, rollbackSagas_store] at hOrder
      exact Or.inl hOrder
  | created accounts inventories hPrepared hStream hNew hId hCreated =>
      refine Or.inl (hPush _ ?_ hOrder)
      rcases hCreated with hThis | hThis | hThis <;> simp [hThis]
  | called hDrawn hMerge => exact Or.inl hOrder
  | requestFailed reason hr hMerged =>
      rw [World.failed, rollbackSagas_store] at hOrder
      exact Or.inl hOrder
  | @requested _ i r aggregate uuid uuid' now hr hMerged =>
      change order ∈ (s.store.appendToStream (r.committed uuid uuid' now)).sent at hOrder
      rw [sent_appendToStream, List.mem_append] at hOrder
      exact hOrder.imp_right fun hNew => h.follows_placed hr hMerged hNew hName
  | caught uuid now hr =>
      refine Or.inl (hPush _ ?_ hOrder)
      simp [fundsWithdrawalFailedEvent, newEvent]
  | removalFailed reason hr hOpen =>
      rw [World.failed, rollbackSagas_store] at hOrder
      exact Or.inl hOrder
  | removalMerged hr hWaiting hMerge => exact Or.inl hOrder
  | @removed _ j r aggregate uuid now hr hMerged =>
      refine Or.inl (hPush (r.removedEvent uuid now) ?_ hOrder)
      simp [name_removedEvent]
  | rollbackFailed reason hr hWhy =>
      rw [World.failed, rollbackSagas_store] at hOrder
      exact Or.inl hOrder
  | rollbackMerged hr hWaiting hMerge => exact Or.inl hOrder
  | @rolledBack k r aggregate hr hMerged hRevocable =>
      change order ∈ (s.store.appendToStream (r.committed stamp aggregate)).sent at hOrder
      rw [sent_appendToStream, List.mem_append] at hOrder
      refine Or.inl (hOrder.resolve_right fun hNew => ?_)
      rcases (h.committed_rollback (List.mem_of_getElem? hr) hMerged hRevocable hNew).2.1 with
        hThis | hThis <;> simp [hThis] at hName
  | rejected hPlace =>
      rw [rollbackSagas_store] at hOrder
      exact Or.inl hOrder
  | ordered hPlace hThis hId hInventory hQuantity => exact Or.inl hOrder
  | settled hPlace hThis => exact Or.inl hOrder

/-- The order in this transaction is in one of its phases. -/
def InPhase (correlationId : String) (s : World) : Prop :=
  ∀ order ∈ s.store.sent, order.name = "OrderCreatedEvent" →
    order.correlationId = some correlationId → ∃ phase, s.Follows order phase

/-- Everything that is known about the process while the transaction is handled
without a rejection. -/
structure Tracked (stamp : IEvent EventData → String × Nat) (correlationId : String) (s : World) :
    Prop where
  sound : s.Sound stamp
  streams : s.Streams stamp
  inPhase : s.InPhase correlationId

/-- Before anything happens there is no order. -/
theorem tracked_new (stamp : IEvent EventData → String × Nat) (correlationId : String) :
    new.Tracked stamp correlationId where
  sound := sound_new stamp
  streams := streams_new stamp
  inPhase _ hOrder := absurd hOrder List.not_mem_nil

/-- A step keeps the invariant when no handler rejects an event of the order. -/
theorem Tracked.step {s t : World} {correlationId : String} (h : s.Tracked stamp correlationId)
    {a : Action} (hOrderly : s.Orderly a) (hStep : s.step stamp a = some t)
    (hHandled : s.Handled correlationId a) : t.Tracked stamp correlationId := by
  have hEffect := step_effect h.sound hOrderly hStep
  refine ⟨h.sound.effect hEffect, h.streams.effect h.sound hEffect, ?_⟩
  intro order hOrder hName hId
  rcases h.sound.sent_effect hEffect hOrder hName with hOld | hNew
  · obtain ⟨phase, hFollows⟩ := h.inPhase order hOld hName hId
    exact hFollows.effect h.sound h.streams hId hEffect hHandled
  · exact ⟨.placed, hNew⟩

/-- It holds in every run that rejects no event of the order. -/
theorem always_tracked (stamp : IEvent EventData → String × Nat) (correlationId : String)
    (actions : List Action)
    (hOrderly : Runs.StepsMeet (World.step stamp) World.Orderly World.new actions)
    (h : Runs.StepsMeet (World.step stamp) (World.Handled correlationId) World.new actions) :
    Runs.Always (World.step stamp) (World.Tracked stamp correlationId) World.new actions := by
  apply Runs.always_of_stepsMeet (World.Tracked stamp correlationId) (fun _ => True) ?_
      (fun _ hInv => hInv) (tracked_new stamp correlationId) (fun _ _ => trivial)
      (hOrderly.and h)
  exact fun s a t _ hTracked hStep hMeets => hTracked.step hMeets.1 hStep hMeets.2

/-- The invariant says that the order is atomic. -/
theorem Tracked.atomic {s : World} {correlationId : String} (h : s.Tracked stamp correlationId) :
    s.Atomic correlationId := by
  intro order hOrder hName hId
  obtain ⟨phase, hFollows⟩ := h.inPhase order hOrder hName hId
  exact hFollows.atomic

/-- In every orderly run in which no handler of an event of the transaction
rejects, an order is delivered and paid for, or it is not delivered and refunded,
once and in full; until then it is under way. -/
theorem order_atomic (stamp : IEvent EventData → String × Nat) (correlationId : String)
    (actions : List Action)
    (hOrderly : Runs.StepsMeet (World.step stamp) World.Orderly World.new actions)
    (h : Runs.StepsMeet (World.step stamp) (World.Handled correlationId) World.new actions) :
    Runs.Always (World.step stamp) (World.Atomic correlationId) World.new actions := by
  exact (always_tracked stamp correlationId actions hOrderly h).imp
    fun _ hTracked => hTracked.atomic

theorem order_atomic_lamps :
    (Runs.exec (World.step lampStamp) World.new lampsOrdered).isSome = true ∧
      Runs.StepsMeet (World.step lampStamp)
        (World.Handled "00000000-0000-4000-8000-000000000004") World.new lampsOrdered ∧
      Runs.Always (World.step lampStamp)
        (World.Atomic "00000000-0000-4000-8000-000000000004") World.new lampsOrdered := by
  have hHandled := stepsMeet_of_accepts lampStamp "00000000-0000-4000-8000-000000000004"
    (show ∀ a ∈ lampsOrdered, Accepts a by decide)
  exact ⟨lampsOrdered_possible, hHandled,
    order_atomic lampStamp _ lampsOrdered lampsOrdered_orderly hHandled⟩

/-! ## Accounts in which orders are settled -/

/-- The transaction is that of an order which is over, and nothing was
delivered. -/
def CalledOff (s : World) (events : List (IEvent EventData)) (correlationId : Option String) :
    Prop :=
  ∃ order ∈ events, order.name = "OrderCreatedEvent" ∧ order.correlationId = correlationId ∧
    s.goods order = [] ∧ ¬ s.UnderWay order

instance (s : World) (events : List (IEvent EventData)) (correlationId : Option String) :
    Decidable (s.CalledOff events correlationId) := by
  unfold CalledOff UnderWay
  infer_instance

/-- An account that is loaded is what the events make of it but for those of
orders that are over and were not delivered. -/
def Settled (stamp : IEvent EventData → String × Nat) (s : World) : Prop :=
  ∀ streamId aggregate,
    (accountAggregate stamp).mergeContext streamId (s.store.readFromStream streamId) =
        .ok aggregate →
      view aggregate.state =
        ((s.store.readFromStream streamId).filter fun event =>
          ¬ s.CalledOff (s.store.readFromStream streamId) event.correlationId).foldl act start

section

variable {s : World}

/-- The stream of an id has what was sent there. -/
theorem Sound.mem_stream (h : s.Sound stamp) {event : IEvent EventData} {streamId : String} :
    event ∈ s.store.readFromStream streamId ↔
      event ∈ s.store.sent ∧ event.streamId = streamId := by
  rw [h.filed, List.mem_filter, decide_eq_true_iff]

/-- While an order is being taken back, nothing else is booked in its
transaction. -/
theorem stillOpen_of_follows (hSound : s.Sound stamp)
    (h : ∀ order ∈ s.store.sent, order.name = "OrderCreatedEvent" → ∃ phase, s.Follows order phase)
    (a : Action) : s.StillOpen a := by
  cases a with
  | resumeRollBack k =>
      intro r hr aggregate hMerged
      have hMem := List.mem_of_getElem? hr
      obtain ⟨order, hOrder, hName, hCommand⟩ := (hSound.rollbacks r hMem).ordered
      have hId : r.command.correlationId = order.correlationId := by rw [hCommand]
      obtain ⟨phase, hFollows⟩ := h order hOrder hName
      obtain ⟨-, hStream, withdrawn, -, hBooked, hHistory⟩ :=
        hFollows.merged hSound hMem hId hMerged
      rw [hId, hStream, hHistory]
      exact hBooked
  | _ => trivial

/-- What is taken back are the orders that are over without a delivery. -/
theorem takenBack_iff_calledOff (hSound : s.Sound stamp)
    (h : ∀ order ∈ s.store.sent, order.name = "OrderCreatedEvent" → ∃ phase, s.Follows order phase)
    (streamId : String) (correlationId : Option String) :
    TakenBack (s.store.readFromStream streamId) correlationId ↔
      s.CalledOff (s.store.readFromStream streamId) correlationId := by
  constructor
  · rintro ⟨event, hEvent, hRevoking, rfl⟩
    obtain ⟨hSent, hStream⟩ := hSound.mem_stream.mp hEvent
    obtain ⟨order, hOrder, hName, hId, hOrderStream, -⟩ := hSound.revoking event hSent hRevoking
    refine ⟨order, hSound.mem_stream.mpr ⟨hOrder, hOrderStream.trans hStream⟩, hName, hId, ?_⟩
    obtain ⟨phase, hFollows⟩ := h order hOrder hName
    have hBooked : event ∈ s.booked order := by
      rw [booked, hOrderStream, hStream, List.mem_filter]
      exact ⟨hEvent, decide_eq_true hId.symm⟩
    have hNot : ¬ s.Paid order := by
      rintro ⟨withdrawn, hWithdrawn, hBoth⟩
      rw [hBoth] at hBooked
      rcases List.mem_pair.mp hBooked with rfl | rfl
      · simp [Revoking, hName] at hRevoking
      · simp [Revoking, hWithdrawn.name] at hRevoking
    rcases hFollows.atomic with hThis | ⟨hKept, -, hOver⟩ | hThis
    · exact absurd hThis.2.1 hNot
    · exact ⟨hKept, hOver⟩
    · exact absurd hThis.2.1 hNot
  · rintro ⟨order, hOrder, hName, rfl, hKept, hOver⟩
    obtain ⟨hSent, hStream⟩ := hSound.mem_stream.mp hOrder
    obtain ⟨phase, hFollows⟩ := h order hSent hName
    rcases hFollows.atomic with ⟨⟨event, hGoods, -⟩, -⟩ | ⟨-, hRefunded, -⟩ | hThis
    · rw [hKept] at hGoods
      cases hGoods
    · obtain ⟨withdrawn, returned, removed, -, -, hRevokes, hBooked⟩ := hRefunded
      have hMem : removed ∈ s.booked order := by
        rw [hBooked]
        simp
      rw [booked, hStream, List.mem_filter, decide_eq_true_iff] at hMem
      exact ⟨removed, hMem.1, hRevokes.revoking (Or.inr hName), hMem.2⟩
    · exact absurd hThis.2.2 hOver

/-- Everything that is known about the process while no handler rejects. -/
structure Accounted (stamp : IEvent EventData → String × Nat) (s : World) : Prop where
  sound : s.Sound stamp
  streams : s.Streams stamp
  balanced : AllBalanced s.store
  inPhase : ∀ order ∈ s.store.sent, order.name = "OrderCreatedEvent" →
    ∃ phase, s.Follows order phase

/-- Nothing was booked yet. -/
theorem accounted_new (stamp : IEvent EventData → String × Nat) : new.Accounted stamp where
  sound := sound_new stamp
  streams := streams_new stamp
  balanced _ _ := balanced_nil
  inPhase _ hOrder := absurd hOrder List.not_mem_nil

/-- A step keeps the invariant when no handler rejects the event. -/
theorem Accounted.step {t : World} (h : s.Accounted stamp) {a : Action} (hOrderly : s.Orderly a)
    (hStep : s.step stamp a = some t) (hAccepts : Accepts a) : t.Accounted stamp := by
  have hEffect := step_effect h.sound hOrderly hStep
  refine ⟨h.sound.effect hEffect, h.streams.effect h.sound hEffect,
    h.sound.balanced_effect h.balanced hEffect (stillOpen_of_follows h.sound h.inPhase a), ?_⟩
  intro order hOrder hName
  rcases h.sound.sent_effect hEffect hOrder hName with hOld | hNew
  · obtain ⟨phase, hFollows⟩ := h.inPhase order hOld hName
    obtain ⟨own, hOwn, -⟩ := ((h.sound.events order hOld).order hName).transaction
    exact hFollows.effect h.sound h.streams hOwn hEffect (handled_of_accepts hAccepts own s)
  · exact ⟨.placed, hNew⟩

/-- It holds in every run in which no handler rejects an event. -/
theorem always_accounted (stamp : IEvent EventData → String × Nat) {actions : List Action}
    (hOrderly : Runs.StepsMeet (World.step stamp) World.Orderly World.new actions)
    (h : ∀ a ∈ actions, Accepts a) :
    Runs.Always (World.step stamp) (World.Accounted stamp) World.new actions :=
  Runs.always_of_stepsMeet (World.Accounted stamp) Accepts
    (fun _ _ _ hAccepts hInv hStep hThis => hInv.step hThis hStep hAccepts) (fun _ hInv => hInv)
    (accounted_new stamp) h hOrderly

/-- In every orderly run in which no handler of an event rejects, an account has
paid for the orders that were delivered or are under way, and is otherwise as if
they had not been made. -/
theorem account_settled (stamp : IEvent EventData → String × Nat) (actions : List Action)
    (hOrderly : Runs.StepsMeet (World.step stamp) World.Orderly World.new actions)
    (h : ∀ a ∈ actions, Accepts a) :
    Runs.Always (World.step stamp) (World.Settled stamp) World.new actions := by
  apply (always_accounted stamp hOrderly h).imp
  intro s hAccounted streamId aggregate hMerge
  rw [erased_of_balanced hAccounted.balanced streamId aggregate hMerge]
  apply congrArg (List.foldl act start)
  apply List.filter_congr
  intro event _
  rw [decide_eq_decide, takenBack_iff_calledOff hAccounted.sound hAccounted.inPhase]

theorem account_settled_lamps :
    (Runs.exec (World.step lampStamp) World.new lampsOrdered).isSome = true ∧
      Runs.Always (World.step lampStamp) (World.Settled lampStamp) World.new lampsOrdered :=
  ⟨lampsOrdered_possible,
    account_settled lampStamp lampsOrdered lampsOrdered_orderly (by decide)⟩

end

end World

end Moirae.Orders
