import Moirae.Demo.OrderRows

/-! The order process with its event handlers. As long as the database refuses
nothing, no handler of an event of an order rejects, so that the order is atomic,
and its row is there until it is taken back. -/
namespace Moirae.Projections

open Demo Account
open Orders (TakesOut)

variable {stamp : IEvent EventData → String × Nat}

namespace World

/-- What is known of the handlers for the transaction. -/
structure Projected (correlationId : String) (s : World) : Prop where
  aligned : s.Aligned
  tidy : s.Tidy
  fine : ∀ d ∈ s.deliveries, d.event.correlationId = some correlationId → Fine d.handling
  orders : ∀ order ∈ s.process.store.sent, order.name = "OrderCreatedEvent" →
    order.correlationId = some correlationId → s.Tracks order

/-- The database refuses nothing that is saved or removed for an event of the
transaction, and the process takes an orderly step. -/
def Accepted (correlationId : String) (s : World) : Action → Prop
  | .process a => s.process.Orderly a
  | .finish place refused => refused = true →
      ∀ d ∈ s.deliveries[place]?, d.event.correlationId ≠ some correlationId
  | _ => True

instance Accepted.decidable (correlationId : String) (s : World) :
    ∀ a : Action, Decidable (s.Accepted correlationId a)
  | .process a => Orders.World.Orderly.decidable s.process a
  | .finish place refused => inferInstanceAs (Decidable (refused = true →
      ∀ d ∈ s.deliveries[place]?, d.event.correlationId ≠ some correlationId))
  | .handle .. | .settle .. => instDecidableTrue

section

variable {s t : World} {correlationId : String}

/-! ### No handler of the transaction rejects -/

/-- Whatever a handler of an event of the transaction is given can be saved or
removed. -/
theorem Projected.fine_handle (h : s.Projected correlationId)
    (hTracked : s.process.Tracked stamp correlationId) {d : Delivery} (hd : d ∈ s.deliveries)
    (hWaiting : d.handling = .waiting) (hOwn : d.event.correlationId = some correlationId) :
    Fine (s.handle stamp d.event) := by
  have hSent := h.aligned.sent hd
  by_cases hOrder : d.event.name = "OrderCreatedEvent"
  · obtain ⟨phase, hFollows⟩ := hTracked.inPhase d.event hSent hOrder hOwn
    obtain rfl := hFollows.phase_of_pending (h.aligned.mem hd) hOrder rfl
    obtain ⟨row, hHandle, hRow⟩ :=
      handle_order hTracked.sound hTracked.streams hFollows (by decide)
    obtain ⟨id, -, hId⟩ := ((hTracked.sound.events d.event hSent).order hOrder).orderId
    rw [hHandle]
    exact ⟨row, id, rfl, hRow.trans hId⟩
  · by_cases hBack : d.event.name = "RollbackOrderCreatedEvent"
    · obtain ⟨order, hMem, hFor⟩ := hTracked.sound.revoking d.event hSent (Or.inr hBack)
      have hTakes : TakesOut order d.event := ⟨hBack, hFor.correlationId.symm⟩
      have hRemoving :=
        (h.orders order hMem hFor.name (hFor.correlationId.trans hOwn)).removing d hd hTakes
      rw [hWaiting] at hRemoving
      cases hRemoving with
      | waiting hListed =>
          obtain ⟨id, hId, hSome⟩ := hListed
          obtain ⟨row, hRow⟩ := Option.isSome_iff_exists.mp hSome
          rw [handle_takesOut hBack, hFor.id hBack, hId, Option.bind_some, hRow]
          exact ⟨row, id, rfl, h.tidy.rows id row hRow⟩
    · exact handle_fine hTracked.sound hTracked.streams hSent hOrder hBack

/-- Each effect keeps the row of the order what it should be. -/
theorem Projected.effect (h : s.Projected correlationId)
    (hTracked : s.process.Tracked stamp correlationId)
    (hNext : t.process.Tracked stamp correlationId) {a : Action}
    (hAccepted : s.Accepted correlationId a) (hEffect : Effect stamp s a t) :
    t.Projected correlationId := by
  have hTidy := h.tidy.effect hEffect
  cases hEffect with
  | processed hNot hStep =>
      obtain ⟨more, hMore⟩ := exists_published hTracked.sound hAccepted hNot hStep
      refine ⟨h.aligned.published hMore, hTidy, fun d hd hOwn => ?_,
        fun order hOrder hName hId => ?_⟩
      · rw [hMore.deliveries] at hd
        rcases List.mem_append.mp hd with hOld | hNew
        · exact h.fine d hOld hOwn
        · obtain ⟨event, -, rfl⟩ := List.mem_map.mp hNew
          trivial
      · obtain ⟨phase, hFollows⟩ := hNext.inPhase order hOrder hName hId
        by_cases hOld : order ∈ s.process.store.sent
        · exact (h.orders order hOld hName hId).published hMore hNext.sound hFollows
        · exact tracks_placed h.aligned hMore hNext.sound hFollows hOld
  | @handled place d hd hWaiting =>
      have hMem := List.mem_of_getElem? hd
      refine ⟨h.aligned.setHandling hd _, hTidy, fun other hOther hOwn => ?_,
        fun order hOrder hName hId => ?_⟩
      · rcases List.mem_or_eq_of_mem_set hOther with hOld | rfl
        · exact h.fine other hOld hOwn
        · exact h.fine_handle hTracked hMem hWaiting hOwn
      · obtain ⟨phase, hFollows⟩ := hTracked.inPhase order hOrder hName hId
        exact (h.orders order hOrder hName hId).handled h.aligned h.tidy hTracked.sound
          hTracked.streams hFollows hd hWaiting
  | @refused place d refused hd hCalled hOpen hWhy =>
      have hOther : d.event.correlationId ≠ some correlationId := by
        intro hOwn
        rcases hWhy with hRefused | hNone
        · exact hAccepted hRefused d hd hOwn
        · exact write_of_fine (h.fine d (List.mem_of_getElem? hd) hOwn) hCalled hOpen hNone
      refine ⟨h.aligned.setHandling hd _, hTidy, fun other hMem hOwn => ?_,
        fun order hOrder hName hId => ?_⟩
      · rcases List.mem_or_eq_of_mem_set hMem with hOld | rfl
        · exact h.fine other hOld hOwn
        · exact absurd hOwn hOther
      · exact (h.orders order hOrder hName hId).setHandling place
          (fun _ hSame => absurd (hSame.trans hId) hOther)
          fun hTakes => absurd (hTakes.2.trans hId) hOther
  | @written place d u hd hWrite =>
      obtain ⟨hProcess, hDeliveries⟩ := write_same hWrite
      have hu : u.deliveries[place]? = some d := by
        rw [hDeliveries]
        exact hd
      refine ⟨(h.aligned.write hWrite).setHandling hu _, hTidy, fun other hMem hOwn => ?_,
        fun order hOrder hName hId => ?_⟩
      · rcases List.mem_or_eq_of_mem_set hMem with hOld | rfl
        · rw [hDeliveries] at hOld
          exact h.fine other hOld hOwn
        · rfl
      · change order ∈ u.process.store.sent at hOrder
        rw [hProcess] at hOrder
        obtain ⟨phase, hFollows⟩ := hTracked.inPhase order hOrder hName hId
        exact (h.orders order hOrder hName hId).written h.aligned h.tidy hTracked.sound hFollows
          hd hWrite
  | @settled place d rejected process hd hSettled hStep =>
      refine ⟨h.aligned.settled hd hStep, hTidy,
        fun other hOther => h.fine other (List.mem_of_mem_eraseIdx hOther),
        fun order hOrder hName hId => ?_⟩
      have hStore := (h.aligned.settled_same hd hStep).1
      change order ∈ process.store.sent at hOrder
      rw [hStore] at hOrder
      exact (h.orders order hOrder hName hId).settled h.aligned hd hSettled hStep

/-- There is no order, and no row of one. -/
theorem projected_new (correlationId : String) : new.Projected correlationId where
  aligned := aligned_new
  tidy :=
    { saving := fun _ hd => absurd hd List.not_mem_nil
      removing := fun _ hd => absurd hd List.not_mem_nil
      rows := fun _ _ hRow => by cases hRow }
  fine _ hd := absurd hd List.not_mem_nil
  orders _ hOrder := absurd hOrder List.not_mem_nil

/-- What the process sees of a step is orderly, and no handler of the transaction
rejects. -/
theorem Projected.handled (h : s.Projected correlationId) {a : Action}
    (hAccepted : s.Accepted correlationId a) (hStep : s.step stamp a = some t)
    {b : Orders.Action} (hLabel : s.label a = some b) :
    s.process.Orderly b ∧ s.process.Handled correlationId b := by
  cases step_effect hStep with
  | @processed a process hNot hProcess =>
      obtain rfl := Option.some.inj hLabel
      refine ⟨hAccepted, ?_⟩
      cases a with
      | settle place rejected => cases hNot
      | _ => trivial
  | handled hd hWaiting => cases hLabel
  | refused hd hCalled hOpen hWhy => cases hLabel
  | written hd hWrite => cases hLabel
  | @settled place d rejected process hd hSettled hProcess =>
      simp only [label, hd, Option.bind_some, hSettled, Option.some.injEq] at hLabel
      rw [← hLabel]
      refine ⟨trivial, fun event hEvent hOwn => ?_⟩
      rw [h.aligned.place hd] at hEvent
      have hFine := h.fine d (List.mem_of_getElem? hd)
        ((congrArg (·.correlationId) (Option.some.inj hEvent)).trans hOwn)
      rw [hSettled] at hFine
      exact hFine

/-- No handler of an event of the transaction has rejected. -/
def Unrejected (correlationId : String) (s : World) : Prop :=
  ∀ d ∈ s.deliveries, d.event.correlationId = some correlationId → d.handling ≠ .settled true

/-- The handlers of the order's events succeed. -/
theorem Projected.unrejected (h : s.Projected correlationId) : s.Unrejected correlationId := by
  intro d hd hOwn hRejected
  have hFine := h.fine d hd hOwn
  rw [hRejected] at hFine
  cases hFine

/-- The row of an order of the transaction, once nothing of it is to be handled,
is there until it is taken back. -/
def Shown (correlationId : String) (s : World) : Prop :=
  ∀ order ∈ s.process.store.sent, order.name = "OrderCreatedEvent" →
    order.correlationId = some correlationId →
      (∀ event ∈ s.process.pending, event.correlationId ≠ some correlationId) →
        (s.Listed order ↔ ¬ s.process.Refunded order)

/-- The invariant says that the row is there exactly while the account has the order. -/
theorem Projected.shown (h : s.Projected correlationId)
    (hTracked : s.process.Tracked stamp correlationId) : s.Shown correlationId := by
  intro order hOrder hName hId hNone
  obtain ⟨phase, hFollows⟩ := hTracked.inPhase order hOrder hName hId
  have hTracks := h.orders order hOrder hName hId
  have hTakesOut := hFollows.takesOut_iff hTracked.sound
  have hStands : ∀ event ∈ s.process.pending, ¬ TakesOut order event :=
    fun event hEvent hTakes => hNone event hEvent (hTakes.2.trans hId)
  by_cases hPhase : phase = .takenBack
  · have hNot := hTracks.unlisted (hTakesOut.mpr hPhase) hStands
    exact ⟨fun hListed => absurd hListed hNot, fun hThis => absurd (hFollows.refunded hPhase) hThis⟩
  · have hPlacing : s.process.placing order = 0 := by
      rw [Orders.World.placing, List.countP_eq_zero]
      exact fun event hEvent hThis => hNone event hEvent ((of_decide_eq_true hThis).2.trans hId)
    have hListed : s.Listed order := by
      apply hTracks.listed hPlacing
      exact fun event hEvent hTakes => hPhase (hTakesOut.mp ⟨event, hEvent, hTakes⟩)
    refine ⟨fun _ hRefunded => ?_, fun _ => hListed⟩
    obtain ⟨withdrawn, hWithdrawn, hBooked⟩ := hFollows.paid hPhase
    obtain ⟨_, _, _, -, -, -, hBoth⟩ := hRefunded
    rw [hBooked] at hBoth
    cases hBoth

/-- As long as the database accepts what is saved and removed for the events of a
transaction, none of their handlers rejects. So its order is atomic, and its row
tells whether it stands. -/
theorem order_shown (stamp : IEvent EventData → String × Nat) (correlationId : String)
    (actions : List Action)
    (h : Runs.StepsMeet (World.step stamp) (World.Accepted correlationId) World.new actions) :
    Runs.Always (World.step stamp) (fun s => s.Unrejected correlationId ∧
      s.process.Atomic correlationId ∧ s.Shown correlationId) World.new actions := by
  have hAlways := (refines_process stamp).always (Orders.World.Tracked stamp correlationId)
    (World.Projected correlationId) (fun s b => s.Orderly b ∧ s.Handled correlationId b)
    (fun _ _ _ hTracked hStep hMeets => hTracked.step hMeets.1 hStep hMeets.2)
    (fun _ _ _ _ _ hOwn hStep hAccepted hLabel => hOwn.handled hAccepted hStep hLabel)
    (fun _ _ _ hTracked hNext hOwn hStep hAccepted =>
      hOwn.effect hTracked hNext hAccepted (step_effect hStep))
    (Orders.World.tracked_new stamp correlationId) (projected_new correlationId) h
  exact hAlways.imp fun s hBoth =>
    ⟨hBoth.2.unrejected, hBoth.1.atomic, hBoth.2.shown hBoth.1⟩

open Orders.World in
/-- The lamps, with their handlers. The database refuses the account, but nothing
of the first order, which is taken back. -/
def lampsHandled : List Action :=
  (lampsOrdered.take 8).map .process ++
    [.handle 3, .handle 0, .finish 3 false, .finish 0 true, .settle 3] ++
    ((lampsOrdered.drop 9).take 5).map .process ++
    [.handle 5, .handle 4, .finish 5 false, .settle 5, .settle 4, .handle 3, .finish 3 false,
      .settle 3]

theorem order_shown_lamps :
    (Runs.exec (step Orders.World.lampStamp) new lampsHandled).isSome = true ∧
      Runs.Always (step Orders.World.lampStamp) (fun s =>
        s.Unrejected "00000000-0000-4000-8000-000000000004" ∧
          s.process.Atomic "00000000-0000-4000-8000-000000000004" ∧
          s.Shown "00000000-0000-4000-8000-000000000004") new lampsHandled := by
  have hAccepted : Runs.StepsMeet (step Orders.World.lampStamp)
      (Accepted "00000000-0000-4000-8000-000000000004") new lampsHandled := by decide +kernel
  exact ⟨by decide +kernel, order_shown Orders.World.lampStamp _ lampsHandled hAccepted⟩

example : ([12, 26].map fun count =>
    (Runs.exec (step Orders.World.lampStamp) new (lampsHandled.take count)).map fun s =>
      (s.orders.get "00000000-0000-4000-8000-00000000000c").isSome) = [some true, some false] := by
  decide +kernel

end

end World

end Moirae.Projections
