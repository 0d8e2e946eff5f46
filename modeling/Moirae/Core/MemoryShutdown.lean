import Moirae.Core.MemoryPublisherRuns

/-! Shutting the in-memory publisher down while worker closures are running. -/
namespace Moirae.MemoryPublisher

def handleShutdown (p : MemoryPublisher) : MemoryPublisher :=
  { p with distributor := p.distributor.clear }

/-- `beforeApplicationShutdown`, up to its `await`. -/
def beforeApplicationShutdown (p : MemoryPublisher) : MemoryPublisher :=
  handleShutdown { p with status := .SHUTTING_DOWN }

/-- `beforeApplicationShutdown`, after its `await`. -/
def shutDown (p : MemoryPublisher) : MemoryPublisher :=
  { p with distributor := p.distributor.clear, status := .NOT_READY }

variable {Evt : Type} [Respondable Evt] {codec : EventProcessor Evt}
  {throws : Nat → Uuid → Bool}

/-- A publisher that is not idle only queues what it is given. -/
theorem publish_of_not_idle (codec : EventProcessor Evt) {p : MemoryPublisher}
    (h : p.status ≠ .IDLE) (event : Evt) :
    ∃ queue uuids advance, p.publish codec event = ({ p with queue, uuids }, advance) ∧
      ∀ item evt, advance ≠ .emitted item evt := by
  unfold publish handlePublish
  cases serialized codec p event with
  | error reason => exact ⟨p.queue, p.uuids, .threw reason, rfl, by simp⟩
  | ok text =>
      dsimp only
      cases p.queue.enqueue p.uuids text with
      | none => exact ⟨p.queue, p.uuids + 1, _, rfl, by simp⟩
      | some queue =>
          refine ⟨queue, p.uuids + 1, .nothing, ?_, by simp⟩
          dsimp only
          split
          · exact advanceBus_blocked (Or.inr h)
          · rfl

omit [Respondable Evt] in
/-- Acknowledging leaves the publisher idle, or at work on the next message. -/
theorem status_acknowledgeEvent (p : MemoryPublisher) :
    (p.acknowledgeEvent codec).1.status = .IDLE ∨
      (p.acknowledgeEvent codec).1.status = .ACTIVE := by
  unfold acknowledgeEvent handleAcknowledge advanceBus
  split
  · exact Or.inl rfl
  · split
    · exact Or.inl rfl
    · split
      · exact Or.inl rfl
      · dsimp only
        split <;> exact Or.inr rfl

namespace Shutdown

/-- A publisher at work, what workers were called with when its shutdown began,
if it has, and whether that has ended. -/
structure World (Evt : Type) where
  atWork : MemoryPublisher.World Evt
  atShutdown : Option (List Delivery)
  ended : Bool

inductive Action (Evt : Type)
  | run (action : MemoryPublisher.Action Evt)
  | beforeApplicationShutdown
  | shutDown

namespace World

def initial (nodeId : Option String) : World Evt :=
  { atWork := .initial nodeId, atShutdown := none, ended := false }

/-- The deliveries that some worker was called with. -/
def handed (w : World Evt) : List Delivery := w.atWork.handed.filter (·.workers ≠ [])

variable (codec throws)

def step (w : World Evt) : Action Evt → Option (World Evt)
  | .run action =>
      match w.atWork.step codec throws action with
      | none => none
      | some atWork => some { w with atWork }
  | .beforeApplicationShutdown =>
      if w.atShutdown = none then
        some { w with
          atWork := { w.atWork with publisher := w.atWork.publisher.beforeApplicationShutdown }
          atShutdown := some w.handed }
      else none
  | .shutDown =>
      if w.atShutdown ≠ none ∧ w.ended = false then
        some { w with
          atWork := { w.atWork with publisher := w.atWork.publisher.shutDown }
          ended := true }
      else none

omit [Respondable Evt] in
def StaysDown (w : World Evt) : Prop :=
  BasePublisher.StaysDown w.atWork.publisher.status w.handed w.atShutdown

omit [Respondable Evt] in
instance (w : World Evt) : Decidable w.StaysDown :=
  inferInstanceAs (Decidable (BasePublisher.StaysDown _ _ _))

/-- After shutdown has started, no worker closure comes to `acknowledgeEvent`. -/
def SettlesSilently (w : World Evt) : Action Evt → Prop
  | .run (.settle place outcome response) =>
      w.atShutdown ≠ none → ∀ handling ∈ w.atWork.running[place]?,
        BasePublisher.acknowledges handling.evt outcome response = false
  | _ => True

variable {codec throws}

/-- What the publisher does when it is not acknowledging. -/
theorem step_of_silent {w v : MemoryPublisher.World Evt} {action : MemoryPublisher.Action Evt}
    (hStep : w.step codec throws action = some v) (hStatus : w.publisher.status ≠ .IDLE)
    (hSilent : ∀ place outcome response, action = .settle place outcome response →
      ∀ handling ∈ w.running[place]?,
        BasePublisher.acknowledges handling.evt outcome response = false) :
    v.publisher.status = w.publisher.status ∧ v.handed = w.handed := by
  cases action with
  | publish event =>
      obtain rfl := Option.some.inj hStep
      obtain ⟨queue, uuids, advance, hPublish, hNot⟩ :=
        publish_of_not_idle codec hStatus event
      rw [hPublish]
      cases advance with
      | nothing | threw reason => exact ⟨rfl, rfl⟩
      | emitted item evt => exact absurd rfl (hNot item evt)
  | subscribe | listen | unsubscribe key =>
      obtain rfl := Option.some.inj hStep
      exact ⟨rfl, rfl⟩
  | settle place outcome response =>
      rw [MemoryPublisher.World.step] at hStep
      cases hRunning : w.running[place]? with
      | none =>
          rw [hRunning] at hStep
          cases hStep
      | some handling =>
          have hNo := hSilent place outcome response rfl handling hRunning
          rw [hRunning] at hStep
          dsimp only at hStep
          rw [hNo, if_neg Bool.false_ne_true] at hStep
          obtain rfl := Option.some.inj hStep
          exact ⟨rfl, rfl⟩

omit [Respondable Evt] in
theorem record_publisher_eq (w : MemoryPublisher.World Evt)
    (result : MemoryPublisher × Advance Evt) : (w.record throws result).publisher = result.1 := by
  obtain ⟨publisher, advance⟩ := result
  cases advance <;> rfl

/-- An acknowledgement puts the publisher to work again. -/
theorem step_of_acknowledges {w v : MemoryPublisher.World Evt} {place : Nat} {outcome : Outcome}
    {response : Except Thrown Unit} {handling : Handling Evt}
    (hStep : w.step codec throws (.settle place outcome response) = some v)
    (hRunning : w.running[place]? = some handling)
    (hAck : BasePublisher.acknowledges handling.evt outcome response = true) :
    v.publisher.status = .IDLE ∨ v.publisher.status = .ACTIVE := by
  rw [MemoryPublisher.World.step, hRunning] at hStep
  dsimp only at hStep
  rw [if_pos hAck] at hStep
  obtain rfl := Option.some.inj hStep
  rw [record_publisher_eq]
  exact status_acknowledgeEvent w.publisher

theorem staysDown_run_iff {w : World Evt} {v : MemoryPublisher.World Evt}
    {action : MemoryPublisher.Action Evt} (h : w.StaysDown)
    (hStep : w.atWork.step codec throws action = some v) :
    World.StaysDown { w with atWork := v } ↔ w.SettlesSilently (.run action) := by
  rcases Option.eq_none_or_eq_some w.atShutdown with hRunning | ⟨before, hBegun⟩
  · refine iff_of_true (BasePublisher.staysDown_of_running hRunning) ?_
    unfold SettlesSilently
    split
    · exact fun hNot => absurd hRunning hNot
    · trivial
  · obtain ⟨hIdle, hActive, hHanded⟩ := h before hBegun
    by_cases hSilent : ∀ place outcome response, action = .settle place outcome response →
        ∀ handling ∈ w.atWork.running[place]?,
          BasePublisher.acknowledges handling.evt outcome response = false
    · obtain ⟨hStatus, hSame⟩ := step_of_silent hStep hIdle hSilent
      refine iff_of_true (fun before' hBefore => ?_) ?_
      · obtain rfl := Option.some.inj (hBegun.symm.trans hBefore)
        exact ⟨hStatus ▸ hIdle, hStatus ▸ hActive, by rw [← hHanded, handed, handed, hSame]⟩
      · cases action with
        | settle place outcome response => exact fun _ => hSilent place outcome response rfl
        | publish event | subscribe | listen | unsubscribe key => trivial
    · push Not at hSilent
      obtain ⟨place, outcome, response, rfl, handling, hRunning, hAck⟩ := hSilent
      refine iff_of_false (fun hDown => ?_) (fun hNot => ?_)
      · obtain ⟨hNotIdle, hNotActive, -⟩ := hDown before hBegun
        have hWorks := step_of_acknowledges hStep hRunning (eq_true_of_ne_false hAck)
        exact hWorks.elim hNotIdle hNotActive
      · exact hAck (hNot (hBegun ▸ Option.some_ne_none before) handling hRunning)

theorem staysDown_step_iff {w t : World Evt} {action : Action Evt} (h : w.StaysDown)
    (hStep : step codec throws w action = some t) :
    t.StaysDown ↔ w.SettlesSilently action := by
  cases action with
  | run action =>
      rw [step] at hStep
      cases hNext : w.atWork.step codec throws action with
      | none =>
          rw [hNext] at hStep
          cases hStep
      | some v =>
          rw [hNext] at hStep
          obtain rfl := Option.some.inj hStep
          exact staysDown_run_iff h hNext
  | beforeApplicationShutdown =>
      rw [step] at hStep
      split at hStep
      · obtain rfl := Option.some.inj hStep
        exact iff_of_true (BasePublisher.staysDown_begun w.handed) trivial
      · cases hStep
  | shutDown =>
      rw [step] at hStep
      split at hStep
      · obtain rfl := Option.some.inj hStep
        exact iff_of_true (BasePublisher.StaysDown.shutDown h) trivial
      · cases hStep

/-- The publisher stays down exactly if no worker closure that is still running
acknowledges its message. -/
theorem staysDown_iff_settlesSilently (codec : EventProcessor Evt) (throws : Nat → Uuid → Bool)
    (nodeId : Option String) (actions : List (Action Evt)) :
    Runs.Always (step codec throws) StaysDown (initial nodeId) actions ↔
      Runs.StepsMeet (step codec throws) SettlesSilently (initial nodeId) actions :=
  Runs.always_iff_stepsMeet (fun _ => True) (fun _ => True) (fun _ _ _ _ _ _ => trivial)
    (fun _ _ _ _ _ h hStep => staysDown_step_iff h hStep) trivial
    (BasePublisher.staysDown_of_running rfl) (fun _ _ => trivial)

end World

end Shutdown

end Moirae.MemoryPublisher
