import Moirae.Core.TransactionChain

/-! The correlation id along a transaction: from the response of `execute` to
every command and event that follows. -/
namespace Moirae.TransactionChain.World

open Transactions (linked collected)

variable {Data : Type} {sagas : List (Saga Data)} {storage : ConstructorStorage}
  {constructors : RollbackConstructors Data}

/-- Every command published and every event appended has the id of the response. -/
def Correlated (w : World Data) : Prop :=
  (∀ command ∈ w.sent, command.correlationId = w.correlationId) ∧
    ∀ commit ∈ w.commits, commit.committed.correlationId = w.correlationId

instance (w : World Data) : Decidable w.Correlated :=
  inferInstanceAs (Decidable ((∀ command ∈ w.sent, command.correlationId = w.correlationId) ∧
    ∀ commit ∈ w.commits, commit.committed.correlationId = w.correlationId))

/-- The invariant: the busses work on messages that have the id. -/
structure Carried (w : World Data) : Prop where
  truthy : truthy w.correlationId = true
  messages : ∀ x ∈ w.busses.executions, x.message.correlationId = w.correlationId
  applying : ∀ x ∈ w.busses.executions, ∀ event runs, x.phase = .applying event runs →
    x.message = .event event

theorem Carried.receive {w : World Data} (h : w.Carried) {message : Transactions.Message Data}
    (hMessage : message.correlationId = w.correlationId) : (w.receive message).Carried := by
  refine ⟨h.truthy, fun x hx => ?_, fun x hx event runs hPhase => ?_⟩
  · rcases List.mem_append.mp hx with hOld | hNew
    · exact h.messages x hOld
    · obtain rfl := List.mem_singleton.mp hNew
      exact hMessage
  · rcases List.mem_append.mp hx with hOld | hNew
    · exact h.applying x hOld event runs hPhase
    · obtain rfl := List.mem_singleton.mp hNew
      cases hPhase

/-- A bus that goes on keeps to the messages it has. -/
theorem Carried.work {w t : World Data} (h : w.Carried) {action : Transactions.Action Data}
    (hWork : w.work sagas storage constructors action = some t) : t.Carried := by
  obtain ⟨hNext, hNot, -, -, -, hId⟩ := work_spec hWork
  have hEach : ∀ x ∈ t.busses.executions, x.message.correlationId = w.correlationId ∧
      ∀ event runs, x.phase = .applying event runs → x.message = .event event := by
    have hOld : ∀ x ∈ w.busses.executions, x.message.correlationId = w.correlationId ∧
        ∀ event runs, x.phase = .applying event runs → x.message = .event event :=
      fun x hx => ⟨h.messages x hx, h.applying x hx⟩
    generalize hBusses : t.busses = busses at hNext ⊢
    intro x hx
    cases Transactions.World.stepped_of_step hNext with
    | started message => exact absurd rfl (hNot message)
    | failed error hAt =>
        rcases List.mem_or_eq_of_mem_set hx with hKept | rfl
        · exact hOld x hKept
        · have hSame := h.messages _ (List.mem_of_getElem? hAt)
          exact ⟨hSame, fun _ _ hPhase => by cases hPhase⟩
    | applying runs hAt =>
        rcases List.mem_or_eq_of_mem_set hx with hKept | rfl
        · exact hOld x hKept
        · have hSame := h.messages _ (List.mem_of_getElem? hAt)
          refine ⟨hSame, fun event runs' hPhase => ?_⟩
          exact congrArg Transactions.Message.event (Transactions.Phase.applying.inj hPhase).1
    | turned hAt =>
        rcases List.mem_or_eq_of_mem_set hx with hKept | rfl
        · exact hOld x hKept
        · have hSame := h.messages _ (List.mem_of_getElem? hAt)
          refine ⟨hSame, fun event runs' hPhase => ?_⟩
          obtain ⟨rfl, -⟩ := Transactions.Phase.applying.inj hPhase
          exact h.applying _ (List.mem_of_getElem? hAt) _ _ rfl
    | ended | rolledBack => exact hOld x (List.eraseIdx_subset hx)
  exact ⟨hId ▸ h.truthy, fun x hx => (hEach x hx).1.trans hId.symm, fun x hx => (hEach x hx).2⟩

theorem Carried.step {w t : World Data} {action : Action Data} (h : w.Carried)
    (hCorrelated : w.Correlated) (hStep : step sagas storage constructors w action = some t) :
    t.Carried := by
  cases action with
  | deliverCommand place =>
      obtain ⟨command, hCommand, rfl⟩ := Option.map_eq_some_iff.mp hStep
      exact h.receive (hCorrelated.1 command (List.mem_of_getElem? hCommand))
  | deliverEvent place =>
      obtain ⟨commit, hCommit, rfl⟩ := Option.map_eq_some_iff.mp hStep
      exact h.receive (hCorrelated.2 commit (List.mem_of_getElem? hCommit))
  | commit place events =>
      obtain ⟨command, -, rfl⟩ := commit_spec hStep
      exact ⟨h.truthy, h.messages, h.applying⟩
  | work action => exact h.work hStep
  | share key value =>
      obtain rfl := Option.some.inj hStep
      exact ⟨h.truthy, h.messages, h.applying⟩

section

open SagaManager

end

end Moirae.TransactionChain.World
