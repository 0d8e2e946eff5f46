import Moirae.Collections.Traversal
import Moirae.Core.AggregateRoot
import Moirae.Runs.Execution

/-! A transaction on one aggregate: its events are applied and the transaction
is rolled back, in any order. The rollback events belong to the transaction
too, and a later rollback stumbles over them. -/
namespace Moirae

/-- The events of these types have `Apply` and `Rollback` handlers. Rollback
events have only the former. -/
structure AggregateClass.Compensating {State Data : Type} (cls : AggregateClass State Data)
    (Emitted : String → Prop) : Prop where
  applies : ∀ name, Emitted name → cls.applyHandler name ≠ none
  rollsBack : ∀ name, Emitted name → cls.rollbackHandler name ≠ none
  rollback_applies : ∀ name handler, cls.rollbackHandler name = some handler →
    ∀ state event, cls.applyHandler (handler state event).name ≠ none
  rollback_final : ∀ name handler, cls.rollbackHandler name = some handler →
    ∀ state event, cls.rollbackHandler (handler state event).name = none

namespace AggregateRoot

variable {State Data : Type} {cls : AggregateClass State Data}

end AggregateRoot

namespace AggregateRollback

variable {State Data : Type}

/-- The aggregate, and what has happened so far: the events that a rollback
event was applied for, with it, and whether the last action was a rollback. -/
structure World (State Data : Type) where
  root : AggregateRoot State Data
  compensations : List (IEvent Data × IEvent Data)
  rolledBack : Bool

inductive Action (Data : Type)
  | apply (event : IEvent Data)
  | rollback

namespace World

variable (cls : AggregateClass State Data) (correlationId : String)

def initial (root : AggregateRoot State Data) : World State Data :=
  { root, compensations := [], rolledBack := false }

/-- The events of the transaction, oldest first. -/
def events (w : World State Data) : List (IEvent Data) :=
  w.root.eventHistory.filter (·.correlationId = some correlationId)

/-- Actions that leave the aggregate deleted are not part of a run. A rollback
that throws is: what it applied before stays applied. -/
def step (w : World State Data) : Action Data → Option (World State Data)
  | .apply event => match w.root.apply cls event false with
    | .error _ => some { w with rolledBack := false }
    | .ok root =>
        if cls.deleted root.state then none else some { w with root, rolledBack := false }
  | .rollback =>
      let root := (w.root.rollback cls (some correlationId)).1
      if cls.deleted root.state then none
      else
        let added := root.eventHistory.drop w.root.eventHistory.length
        some
          { root
            compensations :=
              w.compensations ++ (w.root.transaction (some correlationId)).zip added
            rolledBack := true }

/-- After a rollback, every event of the transaction that can be rolled back has
exactly one rollback event in the history. -/
def Compensated (w : World State Data) : Prop :=
  w.rolledBack = true →
    (w.compensations.map Prod.fst).Perm
      ((w.events correlationId).filter fun event => (cls.rollbackHandler event.name).isSome) ∧
    w.compensations.map Prod.snd =
      (w.events correlationId).filter fun event => (cls.rollbackHandler event.name).isNone

/-- The invariant: the events of the transaction are those compensated, then
their rollback events, then those applied since. -/
structure Divided (w : World State Data) (after : List (IEvent Data)) : Prop where
  live : cls.deleted w.root.state = false
  events_eq : ∃ before, w.events correlationId =
      before ++ w.compensations.map Prod.snd ++ after ∧
    (w.compensations.map Prod.fst).Perm before ∧
    ∀ event ∈ before, cls.rollbackHandler event.name ≠ none
  final : ∀ event ∈ w.compensations.map Prod.snd, cls.rollbackHandler event.name = none
  pending : ∀ event ∈ after, cls.rollbackHandler event.name ≠ none

section

variable {cls} {correlationId} {Emitted : String → Prop}

theorem Divided.apply {w w' : World State Data} {after : List (IEvent Data)}
    {event : IEvent Data} (hClass : cls.Compensating Emitted)
    (hEvent : event.correlationId = some correlationId ∧ Emitted event.name)
    (h : w.Divided cls correlationId after) (hStep : step cls correlationId w (.apply event) =
      some w') : ∃ after', w'.Divided cls correlationId after' := by
  obtain ⟨handler, hHandler⟩ := Option.ne_none_iff_exists'.mp (hClass.applies _ hEvent.2)
  have hApplied : w.root.apply cls event false = .ok (w.root.handled handler event false) :=
    AggregateRoot.apply_eq_ok_iff.mpr ⟨fun hTrue => absurd hTrue (by rw [h.live]; simp), handler,
      hHandler, rfl⟩
  simp only [step, hApplied] at hStep
  split at hStep
  · cases hStep
  · next hLive =>
      obtain rfl := Option.some.inj hStep
      obtain ⟨before, hEvents, hPerm, hBefore⟩ := h.events_eq
      refine ⟨after ++ [AggregateRoot.filed w.root.streamId event], by simpa using hLive,
        ⟨before, ?_, hPerm, hBefore⟩, h.final, ?_⟩
      · change (w.root.eventHistory ++ [_]).filter _ = _
        rw [List.filter_append, ← List.append_assoc, ← hEvents]
        simp [events, hEvent.1]
      · intro other hOther
        rcases List.mem_append.mp hOther with hOld | hNew
        · exact h.pending other hOld
        · rw [List.mem_singleton.mp hNew, AggregateRoot.filed_name]
          exact hClass.rollsBack _ hEvent.2

end

end World

end AggregateRollback

end Moirae
