import Moirae.Core.SingleWorker

/-! Queries that are executed while another query is handled. The publisher
hands the next query over when the last one is acknowledged, and that is not
before its handler has ended. -/
namespace Moirae.NestedQueries

open MemoryPublisher (Handling)

variable {Evt : Type}

/-- A handler at work: called for a delivery of the publisher, or directly by
`execute` for a domain that is registered. -/
inductive Caller
  | delivered (delivery : Nat)
  | direct (number : Nat)
  deriving DecidableEq

/-- What `execute` awaits: the response to the query published at this place, or
the handler that it called directly. -/
inductive Awaited
  | response (query : Nat)
  | handler (number : Nat)
  deriving DecidableEq

/-- A handler awaits what it executed. -/
structure Wait where
  caller : Caller
  on : Awaited
  deriving DecidableEq

/-- A query bus on an in-memory publisher, with the handlers that were called
directly and those that await something. -/
structure World (Evt : Type) where
  bus : MemoryPublisher.World Evt
  direct : List Nat
  started : Nat
  waits : List Wait

inductive Action (Evt : Type)
  /-- Not from a handler: a query whose domain is not registered is published. -/
  | execute (event : Evt)
  /-- Not from a handler: the handler of a query of a registered domain is called. -/
  | executeLocal
  /-- A handler executes a query whose domain is not registered. -/
  | nested (caller : Caller) (event : Evt)
  /-- A handler executes a query of a registered domain. -/
  | nestedLocal (caller : Caller)
  /-- The response that is awaited has come, or the handler has ended. -/
  | resume (i : Nat)
  /-- Only the wait for a response is given up. -/
  | timeout (i : Nat)
  /-- The handler of a delivery ends. Whether it fails or not, `executeLocal`
  returns, the response is stored and the delivery acknowledged. -/
  | settle (place : Nat)
  | finish (number : Nat)

/-- The query bus is subscribed when it is bootstrapped. -/
def start (nodeId : Option String) : World Evt where
  bus := { MemoryPublisher.World.initial nodeId with
    publisher := (MemoryPublisher.bootstrapped nodeId).subscribe }
  direct := []
  started := 0
  waits := []

namespace World

def Running (w : World Evt) : Caller → Prop
  | .delivered delivery => delivery ∈ w.bus.running.map Handling.delivery
  | .direct number => number ∈ w.direct

instance (w : World Evt) : (caller : Caller) → Decidable (w.Running caller)
  | .delivered delivery => inferInstanceAs (Decidable (delivery ∈ _))
  | .direct number => inferInstanceAs (Decidable (number ∈ _))

/-- What is awaited has come. -/
def Done (w : World Evt) : Awaited → Prop
  | .response query => query ∈ w.bus.acknowledged
  | .handler number => number ∉ w.direct

instance (w : World Evt) : (on : Awaited) → Decidable (w.Done on)
  | .response query => inferInstanceAs (Decidable (query ∈ _))
  | .handler number => inferInstanceAs (Decidable (number ∉ _))

variable [Respondable Evt] (codec : EventProcessor Evt) (throws : Nat → Uuid → Bool)

/-- What the caller awaits once the query is published; nothing if `publish`
throws. -/
def awaited (w : World Evt) (caller : Caller) (event : Evt) : List Wait :=
  match (MemoryPublisher.publish codec w.bus.publisher event).2 with
  | .threw _ => []
  | .nothing | .emitted _ _ => [⟨caller, .response w.bus.published.length⟩]

/-- A handler that awaits something does not end. -/
def step (w : World Evt) : Action Evt → Option (World Evt)
  | .execute event =>
      (MemoryPublisher.World.step codec throws w.bus (.publish event)).map
        fun bus => { w with bus }
  | .executeLocal => some { w with direct := w.direct ++ [w.started], started := w.started + 1 }
  | .nested caller event =>
      if w.Running caller then
        (MemoryPublisher.World.step codec throws w.bus (.publish event)).map
          fun bus => { w with bus, waits := w.waits ++ w.awaited codec caller event }
      else none
  | .nestedLocal caller =>
      if w.Running caller then some
        { w with
          direct := w.direct ++ [w.started]
          started := w.started + 1
          waits := w.waits ++ [⟨caller, .handler w.started⟩] }
      else none
  | .resume i => match w.waits[i]? with
      | some wait => if w.Done wait.on then some { w with waits := w.waits.eraseIdx i } else none
      | none => none
  | .timeout i => match w.waits[i]? with
      | some ⟨_, .response _⟩ => some { w with waits := w.waits.eraseIdx i }
      | _ => none
  | .settle place => match w.bus.running[place]? with
      | some handling =>
          if .delivered handling.delivery ∈ w.waits.map Wait.caller then none
          else (MemoryPublisher.World.step codec throws w.bus
            (.settle place .resolved (.ok ()))).map fun bus => { w with bus }
      | none => none
  | .finish number =>
      if number ∈ w.direct ∧ .direct number ∉ w.waits.map Wait.caller then
        some { w with direct := w.direct.erase number }
      else none

omit [Respondable Evt] in
/-- The handler of this delivery is the caller, or it awaits it, directly or
through other handlers that were called directly. -/
inductive Serves (w : World Evt) (delivery : Nat) : Caller → Prop
  | handler (hRunning : w.Running (.delivered delivery)) : Serves w delivery (.delivered delivery)
  | awaited {caller : Caller} {number : Nat} (hServes : Serves w delivery caller)
      (hWait : ⟨caller, .handler number⟩ ∈ w.waits) : Serves w delivery (.direct number)

/-- Everything one step can do. -/
inductive Stepped (w : World Evt) : Action Evt → World Evt → Prop
  | published {event : Evt} {bus : MemoryPublisher.World Evt}
      (hBus : MemoryPublisher.World.step codec throws w.bus (.publish event) = some bus) :
      Stepped w (.execute event) { w with bus }
  | called : Stepped w .executeLocal
      { w with direct := w.direct ++ [w.started], started := w.started + 1 }
  | nested {caller : Caller} {event : Evt} {bus : MemoryPublisher.World Evt}
      (hRunning : w.Running caller)
      (hBus : MemoryPublisher.World.step codec throws w.bus (.publish event) = some bus) :
      Stepped w (.nested caller event)
        { w with bus, waits := w.waits ++ w.awaited codec caller event }
  | calledNested {caller : Caller} (hRunning : w.Running caller) :
      Stepped w (.nestedLocal caller)
        { w with
          direct := w.direct ++ [w.started]
          started := w.started + 1
          waits := w.waits ++ [⟨caller, .handler w.started⟩] }
  | ended {action : Action Evt} (i : Nat)
      (hAction : action = .resume i ∨ action = .timeout i)
      (hGone : ∀ caller number, w.waits[i]? = some ⟨caller, .handler number⟩ →
        number ∉ w.direct) :
      Stepped w action { w with waits := w.waits.eraseIdx i }
  | settled {place : Nat} {handling : Handling Evt} {bus : MemoryPublisher.World Evt}
      (hRunning : w.bus.running[place]? = some handling)
      (hFree : .delivered handling.delivery ∉ w.waits.map Wait.caller)
      (hBus : MemoryPublisher.World.step codec throws w.bus
        (.settle place .resolved (.ok ())) = some bus) :
      Stepped w (.settle place) { w with bus }
  | finished {number : Nat} (hFree : .direct number ∉ w.waits.map Wait.caller) :
      Stepped w (.finish number) { w with direct := w.direct.erase number }

variable {codec throws} {w t : World Evt} {action : Action Evt}

/-- What a step does, said once for each kind of step. -/
theorem stepped_of_step (h : step codec throws w action = some t) :
    Stepped codec throws w action t := by
  cases action with
  | execute event =>
      rw [step] at h
      obtain ⟨bus, hBus, rfl⟩ := Option.map_eq_some_iff.mp h
      exact .published hBus
  | executeLocal =>
      cases h
      exact .called
  | nested caller event =>
      rw [step] at h
      split at h
      · obtain ⟨bus, hBus, rfl⟩ := Option.map_eq_some_iff.mp h
        exact .nested ‹_› hBus
      · cases h
  | nestedLocal caller =>
      rw [step] at h
      split at h
      · cases h
        exact .calledNested ‹_›
      · cases h
  | resume i =>
      rw [step] at h
      split at h
      · rename_i wait hWait
        split at h
        · rename_i hDone
          cases h
          refine .ended i (Or.inl rfl) fun caller number hSome => ?_
          obtain rfl := Option.some.inj (hWait.symm.trans hSome)
          exact hDone
        · cases h
      · cases h
  | timeout i =>
      rw [step] at h
      split at h
      · rename_i caller query hWait
        cases h
        refine .ended i (Or.inr rfl) fun caller' number hSome => ?_
        rw [hWait] at hSome
        cases hSome
      · cases h
  | settle place =>
      rw [step] at h
      split at h
      · split at h
        · cases h
        · obtain ⟨bus, hBus, rfl⟩ := Option.map_eq_some_iff.mp h
          exact .settled ‹_› ‹_› hBus
      · cases h
  | finish number =>
      rw [step] at h
      split at h
      · rename_i hGuard
        cases h
        exact .finished hGuard.2
      · cases h

/-- What is awaited of a query that was published. -/
theorem mem_awaited {caller : Caller} {event : Evt} {wait : Wait}
    (h : wait ∈ w.awaited codec caller event) :
    (∃ text, MemoryPublisher.serialized codec w.bus.publisher event = .ok text) ∧
      wait = ⟨caller, .response w.bus.published.length⟩ := by
  constructor
  · cases hItem : MemoryPublisher.serialized codec w.bus.publisher event with
    | ok text => exact ⟨text, rfl⟩
    | error reason =>
        rw [awaited, MemoryPublisher.publish, hItem] at h
        cases h
  · rw [awaited] at h
    split at h
    · cases h
    · exact List.mem_singleton.mp h
    · exact List.mem_singleton.mp h

/-- The invariant of every run. -/
structure Orderly (w : World Evt) : Prop where
  attended : w.bus.Attended
  callers : ∀ wait ∈ w.waits, w.Running wait.caller
  handlers : ∀ caller number, ⟨caller, .handler number⟩ ∈ w.waits →
    number < w.started ∧ ∀ n, caller = .direct n → n < number
  numbered : ∀ number ∈ w.direct, number < w.started

/-- Publishing ends no handler. -/
theorem running_of_publish (hText : codec.WritesText) (h : w.bus.Attended) {event : Evt}
    {bus : MemoryPublisher.World Evt}
    (hBus : MemoryPublisher.World.step codec throws w.bus (.publish event) = some bus)
    (waits : List Wait) {caller : Caller} (hRunning : w.Running caller) :
    Running { w with bus, waits } caller := by
  cases caller with
  | direct number => exact hRunning
  | delivered delivery =>
      have hSome : w.bus.running ≠ [] := by
        rintro hNone
        rw [Running, hNone] at hRunning
        cases hRunning
      change delivery ∈ bus.running.map Handling.delivery
      rw [((h.publish hText hBus).2 hSome).1]
      exact hRunning

/-- A handler that awaits something does not end in this step. -/
theorem Orderly.running_step (hText : codec.WritesText) (h : w.Orderly) {wait : Wait}
    (hWait : wait ∈ w.waits) (hStep : step codec throws w action = some t) :
    t.Running wait.caller := by
  have hRunning := h.callers wait hWait
  cases stepped_of_step hStep with
  | published hBus => exact running_of_publish hText h.attended hBus w.waits hRunning
  | nested _ hBus => exact running_of_publish hText h.attended hBus _ hRunning
  | called | calledNested =>
      cases hCaller : wait.caller with
      | delivered delivery => rwa [hCaller] at hRunning
      | direct number =>
          rw [hCaller] at hRunning
          exact List.mem_append_left _ hRunning
  | ended => exact hRunning
  | @settled place handling bus hSome hFree hBus =>
      cases hCaller : wait.caller with
      | direct number => rwa [hCaller] at hRunning
      | delivered delivery =>
          rw [hCaller] at hRunning
          have hLast := h.attended.length_of_running hRunning
          have hOwn := h.attended.length_of_running
            (List.mem_map_of_mem (List.mem_of_getElem? hSome))
          obtain rfl : delivery = handling.delivery := by omega
          exact absurd (hCaller ▸ List.mem_map_of_mem hWait) hFree
  | @finished number hFree =>
      cases hCaller : wait.caller with
      | delivered delivery => rwa [hCaller] at hRunning
      | direct other =>
          rw [hCaller] at hRunning
          have hNe : other ≠ number := by
            rintro rfl
            exact hFree (hCaller ▸ List.mem_map_of_mem hWait)
          exact (List.mem_erase_of_ne hNe).mpr hRunning

/-- A handler that runs after a step ran before it or was called in it. -/
theorem direct_of_step (hStep : step codec throws w action = some t) {number : Nat}
    (hMem : number ∈ t.direct) (hLt : number < w.started) : number ∈ w.direct := by
  cases stepped_of_step hStep with
  | published | nested | ended | settled => exact hMem
  | finished => exact List.mem_of_mem_erase hMem
  | called | calledNested =>
      rcases List.mem_append.mp hMem with hOld | hNew
      · exact hOld
      · rw [List.mem_singleton.mp hNew] at hLt
        exact absurd hLt (Nat.lt_irrefl _)

omit [Respondable Evt] in
/-- Only the wait at that place is over. -/
theorem mem_eraseIdx_of_ne {waits : List Wait} {wait : Wait} {i : Nat} (hMem : wait ∈ waits)
    (hNe : waits[i]? ≠ some wait) : wait ∈ waits.eraseIdx i := by
  obtain ⟨j, hj⟩ := List.mem_iff_getElem?.mp hMem
  refine List.mem_eraseIdx_iff_getElem?.mpr ⟨j, ?_, hj⟩
  rintro rfl
  exact hNe hj

/-- The wait for a handler lasts until the handler has ended. -/
theorem wait_stays (h : w.Orderly) {caller : Caller} {number : Nat}
    (hWait : ⟨caller, .handler number⟩ ∈ w.waits)
    (hStep : step codec throws w action = some t) (hStill : number ∈ t.direct) :
    ⟨caller, .handler number⟩ ∈ t.waits := by
  have hRuns := direct_of_step hStep hStill (h.handlers caller number hWait).1
  cases stepped_of_step hStep with
  | published | called | settled | finished => exact hWait
  | nested | calledNested => exact List.mem_append_left _ hWait
  | ended i _ hGone =>
      exact mem_eraseIdx_of_ne hWait fun hSome => hGone caller number hSome hRuns

omit [Respondable Evt] in
/-- A delivery is running as long as a handler serves it. -/
theorem Serves.running {delivery : Nat} {caller : Caller} (h : w.Serves delivery caller) :
    w.Running (.delivered delivery) := by
  induction h with
  | handler hRunning => exact hRunning
  | awaited hServes hWait ih => exact ih

/-- As long as it runs, a handler goes on serving the delivery. -/
theorem Serves.step (hText : codec.WritesText) (h : w.Orderly) {delivery : Nat} {caller : Caller}
    (hServes : w.Serves delivery caller) (hStep : World.step codec throws w action = some t)
    (hStill : t.Running caller) : t.Serves delivery caller := by
  induction hServes with
  | handler hRunning => exact .handler hStill
  | awaited hServes hWait ih =>
      exact .awaited (ih (h.running_step hText hWait hStep)) (wait_stays h hWait hStep hStill)

/-- A handler that was running before the step does not begin to serve. -/
theorem Serves.back (h : w.Orderly) {delivery : Nat} {caller : Caller}
    (hServes : t.Serves delivery caller) (hStep : World.step codec throws w action = some t)
    (hRunning : w.Running caller) : w.Serves delivery caller := by
  induction hServes with
  | handler => exact .handler hRunning
  | @awaited caller number hServes hWait ih =>
      have hLt := h.numbered number hRunning
      have hOld : ⟨caller, .handler number⟩ ∈ w.waits := by
        cases stepped_of_step hStep with
        | published | called | settled | finished => exact hWait
        | nested =>
            rcases List.mem_append.mp hWait with hOld | hNew
            · exact hOld
            · cases (mem_awaited hNew).2
        | calledNested =>
            rcases List.mem_append.mp hWait with hOld | hNew
            · exact hOld
            · cases List.mem_singleton.mp hNew
              exact absurd hLt (Nat.lt_irrefl _)
        | ended i => exact List.eraseIdx_subset hWait
      exact .awaited (ih (h.callers _ hOld)) hOld

/-- The invariant of the runs in which no query is published on behalf of a
delivery, and every one can be parsed. -/
structure Unnested (codec : EventProcessor Evt) (w : World Evt) : Prop where
  orderly : w.Orderly
  served : w.bus.Served codec
  responses : ∀ caller query, ⟨caller, .response query⟩ ∈ w.waits →
    (∀ delivery, ¬ w.Serves delivery caller) ∧ query < w.bus.published.length

/-- A state that a run of further handlers leads to, with the bus as it was and
every wait for a response still there. -/
def Onward (codec : EventProcessor Evt) (throws : Nat → Uuid → Bool) (w t : World Evt) : Prop :=
  (∃ actions, Runs.exec (step codec throws) w actions = some t) ∧ t.Unnested codec ∧
    t.bus = w.bus ∧ ∀ caller query, ⟨caller, .response query⟩ ∈ w.waits →
      ⟨caller, .response query⟩ ∈ t.waits

/-- A step more before the others. -/
theorem Onward.after {u : World Evt} (h : t.Onward codec throws u)
    (hStep : step codec throws w action = some t) (hBus : t.bus = w.bus)
    (hWaits : ∀ caller query, ⟨caller, .response query⟩ ∈ w.waits →
      ⟨caller, .response query⟩ ∈ t.waits) : w.Onward codec throws u := by
  obtain ⟨⟨actions, hRun⟩, hUnnested, hSame, hStay⟩ := h
  refine ⟨⟨action :: actions, ?_⟩, hUnnested, hSame.trans hBus, ?_⟩
  · rw [Runs.exec_cons_of_step hStep]
    exact hRun
  · exact fun caller query hWait => hStay caller query (hWaits caller query hWait)

section FindTeam

open MemoryPublisher.World (noneThrow)

end FindTeam

end World

end Moirae.NestedQueries
