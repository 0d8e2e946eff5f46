import Moirae.Core.AggregateCopy

/-! When the loop of `getAggregatePriorTo` ends. The copy appends what it is
given to the history that the loop goes through, so that the end of the history
moves on with the index. -/
namespace Moirae.ObjectClass

open AggregateRoot (filed)

variable {Value Data : Type} (cls : ObjectClass Value Data)

/-- What one evaluation of the loop's condition leads to. -/
inductive Turn (Value Data : Type)
  /-- The entry that is read is beyond the end of the history. -/
  | outside
  | found
  | threw (reason : Thrown)
  | next (aggregate : AggregateRoot (Domain Value) Data)

/-- The entry is read before the index is compared with the length. -/
def turn (uuid : String) (aggregate : AggregateRoot (Domain Value) Data) (idx : Nat) :
    Turn Value Data :=
  match aggregate.eventHistory[idx]? with
  | none => .outside
  | some event =>
      if event.uuid ≠ uuid ∧ idx < aggregate.eventHistory.length then
        match cls.apply aggregate event true with
        | (_, some reason) => .threw reason
        | (aggregate', none) => .next aggregate'
      else .found

/-- From this index on the loop ends, its body is run at most so many times, and
no entry beyond the end of the history is read. -/
def EndsWithin (uuid : String) : Nat → AggregateRoot (Domain Value) Data → Nat → Prop
  | 0, aggregate, idx => match cls.turn uuid aggregate idx with
    | .found => True
    | _ => False
  | steps + 1, aggregate, idx => match cls.turn uuid aggregate idx with
    | .outside => False
    | .found => True
    | .threw _ => True
    | .next aggregate' => EndsWithin uuid steps aggregate' (idx + 1)

/-- The loop makes at most as many steps as the history has entries, and never
reads past its end. -/
def Terminates (root : AggregateRoot (Domain Value) Data) (event : IEvent Data) : Prop :=
  cls.EndsWithin event.uuid root.eventHistory.length (copied root) 0

section

variable {cls}

theorem turn_of_outside {uuid : String} {aggregate : AggregateRoot (Domain Value) Data}
    {idx : Nat} (h : aggregate.eventHistory[idx]? = none) :
    cls.turn uuid aggregate idx = .outside := by
  simp [turn, h]

theorem turn_of_found {uuid : String} {aggregate : AggregateRoot (Domain Value) Data}
    {idx : Nat} {event : IEvent Data} (h : aggregate.eventHistory[idx]? = some event)
    (hFound : event.uuid = uuid) : cls.turn uuid aggregate idx = .found := by
  simp [turn, h, hFound]

variable (cls) in
/-- An entry with another id is applied, whatever the comparison of the index
with the length is for. -/
theorem turn_of_other {uuid : String} {aggregate : AggregateRoot (Domain Value) Data}
    {idx : Nat} {event : IEvent Data} (h : aggregate.eventHistory[idx]? = some event)
    (hOther : event.uuid ≠ uuid) :
    (cls.Takes true aggregate.state event →
        cls.turn uuid aggregate idx = .next (aggregate.handled cls.handle event true)) ∧
      (¬cls.Takes true aggregate.state event →
        ∃ reason, cls.turn uuid aggregate idx = .threw reason) := by
  obtain ⟨hInside, -⟩ := List.getElem?_eq_some_iff.mp h
  simp only [turn, h]
  rw [if_pos ⟨hOther, hInside⟩]
  constructor
  · intro hTakes
    rw [ThrowingClass.apply_of_takes hTakes]
  · intro hRefuses
    obtain ⟨reason, hApply⟩ := ThrowingClass.apply_of_refuses hRefuses
    rw [hApply]
    exact ⟨reason, rfl⟩

/-- The loop of the method is a sequence of these turns: it is still running when
each of them led to a next one. -/
theorem replayUntil_eq_none_iff {uuid : String} {fuel : Nat}
    {aggregate : AggregateRoot (Domain Value) Data} {idx : Nat} :
    cls.replayUntil uuid (fuel + 1) aggregate idx = none ↔
      ∃ aggregate', cls.turn uuid aggregate idx = .next aggregate' ∧
        cls.replayUntil uuid fuel aggregate' (idx + 1) = none := by
  rw [replayUntil, turn]
  cases aggregate.eventHistory[idx]? with
  | none => simp
  | some event =>
      dsimp only
      split
      · rcases cls.apply aggregate event true with ⟨next, _ | reason⟩ <;> simp
      · simp

/-- A loop that ends within some steps is not running any more after these. -/
theorem EndsWithin.replayUntil_ne_none {uuid : String} {steps : Nat}
    {aggregate : AggregateRoot (Domain Value) Data} {idx : Nat}
    (h : cls.EndsWithin uuid steps aggregate idx) {fuel : Nat} (hFuel : steps < fuel) :
    cls.replayUntil uuid fuel aggregate idx ≠ none := by
  induction steps generalizing aggregate idx fuel with
  | zero =>
      obtain ⟨fuel, rfl⟩ := Nat.exists_eq_succ_of_ne_zero (Nat.ne_of_gt hFuel)
      intro hRunning
      obtain ⟨aggregate', hTurn, -⟩ := replayUntil_eq_none_iff.mp hRunning
      rw [EndsWithin, hTurn] at h
      exact h
  | succ steps ih =>
      obtain ⟨fuel, rfl⟩ := Nat.exists_eq_succ_of_ne_zero (Nat.ne_of_gt (Nat.zero_lt_of_lt hFuel))
      intro hRunning
      obtain ⟨aggregate', hTurn, hRest⟩ := replayUntil_eq_none_iff.mp hRunning
      rw [EndsWithin, hTurn] at h
      exact ih h (by omega) hRest

theorem getAggregatePriorTo_eq_none_iff {fuel : Nat} {root : AggregateRoot (Domain Value) Data}
    {event : IEvent Data} :
    cls.getAggregatePriorTo fuel root event = none ↔
      cls.replayUntil event.uuid fuel (copied root) 0 = none := by
  rw [getAggregatePriorTo]
  rcases cls.replayUntil event.uuid fuel (copied root) 0 with _ | ⟨copy, _ | reason⟩ <;> simp

/-- The method returns or throws when its loop ends. -/
theorem Terminates.exists_result {root : AggregateRoot (Domain Value) Data}
    {event : IEvent Data} (h : cls.Terminates root event) {fuel : Nat}
    (hFuel : root.eventHistory.length < fuel) :
    ∃ result, cls.getAggregatePriorTo fuel root event = some result := by
  apply Option.ne_none_iff_exists'.mp
  intro hRunning
  exact h.replayUntil_ne_none hFuel (getAggregatePriorTo_eq_none_iff.mp hRunning)

/-- Without steps left, only the entry with the id ends the loop. -/
theorem not_endsWithin_zero {uuid : String} {aggregate : AggregateRoot (Domain Value) Data}
    {idx : Nat} (hOther : ∀ event, aggregate.eventHistory[idx]? = some event → event.uuid ≠ uuid) :
    ¬cls.EndsWithin uuid 0 aggregate idx := by
  intro hEnds
  rw [EndsWithin] at hEnds
  cases hGet : aggregate.eventHistory[idx]? with
  | none =>
      rw [turn_of_outside hGet] at hEnds
      exact hEnds
  | some event =>
      obtain ⟨hTakes, hRefuses⟩ := cls.turn_of_other hGet (hOther event hGet)
      by_cases h : cls.Takes true aggregate.state event
      · rw [hTakes h] at hEnds
        exact hEnds
      · obtain ⟨reason, hThrew⟩ := hRefuses h
        rw [hThrew] at hEnds
        exact hEnds

/-- An entry with another id costs a step, unless it is refused. -/
theorem endsWithin_succ_iff {uuid : String} {steps : Nat}
    {aggregate : AggregateRoot (Domain Value) Data} {idx : Nat} {event : IEvent Data}
    (hGet : aggregate.eventHistory[idx]? = some event) (hOther : event.uuid ≠ uuid) :
    cls.EndsWithin uuid (steps + 1) aggregate idx ↔
      (cls.Takes true aggregate.state event →
        cls.EndsWithin uuid steps (aggregate.handled cls.handle event true) (idx + 1)) := by
  obtain ⟨hTakes, hRefuses⟩ := cls.turn_of_other hGet hOther
  rw [EndsWithin]
  by_cases h : cls.Takes true aggregate.state event
  · rw [hTakes h]
    simp [h]
  · obtain ⟨reason, hThrew⟩ := hRefuses h
    rw [hThrew]
    simp [h]

/-- The induction is on the entries that the history had at the call and that
are still to come. None of those gone through has the id, nor do the entries that
were appended for them. -/
theorem endsWithin_iff {uuid : String} {done left appended : List (IEvent Data)}
    (hOther : ∀ event ∈ done ++ appended, event.uuid ≠ uuid)
    {aggregate : AggregateRoot (Domain Value) Data}
    (hHistory : aggregate.eventHistory = done ++ left ++ appended) :
    cls.EndsWithin uuid left.length aggregate done.length ↔
      (∃ event ∈ left, event.uuid = uuid) ∨ ¬cls.TakesAll true aggregate.state left := by
  induction left generalizing done appended aggregate with
  | nil =>
      have hNot : ¬((∃ event ∈ ([] : List (IEvent Data)), event.uuid = uuid) ∨
          ¬cls.TakesAll true aggregate.state []) := by
        simp [ThrowingClass.TakesAll]
      apply iff_of_false _ hNot
      apply not_endsWithin_zero
      intro event hGet
      have hEntry := List.mem_of_getElem? hGet
      exact hOther event (by simpa [hHistory] using hEntry)
  | cons event left ih =>
      have hGet : aggregate.eventHistory[done.length]? = some event := by
        simp [hHistory]
      rw [List.length_cons]
      by_cases hFound : event.uuid = uuid
      · rw [EndsWithin, turn_of_found hGet hFound]
        simp [hFound]
      · have hNext : (aggregate.handled cls.handle event true).eventHistory =
            (done ++ [event]) ++ left ++ (appended ++ [filed aggregate.streamId event]) := by
          simp [AggregateRoot.handled, hHistory]
        have hOtherNext : ∀ other ∈ (done ++ [event]) ++
            (appended ++ [filed aggregate.streamId event]), other.uuid ≠ uuid := by
          intro other hMem
          simp only [List.mem_append, List.mem_singleton] at hMem
          rcases hMem with (hDone | rfl) | (hAppended | rfl)
          · exact hOther other (List.mem_append_left _ hDone)
          · exact hFound
          · exact hOther other (List.mem_append_right _ hAppended)
          · rwa [AggregateRoot.filed_uuid]
        have hRest := ih hOtherNext hNext
        rw [List.length_append, List.length_singleton] at hRest
        rw [endsWithin_succ_iff hGet hFound, hRest, List.exists_mem_cons_iff,
          ThrowingClass.TakesAll, not_and_or]
        by_cases h : cls.Takes true aggregate.state event
        · simp only [h, hFound, not_true_eq_false, forall_const, false_or]
          rfl
        · simp [h]

/-- The loop ends as it should exactly when the history has an entry with the id
of the event, or the copy cannot take all of the history. -/
theorem terminates_iff (root : AggregateRoot (Domain Value) Data) (event : IEvent Data) :
    cls.Terminates root event ↔
      (∃ entry ∈ root.eventHistory, entry.uuid = event.uuid) ∨
        ¬cls.TakesAll true root.state.create root.eventHistory := by
  have hCopied : (copied root).eventHistory = [] ++ root.eventHistory ++ [] := by
    simp [copied]
  exact endsWithin_iff (fun _ hMem => absurd hMem List.not_mem_nil) hCopied

/-- Handlers that never throw replay the history again and again: there is
always an entry left, which an earlier turn has appended. -/
theorem replayUntil_eq_none {uuid : String} {aggregate : AggregateRoot (Domain Value) Data}
    (hOther : ∀ event ∈ aggregate.eventHistory, event.uuid ≠ uuid)
    (hAccepts : ∀ event ∈ aggregate.eventHistory, ∀ state (other : IEvent Data),
      other.name = event.name → cls.Accepts state other)
    {idx : Nat} (hInside : idx < aggregate.eventHistory.length) (fuel : Nat) :
    cls.replayUntil uuid fuel aggregate idx = none := by
  induction fuel generalizing aggregate idx with
  | zero => rfl
  | succ fuel ih =>
      have hMem := List.getElem_mem hInside
      have hGet := List.getElem?_eq_getElem hInside
      have hTakes : cls.Takes true aggregate.state aggregate.eventHistory[idx] :=
        ⟨fun _ => rfl, hAccepts _ hMem _ _ rfl⟩
      have hTurn := (cls.turn_of_other hGet (hOther _ hMem)).1 hTakes
      apply replayUntil_eq_none_iff.mpr
      refine ⟨_, hTurn, ?_⟩
      have hNext : (aggregate.handled cls.handle aggregate.eventHistory[idx] true).eventHistory =
          aggregate.eventHistory ++ [filed aggregate.streamId aggregate.eventHistory[idx]] := rfl
      apply ih
      · intro event hEvent
        rw [hNext, List.mem_append, List.mem_singleton] at hEvent
        rcases hEvent with hOld | rfl
        · exact hOther event hOld
        · rw [AggregateRoot.filed_uuid]
          exact hOther _ hMem
      · intro event hEvent state other hName
        rw [hNext, List.mem_append, List.mem_singleton] at hEvent
        rcases hEvent with hOld | rfl
        · exact hAccepts event hOld state other hName
        · rw [AggregateRoot.filed_name] at hName
          exact hAccepts _ hMem state other hName
      · rw [hNext, List.length_append, List.length_singleton]
        omega

/-- Two greetings, and a third one that was never applied: the loop goes on for
ever. In an aggregate without history already the first entry is missing. -/
theorem not_terminates_listed :
    ¬listingHello.Terminates listed (greeting "e3" "tx") ∧
    (∀ fuel, listingHello.getAggregatePriorTo fuel listed (greeting "e3" "tx") = none) ∧
    ¬listingHello.Terminates (.new listingHello.toAggregateClass "hello-1")
      (greeting "e3" "tx") ∧
    ∃ root', listingHello.getAggregatePriorTo 1 (.new listingHello.toAggregateClass "hello-1")
      (greeting "e3" "tx") = some (root', Except.error undefinedEventError) := by
  have hGreetings : ∀ event ∈ (copied listed).eventHistory,
      event.name = "HelloSaidEvent" := by decide
  have hNever : ∀ fuel,
      listingHello.getAggregatePriorTo fuel listed (greeting "e3" "tx") = none := by
    intro fuel
    apply getAggregatePriorTo_eq_none_iff.mpr
    apply replayUntil_eq_none
    · decide
    · intro event hEvent state other hName
      refine ⟨?_, rfl⟩
      simp [listingHello, hName, hGreetings event hEvent]
    · decide
  refine ⟨fun hEnds => ?_, hNever, fun hEnds => hEnds, _, rfl⟩
  obtain ⟨result, hResult⟩ := hEnds.exists_result (Nat.lt_succ_self _)
  rw [hNever] at hResult
  cases hResult

end

end Moirae.ObjectClass
