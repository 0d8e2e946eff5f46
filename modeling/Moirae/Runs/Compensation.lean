import Mathlib.Data.List.Induction
import Mathlib.Data.List.Pairwise

/-! Logs of events that act on a state one after the other, in which whole
transactions are taken back: each of their events by one of its own, the latest
first, while events of other transactions come between. -/
namespace Compensation

variable {State Event Id : Type*} (act : State → Event → State)

/-- The second event takes the first one back when both follow this state. -/
def TakesBack (state : State) (event undo : Event) : Prop := act (act state event) undo = state

/-- The order of two events does not matter. -/
def Commute (a b : Event) : Prop := ∀ state, act (act state a) b = act (act state b) a

section

variable {act}

/-- An event moves past others that it commutes with. -/
theorem foldl_of_commute {event : Event} {events : List Event}
    (h : ∀ other ∈ events, Commute act event other) (state : State) :
    events.foldl act (act state event) = act (events.foldl act state) event := by
  induction events generalizing state with
  | nil => rfl
  | cons other events ih =>
      rw [List.foldl_cons, h other List.mem_cons_self,
        ih fun next hNext => h next (List.mem_cons_of_mem _ hNext)]
      rfl

/-- Taking the events of a transaction back, the latest first, leaves what the
other events make of the state, if those that came later do not matter to the
events that take back. The induction is on the events from the last one: one of
the transaction is taken back at once, and another one comes after all that
takes back. -/
theorem foldl_undo {undo : Event → Event} {inside : Event → Bool} {events : List Event}
    (state : State)
    (hUndo : ∀ before event, before ++ [event] <+: events → inside event = true →
      TakesBack act (before.foldl act state) event (undo event))
    (hLater : events.Pairwise fun event other =>
      inside event = true → inside other = false → Commute act other (undo event)) :
    (events ++ (events.filter inside).reverse.map undo).foldl act state =
      (events.filter (!inside ·)).foldl act state := by
  induction events using List.reverseRecOn with
  | nil => rfl
  | append_singleton events event ih =>
      obtain ⟨hLaterRest, -, hLast⟩ := List.pairwise_append.mp hLater
      have hRest := ih
        (fun before old hOld => hUndo before old (hOld.trans (List.prefix_append _ _))) hLaterRest
      rw [List.foldl_append] at hRest
      cases hEvent : inside event with
      | true =>
          have hUndone := hUndo events event (List.prefix_refl _) hEvent
          rw [List.filter_append, List.filter_append, List.foldl_append, List.foldl_append]
          simp only [List.filter_cons, hEvent, List.filter_nil, if_true, List.reverse_append,
            List.reverse_cons, List.reverse_nil, List.nil_append, List.map_cons,
            List.cons_append, List.foldl_cons, List.foldl_nil, Bool.not_true,
            Bool.false_eq_true, if_false, List.append_nil]
          rw [hUndone]
          exact hRest
      | false =>
          have hPast : ∀ taken ∈ (events.filter inside).reverse.map undo,
              Commute act event taken := by
            intro taken hTaken
            obtain ⟨old, hOld, rfl⟩ := List.mem_map.mp hTaken
            rw [List.mem_reverse, List.mem_filter] at hOld
            exact hLast old hOld.1 event (List.mem_singleton_self event) hOld.2 hEvent
          rw [List.filter_append, List.filter_append, List.foldl_append, List.foldl_append]
          simp only [List.filter_cons, hEvent, List.filter_nil, Bool.false_eq_true, if_false,
            List.append_nil, List.foldl_cons, List.foldl_nil, Bool.not_false, if_true,
            List.foldl_append]
          rw [foldl_of_commute hPast, hRest]

end

variable [DecidableEq Id] (start : State) (label : Event → Id)

/-- A log of events with the labels of the transactions that were taken back,
each of them once. Nothing is added to a transaction afterwards. Others may be
left out of the log when one is taken back, so the conditions are about any
part of it. -/
inductive Compensated : List Event → List Id → Prop
  | nil : Compensated [] []
  | append {events : List Event} {undone : List Id} {event : Event}
      (before : Compensated events undone) (hOpen : label event ∉ undone) :
      Compensated (events ++ [event]) undone
  | compensate {events : List Event} {undone : List Id} {id : Id} (undo : Event → Event)
      (before : Compensated events undone) (hOpen : id ∉ undone)
      (hLabel : ∀ event ∈ events, label event = id → label (undo event) = id)
      (hUndo : ∀ done event, (done ++ [event]).Sublist events → label event = id →
        TakesBack act (done.foldl act start) event (undo event))
      (hLater : events.Pairwise fun event other =>
        label event = id → label other ≠ id → Commute act other (undo event)) :
      Compensated (events ++ (events.filter (label · = id)).reverse.map undo) (id :: undone)

variable {act start label} {events : List Event} {undone : List Id}

/-- One transaction taken back, in the part of a log that is kept. -/
theorem foldl_compensate {undo : Event → Event} (keep : Id → Bool) {id : Id}
    (hKeep : keep id = true)
    (hUndo : ∀ done event, (done ++ [event]).Sublist events → label event = id →
      TakesBack act (done.foldl act start) event (undo event))
    (hLater : events.Pairwise fun event other =>
      label event = id → label other ≠ id → Commute act other (undo event)) :
    (events.filter (keep <| label ·) ++
        (events.filter (label · = id)).reverse.map undo).foldl act start =
      (events.filter fun event => keep (label event) && !decide (label event = id)).foldl act
        start := by
  have hInside : events.filter (label · = id) =
      (events.filter (keep <| label ·)).filter (label · = id) := by
    rw [List.filter_filter]
    apply List.filter_congr
    intro event _
    by_cases hEvent : label event = id
    · simp [hEvent, hKeep]
    · simp [hEvent]
  rw [hInside, foldl_undo start ?_ ?_, List.filter_filter]
  · apply congrArg (List.foldl act start)
    apply List.filter_congr
    intro event _
    exact Bool.and_comm _ _
  · intro done event hPrefix hEvent
    exact hUndo done event (hPrefix.sublist.trans List.filter_sublist) (of_decide_eq_true hEvent)
  · exact (hLater.filter _).imp fun h hEvent hOther =>
      h (of_decide_eq_true hEvent) (of_decide_eq_false hOther)

/-- A log makes of the state what its events make of it that were not taken
back. It does so too when only some transactions of it are kept, which is what
the induction needs. -/
theorem Compensated.foldl_filter (h : Compensated act start label events undone)
    (keep : Id → Bool) :
    (events.filter (keep <| label ·)).foldl act start =
      (events.filter fun event => keep (label event) && !decide (label event ∈ undone)).foldl act
        start := by
  induction h generalizing keep with
  | nil => rfl
  | @append events undone event before hOpen ih =>
      have hLast : [event].filter (keep <| label ·) =
          [event].filter fun event => keep (label event) && !decide (label event ∈ undone) := by
        apply List.filter_congr
        intro other hOther
        rw [List.mem_singleton.mp hOther, decide_eq_false hOpen, Bool.not_false, Bool.and_true]
      rw [List.filter_append, List.filter_append, List.foldl_append, List.foldl_append, ih keep,
        hLast]
  | @compensate events undone id undo before hOpen hLabel hUndo hLater ih =>
      have hBatch : ∀ taken ∈ (events.filter (label · = id)).reverse.map undo,
          label taken = id := by
        intro taken hTaken
        obtain ⟨old, hOld, rfl⟩ := List.mem_map.mp hTaken
        rw [List.mem_reverse, List.mem_filter, decide_eq_true_iff] at hOld
        exact hLabel old hOld.1 hOld.2
      have hGone : ((events.filter (label · = id)).reverse.map undo).filter
          (fun event => keep (label event) && !decide (label event ∈ id :: undone)) = [] := by
        rw [List.filter_eq_nil_iff]
        intro taken hTaken
        simp [hBatch taken hTaken]
      have hRest : ∀ keep' : Id → Bool, (∀ other, keep' other = true → other ≠ id) →
          (∀ other, other ≠ id → keep' other = keep other) →
          (events.filter (keep' <| label ·)).foldl act start =
            (events.filter fun event =>
              keep (label event) && !decide (label event ∈ id :: undone)).foldl act start := by
        intro keep' hNot hSame
        rw [ih keep']
        apply congrArg (List.foldl act start)
        apply List.filter_congr
        intro event _
        by_cases hEvent : label event = id
        · have hFalse : keep' id = false := by
            by_contra hTrue
            exact hNot id (by simpa using hTrue) rfl
          simp [hEvent, hFalse]
        · simp [hEvent, hSame _ hEvent]
      rw [List.filter_append, List.filter_append, hGone, List.append_nil]
      cases hKeep : keep id with
      | true =>
          have hAll : ((events.filter (label · = id)).reverse.map undo).filter
              (keep <| label ·) = (events.filter (label · = id)).reverse.map undo := by
            rw [List.filter_eq_self]
            intro taken hTaken
            rw [hBatch taken hTaken]
            exact hKeep
          rw [hAll, foldl_compensate keep hKeep hUndo hLater]
          apply hRest (fun other => keep other && !decide (other = id))
          · intro other hOther
            simp only [Bool.and_eq_true, Bool.not_eq_true', decide_eq_false_iff_not] at hOther
            exact hOther.2
          · intro other hOther
            simp [hOther]
      | false =>
          have hNone : ((events.filter (label · = id)).reverse.map undo).filter
              (keep <| label ·) = [] := by
            rw [List.filter_eq_nil_iff]
            intro taken hTaken
            rw [hBatch taken hTaken, hKeep]
            exact Bool.false_ne_true
          rw [hNone, List.append_nil]
          apply hRest keep
          · rintro other hOther rfl
            rw [hKeep] at hOther
            cases hOther
          · exact fun _ _ => rfl

/-- A log is as good as one in which what was taken back never happened. -/
theorem Compensated.foldl_eq (h : Compensated act start label events undone) :
    events.foldl act start = (events.filter (label · ∉ undone)).foldl act start := by
  have hAll := h.foldl_filter fun _ => true
  have hEvery : events.filter (fun _ => true) = events := List.filter_eq_self.mpr fun _ _ => rfl
  rw [hEvery] at hAll
  rw [hAll]
  simp only [Bool.true_and, decide_not]

end Compensation
