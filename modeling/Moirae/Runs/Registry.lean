import Mathlib.Data.List.Nodup
import Mathlib.Data.Set.Insert
import Mathlib.Logic.Function.Basic

/-! Agents that enter values which must stay distinct into a register whose
index lags behind. An agent first holds the value, then asks the index, and
enters the value only if the index does not have it. The value is let go once
the index has it. Agents may give up at any time, and the index may be told of
an entry, and the value let go, more than once. -/
namespace Registry

/-- What an agent knows about the value that it holds. -/
inductive Stage
  | unknown
  | absent
  | present
  deriving DecidableEq

@[ext] structure State (Agent Value : Type*) where
  held : Set Value
  index : Set Value
  entries : List Value
  candidate : Agent → Option (Value × Stage)
  /-- What was let go because the index has it. -/
  settled : Set Value
  /-- What agents held when they gave up. -/
  abandoned : Set Value

variable {Agent Value : Type*}

def initial : State Agent Value := ⟨∅, ∅, [], fun _ => none, ∅, ∅⟩

def Holds (s : State Agent Value) (a : Agent) (v : Value) : Prop :=
  ∃ stage, s.candidate a = some (v, stage)

inductive Step [DecidableEq Agent] : State Agent Value → State Agent Value → Prop where
  | hold {s : State Agent Value} (a : Agent) (v : Value) (hIdle : s.candidate a = none)
      (hFree : v ∉ s.held) :
      Step s { s with
        held := insert v s.held
        candidate := Function.update s.candidate a (some (v, .unknown)) }
  | findAbsent {s : State Agent Value} (a : Agent) (v : Value)
      (hHeld : s.candidate a = some (v, .unknown)) (hAbsent : v ∉ s.index) :
      Step s { s with candidate := Function.update s.candidate a (some (v, .absent)) }
  | findPresent {s : State Agent Value} (a : Agent) (v : Value)
      (hHeld : s.candidate a = some (v, .unknown)) (hPresent : v ∈ s.index) :
      Step s { s with candidate := Function.update s.candidate a (some (v, .present)) }
  | enter {s : State Agent Value} (a : Agent) (v : Value)
      (hAbsent : s.candidate a = some (v, .absent)) :
      Step s { s with
        entries := s.entries ++ [v]
        candidate := Function.update s.candidate a none }
  | letGo {s : State Agent Value} (a : Agent) (v : Value)
      (hPresent : s.candidate a = some (v, .present)) :
      Step s { s with
        held := s.held \ {v}
        candidate := Function.update s.candidate a none }
  | giveUp {s : State Agent Value} (a : Agent) (v : Value) (hHolds : Holds s a v) :
      Step s { s with
        candidate := Function.update s.candidate a none
        abandoned := insert v s.abandoned }
  | show {s : State Agent Value} (v : Value) (hEntry : v ∈ s.entries) :
      Step s { s with index := insert v s.index }
  | settle {s : State Agent Value} (v : Value) (hIndex : v ∈ s.index) :
      Step s { s with held := s.held \ {v}, settled := insert v s.settled }

/-- No value was entered twice. The other parts carry the induction: as long as
the index does not have a value, the value is at one place only, with the agent
that holds it or among the entries, and it is held. -/
structure Sound (s : State Agent Value) : Prop where
  unique : s.entries.Nodup
  entered : ∀ v ∈ s.index, v ∈ s.entries
  exclusive : ∀ a b v, v ∉ s.index → Holds s a v → Holds s b v → a = b
  apart : ∀ a v, v ∉ s.index → Holds s a v → v ∉ s.entries
  held : ∀ v, v ∉ s.index → (v ∈ s.entries ∨ ∃ a, Holds s a v) → v ∈ s.held
  absent : ∀ a v, s.candidate a = some (v, .absent) → v ∉ s.index
  present : ∀ a v, s.candidate a = some (v, .present) → v ∈ s.index

theorem sound_initial : Sound (initial : State Agent Value) := by
  constructor <;> simp [initial, Holds]

/-- Every held value is on its way: an agent has it, or it was entered and is
not settled yet, or an agent gave up on it. -/
structure Accounted (s : State Agent Value) : Prop where
  settled : s.settled ⊆ s.index
  held : ∀ v ∈ s.held,
    (∃ a, Holds s a v) ∨ (v ∈ s.entries ∧ v ∉ s.settled) ∨ v ∈ s.abandoned

theorem accounted_initial : Accounted (initial : State Agent Value) := by
  constructor <;> simp [initial]

section Steps

variable [DecidableEq Agent] {s t : State Agent Value} {a b : Agent} {v w : Value} {stage : Stage}

omit [DecidableEq Agent] in
theorem Holds.eq (hv : Holds s a v) (hw : Holds s a w) : v = w := by
  obtain ⟨stage, hStage⟩ := hv
  obtain ⟨stage', hStage'⟩ := hw
  rw [hStage] at hStage'
  exact (Prod.mk.inj (Option.some.inj hStage')).1

/-- An agent without a value takes one. -/
theorem holds_take (hIdle : s.candidate a = none) :
    (∃ known, Function.update s.candidate a (some (v, stage)) b = some (w, known)) ↔
      (b = a ∧ w = v) ∨ Holds s b w := by
  by_cases hSame : b = a
  · simp [hSame, Holds, hIdle, eq_comm]
  · simp [hSame, Holds]

/-- An agent learns something about its value. -/
theorem holds_learn (hHolds : Holds s a v) :
    (∃ known, Function.update s.candidate a (some (v, stage)) b = some (w, known)) ↔
      Holds s b w := by
  by_cases hSame : b = a
  · subst hSame
    simp only [Function.update_self, Option.some.injEq, Prod.mk.injEq]
    constructor
    · intro hEq
      obtain ⟨_, rfl, _⟩ := hEq
      exact hHolds
    · intro hw
      exact ⟨stage, hHolds.eq hw, rfl⟩
  · simp [hSame, Holds]

/-- An agent is done with its value. -/
theorem holds_leave :
    (∃ known, Function.update s.candidate a none b = some (w, known)) ↔
      b ≠ a ∧ Holds s b w := by
  by_cases hSame : b = a
  · simp [hSame]
  · simp [hSame, Holds]

/-- What is known of a value after an agent learned something. -/
theorem candidate_update_eq_some {known : Stage} {candidate : Option (Value × Stage)}
    (h : Function.update s.candidate a candidate b = some (w, known)) :
    b = a ∧ candidate = some (w, known) ∨ s.candidate b = some (w, known) := by
  by_cases hSame : b = a
  · subst hSame
    rw [Function.update_self] at h
    exact Or.inl ⟨rfl, h⟩
  · rw [Function.update_of_ne hSame] at h
    exact Or.inr h

theorem Sound.hold (h : Sound s) (hIdle : s.candidate a = none) (hFree : v ∉ s.held) :
    Sound { s with
      held := insert v s.held
      candidate := Function.update s.candidate a (some (v, .unknown)) } where
  unique := h.unique
  entered := h.entered
  exclusive b c w hw hb hc := by
    -- a free value that the index does not have is with no agent
    have hNone : ∀ d, w = v → ¬ Holds s d w := fun d hSame hd =>
      hFree (hSame ▸ h.held w hw (Or.inr ⟨d, hd⟩))
    rcases (holds_take hIdle).mp hb with ⟨rfl, hbv⟩ | hb
    · rcases (holds_take hIdle).mp hc with ⟨rfl, _⟩ | hc
      · rfl
      · exact absurd hc (hNone c hbv)
    · rcases (holds_take hIdle).mp hc with ⟨_, hcv⟩ | hc
      · exact absurd hb (hNone b hcv)
      · exact h.exclusive b c w hw hb hc
  apart b w hw hb := by
    rcases (holds_take hIdle).mp hb with ⟨_, rfl⟩ | hb
    · intro hEntered
      exact hFree (h.held w hw (Or.inl hEntered))
    · exact h.apart b w hw hb
  held w hw hPlace := by
    rcases hPlace with hEntered | ⟨b, hb⟩
    · exact Or.inr (h.held w hw (Or.inl hEntered))
    · rcases (holds_take hIdle).mp hb with ⟨_, rfl⟩ | hb
      · exact Or.inl rfl
      · exact Or.inr (h.held w hw (Or.inr ⟨b, hb⟩))
  absent b w hb := by
    rcases candidate_update_eq_some hb with ⟨_, hNew⟩ | hOld
    · simp at hNew
    · exact h.absent b w hOld
  present b w hb := by
    rcases candidate_update_eq_some hb with ⟨_, hNew⟩ | hOld
    · simp at hNew
    · exact h.present b w hOld

/-- The index was asked, and what the agent learned is true. -/
theorem Sound.learn (h : Sound s) (hHolds : Holds s a v)
    (hAbsent : stage = .absent → v ∉ s.index) (hPresent : stage = .present → v ∈ s.index) :
    Sound { s with candidate := Function.update s.candidate a (some (v, stage)) } where
  unique := h.unique
  entered := h.entered
  exclusive b c w hw hb hc :=
    h.exclusive b c w hw ((holds_learn hHolds).mp hb) ((holds_learn hHolds).mp hc)
  apart b w hw hb := h.apart b w hw ((holds_learn hHolds).mp hb)
  held w hw hPlace := by
    apply h.held w hw
    rcases hPlace with hEntered | ⟨b, hb⟩
    · exact Or.inl hEntered
    · exact Or.inr ⟨b, (holds_learn hHolds).mp hb⟩
  absent b w hb := by
    rcases candidate_update_eq_some hb with ⟨_, hNew⟩ | hOld
    · obtain ⟨rfl, hStage⟩ := Prod.mk.inj (Option.some.inj hNew)
      exact hAbsent hStage
    · exact h.absent b w hOld
  present b w hb := by
    rcases candidate_update_eq_some hb with ⟨_, hNew⟩ | hOld
    · obtain ⟨rfl, hStage⟩ := Prod.mk.inj (Option.some.inj hNew)
      exact hPresent hStage
    · exact h.present b w hOld

/-- The agent moves its value to the entries. It was the only place of the
value. -/
theorem Sound.enter (h : Sound s) (hAbsent : s.candidate a = some (v, .absent)) :
    Sound { s with
      entries := s.entries ++ [v]
      candidate := Function.update s.candidate a none } where
  unique := by
    have hMissing := h.apart a v (h.absent a v hAbsent) ⟨_, hAbsent⟩
    rw [← List.concat_eq_append]
    exact h.unique.concat hMissing
  entered w hw := List.mem_append_left _ (h.entered w hw)
  exclusive b c w hw hb hc :=
    h.exclusive b c w hw (holds_leave.mp hb).2 (holds_leave.mp hc).2
  apart b w hw hHolds := by
    obtain ⟨hOther, hb⟩ := holds_leave.mp hHolds
    clear hHolds
    intro hEntered
    rcases List.mem_append.mp hEntered with hOld | hNew
    · exact h.apart b w hw hb hOld
    · obtain rfl := List.mem_singleton.mp hNew
      exact hOther (h.exclusive b a w hw hb ⟨_, hAbsent⟩)
  held w hw hPlace := by
    apply h.held w hw
    rcases hPlace with hEntered | ⟨b, hb⟩
    · rcases List.mem_append.mp hEntered with hOld | hNew
      · exact Or.inl hOld
      · exact Or.inr ⟨a, _, List.mem_singleton.mp hNew ▸ hAbsent⟩
    · exact Or.inr ⟨b, (holds_leave.mp hb).2⟩
  absent b w hb := by
    rcases candidate_update_eq_some hb with ⟨_, hNew⟩ | hOld
    · simp at hNew
    · exact h.absent b w hOld
  present b w hb := by
    rcases candidate_update_eq_some hb with ⟨_, hNew⟩ | hOld
    · simp at hNew
    · exact h.present b w hOld

/-- The agent does without its value, which stays held or not. A value that is
let go has to be in the index. -/
theorem Sound.leave (h : Sound s) {held abandoned : Set Value}
    (hHeld : ∀ w ∉ s.index, w ∈ s.held → w ∈ held) :
    Sound { s with
      held := held
      candidate := Function.update s.candidate a none
      abandoned := abandoned } where
  unique := h.unique
  entered := h.entered
  exclusive b c w hw hb hc :=
    h.exclusive b c w hw (holds_leave.mp hb).2 (holds_leave.mp hc).2
  apart b w hw hb := h.apart b w hw (holds_leave.mp hb).2
  held w hw hPlace := by
    apply hHeld w hw
    apply h.held w hw
    rcases hPlace with hEntered | ⟨b, hb⟩
    · exact Or.inl hEntered
    · exact Or.inr ⟨b, (holds_leave.mp hb).2⟩
  absent b w hb := by
    rcases candidate_update_eq_some hb with ⟨_, hNew⟩ | hOld
    · simp at hNew
    · exact h.absent b w hOld
  present b w hb := by
    rcases candidate_update_eq_some hb with ⟨_, hNew⟩ | hOld
    · simp at hNew
    · exact h.present b w hOld

omit [DecidableEq Agent] in
theorem Sound.show (h : Sound s) (hEntry : v ∈ s.entries) :
    Sound { s with index := insert v s.index } where
  unique := h.unique
  entered w hw := by
    rcases hw with rfl | hOld
    · exact hEntry
    · exact h.entered w hOld
  exclusive b c w hw hb hc := h.exclusive b c w (fun hOld => hw (Or.inr hOld)) hb hc
  apart b w hw hb := h.apart b w (fun hOld => hw (Or.inr hOld)) hb
  held w hw hPlace := h.held w (fun hOld => hw (Or.inr hOld)) hPlace
  absent b w hb := by
    have hOld := h.absent b w hb
    rintro (rfl | hIndex)
    · exact h.apart b w hOld ⟨_, hb⟩ hEntry
    · exact hOld hIndex
  present b w hb := Or.inr (h.present b w hb)

omit [DecidableEq Agent] in
theorem Sound.settle (h : Sound s) (hIndex : v ∈ s.index) :
    Sound { s with held := s.held \ {v}, settled := insert v s.settled } where
  unique := h.unique
  entered := h.entered
  exclusive := h.exclusive
  apart := h.apart
  held w hw hPlace := by
    refine ⟨h.held w hw hPlace, ?_⟩
    rintro rfl
    exact hw hIndex
  absent := h.absent
  present := h.present

theorem Step.sound (hStep : Step s t) (h : Sound s) : Sound t := by
  cases hStep with
  | hold a w hIdle hFree => exact h.hold hIdle hFree
  | findAbsent a w hHeld hAbsent =>
      exact h.learn ⟨_, hHeld⟩ (fun _ => hAbsent) (fun hStage => by cases hStage)
  | findPresent a w hHeld hPresent =>
      exact h.learn ⟨_, hHeld⟩ (fun hStage => by cases hStage) (fun _ => hPresent)
  | enter a w hAbsent => exact h.enter hAbsent
  | letGo a w hPresent =>
      apply h.leave
      intro u hu hHeld
      refine ⟨hHeld, ?_⟩
      rintro rfl
      exact hu (h.present a u hPresent)
  | giveUp a w hHolds => exact h.leave fun _ _ hHeld => hHeld
  | «show» w hEntry => exact h.show hEntry
  | settle w hIndex => exact h.settle hIndex

theorem Step.accounted (hStep : Step s t) (h : Sound s) (hAccounted : Accounted s) :
    Accounted t where
  settled u hu := by
    cases hStep with
    | «show» w hEntry => exact Or.inr (hAccounted.settled hu)
    | settle w hIndex =>
        rcases hu with rfl | hu
        · exact hIndex
        · exact hAccounted.settled hu
    | _ => exact hAccounted.settled hu
  held u hu := by
    cases hStep with
    | hold a w hIdle hFree =>
        rcases hu with rfl | hu
        · exact Or.inl ⟨a, (holds_take hIdle).mpr (Or.inl ⟨rfl, rfl⟩)⟩
        · exact (hAccounted.held u hu).imp_left fun ⟨b, hb⟩ =>
            ⟨b, (holds_take hIdle).mpr (Or.inr hb)⟩
    | findAbsent a w hHeld hAbsent =>
        exact (hAccounted.held u hu).imp_left fun ⟨b, hb⟩ =>
          ⟨b, (holds_learn ⟨_, hHeld⟩).mpr hb⟩
    | findPresent a w hHeld hPresent =>
        exact (hAccounted.held u hu).imp_left fun ⟨b, hb⟩ =>
          ⟨b, (holds_learn ⟨_, hHeld⟩).mpr hb⟩
    | enter a w hAbsent =>
        rcases hAccounted.held u hu with ⟨b, hb⟩ | ⟨hEntry, hOpen⟩ | hAbandoned
        · by_cases hSame : b = a
          · -- the value that is entered now was not in the index, so it is not settled
            subst hSame
            obtain rfl := hb.eq ⟨_, hAbsent⟩
            have hOpen : u ∉ s.settled := fun hSettled =>
              h.absent b u hAbsent (hAccounted.settled hSettled)
            exact Or.inr (Or.inl ⟨by simp, hOpen⟩)
          · exact Or.inl ⟨b, holds_leave.mpr ⟨hSame, hb⟩⟩
        · exact Or.inr (Or.inl ⟨List.mem_append_left _ hEntry, hOpen⟩)
        · exact Or.inr (Or.inr hAbandoned)
    | letGo a w hPresent =>
        obtain ⟨hu, hOther⟩ := hu
        refine (hAccounted.held u hu).imp_left fun ⟨b, hb⟩ => ⟨b, holds_leave.mpr ⟨?_, hb⟩⟩
        rintro rfl
        exact hOther (hb.eq ⟨_, hPresent⟩)
    | giveUp a w hHolds =>
        rcases hAccounted.held u hu with ⟨b, hb⟩ | hEntry | hAbandoned
        · by_cases hSame : b = a
          · subst hSame
            exact Or.inr (Or.inr (Or.inl (hb.eq hHolds)))
          · exact Or.inl ⟨b, holds_leave.mpr ⟨hSame, hb⟩⟩
        · exact Or.inr (Or.inl hEntry)
        · exact Or.inr (Or.inr (Or.inr hAbandoned))
    | «show» w hEntry => exact hAccounted.held u hu
    | settle w hIndex =>
        obtain ⟨hu, hOther⟩ := hu
        rcases hAccounted.held u hu with hHolds | ⟨hEntry, hOpen⟩ | hAbandoned
        · exact Or.inl hHolds
        · refine Or.inr (Or.inl ⟨hEntry, ?_⟩)
          rintro (hSame | hSettled)
          · exact hOther hSame
          · exact hOpen hSettled
        · exact Or.inr (Or.inr hAbandoned)

omit [DecidableEq Agent] in
/-- At rest nothing is held, unless an agent gave up. -/
theorem Accounted.free (h : Accounted s) (hIdle : ∀ a, s.candidate a = none)
    (hSettled : ∀ v ∈ s.entries, v ∈ s.settled) (hNone : v ∉ s.abandoned) : v ∉ s.held := by
  intro hHeld
  rcases h.held v hHeld with ⟨a, stage, hStage⟩ | ⟨hEntry, hOpen⟩ | hAbandoned
  · rw [hIdle] at hStage
    cases hStage
  · exact hOpen (hSettled v hEntry)
  · exact hNone hAbandoned

end Steps

end Registry
