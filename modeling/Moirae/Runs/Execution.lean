import Mathlib.Data.List.Basic

/-! Finite runs of a partial step function. An action that is not possible in
a state has no successor there, so a run containing one does not exist. -/
namespace Runs

variable {State Action : Type*} {step : State → Action → Option State}

/-- The state after performing the actions in order, when all are possible. -/
def exec (step : State → Action → Option State) : State → List Action → Option State
  | s, [] => some s
  | s, a :: as => match step s a with
    | none => none
    | some t => exec step t as

/-- `P` holds in every state the run passes through, the first one included. -/
def Always (step : State → Action → Option State) (P : State → Prop) :
    State → List Action → Prop
  | s, [] => P s
  | s, a :: as => P s ∧ match step s a with
    | none => True
    | some t => Always step P t as

/-- Every step the run performs is taken in a state that meets the condition. -/
def StepsMeet (step : State → Action → Option State) (Meets : State → Action → Prop) :
    State → List Action → Prop
  | _, [] => True
  | s, a :: as => match step s a with
    | none => True
    | some t => Meets s a ∧ StepsMeet step Meets t as

theorem exec_cons_of_step {s t : State} {a : Action} (h : step s a = some t)
    (as : List Action) : exec step s (a :: as) = exec step t as := by
  simp [exec, h]

/-- Runs that follow one another are one run. -/
theorem exec_append {s t u : State} {before after : List Action}
    (hBefore : exec step s before = some t) (hAfter : exec step t after = some u) :
    exec step s (before ++ after) = some u := by
  induction before generalizing s with
  | nil =>
      obtain rfl := Option.some.inj hBefore
      exact hAfter
  | cons a before ih =>
      cases hNext : step s a with
      | none => simp [exec, hNext] at hBefore
      | some v =>
          rw [exec_cons_of_step hNext] at hBefore
          rw [List.cons_append, exec_cons_of_step hNext]
          exact ih hBefore

/-- Invariant induction: what holds at the start and is preserved by every
possible step holds at the end of every run. -/
theorem invariant_of_step (Inv : State → Prop)
    (hStep : ∀ s a t, Inv s → step s a = some t → Inv t)
    {s t : State} {as : List Action} (hs : Inv s) (h : exec step s as = some t) : Inv t := by
  induction as generalizing s with
  | nil =>
      have hst : s = t := by simpa [exec] using h
      exact hst ▸ hs
  | cons a as ih =>
      cases hNext : step s a with
      | none => simp [exec, hNext] at h
      | some u =>
          rw [exec_cons_of_step hNext] at h
          exact ih (hStep s a u hs hNext) h

/-- The recursive definition of `Always` speaks about exactly the prefixes of
the run that can be performed. -/
theorem always_iff_prefixes {P : State → Prop} {s : State} {as : List Action} :
    Always step P s as ↔
      ∀ before after t, as = before ++ after → exec step s before = some t → P t := by
  induction as generalizing s with
  | nil =>
      constructor
      · intro h before after t hSplit hRun
        obtain ⟨rfl, rfl⟩ := List.append_eq_nil_iff.mp hSplit.symm
        have hst : s = t := by simpa [exec] using hRun
        exact hst ▸ h
      · intro h
        exact h [] [] s rfl rfl
  | cons a as ih =>
      constructor
      · rintro ⟨hs, hRest⟩ before after t hSplit hRun
        cases before with
        | nil =>
            have hst : s = t := by simpa [exec] using hRun
            exact hst ▸ hs
        | cons b before =>
            rw [List.cons_append] at hSplit
            obtain ⟨rfl, hTail⟩ := List.cons_eq_cons.mp hSplit
            cases hNext : step s a with
            | none => simp [exec, hNext] at hRun
            | some u =>
                rw [hNext] at hRest
                rw [exec_cons_of_step hNext] at hRun
                exact ih.mp hRest before after t hTail hRun
      · intro h
        refine ⟨h [] (a :: as) s rfl rfl, ?_⟩
        cases hNext : step s a with
        | none => trivial
        | some u =>
            refine ih.mpr (fun before after t hSplit hRun => ?_)
            refine h (a :: before) after t (by rw [hSplit, List.cons_append]) ?_
            rw [exec_cons_of_step hNext, hRun]

/-- The last state of a run is one of the states it passes through. -/
theorem Always.last {P : State → Prop} {s t : State} {as : List Action}
    (h : Always step P s as) (hRun : exec step s as = some t) : P t :=
  always_iff_prefixes.mp h as [] t (List.append_nil as).symm hRun

/-- What is lost in a run for good when it is lost at all, held throughout a
run if it holds in the last state. -/
theorem always_of_last (Inv : State → Prop) {P : State → Prop}
    (hInv : ∀ s a t, Inv s → step s a = some t → Inv t)
    (hBack : ∀ s a t, Inv s → step s a = some t → P t → P s) {s t : State} {as : List Action}
    (hs : Inv s) (hRun : exec step s as = some t) (ht : P t) : Always step P s as := by
  induction as generalizing s with
  | nil =>
      have hst : s = t := by simpa [exec] using hRun
      exact hst ▸ ht
  | cons a as ih =>
      cases hNext : step s a with
      | none => simp [exec, hNext] at hRun
      | some u =>
          rw [exec_cons_of_step hNext] at hRun
          have hRest := ih (hInv s a u hs hNext) hRun
          have hu : P u := by
            cases as with
            | nil => exact hRest
            | cons b bs => exact hRest.1
          rw [Always, hNext]
          exact ⟨hBack s a u hs hNext hu, hRest⟩

/-- A safety property that every step meeting the condition preserves holds
throughout a run whose steps all meet it. `Inv` is what carries the induction;
`Allowed` restricts which actions the run may use at all. -/
theorem always_of_stepsMeet (Inv : State → Prop) (Allowed : Action → Prop)
    {P : State → Prop} {Meets : State → Action → Prop}
    (hInv : ∀ s a t, Allowed a → Inv s → step s a = some t → Meets s a → Inv t)
    (hSafe : ∀ s, Inv s → P s) {s : State} {as : List Action} (hs : Inv s)
    (hAllowed : ∀ a ∈ as, Allowed a) (h : StepsMeet step Meets s as) : Always step P s as := by
  induction as generalizing s with
  | nil => exact hSafe s hs
  | cons a as ih =>
      refine ⟨hSafe s hs, ?_⟩
      cases hNext : step s a with
      | none => trivial
      | some u =>
          rw [StepsMeet, hNext] at h
          have hNextInv := hInv s a u (hAllowed a List.mem_cons_self) hs hNext h.1
          exact ih hNextInv (fun b hb => hAllowed b (List.mem_cons_of_mem a hb)) h.2

theorem stepsMeet_of_forall {Meets : State → Action → Prop} (h : ∀ s a, Meets s a)
    (s : State) (as : List Action) : StepsMeet step Meets s as := by
  induction as generalizing s with
  | nil => trivial
  | cons a as ih =>
      rw [StepsMeet]
      cases step s a with
      | none => trivial
      | some t => exact ⟨h s a, ih t⟩

theorem stepsMeet_of_mem {Meets : State → Action → Prop} {s : State} {as : List Action}
    (h : ∀ a ∈ as, ∀ s, Meets s a) : StepsMeet step Meets s as := by
  induction as generalizing s with
  | nil => trivial
  | cons a as ih =>
      rw [StepsMeet]
      cases step s a with
      | none => trivial
      | some t => exact ⟨h a List.mem_cons_self s, ih fun b hb => h b (List.mem_cons_of_mem a hb)⟩

/-- A safety property that every allowed step preserves holds throughout. -/
theorem always_of_allowed (Inv : State → Prop) (Allowed : Action → Prop) {P : State → Prop}
    (hInv : ∀ s a t, Allowed a → Inv s → step s a = some t → Inv t)
    (hSafe : ∀ s, Inv s → P s) {s : State} {as : List Action} (hs : Inv s)
    (hAllowed : ∀ a ∈ as, Allowed a) : Always step P s as :=
  always_of_stepsMeet Inv Allowed (fun s a t ha h hNext _ => hInv s a t ha h hNext) hSafe hs
    hAllowed (stepsMeet_of_forall (fun _ _ => trivial) s as)

/-- Two properties that agree in the states that satisfy an invariant hold
throughout the same runs. -/
theorem always_congr (Inv : State → Prop) {P Q : State → Prop}
    (hInv : ∀ s a t, Inv s → step s a = some t → Inv t) (hIff : ∀ s, Inv s → (P s ↔ Q s))
    {s : State} (hs : Inv s) (as : List Action) : Always step P s as ↔ Always step Q s as := by
  induction as generalizing s with
  | nil => exact hIff s hs
  | cons a as ih =>
      rw [Always, Always, hIff s hs]
      cases hNext : step s a with
      | none => rfl
      | some u => exact and_congr_right fun _ => ih (hInv s a u hs hNext)

/-- In a run whose steps are all as `Given` says, one step keeps `P` exactly if
it meets the condition: then the run keeps `P` exactly if all its steps do. The
invariant is needed only as long as `P` holds. -/
theorem always_iff_stepsMeet_given (Inv : State → Prop) {P : State → Prop}
    {Given Meets : State → Action → Prop}
    (hInv : ∀ s a t, Given s a → Inv s → P s → step s a = some t → P t → Inv t)
    (hStep : ∀ s a t, Given s a → Inv s → P s → step s a = some t → (P t ↔ Meets s a))
    {s : State} {as : List Action} (hs : Inv s) (hP : P s) (hGiven : StepsMeet step Given s as) :
    Always step P s as ↔ StepsMeet step Meets s as := by
  induction as generalizing s with
  | nil => exact ⟨fun _ => trivial, fun _ => hP⟩
  | cons a as ih =>
      rw [StepsMeet] at hGiven
      rw [Always, StepsMeet]
      cases hNext : step s a with
      | none => exact ⟨fun _ => trivial, fun _ => ⟨hP, trivial⟩⟩
      | some u =>
          rw [hNext] at hGiven
          have hIff := hStep s a u hGiven.1 hs hP hNext
          constructor
          · rintro ⟨_, hRest⟩
            have hu : P u := by
              cases as with
              | nil => exact hRest
              | cons b bs => exact hRest.1
            have hInvNext := hInv s a u hGiven.1 hs hP hNext hu
            exact ⟨hIff.mp hu, (ih hInvNext hu hGiven.2).mp hRest⟩
          · rintro ⟨hMeets, hRest⟩
            have hu := hIff.mpr hMeets
            have hInvNext := hInv s a u hGiven.1 hs hP hNext hu
            exact ⟨hP, (ih hInvNext hu hGiven.2).mpr hRest⟩

/-- The same for runs that use allowed actions only. -/
theorem always_iff_stepsMeet_while (Inv : State → Prop) (Allowed : Action → Prop)
    {P : State → Prop} {Meets : State → Action → Prop}
    (hInv : ∀ s a t, Allowed a → Inv s → P s → step s a = some t → P t → Inv t)
    (hStep : ∀ s a t, Allowed a → Inv s → P s → step s a = some t → (P t ↔ Meets s a))
    {s : State} {as : List Action} (hs : Inv s) (hP : P s) (hAllowed : ∀ a ∈ as, Allowed a) :
    Always step P s as ↔ StepsMeet step Meets s as :=
  always_iff_stepsMeet_given Inv hInv hStep hs hP
    (stepsMeet_of_mem fun a ha _ => hAllowed a ha)

/-- The same with an invariant of all runs. -/
theorem always_iff_stepsMeet (Inv : State → Prop) (Allowed : Action → Prop)
    {P : State → Prop} {Meets : State → Action → Prop}
    (hInv : ∀ s a t, Allowed a → Inv s → step s a = some t → Inv t)
    (hStep : ∀ s a t, Allowed a → Inv s → P s → step s a = some t → (P t ↔ Meets s a))
    {s : State} {as : List Action} (hs : Inv s) (hP : P s) (hAllowed : ∀ a ∈ as, Allowed a) :
    Always step P s as ↔ StepsMeet step Meets s as :=
  always_iff_stepsMeet_while Inv Allowed
    (fun s a t ha hInvS _ hNext _ => hInv s a t ha hInvS hNext) hStep hs hP hAllowed

/-- A property follows along a run from a stronger one. -/
theorem Always.imp {P Q : State → Prop} (hImp : ∀ s, P s → Q s) {s : State} {as : List Action}
    (h : Always step P s as) : Always step Q s as :=
  always_iff_prefixes.mpr fun before after t hSplit hRun =>
    hImp t (always_iff_prefixes.mp h before after t hSplit hRun)

/-- Steps that meet each of two conditions meet both. -/
theorem StepsMeet.and {Meets Meets' : State → Action → Prop} {s : State} {as : List Action}
    (h : StepsMeet step Meets s as) (h' : StepsMeet step Meets' s as) :
    StepsMeet step (fun s a => Meets s a ∧ Meets' s a) s as := by
  induction as generalizing s with
  | nil => trivial
  | cons a as ih =>
      rw [StepsMeet] at h h' ⊢
      cases hNext : step s a with
      | none => trivial
      | some t =>
          rw [hNext] at h h'
          exact ⟨⟨h.1, h'.1⟩, ih h.2 h'.2⟩

theorem StepsMeet.imp {Meets Meets' : State → Action → Prop}
    (hImp : ∀ s a, Meets s a → Meets' s a) {s : State} {as : List Action}
    (h : StepsMeet step Meets s as) : StepsMeet step Meets' s as := by
  induction as generalizing s with
  | nil => trivial
  | cons a as ih =>
      rw [StepsMeet] at h ⊢
      cases hNext : step s a with
      | none => trivial
      | some t =>
          rw [hNext] at h
          exact ⟨hImp s a h.1, ih h.2⟩

/-- A state with `P` can be reached in at most so many steps, which all meet the
condition. -/
def CanReach (step : State → Action → Option State) (Meets : State → Action → Prop)
    (P : State → Prop) (bound : Nat) (s : State) : Prop :=
  ∃ as t, as.length ≤ bound ∧ exec step s as = some t ∧ StepsMeet step Meets s as ∧ P t

theorem CanReach.here {Meets : State → Action → Prop} {P : State → Prop} {s : State} (h : P s)
    (bound : Nat) : CanReach step Meets P bound s :=
  ⟨[], s, Nat.zero_le bound, rfl, trivial, h⟩

theorem CanReach.after {Meets : State → Action → Prop} {P : State → Prop} {s t : State}
    {a : Action} {bound : Nat} (h : CanReach step Meets P bound t) (hNext : step s a = some t)
    (hMeets : Meets s a) : CanReach step Meets P (bound + 1) s := by
  obtain ⟨as, u, hLength, hRun, hAll, hu⟩ := h
  refine ⟨a :: as, u, Nat.succ_le_succ hLength, ?_, ?_, hu⟩
  · rw [exec_cons_of_step hNext]
    exact hRun
  · rw [StepsMeet, hNext]
    exact ⟨hMeets, hAll⟩

theorem CanReach.mono {Meets : State → Action → Prop} {P Q : State → Prop} {s : State}
    {bound bound' : Nat} (h : CanReach step Meets P bound s) (hBound : bound ≤ bound')
    (hImp : ∀ t, P t → Q t) : CanReach step Meets Q bound' s := by
  obtain ⟨as, t, hLength, hRun, hAll, ht⟩ := h
  exact ⟨as, t, Nat.le_trans hLength hBound, hRun, hAll, hImp t ht⟩

section Decidable

variable (step) {P : State → Prop} {Meets : State → Action → Prop}

instance Always.decidable [DecidablePred P] :
    ∀ (s : State) (as : List Action), Decidable (Always step P s as)
  | s, [] => inferInstanceAs (Decidable (P s))
  | s, a :: as =>
      have : Decidable (match step s a with
          | none => True
          | some t => Always step P t as) :=
        match step s a with
        | none => instDecidableTrue
        | some t => Always.decidable t as
      inferInstanceAs (Decidable (P s ∧ _))

instance StepsMeet.decidable [∀ s a, Decidable (Meets s a)] :
    ∀ (s : State) (as : List Action), Decidable (StepsMeet step Meets s as)
  | _, [] => instDecidableTrue
  | s, a :: as =>
      match hNext : step s a with
      | none => .isTrue (by simp [StepsMeet, hNext])
      | some t =>
          have := StepsMeet.decidable t as
          decidable_of_iff (Meets s a ∧ StepsMeet step Meets t as)
            (by simp [StepsMeet, hNext])

end Decidable

end Runs
