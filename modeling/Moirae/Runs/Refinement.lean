import Moirae.Runs.Execution

/-! Two levels of a design. The lower one has more in its states and takes more
steps: some of its steps are steps of the upper level, and the upper level does
not see the others. -/
namespace Runs

variable {Lower Upper LowerAction UpperAction : Type*}
  {lower : Lower → LowerAction → Option Lower} {upper : Upper → UpperAction → Option Upper}
  {view : Lower → Upper} {label : Lower → LowerAction → Option UpperAction}

/-- Every step of the lower level is one of the upper level, or is hidden from
it. -/
structure Refines (lower : Lower → LowerAction → Option Lower)
    (upper : Upper → UpperAction → Option Upper) (view : Lower → Upper)
    (label : Lower → LowerAction → Option UpperAction) : Prop where
  visible : ∀ s a t b, lower s a = some t → label s a = some b → upper (view s) b = some (view t)
  hidden : ∀ s a t, lower s a = some t → label s a = none → view t = view s

/-- An invariant of the upper level, as long as its steps meet a condition, is one
of the lower level if the steps that are seen do. -/
theorem Refines.step (h : Refines lower upper view label) {Inv : Upper → Prop}
    {Meets : Upper → UpperAction → Prop}
    (hUpper : ∀ u b v, Inv u → upper u b = some v → Meets u b → Inv v) {s t : Lower}
    {a : LowerAction} (hInv : Inv (view s)) (hStep : lower s a = some t)
    (hMeets : ∀ b, label s a = some b → Meets (view s) b) : Inv (view t) := by
  cases hLabel : label s a with
  | none =>
      rw [h.hidden s a t hStep hLabel]
      exact hInv
  | some b =>
      exact hUpper (view s) b (view t) hInv (h.visible s a t b hStep hLabel) (hMeets b hLabel)

/-- The levels rely on one another: the upper level keeps its invariant as long as
its steps meet a condition, which they do as long as the lower level keeps its
own, for which it may use that of the upper level before and after the step. -/
theorem Refines.always (h : Refines lower upper view label) (Inv : Upper → Prop)
    (Own : Lower → Prop) (Meets : Upper → UpperAction → Prop) {Given : Lower → LowerAction → Prop}
    (hUpper : ∀ u b v, Inv u → upper u b = some v → Meets u b → Inv v)
    (hMeets : ∀ s a t b, Inv (view s) → Own s → lower s a = some t → Given s a →
      label s a = some b → Meets (view s) b)
    (hOwn : ∀ s a t, Inv (view s) → Inv (view t) → Own s → lower s a = some t → Given s a → Own t)
    {s : Lower} {as : List LowerAction} (hInv : Inv (view s)) (hs : Own s)
    (hGiven : StepsMeet lower Given s as) : Always lower (fun s => Inv (view s) ∧ Own s) s as := by
  apply always_of_stepsMeet (fun s => Inv (view s) ∧ Own s) (fun _ => True) ?_ (fun _ hs => hs)
    ⟨hInv, hs⟩ (fun _ _ => trivial) hGiven
  intro s a t _ hs hStep hThis
  have hNext : Inv (view t) :=
    h.step hUpper hs.1 hStep fun b hLabel => hMeets s a t b hs.1 hs.2 hStep hThis hLabel
  exact ⟨hNext, hOwn s a t hs.1 hNext hs.2 hStep hThis⟩

end Runs
