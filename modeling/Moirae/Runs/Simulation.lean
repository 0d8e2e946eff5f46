import Mathlib.Data.List.Forall2

/-! Machines that answer every operation, and when two of them give the same
answers. -/
namespace Runs

variable {Operation A B Answer Answer' : Type*}

/-- The answers to operations that are performed one after the other. -/
def answers (perform : Operation → A → A × Answer) : A → List Operation → List Answer
  | _, [] => []
  | a, operation :: operations =>
      (perform operation a).2 :: answers perform (perform operation a).1 operations

/-- Two machines move together: related states give agreeing answers and lead
to related states. -/
def Simulates (R : A → B → Prop) (Agree : Answer → Answer' → Prop)
    (left : Operation → A → A × Answer) (right : Operation → B → B × Answer') : Prop :=
  ∀ operation a b, R a b →
    Agree (left operation a).2 (right operation b).2 ∧
      R (left operation a).1 (right operation b).1

variable {R : A → B → Prop} {Agree : Answer → Answer' → Prop}
  {left : Operation → A → A × Answer} {right : Operation → B → B × Answer'}

theorem Simulates.answers (h : Simulates R Agree left right) {a : A} {b : B} (hStart : R a b)
    (operations : List Operation) :
    List.Forall₂ Agree (answers left a operations) (answers right b operations) := by
  induction operations generalizing a b with
  | nil => exact .nil
  | cons operation operations ih =>
      obtain ⟨hAnswer, hNext⟩ := h operation a b hStart
      exact .cons hAnswer (ih hNext)

/-- Two machines that are given the same operations, and the pairs of answers
they gave so far. -/
structure Paired (A B Answer Answer' : Type*) where
  left : A
  right : B
  given : List (Answer × Answer')

def pairStep (left : Operation → A → A × Answer) (right : Operation → B → B × Answer')
    (w : Paired A B Answer Answer') (operation : Operation) :
    Option (Paired A B Answer Answer') :=
  let (a, answer) := left operation w.left
  let (b, answer') := right operation w.right
  some ⟨a, b, w.given ++ [(answer, answer')]⟩

end Runs
