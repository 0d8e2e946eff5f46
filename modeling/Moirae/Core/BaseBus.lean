import Moirae.Core.BasePublisher

/-! The bus that runs the one handler registered for the name of a message. -/
namespace Moirae

/-- What the bus has to do with a handler: how the promise of its `execute`
settles. A synchronous throw inside `try { await … }` is a rejection too. -/
abbrev Handler (Evt Options Result : Type) := Evt → Options → Except Thrown Result

/-- `new HandlerNotFoundError(…)`. -/
def handlerNotFoundError (name : String) : Thrown :=
  .error "HandlerNotFoundError" s!"Could not find handler for key {name}"

namespace BaseBus

variable {Evt Options Result : Type} [Respondable Evt]

/-- The result of the handler, or the error it failed with, which is returned
like a result. Only a missing handler is thrown. -/
def executeLocal (handlerMap : KeyedMap String (Handler Evt Options Result)) (event : Evt)
    (options : Options) : Except Thrown (Result ⊕ Thrown) :=
  match handlerMap.get (Respondable.name event) with
  | none => .error (handlerNotFoundError (Respondable.name event))
  | some handler => match handler event options with
    | .ok res => .ok (.inl res)
    | .error err => .ok (.inr err)

/-- How the bus ends as a worker function of its publisher. -/
def outcome (handlerMap : KeyedMap String (Handler Evt Options Result)) (event : Evt)
    (options : Options) : Outcome :=
  match executeLocal handlerMap event options with
  | .ok _ => .resolved
  | .error reason => .rejected reason

/-- Failing handlers do not make the bus fail; a missing one does. -/
theorem outcome_eq_resolved_iff {handlerMap : KeyedMap String (Handler Evt Options Result)}
    {event : Evt} {options : Options} :
    outcome handlerMap event options = .resolved ↔
      handlerMap.get (Respondable.name event) ≠ none := by
  unfold outcome executeLocal
  cases hGet : handlerMap.get (Respondable.name event) with
  | none => simp
  | some handler => cases hResult : handler event options <;> simp [hResult]

end BaseBus

end Moirae
