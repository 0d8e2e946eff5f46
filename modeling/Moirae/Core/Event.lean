import Moirae.Collections.KeyedMap

/-! Events and commands, with the fields that aggregates, sagas and busses
read. -/
namespace Moirae

/-- `IRequestMetadata`. -/
abbrev IRequestMetadata := KeyedMap String String

/-- A stream id that was not set yet is empty: both count as false. -/
structure IEvent (Data : Type) where
  correlationId : Option String
  data : Data
  metadata : Option IRequestMetadata
  name : String
  streamId : String
  timestamp : Nat
  uuid : String
  deriving DecidableEq

structure ICommand (Data : Type) where
  correlationId : Option String
  data : Data
  metadata : Option IRequestMetadata
  name : String
  uuid : String

/-- How a template literal renders an optional string. -/
def render : Option String → String
  | none => "undefined"
  | some text => text

/-- Only the missing string and the string `undefined` are rendered alike. -/
theorem render_eq_iff {a b : Option String} :
    render a = render b ↔ a = b ∨ a = none ∧ b = some "undefined" ∨
      a = some "undefined" ∧ b = none := by
  cases a <;> cases b <;> simp [render, eq_comm]

end Moirae
