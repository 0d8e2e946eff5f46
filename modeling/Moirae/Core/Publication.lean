import Moirae.Collections.Traversal
import Moirae.Core.BaseBus
import Moirae.Core.DomainStore
import Moirae.Core.EventCodec

/-! How the busses send an instance, and what the worker at the other end gets. -/
namespace Moirae.EventCodec

variable {Num : Type}

/-- `!!value`. Objects are true, and dates are objects. -/
def FieldValue.truthy [JsonNumber Num] : FieldValue Num → Bool
  | .undefined | .json .null => false
  | .json (.bool b) => b
  | .json (.num n) => !JsonNumber.isZero n
  | .json (.str text) => text ≠ ""
  | .json (.arr _) | .json (.obj _) | .date _ => true

/-- A field that is typed as an optional string. -/
def FieldValue.text : FieldValue Num → Option String
  | .json (.str text) => some text
  | _ => none

def FieldValue.ofText : Option String → FieldValue Num
  | some text => .json (.str text)
  | none => .undefined

namespace Instance

/-- `event[key] = value`. An accessor without a setter refuses it. -/
def assign (event : Instance Num) (key : String) (value : FieldValue Num) :
    Except Thrown (Instance Num) :=
  match event.fields.get key, event.cls.getters.get key with
  | none, some _ => .error (.error "TypeError"
      s!"Cannot set property {key} of #<{event.cls.name}> which has only a getter")
  | _, _ => .ok { event with fields := event.fields.set key value }

instance [JsonNumber Num] : Respondable (Instance Num) where
  name event := (event.property "$name").text.getD ""
  uuid event := (event.property "$uuid").text.getD ""
  disableResponse event := (event.property "$disableResponse").truthy
  responseKey event := (event.property "$responseKey").text
  routingKey event := (event.property "$routingKey").text
  setRoutingKey nodeId event :=
    { event with fields := event.fields.set "$routingKey" (.ofText nodeId) }

theorem assign_eq_ok {event event' : Instance Num} {key : String} {value : FieldValue Num}
    (h : event.assign key value = .ok event') :
    event' = { event with fields := event.fields.set key value } := by
  unfold assign at h
  split at h
  · cases h
  · exact (Except.ok.inj h).symm

/-- An own field is read, whatever the class has under its name. -/
theorem property_of_get {event : Instance Num} {key : String} {value : FieldValue Num}
    (h : event.fields.get key = some value) : event.property key = value := by
  simp [property, h]

/-- What is not an own field is read through the accessor. -/
theorem property_of_getter {event : Instance Num} {key : String}
    {getter : Fields Num → FieldValue Num} (hNot : event.fields.get key = none)
    (hGetter : event.cls.getters.get key = some getter) :
    event.property key = getter event.fields := by
  simp [property, hNot, hGetter]

end Instance

/-- What `handlePublish` is called with. -/
structure Publication (Num : Type) where
  eventString : String
  executionDomain : FieldValue Num

/-- `BasePublisher.publish`: the event that was passed has a new routing key
then. -/
def publish [JsonNumber Num] (nodeId : Option String) (event : Instance Num) :
    Except Thrown (Instance Num × Publication Num) := do
  let routed ← event.assign "$routingKey" (.ofText nodeId)
  let executionDomain := routed.property "$executionDomain"
  return (routed, ⟨serializeEvent routed,
    if executionDomain.truthy then executionDomain else .json (.str "default")⟩)

/-- `domainStore.has(event.$executionDomain)`. -/
def executesLocally (domainStore : DomainStore) (event : Instance Num) : Bool :=
  match (event.property "$executionDomain").text with
  | some domain => domainStore.has domain
  | none => false

/-- The class of plain objects. -/
def plainObject : EventClass Num where
  id := 0
  name := "Object"
  construct _ := .ok .empty
  dateFields := []
  getters := .empty

/-- What was parsed, as the object that the worker is called with. -/
def Parsed.received : Parsed Num → Instance Num
  | .instance event => event
  | .plain (.obj members) =>
      ⟨plainObject,
        members.foldl (fun fields member => fields.set member.1 (.json member.2)) .empty⟩
  | .plain _ => ⟨plainObject, .empty⟩

theorem publish_eq_ok [JsonNumber Num] {nodeId : Option String} {event sent : Instance Num}
    {publication : Publication Num} (h : publish nodeId event = .ok (sent, publication)) :
    sent = { event with fields := event.fields.set "$routingKey" (.ofText nodeId) } ∧
      publication.eventString = serializeEvent sent := by
  obtain ⟨routed, hAssign, hRouted⟩ := Traversal.exists_of_bind_eq_ok h
  cases hRouted
  exact ⟨Instance.assign_eq_ok hAssign, rfl⟩

/-- A text can be assigned to any field. -/
theorem FieldsWellFormed.set_ofText {fields : Fields Num} (h : FieldsWellFormed fields)
    (key : String) (text : Option String) : FieldsWellFormed (fields.set key (.ofText text)) := by
  intro other value hGet
  rw [KeyedMap.get_set] at hGet
  split at hGet
  · cases text with
    | none => cases hGet
    | some text =>
        cases hGet
        rfl
  · exact h other value hGet

section Received

variable [JsonNumber Num] {lenient : Json Num → Option DateTime} {draw : Nat}
  {classes : List (EventClass Num)} {event : Instance Num} {parsed : Parsed Num}

omit [JsonNumber Num] in
/-- Only a class that was registered is found. -/
theorem mem_of_registeredClass {cls : EventClass Num}
    (h : registeredClass (.registered classes) event = some cls) : cls ∈ classes := by
  unfold registeredClass at h
  split at h
  · rw [ConstructorStorage.get_registered] at h
    exact List.mem_reverse.mp (List.mem_of_find?_eq_some h)
  · cases h

omit [JsonNumber Num] in
/-- A plain object has the members as its fields. -/
theorem get_received_plain (fields : Fields Num) (key : String) :
    (Parsed.received (.plain (.obj (plainMembers fields)))).fields.get key =
      (toJson (fields.read key)).map .json := by
  have hDistinct : (((plainMembers fields).map fun member =>
      (member.1, FieldValue.json member.2)).map Prod.fst).Nodup := by
    rw [List.map_map]
    exact nodup_plainMembers fields
  have hGet := KeyedMap.get_foldl_set (.empty : Fields Num) hDistinct key
  rw [List.foldl_map, lookup_map_value (fun _ => FieldValue.json), lookup_plainMembers] at hGet
  rw [Parsed.received, hGet]
  cases toJson (fields.read key) <;> rfl

/-- A JSON field arrives, whatever class is found for the text. -/
theorem property_received (hFields : FieldsWellFormed event.fields)
    (hParse : parseEvent lenient (.registered classes) draw (serializeEvent event) = .ok parsed)
    {key : String} {value : Json Num} (hGet : event.fields.get key = some (.json value))
    (hDates : ∀ cls ∈ classes, key ∉ cls.dateFields) :
    parsed.received.property key = .json value := by
  have hRead : toJson (event.fields.read key) = some value := by simp [Fields.read, hGet, toJson]
  apply Instance.property_of_get
  rw [parseEvent_eq hFields] at hParse
  cases hFound : registeredClass (.registered classes) event with
  | none =>
      rw [hFound] at hParse
      cases hParse
      rw [get_received_plain, hRead]
      rfl
  | some cls =>
      rw [hFound] at hParse
      cases hConstruct : cls.construct draw with
      | error thrown =>
          simp only [plainToInstance, hConstruct] at hParse
          cases hParse
      | ok constructed =>
          obtain ⟨event', hPlain, -, hGet'⟩ :=
            get_plainToInstance lenient event.fields hConstruct
          simp only [hPlain] at hParse
          cases hParse
          have hDate := hDates cls (mem_of_registeredClass hFound)
          change event'.fields.get key = _
          rw [hGet', hRead]
          simp [fieldValue, hDate]

variable (lenient) in
/-- A text arrives unless the constructor of its class fails. -/
theorem exists_parseEvent (hFields : FieldsWellFormed event.fields)
    (hConstruct : ∀ cls, registeredClass (.registered classes) event = some cls →
      ∃ constructed, cls.construct draw = .ok constructed) :
    ∃ parsed, parseEvent lenient (.registered classes) draw (serializeEvent event) =
      .ok parsed := by
  cases hFound : registeredClass (.registered classes) event with
  | none => exact ⟨_, by rw [parseEvent_eq hFields, hFound]⟩
  | some cls =>
      obtain ⟨constructed, hFresh⟩ := hConstruct cls hFound
      obtain ⟨event', hParse, -⟩ :=
        parseEvent_of_registered lenient hFields hFound hFresh
      exact ⟨_, hParse⟩

end Received

end Moirae.EventCodec
