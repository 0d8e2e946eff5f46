import Mathlib.Data.List.Induction
import Moirae.Core.BasePublisher
import Moirae.Text.IsoDate
import Moirae.Text.Json

/-! The codec for commands, events and queries. The text of an instance holds
its fields and not its class; the class is looked up by name, and its
constructor runs before the fields are assigned. -/
namespace Moirae.EventCodec

/-- What a field of an instance holds. A date without a time value is `none`. -/
inductive FieldValue (Num : Type)
  | undefined
  | json (value : Json Num)
  | date (date : Option DateTime)

/-- Own fields in the order in which they were first assigned. -/
abbrev Fields (Num : Type) := KeyedMap String (FieldValue Num)

/-- A field that is not there reads as undefined. -/
def Fields.read {Num : Type} (fields : Fields Num) (key : String) : FieldValue Num :=
  (fields.get key).getD .undefined

/-- A class whose instances are sent. Two classes may have one name; `id` tells
them apart. -/
structure EventClass (Num : Type) where
  id : Nat
  name : String
  /-- The fields after `new` without arguments. The number stands for what is
  different every time: the random ids and the time. -/
  construct : Nat → Except Thrown (Fields Num)
  /-- The fields declared with `@Type(() => Date)`. -/
  dateFields : List String
  /-- The accessors of the prototype, which are no own fields. -/
  getters : KeyedMap String (Fields Num → FieldValue Num)

structure Instance (Num : Type) where
  cls : EventClass Num
  fields : Fields Num

/-- Reading a property: an own field, or else an accessor of the class. -/
def Instance.property {Num : Type} (e : Instance Num) (key : String) : FieldValue Num :=
  match e.fields.get key, e.cls.getters.get key with
  | some value, _ => value
  | none, some getter => getter e.fields
  | none, none => .undefined

structure ConstructorStorage (Num : Type) where
  map : KeyedMap String (EventClass Num)

namespace ConstructorStorage

variable {Num : Type}

def new : ConstructorStorage Num := ⟨.empty⟩

def get (storage : ConstructorStorage Num) (name : String) : Option (EventClass Num) :=
  storage.map.get name

def has (storage : ConstructorStorage Num) (name : String) : Bool := storage.map.has name

def set (storage : ConstructorStorage Num) (event : EventClass Num) : ConstructorStorage Num :=
  ⟨storage.map.set event.name event⟩

/-- The storage after these classes were decorated with `RegisterType`. -/
def registered (classes : List (EventClass Num)) : ConstructorStorage Num :=
  classes.foldl set new

/-- The class registered last under a name is found. -/
theorem get_registered (classes : List (EventClass Num)) (name : String) :
    (registered classes).get name = classes.reverse.find? (·.name = name) := by
  induction classes using List.reverseRecOn with
  | nil => rfl
  | append_singleton classes event ih =>
      rw [registered, List.foldl_append, List.foldl_cons, List.foldl_nil, List.reverse_append,
        List.reverse_singleton, List.singleton_append, List.find?_cons]
      change (KeyedMap.set _ event.name event).get name = _
      rw [KeyedMap.get_set]
      by_cases hName : event.name = name
      · simp [hName]
      · rw [if_neg (Ne.symm hName), decide_eq_false hName]
        exact ih

end ConstructorStorage

variable {Num : Type}

/-- What `JSON.stringify` makes of a field; an undefined one is left out. -/
def toJson : FieldValue Num → Option (Json Num)
  | .undefined => none
  | .json value => some value
  | .date (some date) => some (.str date.toISOString)
  | .date none => some .null

/-- `instanceToPlain` copies the own fields. -/
def plainMembers (fields : Fields Num) : List (String × Json Num) :=
  fields.entries.filterMap fun field => (toJson field.2).map (field.1, ·)

def serializeEvent [JsonNumber Num] (event : Instance Num) : String :=
  (Json.obj (plainMembers event.fields)).stringify

/-- `new Date(value)`. What it makes of anything but an ISO text is `lenient`. -/
def newDate (lenient : Json Num → Option DateTime) : Json Num → Option DateTime
  | .str text => match DateTime.ofISOString text with
    | some date => some date
    | none => lenient (.str text)
  | value => lenient value

/-- What `plainToInstance` assigns for a member of the plain object. -/
def fieldValue (lenient : Json Num → Option DateTime) (cls : EventClass Num) (key : String)
    (value : Json Num) : FieldValue Num :=
  if key ∈ cls.dateFields then
    match value with
    | .null => .json .null
    | value => .date (newDate lenient value)
  else .json value

def plainToInstance (lenient : Json Num → Option DateTime) (draw : Nat) (cls : EventClass Num)
    (members : List (String × Json Num)) : Except Thrown (Instance Num) :=
  match cls.construct draw with
  | .error thrown => .error thrown
  | .ok constructed => .ok
      { cls
        fields := members.foldl
          (fun fields member => fields.set member.1 (fieldValue lenient cls member.1 member.2))
          constructed }

/-- What comes out of `parseEvent`: without a class, the plain value itself. -/
inductive Parsed (Num : Type)
  | instance (event : Instance Num)
  | plain (value : Json Num)

/-- The class that is registered under the `$name` of a plain object. -/
def instanceConstructor (storage : ConstructorStorage Num) (members : List (String × Json Num)) :
    Option (EventClass Num) :=
  match members.lookup "$name" with
  | some (.str name) => storage.get name
  | _ => none

def parseEvent [JsonNumber Num] (lenient : Json Num → Option DateTime)
    (storage : ConstructorStorage Num) (draw : Nat) (eventString : String) :
    Except Thrown (Parsed Num) :=
  match Json.parse eventString with
  | none => .error (.error "SyntaxError" "Unexpected token in JSON")
  | some .null => .error (.error "TypeError" "Cannot read properties of null (reading '$name')")
  | some (.obj members) =>
      match instanceConstructor storage members with
      | none => .ok (.plain (.obj members))
      | some cls => (plainToInstance lenient draw cls members).map .instance
  | some value => .ok (.plain value)

section Members

variable {Value Target : Type} (f : Value → Option Target)

theorem map_fst_filterMap_sublist (entries : List (String × Value)) :
    ((entries.filterMap fun entry => (f entry.2).map (entry.1, ·)).map Prod.fst).Sublist
      (entries.map Prod.fst) := by
  induction entries with
  | nil => exact .slnil
  | cons entry entries ih =>
      cases hTarget : f entry.2 with
      | none => simpa [List.filterMap_cons, hTarget] using ih.cons entry.1
      | some target => simpa [List.filterMap_cons, hTarget] using ih.cons_cons entry.1

/-- What is left out of a list with distinct keys is not found in it. -/
theorem lookup_filterMap {entries : List (String × Value)}
    (h : (entries.map Prod.fst).Nodup) (key : String) :
    (entries.filterMap fun entry => (f entry.2).map (entry.1, ·)).lookup key =
      (entries.lookup key).bind f := by
  induction entries with
  | nil => rfl
  | cons entry entries ih =>
      obtain ⟨own, value⟩ := entry
      obtain ⟨hOwn, hRest⟩ := List.nodup_cons.mp h
      rw [List.filterMap_cons, List.lookup_cons]
      by_cases hKey : key = own
      · subst hKey
        cases hTarget : f value with
        | none =>
            have hMissing : entries.lookup key = none := by
              refine List.lookup_eq_none_iff.mpr fun other hOther => ?_
              have hNe : other.1 ≠ key := fun hSame =>
                hOwn (List.mem_map.mpr ⟨other, hOther, hSame⟩)
              simpa using hNe.symm
            simpa [hTarget, hMissing] using ih hRest
        | some target => simp [hTarget]
      · have hNe : (key == own) = false := beq_eq_false_iff_ne.mpr hKey
        cases hTarget : f value with
        | none => simpa [hTarget, hNe] using ih hRest
        | some target => simpa [hTarget, List.lookup_cons, hNe] using ih hRest

theorem lookup_map_value (g : String → Value → Target) (entries : List (String × Value))
    (key : String) : (entries.map fun entry => (entry.1, g entry.1 entry.2)).lookup key =
      (entries.lookup key).map (g key) := by
  induction entries with
  | nil => rfl
  | cons entry entries ih =>
      rw [List.map_cons, List.lookup_cons, List.lookup_cons, ih]
      by_cases hKey : key = entry.1
      · simp [hKey]
      · simp [beq_eq_false_iff_ne.mpr hKey]

end Members

/-- The JSON values of the fields are values of the language: their objects
hold no key twice. -/
def FieldsWellFormed (fields : Fields Num) : Prop :=
  ∀ key value, fields.get key = some (.json value) → value.wellFormed

def FieldValue.wellFormed : FieldValue Num → Bool
  | .json value => value.wellFormed
  | _ => true

theorem fieldsWellFormed_iff {fields : Fields Num} :
    FieldsWellFormed fields ↔ ∀ entry ∈ fields.entries, entry.2.wellFormed = true := by
  constructor
  · rintro h ⟨key, value⟩ hEntry
    cases value with
    | json value => exact h key value (KeyedMap.mem_entries_iff_get.mp hEntry)
    | undefined | date => rfl
  · intro h key value hGet
    exact h (key, .json value) (KeyedMap.mem_entries_iff_get.mpr hGet)

instance (fields : Fields Num) : Decidable (FieldsWellFormed fields) :=
  decidable_of_iff _ fieldsWellFormed_iff.symm

theorem lookup_plainMembers (fields : Fields Num) (key : String) :
    (plainMembers fields).lookup key = toJson (fields.read key) := by
  rw [plainMembers, lookup_filterMap toJson fields.distinct, Fields.read, KeyedMap.get]
  cases fields.entries.lookup key <;> rfl

theorem nodup_plainMembers (fields : Fields Num) :
    ((plainMembers fields).map Prod.fst).Nodup :=
  fields.distinct.sublist (map_fst_filterMap_sublist toJson fields.entries)

theorem wellFormed_plainMembers {fields : Fields Num} (h : FieldsWellFormed fields) :
    (Json.obj (plainMembers fields)).wellFormed := by
  have hMembers : Json.wellFormedMembers (plainMembers fields) := by
    refine Json.wellFormedMembers_iff.mpr fun member hMember => ?_
    obtain ⟨⟨key, value⟩, hEntry, hJson⟩ := List.mem_filterMap.mp hMember
    obtain ⟨json, hValue, rfl⟩ := Option.map_eq_some_iff.mp hJson
    match value, hValue with
    | .json value, hValue =>
        rw [← Option.some.inj hValue]
        exact h key value (KeyedMap.mem_entries_iff_get.mp hEntry)
    | .date (some date), hValue =>
        rw [← Option.some.inj hValue]
        rfl
    | .date none, hValue =>
        rw [← Option.some.inj hValue]
        rfl
  simp [Json.wellFormed, nodup_plainMembers fields, hMembers]

variable {lenient : Json Num → Option DateTime} {storage : ConstructorStorage Num} {draw : Nat}

/-- What a field has become: what its text stood for, or what the constructor
made of it when it had none. -/
def restored (lenient : Json Num → Option DateTime) (cls : EventClass Num)
    (constructed : Fields Num) (key : String) (value : FieldValue Num) : FieldValue Num :=
  match toJson value with
  | some json => fieldValue lenient cls key json
  | none => constructed.read key

variable (lenient) in
/-- The fields of an instance are assigned over those of the constructor. -/
theorem get_plainToInstance {cls : EventClass Num} {constructed : Fields Num}
    (fields : Fields Num)
    (hConstruct : cls.construct draw = .ok constructed) :
    ∃ event, plainToInstance lenient draw cls (plainMembers fields) = .ok event ∧
      event.cls = cls ∧
      ∀ key, event.fields.get key = match toJson (fields.read key) with
        | some json => some (fieldValue lenient cls key json)
        | none => constructed.get key := by
  refine ⟨_, by rw [plainToInstance, hConstruct], rfl, fun key => ?_⟩
  have hDistinct : (((plainMembers fields).map fun member =>
      (member.1, fieldValue lenient cls member.1 member.2)).map Prod.fst).Nodup := by
    rw [List.map_map]
    exact nodup_plainMembers fields
  have hGet := KeyedMap.get_foldl_set constructed hDistinct key
  rw [List.foldl_map, lookup_map_value (fieldValue lenient cls), lookup_plainMembers] at hGet
  rw [hGet]
  cases toJson (fields.read key) <;> rfl

variable (lenient) in
theorem read_plainToInstance {cls : EventClass Num} {constructed : Fields Num}
    (fields : Fields Num)
    (hConstruct : cls.construct draw = .ok constructed) :
    ∃ event, plainToInstance lenient draw cls (plainMembers fields) = .ok event ∧
      event.cls = cls ∧
      ∀ key, event.fields.read key = restored lenient cls constructed key (fields.read key) := by
  obtain ⟨event, hPlain, hCls, hGet⟩ :=
    get_plainToInstance lenient fields hConstruct
  refine ⟨event, hPlain, hCls, fun key => ?_⟩
  rw [Fields.read, hGet, restored]
  cases toJson (fields.read key) <;> rfl

variable [JsonNumber Num]

/-- The text of an instance is parsed into its defined fields. -/
theorem parse_serializeEvent {event : Instance Num} (h : FieldsWellFormed event.fields) :
    Json.parse (serializeEvent event) = some (.obj (plainMembers event.fields)) :=
  Json.parse_stringify (wellFormed_plainMembers h)

omit [JsonNumber Num] in
/-- The class that the text of an instance leads back to. -/
def registeredClass (storage : ConstructorStorage Num) (event : Instance Num) :
    Option (EventClass Num) :=
  match toJson (event.fields.read "$name") with
  | some (.str name) => storage.get name
  | _ => none

theorem parseEvent_eq {event : Instance Num} (h : FieldsWellFormed event.fields) :
    parseEvent lenient storage draw (serializeEvent event) =
      match registeredClass storage event with
      | none => .ok (.plain (.obj (plainMembers event.fields)))
      | some cls =>
          (plainToInstance lenient draw cls (plainMembers event.fields)).map .instance := by
  rw [parseEvent, parse_serializeEvent h]
  simp only [instanceConstructor, lookup_plainMembers, registeredClass]

/-- What makes a field the same after its text was parsed: one that is undefined
is left so by the constructor, and it is declared as a date exactly when it
holds one, which has a time value. -/
def Survives (cls : EventClass Num) (constructed : Fields Num) (key : String) :
    FieldValue Num → Prop
  | .undefined => constructed.read key = .undefined
  | .json value => key ∈ cls.dateFields → value = .null
  | .date date => key ∈ cls.dateFields ∧ date ≠ none

omit [JsonNumber Num] in
theorem restored_eq_iff {cls : EventClass Num} {constructed : Fields Num} {key : String}
    {value : FieldValue Num} :
    restored lenient cls constructed key value = value ↔ Survives cls constructed key value := by
  match value with
  | .undefined => rfl
  | .json value =>
      simp only [restored, toJson, fieldValue, Survives]
      by_cases hDate : key ∈ cls.dateFields
      · cases value <;> simp [hDate]
      · simp [hDate]
  | .date none =>
      simp only [restored, toJson, fieldValue, Survives]
      by_cases hDate : key ∈ cls.dateFields
      · simp [hDate]
      · simp [hDate]
  | .date (some date) =>
      simp only [restored, toJson, fieldValue, Survives]
      by_cases hDate : key ∈ cls.dateFields
      · simp [hDate, newDate, DateTime.ofISOString_toISOString]
      · simp [hDate]

/-- Parsing the text of an instance gives an instance of its class with the same
fields. -/
def RoundTrips (lenient : Json Num → Option DateTime) (storage : ConstructorStorage Num)
    (draw : Nat) (event : Instance Num) : Prop :=
  ∃ event', parseEvent lenient storage draw (serializeEvent event) = .ok (.instance event') ∧
    event'.cls = event.cls ∧ ∀ key, event'.fields.read key = event.fields.read key

variable (lenient) in
theorem parseEvent_of_registered {event : Instance Num} (hFields : FieldsWellFormed event.fields)
    {cls : EventClass Num} (hClass : registeredClass storage event = some cls)
    {constructed : Fields Num} (hConstruct : cls.construct draw = .ok constructed) :
    ∃ event', parseEvent lenient storage draw (serializeEvent event) = .ok (.instance event') ∧
      event'.cls = cls ∧ ∀ key, event'.fields.read key =
        restored lenient cls constructed key (event.fields.read key) := by
  obtain ⟨event', hPlain, hCls, hRead⟩ :=
    read_plainToInstance lenient event.fields hConstruct
  refine ⟨event', ?_, hCls, hRead⟩
  rw [parseEvent_eq hFields, hClass]
  simp only [hPlain]
  rfl

section TestQuery

/-- A query class whose field initialisers set the reply fields. -/
def testQueryFields (draw : Nat) : Fields Int where
  entries := [("$metadata", .json (.obj [])), ("$name", .json (.str "TestQuery")),
    ("$uuid", .json (.num draw)), ("$type", .json (.str "QUERY")), ("$version", .json (.num 1)),
    ("$responseKey", .json (.str "hello")), ("$routingKey", .json (.str "world"))]
  distinct := by simp

def testQuery : EventClass Int where
  id := 0
  name := "TestQuery"
  construct draw := .ok (testQueryFields draw)
  dateFields := []
  getters := .empty

end TestQuery

end Moirae.EventCodec
