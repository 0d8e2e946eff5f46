import Moirae.Collections.Traversal
import Moirae.Core.EventCodec

/-! The codec for responses. The text of a response says at most one class, that
of a sample of the payload, and every object of the payload is made an instance
of it. -/
namespace Moirae.ResponseCodec

open EventCodec (ConstructorStorage EventClass FieldValue Instance Survives plainMembers
  lookup_plainMembers)

/-- What a response carries: a JSON value, an instance of a class, or an array of
payloads. -/
inductive Payload (Num : Type)
  | null
  | bool (b : Bool)
  | num (n : Num)
  | str (text : String)
  | array (items : List (Payload Num))
  /-- A plain object; what it holds are JSON values. -/
  | object (members : List (String × Json Num))
  | instance (e : Instance Num)

/-- A property that is undefined is `none`. `fromPlain` takes over whatever the
plain object holds, so the keys need not be texts. -/
structure ResponseWrapper (Num : Type) where
  payload : Option (Payload Num)
  payloadType : Option (Json Num)
  responseKey : Option (Json Num)
  routingKey : Option (Json Num)

variable {Num : Type}

namespace Payload

mutual

/-- `instanceToPlain` copies the own fields and forgets the class. -/
def instanceToPlain : Payload Num → Json Num
  | .null => .null
  | .bool b => .bool b
  | .num n => .num n
  | .str text => .str text
  | .array items => .arr (itemsToPlain items)
  | .object members => .obj members
  | .instance e => .obj (plainMembers e.fields)

def itemsToPlain : List (Payload Num) → List (Json Num)
  | [] => []
  | item :: items => instanceToPlain item :: itemsToPlain items

end

mutual

/-- A plain value as a payload. -/
def ofJson : Json Num → Payload Num
  | .null => .null
  | .bool b => .bool b
  | .num n => .num n
  | .str text => .str text
  | .arr items => .array (itemsOfJson items)
  | .obj members => .object members

def itemsOfJson : List (Json Num) → List (Payload Num)
  | [] => []
  | item :: items => ofJson item :: itemsOfJson items

end

mutual

/-- `plainToInstance` makes an instance of the class of every object. It goes
into arrays, and passes primitive values through. The constructor runs once for
each object; `draw` says what it draws at the place with these indices. -/
def plainToInstance (lenient : Json Num → Option DateTime) (cls : EventClass Num) :
    (List Nat → Nat) → Json Num → Except Thrown (Payload Num)
  | _, .null => .ok .null
  | _, .bool b => .ok (.bool b)
  | _, .num n => .ok (.num n)
  | _, .str text => .ok (.str text)
  | draw, .arr items => (itemsToInstance lenient cls draw 0 items).map .array
  | draw, .obj members =>
      (EventCodec.plainToInstance lenient (draw []) cls members).map .instance

def itemsToInstance (lenient : Json Num → Option DateTime) (cls : EventClass Num) :
    (List Nat → Nat) → Nat → List (Json Num) → Except Thrown (List (Payload Num))
  | _, _, [] => .ok []
  | draw, i, item :: items => do
      let item ← plainToInstance lenient cls (fun place => draw (i :: place)) item
      let items ← itemsToInstance lenient cls draw (i + 1) items
      return item :: items

end

mutual

/-- The second payload has the values of the first one, with instances of the
same classes. -/
def Same : Payload Num → Payload Num → Prop
  | .null, .null => True
  | .bool b, .bool b' => b = b'
  | .num n, .num n' => n = n'
  | .str text, .str text' => text = text'
  | .array items, .array items' => SameItems items items'
  | .object members, .object members' => members = members'
  | .instance e, .instance e' =>
      e'.cls = e.cls ∧ ∀ key, e'.fields.read key = e.fields.read key
  | _, _ => False

def SameItems : List (Payload Num) → List (Payload Num) → Prop
  | [], [] => True
  | item :: items, item' :: items' => Same item item' ∧ SameItems items items'
  | _, _ => False

end

mutual

/-- No instance of a class is in the payload. -/
def isPlain : Payload Num → Bool
  | .array items => itemsArePlain items
  | .instance _ => false
  | _ => true

def itemsArePlain : List (Payload Num) → Bool
  | [] => true
  | item :: items => isPlain item && itemsArePlain items

end

mutual

/-- Every object of the payload is an instance of the class, and survives its
constructor; there are no plain objects. -/
def Restored (cls : EventClass Num) : (List Nat → Nat) → Payload Num → Prop
  | draw, .array items => ItemsRestored cls draw 0 items
  | _, .object _ => False
  | draw, .instance e => e.cls = cls ∧ ∃ constructed, cls.construct (draw []) = .ok constructed ∧
      ∀ key, Survives cls constructed key (e.fields.read key)
  | _, _ => True

def ItemsRestored (cls : EventClass Num) : (List Nat → Nat) → Nat → List (Payload Num) → Prop
  | _, _, [] => True
  | draw, i, item :: items =>
      Restored cls (fun place => draw (i :: place)) item ∧ ItemsRestored cls draw (i + 1) items

end

mutual

/-- Left as it was parsed, a payload is the same again when it is plain. -/
theorem same_ofJson_iff (payload : Payload Num) :
    Same payload (ofJson (instanceToPlain payload)) ↔ payload.isPlain := by
  match payload with
  | .null | .bool _ | .num _ | .str _ | .object _ => simp [instanceToPlain, ofJson, Same, isPlain]
  | .instance e => simp [instanceToPlain, ofJson, Same, isPlain]
  | .array items => exact sameItems_ofJson_iff items

theorem sameItems_ofJson_iff (items : List (Payload Num)) :
    SameItems items (itemsOfJson (itemsToPlain items)) ↔ itemsArePlain items := by
  match items with
  | [] => simp [itemsToPlain, itemsOfJson, SameItems, itemsArePlain]
  | item :: items =>
      rw [itemsToPlain, itemsOfJson, SameItems, itemsArePlain, Bool.and_eq_true,
        same_ofJson_iff item, sameItems_ofJson_iff items]

end

variable (lenient : Json Num → Option DateTime) (cls : EventClass Num)

/-- An instance is the same again when it is of the class and survives its
constructor. -/
theorem same_instance_iff (draw : List Nat → Nat) (e : Instance Num) :
    (∃ after, plainToInstance lenient cls draw (instanceToPlain (.instance e)) = .ok after ∧
      Same (.instance e) after) ↔ Restored cls draw (.instance e) := by
  rw [instanceToPlain, plainToInstance, Restored]
  cases hConstruct : cls.construct (draw []) with
  | error thrown =>
      simp [EventCodec.plainToInstance, hConstruct, Except.map]
  | ok constructed =>
      obtain ⟨e', hPlain, hCls, hRead⟩ :=
        EventCodec.read_plainToInstance lenient e.fields hConstruct
      have hSurvives : (∀ key, e'.fields.read key = e.fields.read key) ↔
          ∀ key, Survives cls constructed key (e.fields.read key) :=
        forall_congr' fun key => by rw [hRead, EventCodec.restored_eq_iff]
      constructor
      · rintro ⟨after, hAfter, hSame⟩
        rw [hPlain] at hAfter
        cases hAfter
        exact ⟨hSame.1.symm.trans hCls, constructed, rfl, hSurvives.mp hSame.2⟩
      · rintro ⟨hOwn, fresh, hFresh, hAll⟩
        cases hFresh
        exact ⟨.instance e', by rw [hPlain]; rfl, hCls.trans hOwn.symm, hSurvives.mpr hAll⟩

mutual

/-- With the objects made instances of a class, a payload is the same again when
each of them was one. -/
theorem same_plainToInstance_iff (draw : List Nat → Nat) (payload : Payload Num) :
    (∃ after, plainToInstance lenient cls draw (instanceToPlain payload) = .ok after ∧
      Same payload after) ↔ Restored cls draw payload := by
  match payload with
  | .null => exact ⟨fun _ => trivial, fun _ => ⟨.null, rfl, trivial⟩⟩
  | .bool b => exact ⟨fun _ => trivial, fun _ => ⟨.bool b, rfl, rfl⟩⟩
  | .num n => exact ⟨fun _ => trivial, fun _ => ⟨.num n, rfl, rfl⟩⟩
  | .str text => exact ⟨fun _ => trivial, fun _ => ⟨.str text, rfl, rfl⟩⟩
  | .object members =>
      rw [instanceToPlain, plainToInstance, Restored, iff_false]
      rintro ⟨after, hAfter, hSame⟩
      obtain ⟨e, -, rfl⟩ := Traversal.exists_of_map_eq_ok hAfter
      exact hSame
  | .instance e => exact same_instance_iff lenient cls draw e
  | .array items =>
      have hItems := sameItems_itemsToInstance_iff draw 0 items
      rw [instanceToPlain, plainToInstance, Restored]
      constructor
      · rintro ⟨after, hAfter, hSame⟩
        obtain ⟨after, hAll, rfl⟩ := Traversal.exists_of_map_eq_ok hAfter
        exact hItems.mp ⟨after, hAll, hSame⟩
      · intro hRestored
        obtain ⟨after, hAfter, hSame⟩ := hItems.mpr hRestored
        exact ⟨.array after, by rw [hAfter]; rfl, hSame⟩

theorem sameItems_itemsToInstance_iff (draw : List Nat → Nat) (i : Nat)
    (items : List (Payload Num)) :
    (∃ after, itemsToInstance lenient cls draw i (itemsToPlain items) = .ok after ∧
      SameItems items after) ↔ ItemsRestored cls draw i items := by
  match items with
  | [] => simp [itemsToPlain, itemsToInstance, SameItems, ItemsRestored]
  | item :: items =>
      have hFirst := same_plainToInstance_iff (fun place => draw (i :: place)) item
      have hRest := sameItems_itemsToInstance_iff draw (i + 1) items
      rw [itemsToPlain, itemsToInstance, ItemsRestored]
      constructor
      · rintro ⟨after, hAfter, hSame⟩
        obtain ⟨head, hHead, hAfter⟩ := Traversal.exists_of_bind_eq_ok hAfter
        obtain ⟨tail, hTail, hAfter⟩ := Traversal.exists_of_bind_eq_ok hAfter
        cases hAfter
        exact ⟨hFirst.mp ⟨head, hHead, hSame.1⟩, hRest.mp ⟨tail, hTail, hSame.2⟩⟩
      · rintro ⟨hItem, hItems⟩
        obtain ⟨head, hHead, hSameHead⟩ := hFirst.mpr hItem
        obtain ⟨tail, hTail, hSameTail⟩ := hRest.mpr hItems
        exact ⟨head :: tail, by rw [hHead]; simp only [bind, Except.bind, hTail]; rfl,
          hSameHead, hSameTail⟩

end

variable {lenient cls}

/-- An array of instances that each survive the constructor, whatever it draws. -/
theorem itemsRestored_of_forall {items : List (Payload Num)}
    (h : ∀ item ∈ items, ∀ draw, Restored cls draw item) (draw : List Nat → Nat) (i : Nat) :
    ItemsRestored cls draw i items := by
  induction items generalizing i with
  | nil => trivial
  | cons item items ih =>
      obtain ⟨hItem, hItems⟩ := List.forall_mem_cons.mp h
      exact ⟨hItem _, ih hItems (i + 1)⟩

/-- `sample`: the first item of an array that has one, else the payload. -/
def sample : Payload Num → Payload Num
  | .array (first :: _) => first
  | payload => payload

/-- `.name` of what a property `constructor` holds. -/
def nameOf : FieldValue Num → Except Thrown (Option (Json Num))
  | .undefined =>
      .error (.error "TypeError" "Cannot read properties of undefined (reading 'name')")
  | .json .null => .error (.error "TypeError" "Cannot read properties of null (reading 'name')")
  | .json (.obj members) => .ok (members.lookup "name")
  | _ => .ok none

/-- `sample.constructor.name`, where an own property `constructor` hides that of
the prototype. Without a sample that is an object, the type stays what it was. -/
def constructorName (payloadType : Option (Json Num)) :
    Payload Num → Except Thrown (Option (Json Num))
  | .array _ => .ok (some (.str "Array"))
  | .object members => match members.lookup "constructor" with
    | none => .ok (some (.str "Object"))
    | some own => nameOf (.json own)
  | .instance e => match e.fields.get "constructor" with
    | none => .ok (some (.str e.cls.name))
    | some own => nameOf own
  | _ => .ok payloadType

theorem wellFormed_sample {payload : Payload Num} (h : payload.instanceToPlain.wellFormed) :
    payload.sample.instanceToPlain.wellFormed := by
  match payload with
  | .array (first :: items) =>
      simp only [instanceToPlain, itemsToPlain, Json.wellFormed, Json.wellFormedItems,
        Bool.and_eq_true] at h
      exact h.1
  | .null | .bool _ | .num _ | .str _ | .array [] | .object _ | .instance _ => exact h

/-- A name is a member of an object. -/
theorem wellFormed_nameOf {own : FieldValue Num} (h : own.wellFormed)
    {name : Option (Json Num)} (hName : nameOf own = .ok name) :
    ∀ value ∈ name, value.wellFormed := by
  intro value hValue
  match own, hName with
  | .json (.obj members), hName =>
      cases hName
      exact Json.wellFormed_of_lookup h hValue
  | .json (.bool _), rfl | .json (.num _), rfl | .json (.str _), rfl | .json (.arr _), rfl
  | .date _, rfl => cases hValue

theorem wellFormed_of_name {name : String} {after : Option (Json Num)}
    (h : (.ok (some (.str name)) : Except Thrown (Option (Json Num))) = .ok after) :
    ∀ value ∈ after, value.wellFormed := by
  cases h
  intro value hValue
  cases hValue
  rfl

theorem wellFormed_constructorName {payload : Payload Num}
    (h : payload.instanceToPlain.wellFormed) {payloadType after : Option (Json Num)}
    (hType : ∀ value ∈ payloadType, value.wellFormed)
    (hAfter : payload.constructorName payloadType = .ok after) :
    ∀ value ∈ after, value.wellFormed := by
  match payload with
  | .null | .bool _ | .num _ | .str _ =>
      cases hAfter
      exact hType
  | .array items => exact wellFormed_of_name hAfter
  | .object members =>
      rw [constructorName] at hAfter
      cases hOwn : members.lookup "constructor" with
      | none =>
          rw [hOwn] at hAfter
          exact wellFormed_of_name hAfter
      | some own =>
          rw [hOwn] at hAfter
          have hWellFormed : (FieldValue.json own).wellFormed := Json.wellFormed_of_lookup h hOwn
          exact wellFormed_nameOf hWellFormed hAfter
  | .instance e =>
      rw [constructorName] at hAfter
      cases hOwn : e.fields.get "constructor" with
      | none =>
          rw [hOwn] at hAfter
          exact wellFormed_of_name hAfter
      | some own =>
          rw [hOwn] at hAfter
          refine wellFormed_nameOf ?_ hAfter
          match own with
          | .undefined | .date _ => rfl
          | .json own =>
              have hLookup : (plainMembers e.fields).lookup "constructor" = some own := by
                rw [lookup_plainMembers, EventCodec.Fields.read, hOwn]
                rfl
              exact Json.wellFormed_of_lookup h hLookup

end Payload

namespace ResponseWrapper

/-- The `payloadType` that `toPlain` sets. -/
def sampleType (w : ResponseWrapper Num) : Except Thrown (Option (Json Num)) :=
  match w.payload with
  | none => .ok w.payloadType
  | some payload => payload.sample.constructorName w.payloadType

/-- `instanceToPlain(this)` -/
def plain (w : ResponseWrapper Num) : List (String × Json Num) :=
  [("responseKey", w.responseKey), ("routingKey", w.routingKey),
    ("payload", w.payload.map Payload.instanceToPlain), ("payloadType", w.payloadType)].filterMap
      fun field => field.2.map (field.1, ·)

def toPlain (w : ResponseWrapper Num) : Except Thrown (List (String × Json Num)) := do
  let payloadType ← w.sampleType
  return { w with payloadType }.plain

/-- The class that is stored under a `payloadType`. -/
def storedClass (storage : ConstructorStorage Num) : Option (Json Num) → Option (EventClass Num)
  | some (.str name) => storage.get name
  | _ => none

def fromPlain (lenient : Json Num → Option DateTime) (storage : ConstructorStorage Num)
    (draw : List Nat → Nat) (plain : List (String × Json Num)) :
    Except Thrown (ResponseWrapper Num) :=
  let response : ResponseWrapper Num :=
    { payload := (plain.lookup "payload").map Payload.ofJson
      payloadType := plain.lookup "payloadType"
      responseKey := plain.lookup "responseKey"
      routingKey := plain.lookup "routingKey" }
  match storedClass storage response.payloadType, plain.lookup "payload" with
  | some cls, some payload =>
      (Payload.plainToInstance lenient cls draw payload).map fun payload =>
        { response with payload := some payload }
  | _, _ => .ok response

/-- The JSON values are values of the language: their objects hold no key twice. -/
structure WellFormed (w : ResponseWrapper Num) : Prop where
  payload : ∀ payload ∈ w.payload, payload.instanceToPlain.wellFormed
  payloadType : ∀ value ∈ w.payloadType, value.wellFormed
  responseKey : ∀ value ∈ w.responseKey, value.wellFormed
  routingKey : ∀ value ∈ w.routingKey, value.wellFormed

theorem lookup_plain (w : ResponseWrapper Num) :
    w.plain.lookup "payload" = w.payload.map Payload.instanceToPlain ∧
      w.plain.lookup "payloadType" = w.payloadType ∧
      w.plain.lookup "responseKey" = w.responseKey ∧
      w.plain.lookup "routingKey" = w.routingKey := by
  obtain ⟨payload, payloadType, responseKey, routingKey⟩ := w
  cases payload <;> cases payloadType <;> cases responseKey <;> cases routingKey <;>
    exact ⟨rfl, rfl, rfl, rfl⟩

/-- The type that `toPlain` sets is a value of the language too. -/
theorem WellFormed.typed {w : ResponseWrapper Num} (h : w.WellFormed)
    {payloadType : Option (Json Num)} (hType : w.sampleType = .ok payloadType) :
    { w with payloadType }.WellFormed := by
  refine ⟨h.payload, ?_, h.responseKey, h.routingKey⟩
  rw [sampleType] at hType
  cases hPayload : w.payload with
  | none =>
      rw [hPayload] at hType
      cases hType
      exact h.payloadType
  | some payload =>
      rw [hPayload] at hType
      have hSample := Payload.wellFormed_sample (h.payload payload hPayload)
      exact Payload.wellFormed_constructorName hSample h.payloadType hType

/-- The plain object of a wrapper can be read back from its text. -/
theorem wellFormed_plain {w : ResponseWrapper Num} (h : w.WellFormed) :
    (Json.obj w.plain).wellFormed := by
  have hNames := EventCodec.map_fst_filterMap_sublist id
    [("responseKey", w.responseKey), ("routingKey", w.routingKey),
      ("payload", w.payload.map Payload.instanceToPlain), ("payloadType", w.payloadType)]
  rw [Json.wellFormed, Bool.and_eq_true, decide_eq_true_iff, Json.wellFormedMembers_iff]
  refine ⟨List.Nodup.sublist hNames (by simp), fun member hMember => ?_⟩
  obtain ⟨⟨key, value⟩, hField, hSome⟩ := List.mem_filterMap.mp hMember
  obtain ⟨json, rfl, rfl⟩ := Option.map_eq_some_iff.mp hSome
  simp only [List.mem_cons, Prod.mk.injEq, List.not_mem_nil, or_false] at hField
  obtain ⟨-, hField⟩ | ⟨-, hField⟩ | ⟨-, hField⟩ | ⟨-, hField⟩ := hField
  · exact h.responseKey json hField.symm
  · exact h.routingKey json hField.symm
  · obtain ⟨payload, hPayload, rfl⟩ := Option.map_eq_some_iff.mp hField.symm
    exact h.payload payload hPayload
  · exact h.payloadType json hField.symm

variable (lenient : Json Num → Option DateTime) (storage : ConstructorStorage Num)
  (draw : List Nat → Nat)

/-- What `fromPlain` makes of the members that `plain` has written. -/
theorem fromPlain_plain (w : ResponseWrapper Num) :
    fromPlain lenient storage draw w.plain =
      match storedClass storage w.payloadType, w.payload with
      | some cls, some payload =>
          (Payload.plainToInstance lenient cls draw payload.instanceToPlain).map fun payload =>
            { w with payload := some payload }
      | _, payload =>
          .ok { w with payload := payload.map fun payload => .ofJson payload.instanceToPlain } := by
  obtain ⟨hPayload, hType, hResponseKey, hRoutingKey⟩ := w.lookup_plain
  rw [fromPlain, hPayload, hType, hResponseKey, hRoutingKey]
  cases storedClass storage w.payloadType <;> cases w.payload <;> rfl

/-- The payloads before and after; one that is undefined is left so. -/
def SamePayload : Option (Payload Num) → Option (Payload Num) → Prop
  | none, none => True
  | some payload, some payload' => payload.Same payload'
  | _, _ => False

variable [JsonNumber Num]

/-- `after` is `ResponseWrapper.fromPlain(JSON.parse(JSON.stringify(w.toPlain())))`. -/
def Transmitted (w after : ResponseWrapper Num) : Prop :=
  ∃ plain reread, w.toPlain = .ok plain ∧ Json.parse (Json.obj plain).stringify =
    some (.obj reread) ∧ fromPlain lenient storage draw reread = .ok after

def RoundTrips (w : ResponseWrapper Num) : Prop :=
  ∃ after, Transmitted lenient storage draw w after ∧ SamePayload w.payload after.payload ∧
    after.responseKey = w.responseKey ∧ after.routingKey = w.routingKey

omit [JsonNumber Num] in
/-- The type of the sample describes the whole payload: with a class stored under
it, every object is an instance of that class, which survives its constructor;
without one, nothing is an instance of a class. -/
def Described (w : ResponseWrapper Num) : Prop :=
  ∃ payloadType, w.sampleType = .ok payloadType ∧ ∀ payload ∈ w.payload,
    match storedClass storage payloadType with
    | none => payload.isPlain
    | some cls => payload.Restored cls draw

variable {lenient storage draw}

/-- The text does not change the plain object. -/
theorem transmitted_iff {w : ResponseWrapper Num} (h : w.WellFormed)
    {after : ResponseWrapper Num} :
    Transmitted lenient storage draw w after ↔ ∃ payloadType, w.sampleType = .ok payloadType ∧
      fromPlain lenient storage draw { w with payloadType }.plain = .ok after := by
  constructor
  · rintro ⟨plain, reread, hPlain, hReread, hAfter⟩
    obtain ⟨payloadType, hType, hPlain⟩ := Traversal.exists_of_bind_eq_ok hPlain
    cases hPlain
    rw [Json.parse_stringify (wellFormed_plain (h.typed hType))] at hReread
    cases hReread
    exact ⟨payloadType, hType, hAfter⟩
  · rintro ⟨payloadType, hType, hAfter⟩
    exact ⟨_, _, by rw [toPlain, hType]; rfl,
      Json.parse_stringify (wellFormed_plain (h.typed hType)), hAfter⟩

omit [JsonNumber Num] in
/-- `fromPlain` keeps both keys. -/
theorem keys_fromPlain_plain {w after : ResponseWrapper Num}
    (h : fromPlain lenient storage draw w.plain = .ok after) :
    after.responseKey = w.responseKey ∧ after.routingKey = w.routingKey := by
  rw [fromPlain_plain] at h
  split at h
  · obtain ⟨payload, -, rfl⟩ := Traversal.exists_of_map_eq_ok h
    exact ⟨rfl, rfl⟩
  · cases h
    exact ⟨rfl, rfl⟩

omit [JsonNumber Num] in
/-- The payload is the same again when its type describes it. -/
theorem same_fromPlain_plain_iff (w : ResponseWrapper Num) :
    (∃ after, fromPlain lenient storage draw w.plain = .ok after ∧
      SamePayload w.payload after.payload) ↔
      ∀ payload ∈ w.payload, match storedClass storage w.payloadType with
        | none => payload.isPlain
        | some cls => payload.Restored cls draw := by
  rw [fromPlain_plain]
  cases hPayload : w.payload with
  | none => cases storedClass storage w.payloadType <;> simp [SamePayload]
  | some payload =>
      cases storedClass storage w.payloadType with
      | none => simp [SamePayload, Payload.same_ofJson_iff]
      | some cls =>
          simp only [Option.mem_def, Option.some.injEq, forall_eq']
          rw [← Payload.same_plainToInstance_iff lenient]
          constructor
          · rintro ⟨after, hAfter, hSame⟩
            obtain ⟨payload', hPayload', rfl⟩ := Traversal.exists_of_map_eq_ok hAfter
            exact ⟨payload', hPayload', hSame⟩
          · rintro ⟨payload', hPayload', hSame⟩
            exact ⟨{ w with payload := some payload' }, by rw [hPayload']; rfl, hSame⟩

omit [JsonNumber Num] in
/-- The responses the codec is made for: instances of one class, which is stored
under its own name. -/
theorem described_instances {cls : EventClass Num} (hStored : storage.get cls.name = some cls)
    {e : Instance Num} (hFirst : e.cls = cls ∧ e.fields.get "constructor" = none)
    {es : List (Instance Num)} (hRestored : ∀ e' ∈ e :: es, ∀ draw,
      (Payload.instance e').Restored cls draw) {w : ResponseWrapper Num}
    (hPayload : w.payload = some (.array ((e :: es).map .instance))) :
    Described storage draw w := by
  refine ⟨some (.str cls.name), ?_, ?_⟩
  · rw [sampleType, hPayload, ← hFirst.1]
    change Payload.constructorName _ (.instance e) = _
    rw [Payload.constructorName, hFirst.2]
  · rw [hPayload]
    rintro payload ⟨⟩
    rw [storedClass, hStored]
    exact Payload.itemsRestored_of_forall (List.forall_mem_map.mpr hRestored) draw 0

/-- Both keys of a response always arrive. Its payload arrives as it was, with
instances of the same classes, exactly when the type of its sample describes it. -/
theorem roundTrips_iff_described {w : ResponseWrapper Num} (h : w.WellFormed) :
    (∀ after, Transmitted lenient storage draw w after →
      after.responseKey = w.responseKey ∧ after.routingKey = w.routingKey) ∧
    (RoundTrips lenient storage draw w ↔ Described storage draw w) := by
  have hKeys : ∀ after, Transmitted lenient storage draw w after →
      after.responseKey = w.responseKey ∧ after.routingKey = w.routingKey := by
    intro after hAfter
    obtain ⟨payloadType, -, hAfter⟩ := (transmitted_iff h).mp hAfter
    exact keys_fromPlain_plain (w := { w with payloadType }) hAfter
  refine ⟨hKeys, ?_, ?_⟩
  · rintro ⟨after, hAfter, hSame, -⟩
    obtain ⟨payloadType, hType, hFromPlain⟩ := (transmitted_iff h).mp hAfter
    exact ⟨payloadType, hType,
      (same_fromPlain_plain_iff { w with payloadType }).mp ⟨after, hFromPlain, hSame⟩⟩
  · rintro ⟨payloadType, hType, hDescribed⟩
    obtain ⟨after, hFromPlain, hSame⟩ :=
      (same_fromPlain_plain_iff { w with payloadType }).mpr hDescribed
    have hAfter : Transmitted lenient storage draw w after :=
      (transmitted_iff h).mpr ⟨payloadType, hType, hFromPlain⟩
    exact ⟨after, hAfter, hSame, hKeys after hAfter⟩

section TestClass

def testClass : EventClass Int where
  id := 0
  name := "TestClass"
  construct _ := .ok (.set .empty "hello" (.json (.str "world")))
  dateFields := []
  getters := .empty

def testInstance : Instance Int where
  cls := testClass
  fields := .set .empty "hello" (.json (.str "world"))

def response (payload : Payload Int) : ResponseWrapper Int where
  payload := some payload
  payloadType := none
  responseKey := some (.str "hello")
  routingKey := some (.str "world")

theorem wellFormed_response {payload : Payload Int}
    (h : payload.instanceToPlain.wellFormed) : (response payload).WellFormed := by
  refine ⟨?_, ?_, ?_, ?_⟩
  · rintro payload' ⟨⟩
    exact h
  · rintro value ⟨⟩
  · rintro value ⟨⟩
    rfl
  · rintro value ⟨⟩
    rfl

theorem roundTrips_iff_described_testClass :
    RoundTrips (fun _ => none) (.registered [testClass]) List.length
        (response (.array [.instance testInstance, .null, .instance testInstance])) ↔
      Described (.registered [testClass]) List.length
        (response (.array [.instance testInstance, .null, .instance testInstance])) :=
  (roundTrips_iff_described (wellFormed_response (by decide))).2

/-- The first item is a number, so that no type is sent, and the instance after
it arrives as a plain object. -/
theorem mixed_response_loses_class :
    (response (.array [.num 1, .instance testInstance])).WellFormed ∧
      (ConstructorStorage.registered [testClass]).get testInstance.cls.name = some testClass ∧
      ¬ RoundTrips (fun _ => none) (.registered [testClass]) List.length
        (response (.array [.num 1, .instance testInstance])) := by
  have hWellFormed : (response (.array [.num 1, .instance testInstance])).WellFormed :=
    wellFormed_response (by decide)
  refine ⟨hWellFormed, rfl, ?_⟩
  rintro ⟨after, hAfter, hSame, -⟩
  obtain ⟨payloadType, hType, hFromPlain⟩ := (transmitted_iff hWellFormed).mp hAfter
  cases hType
  have hPlain := (same_fromPlain_plain_iff _).mp ⟨after, hFromPlain, hSame⟩ _ rfl
  cases hPlain

end TestClass

end ResponseWrapper

end Moirae.ResponseCodec
