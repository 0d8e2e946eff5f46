import Moirae.Core.MemoryCache
import Moirae.Core.Mixin
import Moirae.Runs.Execution

/-! Reserving values: `reserveValue` and `releaseValue` of the instances of one
aggregate class over one cache, with mixins applied to the instances at any
time. -/
namespace Moirae.ValueReservation

/-- The name of the class and the metadata its instances inherit. -/
structure AggregateClass where
  name : String
  metadata : Metadata

/-- A value with what its cache key is made of: the constructor name that the
instance showed, and the property. -/
structure Reservation (Value : Type) where
  name : String
  propertyName : String
  value : Value
  deriving DecidableEq

def Reservation.key {Value : Type} (r : Reservation Value) : String :=
  r.name ++ "__" ++ r.propertyName

inductive Operation
  | reserve
  | release
  deriving DecidableEq, Repr

/-- A finished call and its result. -/
structure Call (Value : Type) where
  operation : Operation
  reservation : Reservation Value
  succeeded : Bool
  deriving DecidableEq

section Calls

variable {Value : Type}

/-- `sha1` is that of `object-hash`, applied to `{ value }`. -/
def reserveValue (sha1 : Value → String) (cache : MemoryCache) (r : Reservation Value) :
    MemoryCache × Bool :=
  cache.addToSet r.key (sha1 r.value)

def releaseValue (sha1 : Value → String) (cache : MemoryCache) (r : Reservation Value) :
    MemoryCache × Bool :=
  cache.removeFromSet r.key (sha1 r.value)

variable [DecidableEq Value]

/-- The reservations made by these calls, the last call first, without a later
successful release of the same value of the same property. -/
def live : List (Call Value) → List (Reservation Value)
  | [] => []
  | call :: earlier =>
      match call.operation, call.succeeded with
      | .reserve, true => call.reservation :: live earlier
      | .release, true => (live earlier).filter fun l =>
          ¬ (l.propertyName = call.reservation.propertyName ∧
            l.value = call.reservation.value)
      | _, false => live earlier

theorem eq_or_mem_of_mem_live_cons {call : Call Value} {earlier : List (Call Value)}
    {l : Reservation Value} (h : l ∈ live (call :: earlier)) :
    l = call.reservation ∨ l ∈ live earlier := by
  rw [live] at h
  split at h
  · exact List.mem_cons.mp h
  · exact Or.inr (List.mem_of_mem_filter h)
  · exact Or.inr h

/-- Some instance has reserved the value of the property and none has released
it since. -/
def Reserved (calls : List (Call Value)) (propertyName : String) (value : Value) : Prop :=
  ∃ l ∈ live calls, l.propertyName = propertyName ∧ l.value = value

/-- A live reservation of the value lies under the key. -/
def Occupied (calls : List (Call Value)) (key : String) (value : Value) : Prop :=
  ∃ l ∈ live calls, l.key = key ∧ l.value = value

instance (calls : List (Call Value)) (propertyName : String) (value : Value) :
    Decidable (Reserved calls propertyName value) :=
  inferInstanceAs (Decidable (∃ l ∈ live calls, _))

instance (calls : List (Call Value)) (key : String) (value : Value) :
    Decidable (Occupied calls key value) :=
  inferInstanceAs (Decidable (∃ l ∈ live calls, _))

/-- The call answers as the calls before it demand: a reservation succeeds
exactly if the value is not reserved, a release exactly if it is. -/
def Call.Answers (earlier : List (Call Value)) : Call Value → Prop
  | ⟨.reserve, r, succeeded⟩ => succeeded = true ↔ ¬ Reserved earlier r.propertyName r.value
  | ⟨.release, r, succeeded⟩ => succeeded = true ↔ Reserved earlier r.propertyName r.value

instance (earlier : List (Call Value)) : ∀ call : Call Value, Decidable (call.Answers earlier)
  | ⟨.reserve, r, succeeded⟩ => inferInstanceAs
      (Decidable (succeeded = true ↔ ¬ Reserved earlier r.propertyName r.value))
  | ⟨.release, r, succeeded⟩ => inferInstanceAs
      (Decidable (succeeded = true ↔ Reserved earlier r.propertyName r.value))

def AllAnswer : List (Call Value) → Prop
  | [] => True
  | call :: earlier => call.Answers earlier ∧ AllAnswer earlier

instance AllAnswer.decidable : ∀ calls : List (Call Value), Decidable (AllAnswer calls)
  | [] => instDecidableTrue
  | call :: earlier =>
      have := AllAnswer.decidable earlier
      inferInstanceAs (Decidable (call.Answers earlier ∧ AllAnswer earlier))

end Calls

structure World (Value : Type) where
  cache : MemoryCache
  instances : List MixinTarget
  /-- The last call first. -/
  calls : List (Call Value)

/-- Instances are known by their number. -/
inductive Action (Value : Type)
  | create
  | applyMixins (i : Nat) (mixins : List MixinClass)
  | reserveValue (i : Nat) (propertyName : String) (value : Value)
  | releaseValue (i : Nat) (propertyName : String) (value : Value)

namespace World

variable {Value : Type}

def new : World Value := ⟨.new, [], []⟩

/-- What the instance with this number asks for. -/
def requested (aggregate : AggregateClass) (s : World Value) (i : Nat) (propertyName : String)
    (value : Value) : Option (Reservation Value) :=
  s.instances[i]?.map fun target =>
    ⟨target.constructorName aggregate.name, propertyName, value⟩

/-- The calls are `async`, but the cache does its work before the first await,
so each call is one step. -/
def step (sha1 : Value → String) (aggregate : AggregateClass) (s : World Value) :
    Action Value → Option (World Value)
  | .create => some { s with instances := s.instances ++ [.fresh aggregate.metadata] }
  | .applyMixins i mixins => s.instances[i]?.map fun target =>
      { s with instances := s.instances.set i (target.applyMixins mixins) }
  | .reserveValue i propertyName value =>
      (s.requested aggregate i propertyName value).map fun r =>
        let (cache, succeeded) := ValueReservation.reserveValue sha1 s.cache r
        { s with cache := cache, calls := ⟨.reserve, r, succeeded⟩ :: s.calls }
  | .releaseValue i propertyName value =>
      (s.requested aggregate i propertyName value).map fun r =>
        let (cache, succeeded) := ValueReservation.releaseValue sha1 s.cache r
        { s with cache := cache, calls := ⟨.release, r, succeeded⟩ :: s.calls }

/-- The cache has the values that are reserved and no others: a released value
is free again. -/
def HoldsLive (sha1 : Value → String) (s : World Value) [DecidableEq Value] : Prop :=
  ∀ key value, s.cache.Contains key (sha1 value) ↔ Occupied s.calls key value

variable [DecidableEq Value]

/-- Reservation is exclusive: every call so far had the right result, and the
cache has what is reserved. -/
def Exclusive (sha1 : Value → String) (s : World Value) : Prop :=
  AllAnswer s.calls ∧ s.HoldsLive sha1

/-- The constructor name that the instance shows gives the reservations of the
value the same key exactly if they are for the property asked for. A
reservation only has to find some such reservation under its key, a release the
right one. -/
def SharesKey (aggregate : AggregateClass) (s : World Value) : Action Value → Prop
  | .create => True
  | .applyMixins _ _ => True
  | .reserveValue i propertyName value =>
      match s.requested aggregate i propertyName value with
      | none => True
      | some r => Occupied s.calls r.key value ↔ Reserved s.calls propertyName value
  | .releaseValue i propertyName value =>
      match s.requested aggregate i propertyName value with
      | none => True
      | some r => ∀ l ∈ live s.calls, l.value = value →
          (l.key = r.key ↔ l.propertyName = propertyName)

/-- No two live reservations of a value lie under one key. -/
def KeysDistinct (s : World Value) : Prop :=
  ((live s.calls).map fun l => (l.key, l.value)).Nodup

theorem HoldsLive.reserveValue {sha1 : Value → String} (hSha1 : Function.Injective sha1)
    {s : World Value} (h : s.HoldsLive sha1) (r : Reservation Value) (key : String)
    (value : Value) :
    (ValueReservation.reserveValue sha1 s.cache r).1.Contains key (sha1 value) ↔
      Occupied (⟨.reserve, r, (ValueReservation.reserveValue sha1 s.cache r).2⟩ :: s.calls)
        key value := by
  rw [ValueReservation.reserveValue, MemoryCache.contains_addToSet, h key value, hSha1.eq_iff]
  have hResult := s.cache.addToSet_succeeds_iff r.key (sha1 r.value)
  cases hOk : (s.cache.addToSet r.key (sha1 r.value)).2 with
  | true => simp [Occupied, live, or_comm, eq_comm]
  | false =>
      have hOld : Occupied s.calls r.key r.value := by
        rw [← h]
        simpa [hOk] using hResult
      constructor
      · rintro (hOccupied | ⟨rfl, rfl⟩)
        · exact hOccupied
        · exact hOld
      · exact Or.inl

theorem occupied_release {calls : List (Call Value)} {r : Reservation Value} {key : String}
    {value : Value} :
    Occupied (⟨.release, r, true⟩ :: calls) key value ↔
      ∃ l ∈ live calls, (l.key = key ∧ l.value = value) ∧
        ¬ (l.propertyName = r.propertyName ∧ l.value = r.value) := by
  simp only [Occupied, live, List.mem_filter, decide_eq_true_eq]
  constructor
  · rintro ⟨l, ⟨hLive, hKept⟩, hKey⟩
    exact ⟨l, hLive, hKey, hKept⟩
  · rintro ⟨l, hLive, hKey, hKept⟩
    exact ⟨l, ⟨hLive, hKept⟩, hKey⟩

/-- A release under the right key takes the one reservation of the value that
is for the property, in the cache as in the history. -/
theorem HoldsLive.releaseValue {sha1 : Value → String} (hSha1 : Function.Injective sha1)
    {s : World Value} (h : s.HoldsLive sha1) {r : Reservation Value}
    (hKeys : ∀ l ∈ live s.calls, l.value = r.value →
      (l.key = r.key ↔ l.propertyName = r.propertyName)) (key : String) (value : Value) :
    (ValueReservation.releaseValue sha1 s.cache r).1.Contains key (sha1 value) ↔
      Occupied (⟨.release, r, (ValueReservation.releaseValue sha1 s.cache r).2⟩ :: s.calls)
        key value := by
  rw [ValueReservation.releaseValue, MemoryCache.contains_removeFromSet, h key value,
    hSha1.eq_iff]
  have hResult := s.cache.removeFromSet_succeeds_iff r.key (sha1 r.value)
  rw [h r.key r.value] at hResult
  cases hOk : (s.cache.removeFromSet r.key (sha1 r.value)).2 with
  | true =>
      rw [occupied_release]
      constructor
      · rintro ⟨⟨l, hLive, rfl, rfl⟩, hNot⟩
        refine ⟨l, hLive, ⟨rfl, rfl⟩, ?_⟩
        rintro ⟨hProperty, hValue⟩
        exact hNot ⟨(hKeys l hLive hValue).mpr hProperty, hValue⟩
      · rintro ⟨l, hLive, ⟨rfl, rfl⟩, hNot⟩
        refine ⟨⟨l, hLive, rfl, rfl⟩, ?_⟩
        rintro ⟨hKey, hValue⟩
        exact hNot ⟨(hKeys l hLive hValue).mp hKey, hValue⟩
  | false =>
      have hNone : ¬ Occupied s.calls r.key r.value := by
        simpa [hOk] using hResult
      constructor
      · exact And.left
      · intro hOccupied
        refine ⟨hOccupied, ?_⟩
        rintro ⟨rfl, rfl⟩
        exact hNone hOccupied

/-- A release that answers right and leaves exactly the live reservations in
the cache was made under the right key. -/
theorem sharesKey_of_holdsLive_releaseValue {sha1 : Value → String}
    (hSha1 : Function.Injective sha1) {s : World Value} (h : s.HoldsLive sha1)
    (hDistinct : s.KeysDistinct) {r : Reservation Value}
    (hAnswer : (ValueReservation.releaseValue sha1 s.cache r).2 = true ↔
      Reserved s.calls r.propertyName r.value)
    (hNext : ∀ key value,
      (ValueReservation.releaseValue sha1 s.cache r).1.Contains key (sha1 value) ↔
        Occupied (⟨.release, r, (ValueReservation.releaseValue sha1 s.cache r).2⟩ :: s.calls)
          key value) :
    ∀ l ∈ live s.calls, l.value = r.value →
      (l.key = r.key ↔ l.propertyName = r.propertyName) := by
  intro l hLive hValue
  have hResult := s.cache.removeFromSet_succeeds_iff r.key (sha1 r.value)
  rw [h r.key r.value] at hResult
  have hAfter := hNext l.key r.value
  rw [ValueReservation.releaseValue, MemoryCache.contains_removeFromSet, h,
    hSha1.eq_iff] at hAfter
  rw [ValueReservation.releaseValue] at hAnswer
  have hHere : Occupied s.calls l.key r.value := ⟨l, hLive, rfl, hValue⟩
  constructor
  · intro hKey
    have hOk := hResult.mpr (hKey ▸ hHere)
    rw [hOk, occupied_release] at hAfter
    by_contra hProperty
    have hGone := hAfter.mpr ⟨l, hLive, ⟨rfl, hValue⟩, fun hSame => hProperty hSame.1⟩
    exact hGone.2 ⟨hKey, rfl⟩
  · intro hProperty
    have hOk := hAnswer.mpr ⟨l, hLive, hProperty, hValue⟩
    rw [hOk, occupied_release] at hAfter
    by_contra hKey
    obtain ⟨l', hLive', ⟨hKey', hValue'⟩, hNot⟩ := hAfter.mp ⟨hHere, fun hSame => hKey hSame.1⟩
    have hSame : l' = l := List.inj_on_of_nodup_map hDistinct hLive' hLive (by
      rw [hKey', hValue', hValue])
    exact hNot (hSame ▸ ⟨hProperty, hValue⟩)

/-- What one step can do. -/
theorem step_cases {sha1 : Value → String} {aggregate : AggregateClass} {s t : World Value}
    {a : Action Value} (h : step sha1 aggregate s a = some t) :
    (s.SharesKey aggregate a ∧ t.cache = s.cache ∧ t.calls = s.calls) ∨
      (∃ r, (s.SharesKey aggregate a ↔ (Occupied s.calls r.key r.value ↔
          Reserved s.calls r.propertyName r.value)) ∧
        t.cache = (ValueReservation.reserveValue sha1 s.cache r).1 ∧
        t.calls = ⟨.reserve, r, (ValueReservation.reserveValue sha1 s.cache r).2⟩ ::
          s.calls) ∨
      ∃ r, (s.SharesKey aggregate a ↔ ∀ l ∈ live s.calls, l.value = r.value →
          (l.key = r.key ↔ l.propertyName = r.propertyName)) ∧
        t.cache = (ValueReservation.releaseValue sha1 s.cache r).1 ∧
        t.calls = ⟨.release, r, (ValueReservation.releaseValue sha1 s.cache r).2⟩ ::
          s.calls := by
  cases a with
  | create =>
      obtain rfl := Option.some.inj h
      exact Or.inl ⟨trivial, rfl, rfl⟩
  | applyMixins i mixins =>
      obtain ⟨target, _, rfl⟩ := Option.map_eq_some_iff.mp h
      exact Or.inl ⟨trivial, rfl, rfl⟩
  | reserveValue i propertyName value =>
      obtain ⟨r, hRequested, rfl⟩ := Option.map_eq_some_iff.mp h
      obtain ⟨target, _, rfl⟩ := Option.map_eq_some_iff.mp hRequested
      refine Or.inr (Or.inl ⟨_, ?_, rfl, rfl⟩)
      rw [SharesKey, hRequested]
  | releaseValue i propertyName value =>
      obtain ⟨r, hRequested, rfl⟩ := Option.map_eq_some_iff.mp h
      obtain ⟨target, _, rfl⟩ := Option.map_eq_some_iff.mp hRequested
      refine Or.inr (Or.inr ⟨_, ?_, rfl, rfl⟩)
      rw [SharesKey, hRequested]

theorem holdsLive_congr {sha1 : Value → String} {s t : World Value}
    (hCache : t.cache = s.cache) (hCalls : t.calls = s.calls) :
    t.HoldsLive sha1 ↔ s.HoldsLive sha1 := by
  rw [HoldsLive, HoldsLive, hCache, hCalls]

/-- A new reservation was made under a free key, and a release adds none. -/
theorem KeysDistinct.step {sha1 : Value → String} {aggregate : AggregateClass}
    {s t : World Value} {a : Action Value} (h : s.KeysDistinct) (hHolds : s.HoldsLive sha1)
    (hStep : step sha1 aggregate s a = some t) : t.KeysDistinct := by
  rcases step_cases hStep with ⟨_, _, hCalls⟩ | ⟨r, _, _, hCalls⟩ | ⟨r, _, _, hCalls⟩
  · rw [KeysDistinct, hCalls]
    exact h
  · have hResult := s.cache.addToSet_succeeds_iff r.key (sha1 r.value)
    rw [hHolds r.key r.value] at hResult
    rw [KeysDistinct, hCalls]
    rw [ValueReservation.reserveValue]
    cases hOk : (s.cache.addToSet r.key (sha1 r.value)).2 with
    | false => exact h
    | true =>
        refine List.nodup_cons.mpr ⟨?_, h⟩
        intro hMem
        obtain ⟨l, hLive, hPair⟩ := List.mem_map.mp hMem
        obtain ⟨hKey, hValue⟩ := Prod.mk.inj hPair
        exact hResult.mp hOk ⟨l, hLive, hKey, hValue⟩
  · rw [KeysDistinct, hCalls]
    cases (ValueReservation.releaseValue sha1 s.cache r).2 with
    | false => exact h
    | true => exact h.sublist (List.filter_sublist.map _)

/-- One step keeps the reservations exclusive exactly if it uses the right key. -/
theorem exclusive_step_iff {sha1 : Value → String} (hSha1 : Function.Injective sha1)
    {aggregate : AggregateClass} {s t : World Value} {a : Action Value}
    (hDistinct : s.KeysDistinct) (h : s.Exclusive sha1)
    (hStep : step sha1 aggregate s a = some t) :
    t.Exclusive sha1 ↔ s.SharesKey aggregate a := by
  obtain ⟨hAll, hHolds⟩ := h
  rcases step_cases hStep with
    ⟨hMeets, hCache, hCalls⟩ | ⟨r, hMeets, hCache, hCalls⟩ | ⟨r, hMeets, hCache, hCalls⟩
  · have hNext : t.Exclusive sha1 := ⟨hCalls ▸ hAll, (holdsLive_congr hCache hCalls).mpr hHolds⟩
    exact iff_of_true hNext hMeets
  · have hNext : t.HoldsLive sha1 := by
      intro key value
      rw [hCache, hCalls]
      exact hHolds.reserveValue hSha1 r key value
    have hResult := s.cache.addToSet_succeeds_iff r.key (sha1 r.value)
    rw [hHolds r.key r.value] at hResult
    rw [hMeets, Exclusive, and_iff_left hNext, hCalls, AllAnswer, and_iff_left hAll]
    change ((s.cache.addToSet r.key (sha1 r.value)).2 = true ↔ _) ↔ _
    rw [hResult, not_iff_not]
  · rw [hMeets]
    constructor
    · rintro ⟨hAnswers, hNext⟩
      rw [hCalls] at hAnswers
      refine sharesKey_of_holdsLive_releaseValue hSha1 hHolds hDistinct hAnswers.1 ?_
      intro key value
      rw [← hCache, ← hCalls]
      exact hNext key value
    · intro hKeys
      have hResult := s.cache.removeFromSet_succeeds_iff r.key (sha1 r.value)
      rw [hHolds r.key r.value] at hResult
      refine ⟨?_, ?_⟩
      · rw [hCalls]
        refine ⟨?_, hAll⟩
        refine Iff.trans hResult ⟨?_, ?_⟩
        · rintro ⟨l, hLive, hKey, hValue⟩
          exact ⟨l, hLive, (hKeys l hLive hValue).mp hKey, hValue⟩
        · rintro ⟨l, hLive, hProperty, hValue⟩
          exact ⟨l, hLive, (hKeys l hLive hValue).mpr hProperty, hValue⟩
      · intro key value
        rw [hCache, hCalls]
        exact hHolds.releaseValue hSha1 hKeys key value

theorem exclusive_new (sha1 : Value → String) : (new : World Value).Exclusive sha1 := by
  refine ⟨trivial, fun key value => ?_⟩
  simp [new, MemoryCache.not_contains_new, Occupied, live]

/-- Reservation is exclusive along a run exactly if each call uses the key that
the live reservations of its value for its property use, and no other one. -/
theorem exclusive_iff_sharesKey (sha1 : Value → String) (hSha1 : Function.Injective sha1)
    (aggregate : AggregateClass) (actions : List (Action Value)) :
    Runs.Always (step sha1 aggregate) (Exclusive sha1) new actions ↔
      Runs.StepsMeet (step sha1 aggregate) (SharesKey aggregate) new actions := by
  refine Runs.always_iff_stepsMeet_while KeysDistinct (fun _ => True) ?_ ?_ List.nodup_nil
    (exclusive_new sha1) (fun _ _ => trivial)
  · intro s a t _ hDistinct h hStep _
    exact hDistinct.step h.2 hStep
  · intro s a t _ hDistinct h hStep
    exact exclusive_step_iff hSha1 hDistinct h hStep

/-- Mixins whose class is named like the aggregate class. -/
def NamedAlike (aggregate : AggregateClass) : Action Value → Prop
  | .applyMixins _ mixins => ∀ baseCtor ∈ mixins, baseCtor.name = aggregate.name
  | _ => True

/-- Every instance shows the name of the class, and every reservation was made
under it. -/
structure Named (aggregate : AggregateClass) (s : World Value) : Prop where
  instances : ∀ target ∈ s.instances, target.constructorName aggregate.name = aggregate.name
  reservations : ∀ l ∈ live s.calls, l.name = aggregate.name

theorem Named.requested {aggregate : AggregateClass} {s : World Value}
    (h : s.Named aggregate) {i : Nat} {propertyName : String} {value : Value}
    {r : Reservation Value} (hRequested : s.requested aggregate i propertyName value = some r) :
    r = ⟨aggregate.name, propertyName, value⟩ := by
  obtain ⟨target, hTarget, rfl⟩ := Option.map_eq_some_iff.mp hRequested
  rw [h.instances target (List.mem_of_getElem? hTarget)]

/-- Under one name, the keys are alike exactly if the properties are. -/
theorem Named.sharesKey {aggregate : AggregateClass} {s : World Value} (h : s.Named aggregate)
    (a : Action Value) : s.SharesKey aggregate a := by
  have hKey : ∀ l ∈ live s.calls, ∀ propertyName,
      l.key = aggregate.name ++ "__" ++ propertyName ↔ l.propertyName = propertyName := by
    intro l hLive propertyName
    rw [Reservation.key, h.reservations l hLive, String.append_right_inj]
  cases a with
  | create => trivial
  | applyMixins i mixins => trivial
  | reserveValue i propertyName value =>
      rw [SharesKey]
      cases hRequested : s.requested aggregate i propertyName value with
      | none => trivial
      | some r =>
          obtain rfl := h.requested hRequested
          constructor
          · rintro ⟨l, hLive, hSame, hValue⟩
            exact ⟨l, hLive, (hKey l hLive _).mp hSame, hValue⟩
          · rintro ⟨l, hLive, hSame, hValue⟩
            exact ⟨l, hLive, (hKey l hLive _).mpr hSame, hValue⟩
  | releaseValue i propertyName value =>
      rw [SharesKey]
      cases hRequested : s.requested aggregate i propertyName value with
      | none => trivial
      | some r =>
          obtain rfl := h.requested hRequested
          intro l hLive _
          exact hKey l hLive _

theorem Named.step {sha1 : Value → String} {aggregate : AggregateClass} {s t : World Value}
    {a : Action Value} (h : s.Named aggregate) (hAlike : NamedAlike aggregate a)
    (hStep : step sha1 aggregate s a = some t) : t.Named aggregate := by
  cases a with
  | create =>
      obtain rfl := Option.some.inj hStep
      refine ⟨fun target hTarget => ?_, h.reservations⟩
      rcases List.mem_append.mp hTarget with hOld | hNew
      · exact h.instances target hOld
      · rw [List.mem_singleton.mp hNew]
        rfl
  | applyMixins i mixins =>
      obtain ⟨old, hOld, rfl⟩ := Option.map_eq_some_iff.mp hStep
      refine ⟨fun target hTarget => ?_, h.reservations⟩
      rcases List.mem_or_eq_of_mem_set hTarget with hKept | rfl
      · exact h.instances target hKept
      · rw [MixinTarget.constructorName_applyMixins]
        cases hLast : mixins.getLast? with
        | none => exact h.instances old (List.mem_of_getElem? hOld)
        | some baseCtor => exact hAlike baseCtor (List.mem_of_getLast? hLast)
  | reserveValue i propertyName value =>
      obtain ⟨r, hRequested, rfl⟩ := Option.map_eq_some_iff.mp hStep
      refine ⟨h.instances, fun l hLive => ?_⟩
      rcases eq_or_mem_of_mem_live_cons hLive with rfl | hOld
      · rw [h.requested hRequested]
      · exact h.reservations l hOld
  | releaseValue i propertyName value =>
      obtain ⟨r, hRequested, rfl⟩ := Option.map_eq_some_iff.mp hStep
      refine ⟨h.instances, fun l hLive => ?_⟩
      rcases eq_or_mem_of_mem_live_cons hLive with rfl | hOld
      · rw [h.requested hRequested]
      · exact h.reservations l hOld

/-- As long as no mixin changes the constructor name, reservations are
exclusive in every run. -/
theorem exclusive_of_namedAlike {sha1 : Value → String} (hSha1 : Function.Injective sha1)
    {aggregate : AggregateClass} {actions : List (Action Value)}
    (hAlike : ∀ a ∈ actions, NamedAlike aggregate a) :
    Runs.Always (step sha1 aggregate) (Exclusive sha1) new actions := by
  refine Runs.always_of_allowed
    (fun s : World Value => s.Exclusive sha1 ∧ s.KeysDistinct ∧ s.Named aggregate)
    (NamedAlike aggregate) ?_ (fun s h => h.1) ?_ hAlike
  · rintro s a t hAllowed ⟨h, hDistinct, hNamed⟩ hStep
    exact ⟨(exclusive_step_iff hSha1 hDistinct h hStep).mpr (hNamed.sharesKey a),
      hDistinct.step h.2 hStep, hNamed.step hAllowed hStep⟩
  · exact ⟨exclusive_new sha1, List.nodup_nil, by simp [new], by simp [new, live]⟩

/-- The aggregate class of the tests, whose handler of `MakeDynamicEvent`
applies a mixin to the instance. -/
def testAggregate : AggregateClass := ⟨"TestAggregate", .empty⟩

def dynamicMixin : MixinClass where
  name := "DynamicMixin"
  methods := KeyedMap.empty.set "handleThirdTest" (.method "DynamicMixin" "handleThirdTest")
  metadata := ⟨KeyedMap.empty.set "__apply_event_metadata__:ThirdTestEvent" "handleThirdTest",
    .empty⟩
  methods_ne_constructor := by decide

/-- A digest that tells all values apart. -/
def sampleSha1 (value : String) : String :=
  if value = "a" then "87a185750fc8952ea3e9daaf4abfe1b766525569" else "digest of " ++ value

theorem sampleSha1_injective : Function.Injective sampleSha1 := by
  have hOther : ∀ value, "87a185750fc8952ea3e9daaf4abfe1b766525569" ≠ "digest of " ++ value := by
    intro value hSame
    simpa using congrArg (fun text => text.toList.head?) hSame
  intro v w h
  unfold sampleSha1 at h
  split at h <;> split at h
  · rw [‹v = "a"›, ‹w = "a"›]
  · exact absurd h (hOther w)
  · exact absurd h.symm (hOther v)
  · exact (String.append_right_inj _).mp h

/-- Two instances hold the same value: the mixin gave the second one another
constructor name. -/
theorem reserved_twice_after_mixin :
    ¬ Runs.Always (step sampleSha1 testAggregate) (Exclusive sampleSha1) new
      [.create, .create, .reserveValue 0 "foo" "a", .applyMixins 1 [dynamicMixin],
        .reserveValue 1 "foo" "a"] := by
  intro h
  have hAll := h.imp (Q := fun s => AllAnswer s.calls) fun _ hExclusive => hExclusive.1
  revert hAll
  decide

theorem exclusive_iff_sharesKey_one_constructor :
    Runs.Always (step sampleSha1 testAggregate) (Exclusive sampleSha1) new
        [.create, .create, .reserveValue 0 "foo" "a", .reserveValue 1 "foo" "a",
          .releaseValue 1 "foo" "a", .reserveValue 1 "foo" "a"] ↔
      Runs.StepsMeet (step sampleSha1 testAggregate) (SharesKey testAggregate) new
        [.create, .create, .reserveValue 0 "foo" "a", .reserveValue 1 "foo" "a",
          .releaseValue 1 "foo" "a", .reserveValue 1 "foo" "a"] :=
  exclusive_iff_sharesKey sampleSha1 sampleSha1_injective testAggregate _

end World

end Moirae.ValueReservation
