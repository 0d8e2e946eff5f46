import Moirae.Core.CacheReads
import Moirae.Runs.Execution

/-! `setKey` on backends that take their time. Its promise does not wait for that
of `handleSetKey`, which may settle at any later time, or fail. -/
namespace Moirae

/-- The values of a backend. They are a map, whatever they are kept in. -/
structure KeyValueBackend (Store : Type) where
  read (key : String) : Store → Option String
  write (key value : String) : Store → Store
  drop (key : String) : Store → Store
  read_write : ∀ key key' value store,
    read key' (write key value store) = if key' = key then some value else read key' store
  read_drop : ∀ key key' store,
    read key' (drop key store) = if key' = key then none else read key' store

def MemoryCache.backend : KeyValueBackend MemoryCache where
  read key cache := cache.handleGetKey key
  write key value cache := cache.handleSetKey key value
  drop key cache := cache.dropKey key
  read_write key key' value cache := cache.handleGetKey_handleSetKey key key' value
  read_drop key key' cache := cache.handleGetKey_dropKey key key'

namespace PendingWrites

/-- How the promise of `handleSetKey` settles. Only what it fulfils with `true`
was stored. -/
inductive Settlement
  | stored
  | refused
  | rejected
  deriving DecidableEq

/-- A call of `handleSetKey`. -/
structure Write where
  key : String
  value : String
  settlement : Option Settlement

/-- The call whose promise the caller awaits. `setKey` has called the handler
already. -/
inductive Awaited (Num : Type)
  | setKey (key : String) (value : Json Num) (write : Nat)
  | getKey (key : String)
  | dropKey (key : String)

/-- What a promise was resolved with. Next to it stands what became of the write
by then, or the value that the key is expected to have. -/
inductive Resolved (Num : Type)
  | setKey (answer : Bool) (settlement : Option Settlement)
  | getKey (found : Except Thrown (Option (Json Num))) (expected : Option (Json Num))
  | dropKey

structure World (Store Num : Type) where
  store : Store
  writes : List Write
  awaited : Option (Awaited Num)
  /-- The value of the last `setKey` of a key that has resolved, until the next
  `setKey` or `dropKey` of it. -/
  expected : String → Option (Json Num)
  resolved : List (Resolved Num)

/-- The caller makes a call, a write settles, or the awaited promise resolves. -/
inductive Action (Num : Type)
  | setKey (key : String) (value : Json Num)
  | getKey (key : String)
  | dropKey (key : String)
  | settle (write : Nat) (settlement : Settlement)
  | resolve

namespace World

variable {Store Num : Type} [JsonNumber Num]

def initial (store : Store) : World Store Num := ⟨store, [], none, fun _ => none, []⟩

/-- What became of a write so far. -/
def settlement (w : World Store Num) (write : Nat) : Option Settlement :=
  (w.writes[write]?).bind (·.settlement)

/-- The awaited promise resolves. `setKey` returns `true`. -/
def resolve (backend : KeyValueBackend Store) (w : World Store Num) :
    Awaited Num → World Store Num
  | .setKey key value write =>
      { w with
        awaited := none
        expected := Function.update w.expected key (some value)
        resolved := w.resolved ++ [.setKey true (w.settlement write)] }
  | .getKey key =>
      { w with
        awaited := none
        resolved := w.resolved ++
          [.getKey (BaseCache.parseKey none (backend.read key w.store)) (w.expected key)] }
  | .dropKey key =>
      { w with
        store := backend.drop key w.store
        awaited := none
        resolved := w.resolved ++ [.dropKey] }

/-- `setKey` calls `handleSetKey`. -/
def callSetKey (w : World Store Num) (key : String) (value : Json Num) : World Store Num :=
  { w with
    writes := w.writes ++ [⟨key, value.stringify, none⟩]
    awaited := some (.setKey key value w.writes.length)
    expected := Function.update w.expected key none }

def callDropKey (w : World Store Num) (key : String) : World Store Num :=
  { w with
    awaited := some (.dropKey key)
    expected := Function.update w.expected key none }

def settle (backend : KeyValueBackend Store) (w : World Store Num) (i : Nat) (write : Write)
    (settlement : Settlement) : World Store Num :=
  { w with
    store :=
      if settlement = .stored then backend.write write.key write.value w.store else w.store
    writes := w.writes.set i { write with settlement := some settlement } }

/-- A caller that awaits makes no other call, and a promise settles once. -/
def step (backend : KeyValueBackend Store) (w : World Store Num) :
    Action Num → Option (World Store Num)
  | .setKey key value => if w.awaited.isNone then some (w.callSetKey key value) else none
  | .getKey key =>
      if w.awaited.isNone then some { w with awaited := some (.getKey key) } else none
  | .dropKey key => if w.awaited.isNone then some (w.callDropKey key) else none
  | .settle i settlement => match w.writes[i]? with
    | none => none
    | some write =>
        if write.settlement = none then some (w.settle backend i write settlement) else none
  | .resolve => w.awaited.map (w.resolve backend)

end World

/-- No object in a value that is set holds a key twice. -/
def Action.WellFormed {Num : Type} : Action Num → Prop
  | .setKey _ value => value.wellFormed = true
  | _ => True

namespace World

variable {Store Num : Type} [JsonNumber Num]

/-- When the promise of `setKey` resolves, that of its `handleSetKey` has already
been fulfilled. -/
def WriteDone (w : World Store Num) : Action Num → Prop
  | .resolve => ∀ key value write, w.awaited = some (.setKey key value write) →
      w.settlement write = some .stored
  | _ => True

/-- While every `setKey` waited for its write: only the write of the awaited
call can be pending, and the store has the values that are expected. -/
structure Coherent (backend : KeyValueBackend Store) (w : World Store Num) : Prop where
  pending : ∀ (i : Nat) write, w.writes[i]? = some write → write.settlement = none →
    ∃ value, w.awaited = some (.setKey write.key value i)
  expected : ∀ key value, w.expected key = some value →
    value.wellFormed = true ∧ backend.read key w.store = some value.stringify
  setting : ∀ key value i, w.awaited = some (.setKey key value i) →
    value.wellFormed = true ∧ w.expected key = none ∧
      ∃ write, w.writes[i]? = some write ∧ write.key = key ∧ write.value = value.stringify ∧
        (write.settlement = some .stored → backend.read key w.store = some value.stringify)
  dropping : ∀ key, w.awaited = some (.dropKey key) → w.expected key = none

variable {backend : KeyValueBackend Store} {w w' : World Store Num}

/-- Unless `setKey` is awaited, nothing is pending. -/
theorem Coherent.settled (h : w.Coherent backend)
    (hOther : ∀ key value i, w.awaited ≠ some (.setKey key value i)) {i : Nat} {write : Write}
    (hWrite : w.writes[i]? = some write) : write.settlement ≠ none := by
  intro hPending
  obtain ⟨value, hAwaited⟩ := h.pending i write hWrite hPending
  exact hOther write.key value i hAwaited

/-- When no call is awaited and no write is pending. -/
theorem coherent_of_idle (hIdle : w.awaited = none)
    (hSettled : ∀ (i : Nat) write, w.writes[i]? = some write → write.settlement ≠ none)
    (hExpected : ∀ key value, w.expected key = some value →
      value.wellFormed = true ∧ backend.read key w.store = some value.stringify) :
    w.Coherent backend where
  pending := fun i write hWrite hPending => absurd hPending (hSettled i write hWrite)
  expected := hExpected
  setting := by
    intro key value i hAwaited
    rw [hIdle] at hAwaited
    cases hAwaited
  dropping := by
    intro key hAwaited
    rw [hIdle] at hAwaited
    cases hAwaited

/-- What is not expected any more need not be in the store. -/
theorem Coherent.expected_update (h : w.Coherent backend) {own key : String} {value : Json Num}
    (hExpected : Function.update w.expected own none key = some value) :
    value.wellFormed = true ∧ backend.read key w.store = some value.stringify := by
  rw [Function.update_apply] at hExpected
  split at hExpected
  · cases hExpected
  · exact h.expected key value hExpected

theorem Coherent.setKey (h : w.Coherent backend) (hIdle : w.awaited = none) (key : String)
    {value : Json Num} (hJson : value.wellFormed = true) :
    (w.callSetKey key value).Coherent backend where
  pending := by
    intro i write hWrite hPending
    rw [callSetKey, List.getElem?_append] at hWrite
    split at hWrite
    · exact absurd hPending (h.settled (by simp [hIdle]) hWrite)
    · next hLast =>
        rw [List.getElem?_singleton] at hWrite
        obtain ⟨hZero, hSame⟩ := Option.ite_none_right_eq_some.mp hWrite
        obtain rfl := Option.some.inj hSame
        have hi : i = w.writes.length := by omega
        exact ⟨value, by rw [hi]; rfl⟩
  expected := fun _ _ => h.expected_update
  setting := by
    intro own other i hAwaited
    obtain ⟨rfl, rfl, rfl⟩ := Awaited.setKey.inj (Option.some.inj hAwaited)
    refine ⟨hJson, Function.update_self _ _ _, _, List.getElem?_concat_length, rfl, rfl, ?_⟩
    intro hStored
    cases hStored
  dropping := by
    intro own hAwaited
    cases hAwaited

theorem Coherent.getKey (h : w.Coherent backend) (hIdle : w.awaited = none) (key : String) :
    ({ w with awaited := some (.getKey key) } : World Store Num).Coherent backend where
  pending := fun _ _ hWrite hPending => absurd hPending (h.settled (by simp [hIdle]) hWrite)
  expected := h.expected
  setting := by
    intro own value i hAwaited
    cases hAwaited
  dropping := by
    intro own hAwaited
    cases hAwaited

theorem Coherent.dropKey (h : w.Coherent backend) (hIdle : w.awaited = none) (key : String) :
    (w.callDropKey key).Coherent backend where
  pending := fun _ _ hWrite hPending => absurd hPending (h.settled (by simp [hIdle]) hWrite)
  expected := fun _ _ => h.expected_update
  setting := by
    intro own value i hAwaited
    cases hAwaited
  dropping := by
    intro own hAwaited
    obtain rfl := Awaited.dropKey.inj (Option.some.inj hAwaited)
    exact Function.update_self _ _ _

/-- The only write that can settle is that of the awaited call. -/
theorem Coherent.settle (h : w.Coherent backend) {i : Nat} {write : Write}
    (hWrite : w.writes[i]? = some write) (hPending : write.settlement = none)
    (settlement : Settlement) : (w.settle backend i write settlement).Coherent backend := by
  obtain ⟨own, hAwaited⟩ := h.pending i write hWrite hPending
  obtain ⟨hJson, hNone, other, hOther, -, hValue, -⟩ := h.setting _ _ _ hAwaited
  rw [hWrite] at hOther
  obtain rfl := Option.some.inj hOther
  obtain ⟨hInside, -⟩ := List.getElem?_eq_some_iff.mp hWrite
  constructor
  · intro j later hLater hLaterPending
    rw [World.settle, List.getElem?_set] at hLater
    split at hLater
    · obtain rfl := Option.some.inj hLater
      cases hLaterPending
    · exact h.pending j later hLater hLaterPending
  · intro key value hExpected
    obtain ⟨hOwn, hRead⟩ := h.expected key value hExpected
    refine ⟨hOwn, ?_⟩
    have hKey : key ≠ write.key := by
      rintro rfl
      exact Option.some_ne_none value (hExpected.symm.trans hNone)
    rw [World.settle]
    split
    · rw [backend.read_write, if_neg hKey, hRead]
    · exact hRead
  · intro key value j hCall
    obtain ⟨rfl, rfl, rfl⟩ := Awaited.setKey.inj (Option.some.inj (hAwaited.symm.trans hCall))
    refine ⟨hJson, hNone, _, List.getElem?_set_self hInside, rfl, hValue, ?_⟩
    intro hStored
    obtain rfl := Option.some.inj hStored
    rw [World.settle, if_pos rfl, backend.read_write, if_pos rfl, hValue]
  · exact h.dropping

/-- The promise of `setKey` resolves after its write was stored. -/
theorem Coherent.resolve_setKey (h : w.Coherent backend) {key : String} {value : Json Num}
    {i : Nat} (hAwaited : w.awaited = some (.setKey key value i))
    (hDone : w.settlement i = some .stored) :
    (w.resolve backend (.setKey key value i)).Coherent backend := by
  obtain ⟨hJson, -, write, hWrite, -, -, hRead⟩ := h.setting key value i hAwaited
  have hStored : write.settlement = some .stored := by
    rwa [World.settlement, hWrite] at hDone
  apply coherent_of_idle rfl
  · intro j other hOther hPending
    obtain ⟨own, hOwn⟩ := h.pending j other hOther hPending
    obtain ⟨-, -, rfl⟩ := Awaited.setKey.inj (Option.some.inj (hAwaited.symm.trans hOwn))
    obtain rfl := Option.some.inj (hWrite.symm.trans hOther)
    rw [hStored] at hPending
    cases hPending
  · intro other expected hExpected
    dsimp only [World.resolve] at hExpected
    rw [Function.update_apply] at hExpected
    split at hExpected
    · next hSame =>
        obtain rfl := Option.some.inj hExpected
        rw [hSame]
        exact ⟨hJson, hRead hStored⟩
    · exact h.expected other expected hExpected

theorem Coherent.resolve_getKey (h : w.Coherent backend) {key : String}
    (hAwaited : w.awaited = some (.getKey key)) :
    (w.resolve backend (.getKey key)).Coherent backend := by
  apply coherent_of_idle rfl
  · exact fun i write hWrite => h.settled (by simp [hAwaited]) hWrite
  · exact h.expected

/-- The key that is dropped is not expected to have a value. -/
theorem Coherent.resolve_dropKey (h : w.Coherent backend) {key : String}
    (hAwaited : w.awaited = some (.dropKey key)) :
    (w.resolve backend (.dropKey key)).Coherent backend := by
  have hNone := h.dropping key hAwaited
  apply coherent_of_idle rfl
  · exact fun i write hWrite => h.settled (by simp [hAwaited]) hWrite
  · intro other expected hExpected
    have hKey : other ≠ key := by
      rintro rfl
      exact Option.some_ne_none expected (hExpected.symm.trans hNone)
    obtain ⟨hOwn, hRead⟩ := h.expected other expected hExpected
    refine ⟨hOwn, ?_⟩
    rw [World.resolve, backend.read_drop, if_neg hKey, hRead]

theorem Coherent.resolve (h : w.Coherent backend) {call : Awaited Num}
    (hAwaited : w.awaited = some call) (hDone : w.WriteDone .resolve) :
    (w.resolve backend call).Coherent backend := by
  cases call with
  | setKey key value i => exact h.resolve_setKey hAwaited (hDone key value i hAwaited)
  | getKey key => exact h.resolve_getKey hAwaited
  | dropKey key => exact h.resolve_dropKey hAwaited

/-- What is expected is found. -/
theorem Coherent.found (h : w.Coherent backend) {key : String} {value : Json Num}
    (hExpected : w.expected key = some value) :
    BaseCache.parseKey none (backend.read key w.store) = .ok (some value) := by
  obtain ⟨hJson, hRead⟩ := h.expected key value hExpected
  rw [hRead, CacheContents.parseKey_stringify hJson]
  rfl

theorem Coherent.step (h : w.Coherent backend) {a : Action Num} (hJson : a.WellFormed)
    (hStep : w.step backend a = some w') (hDone : w.WriteDone a) : w'.Coherent backend := by
  cases a with
  | setKey key value =>
      obtain ⟨hIdle, hNext⟩ := Option.ite_none_right_eq_some.mp hStep
      obtain rfl := Option.some.inj hNext
      exact h.setKey (Option.isNone_iff_eq_none.mp hIdle) key hJson
  | getKey key =>
      obtain ⟨hIdle, hNext⟩ := Option.ite_none_right_eq_some.mp hStep
      obtain rfl := Option.some.inj hNext
      exact h.getKey (Option.isNone_iff_eq_none.mp hIdle) key
  | dropKey key =>
      obtain ⟨hIdle, hNext⟩ := Option.ite_none_right_eq_some.mp hStep
      obtain rfl := Option.some.inj hNext
      exact h.dropKey (Option.isNone_iff_eq_none.mp hIdle) key
  | settle i settlement =>
      rw [World.step] at hStep
      cases hWrite : w.writes[i]? with
      | none => simp [hWrite] at hStep
      | some write =>
          simp only [hWrite] at hStep
          obtain ⟨hPending, hNext⟩ := Option.ite_none_right_eq_some.mp hStep
          obtain rfl := Option.some.inj hNext
          exact h.settle hWrite hPending settlement
  | resolve =>
      obtain ⟨call, hAwaited, rfl⟩ := Option.map_eq_some_iff.mp hStep
      exact h.resolve hAwaited hDone

end World

end PendingWrites

end Moirae
