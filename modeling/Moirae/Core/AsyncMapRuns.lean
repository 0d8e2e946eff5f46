import Moirae.Core.AsyncMap
import Moirae.Runs.Execution

/-! The async map beside the plain map that its callers believe to use. Calls
and the continuations of those who wait come in any order. -/
namespace Moirae.AsyncMapRuns

variable {Value : Type}

inductive Progress (Value : Type)
  | waiting
  /-- The promise in `waitGet` is resolved, its continuation is pending. -/
  | woken (value : Value)
  | returned (value : Option Value)
  | timedOut
  deriving DecidableEq

/-- A call of `waitGet`. It is known by its number, which is the id of its
subscription too. -/
structure Wait (Value : Type) where
  key : String
  progress : Progress Value
  /-- What was stored under the key while the call waited, or was there at its
  start. -/
  offered : List Value
  deriving DecidableEq

/-- What a caller observes. -/
inductive Answer (Value : Type)
  | get (value : Option Value)
  | has (answer : Bool)
  | size (n : Nat)
  deriving DecidableEq

structure World (Value : Type) where
  asyncMap : AsyncMap Value
  /-- What the calls of `set` and `delete` make of a plain map. -/
  plain : KeyedMap String Value
  waits : List (Wait Value)
  /-- What the last call observed, and what it would observe in the plain map. -/
  observed : Option (Answer Value × Answer Value)

inductive Action (Value : Type)
  | set (key : String) (value : Value)
  | delete (key : String)
  | get (key : String) (defaultValue : Option Value)
  | has (key : String)
  | size
  | waitGet (key : String)
  /-- The continuation of `waitGet` after its promise was resolved. -/
  | resume (i : Nat)
  | timeout (i : Nat)

/-- The key that a call still waits for. -/
def Wait.pending (wait : Wait Value) : Option String :=
  match wait.progress with
  | .waiting => some wait.key
  | _ => none

/-- Is the call not over yet? -/
def Wait.open (wait : Wait Value) : Bool :=
  match wait.progress with
  | .waiting | .woken _ => true
  | .returned _ | .timedOut => false

/-- A caller stores a value while this call is open. -/
def offer (key : String) (value : Value) (wait : Wait Value) : Wait Value :=
  if wait.open && wait.key = key then { wait with offered := wait.offered ++ [value] } else wait

def setProgress (i : Nat) (progress : Progress Value) (waits : List (Wait Value)) :
    List (Wait Value) :=
  waits.modify i fun wait => { wait with progress }

namespace World

def new : World Value := ⟨.new, .empty, [], none⟩

/-- `set` of the async map; the waiters that are called have their promises
resolved. -/
def store (w : World Value) (key : String) (value : Value) : World Value :=
  { w with
    asyncMap := w.asyncMap.set key value
    waits := (w.asyncMap.woken key).foldl
      (fun waits waiter => setProgress waiter.subId (.woken value) waits) w.waits }

variable (truthy : Value → Bool)

def step (w : World Value) : Action Value → Option (World Value)
  | .set key value =>
      let stored := store { w with waits := w.waits.map (offer key value) } key value
      some { stored with plain := w.plain.set key value, observed := none }
  | .delete key =>
      some { w with
        asyncMap := w.asyncMap.delete key, plain := w.plain.delete key, observed := none }
  | .get key defaultValue =>
      -- `this._map.get(key) || defaultValue`
      some { w with
        observed := some (.get ((w.asyncMap.get truthy key).or defaultValue),
          .get ((w.plain.get key).or defaultValue)) }
  | .has key =>
      some { w with observed := some (.has (w.asyncMap.has key), .has (w.plain.has key)) }
  | .size =>
      some { w with observed := some (.size w.asyncMap.size, .size w.plain.size) }
  | .waitGet key =>
      let offered := (w.plain.get key).toList
      match w.asyncMap.waitGet truthy w.waits.length key with
      | (asyncMap, .returned value) =>
          some { w with
            asyncMap, waits := w.waits ++ [⟨key, .returned value, offered⟩], observed := none }
      | (asyncMap, .waiting) =>
          some { w with
            asyncMap, waits := w.waits ++ [⟨key, .waiting, offered⟩], observed := none }
  | .resume i =>
      match w.waits[i]? with
      | some ⟨key, .woken value, _⟩ =>
          let again := w.store key value
          some { again with
            waits := setProgress i (.returned (some value)) again.waits, observed := none }
      | _ => none
  | .timeout i =>
      match w.waits[i]? with
      | some ⟨_, .waiting, _⟩ =>
          some { w with
            asyncMap := w.asyncMap.timeout i
            waits := setProgress i .timedOut w.waits, observed := none }
      | _ => none

/-- The async map holds what the plain one holds, the last call observed just
that, and what the calls of `waitGet` returned had been offered to them. -/
structure Refines (w : World Value) : Prop where
  map_eq : w.asyncMap.map = w.plain
  observes : ∀ answer expected, w.observed = some (answer, expected) → answer = expected
  returns : ∀ wait ∈ w.waits, ∀ value, wait.progress = .returned value →
    ∃ v ∈ wait.offered, value = some v

/-- A value that is read is truthy (or the default, where one is given), and a
call continues only while its key has the value that it was woken with. -/
def KeepsValue (w : World Value) : Action Value → Prop
  | .get key defaultValue =>
      ∀ value, w.plain.get key = some value → truthy value = true ∨ defaultValue = some value
  | .waitGet key => ∀ value, w.plain.get key = some value → truthy value = true
  | .resume i => ∀ key value offered, w.waits[i]? = some ⟨key, .woken value, offered⟩ →
      w.plain.get key = some value
  | _ => True

/-- The listeners are those of the calls that wait, for keys that are not there,
and a call is woken with what it was offered. -/
structure Sound (w : World Value) : Prop where
  registered : AsyncMap.Registered w.asyncMap.distributer
  listeners : ∀ waiter, waiter ∈ w.asyncMap.distributer.listeners ↔
    (w.waits[waiter.subId]?).bind Wait.pending = some waiter.key
  absent : ∀ wait ∈ w.waits, ∀ key, wait.pending = some key →
    w.asyncMap.map.get key = none
  woken : ∀ wait ∈ w.waits, ∀ value, wait.progress = .woken value → value ∈ wait.offered

section

variable {truthy}

/-- Waking a call that waits for the key. -/
def wake (key : String) (value : Value) (wait : Wait Value) : Wait Value :=
  if wait.pending = some key then { wait with progress := .woken value } else wait

@[simp] theorem pending_offer (key : String) (value : Value) (wait : Wait Value) :
    (offer key value wait).pending = wait.pending := by
  unfold offer
  split <;> rfl

@[simp] theorem progress_offer (key : String) (value : Value) (wait : Wait Value) :
    (offer key value wait).progress = wait.progress := by
  unfold offer
  split <;> rfl

/-- What was offered to a wait stays offered. -/
theorem mem_offered_offer {key : String} {value other : Value} {wait : Wait Value}
    (h : other ∈ wait.offered) : other ∈ (offer key value wait).offered := by
  unfold offer
  split
  · exact List.mem_append_left _ h
  · exact h

/-- A wait is pending for a key while it waits for it. -/
theorem pending_eq_some_iff {wait : Wait Value} {key : String} :
    wait.pending = some key ↔ wait.progress = .waiting ∧ wait.key = key := by
  unfold Wait.pending
  split
  · next hProgress => simp [hProgress]
  · next hProgress => simpa using fun hWaiting => absurd hWaiting hProgress

/-- Those that wait for the key are woken. -/
theorem pending_wake (key : String) (value : Value) (wait : Wait Value) :
    (wake key value wait).pending = wait.pending.filter (· ≠ key) := by
  unfold wake
  split
  · next hPending =>
      rw [hPending, Option.filter_some]
      simp [Wait.pending]
  · next hPending =>
      cases hOther : wait.pending with
      | none => rfl
      | some other =>
          rw [hOther] at hPending
          have hNe : other ≠ key := fun hSame => hPending (congrArg some hSame)
          simp [Option.filter_some, hNe]

/-- The waits of these waiters are woken, and no others. -/
theorem getElem?_foldl_woken (value : Value) (waiters : List Waiter) (waits : List (Wait Value))
    (j : Nat) :
    (waiters.foldl (fun waits waiter => setProgress waiter.subId (.woken value) waits) waits)[j]? =
      if ∃ waiter ∈ waiters, waiter.subId = j then
        waits[j]?.map fun wait => { wait with progress := .woken value }
      else waits[j]? :=
  AsyncMap.getElem?_foldl_modify (fun wait : Wait Value => { wait with progress := .woken value })
    (fun _ => rfl) waiters waits j

/-- Storing a value wakes the calls that wait for its key. -/
theorem Sound.waits_store {w : World Value} (h : w.Sound) (key : String) (value : Value) :
    (w.store key value).waits = w.waits.map (wake key value) := by
  apply List.ext_getElem?
  intro j
  rw [store, getElem?_foldl_woken, List.getElem?_map]
  have hWoken : (∃ waiter ∈ w.asyncMap.woken key, waiter.subId = j) ↔
      (w.waits[j]?).bind Wait.pending = some key := by
    constructor
    · rintro ⟨waiter, hWaiter, rfl⟩
      obtain ⟨hMem, rfl⟩ := AsyncMap.mem_woken.mp hWaiter
      exact (h.listeners waiter).mp hMem
    · intro hPending
      exact ⟨⟨j, key⟩, AsyncMap.mem_woken.mpr ⟨(h.listeners ⟨j, key⟩).mpr hPending, rfl⟩, rfl⟩
  simp only [hWoken]
  cases w.waits[j]? with
  | none => simp
  | some wait =>
      simp only [Option.bind_some, Option.map_some, wake]
      split <;> rfl

/-- Nobody waits at first. -/
theorem sound_new : (new : World Value).Sound where
  registered := AsyncMap.registered_new
  listeners := by simp [new, AsyncMap.new, Distributor.new]
  absent := by simp [new]
  woken := by simp [new]

/-- A value is stored that was offered to those who wait for it. -/
theorem Sound.store {w : World Value} (h : w.Sound) {key : String} {value : Value}
    (hOffered : ∀ wait ∈ w.waits, wait.pending = some key → value ∈ wait.offered) :
    (w.store key value).Sound := by
  constructor
  · exact h.registered.set key value
  · intro waiter
    rw [h.waits_store, List.getElem?_map]
    change waiter ∈ (w.asyncMap.set key value).distributer.listeners ↔ _
    rw [h.registered.mem_listeners_set, h.listeners]
    cases w.waits[waiter.subId]? with
    | none => simp
    | some wait =>
        simp only [Option.bind_some, Option.map_some, pending_wake, Option.filter_eq_some_iff,
          decide_eq_true_eq]
  · intro wait hWait other hPending
    rw [h.waits_store] at hWait
    obtain ⟨wait, hOld, rfl⟩ := List.mem_map.mp hWait
    rw [pending_wake, Option.filter_eq_some_iff, decide_eq_true_eq] at hPending
    change (w.asyncMap.map.set key value).get other = none
    rw [KeyedMap.get_set_ne _ hPending.2]
    exact h.absent wait hOld other hPending.1
  · intro wait hWait other hWoken
    rw [h.waits_store] at hWait
    obtain ⟨wait, hOld, rfl⟩ := List.mem_map.mp hWait
    unfold wake at hWoken ⊢
    split at hWoken
    · next hPending =>
        rw [if_pos hPending]
        obtain rfl : value = other := Progress.woken.inj hWoken
        exact hOffered wait hOld hPending
    · next hPending =>
        rw [if_neg hPending]
        exact h.woken wait hOld other hWoken

/-- Offers change nothing about who waits. -/
theorem Sound.offer {w : World Value} (h : w.Sound) (key : String) (value : Value) :
    Sound { w with waits := w.waits.map (offer key value) } where
  registered := h.registered
  listeners := by
    intro waiter
    rw [h.listeners, List.getElem?_map]
    cases w.waits[waiter.subId]? <;> simp
  absent := by
    intro wait hWait other hPending
    obtain ⟨wait, hOld, rfl⟩ := List.mem_map.mp hWait
    exact h.absent wait hOld other (by simpa using hPending)
  woken := by
    intro wait hWait other hWoken
    obtain ⟨wait, hOld, rfl⟩ := List.mem_map.mp hWait
    exact mem_offered_offer (h.woken wait hOld other (by simpa using hWoken))

/-- What is known of the calls after one of them has moved on. -/
theorem mem_setProgress {waits : List (Wait Value)} {i : Nat} {wait other : Wait Value}
    (hWait : waits[i]? = some wait) {progress : Progress Value}
    (hOther : other ∈ setProgress i progress waits) :
    other ∈ waits ∨ other = { wait with progress } := by
  obtain ⟨j, hj⟩ := List.mem_iff_getElem?.mp hOther
  by_cases hSelf : i = j
  · subst hSelf
    rw [setProgress, List.getElem?_modify_eq, hWait] at hj
    exact Or.inr (Option.some.inj hj).symm
  · rw [setProgress, List.getElem?_modify_ne _ _ hSelf] at hj
    exact Or.inl (List.mem_of_getElem? hj)

/-- A call ends that does not wait any more. -/
theorem Sound.ended {w : World Value} (h : w.Sound) {i : Nat} {wait : Wait Value}
    (hWait : w.waits[i]? = some wait) {asyncMap : AsyncMap Value}
    (hMap : asyncMap.map = w.asyncMap.map)
    (hRegistered : AsyncMap.Registered asyncMap.distributer)
    (hListeners : ∀ waiter, waiter ∈ asyncMap.distributer.listeners ↔
      waiter ∈ w.asyncMap.distributer.listeners ∧ waiter.subId ≠ i)
    {progress : Progress Value}
    (hPending : ∀ key offered, (Wait.mk key progress offered).pending = none)
    (hWoken : ∀ value, progress ≠ .woken value) (observed : Option (Answer Value × Answer Value)) :
    Sound { w with asyncMap, waits := setProgress i progress w.waits, observed } := by
  have hMem : ∀ other ∈ setProgress i progress w.waits,
      other ∈ w.waits ∨ other = { wait with progress } := fun _ => mem_setProgress hWait
  constructor
  · exact hRegistered
  · intro waiter
    change waiter ∈ asyncMap.distributer.listeners ↔
      ((setProgress i progress w.waits)[waiter.subId]?).bind Wait.pending = _
    rw [hListeners, h.listeners]
    by_cases hSelf : waiter.subId = i
    · rw [hSelf, setProgress, List.getElem?_modify_eq, hWait]
      simp [hPending]
    · rw [setProgress, List.getElem?_modify_ne _ _ (Ne.symm hSelf)]
      exact and_iff_left hSelf
  · intro other hOther key hKey
    change asyncMap.map.get key = none
    rw [hMap]
    rcases hMem other hOther with hOld | rfl
    · exact h.absent other hOld key hKey
    · rw [hPending] at hKey
      cases hKey
  · intro other hOther value hValue
    rcases hMem other hOther with hOld | rfl
    · exact h.woken other hOld value hValue
    · exact absurd hValue (hWoken value)

/-- Storing a value makes no call return. -/
theorem Sound.mem_of_returned {w : World Value} (h : w.Sound) {key : String} {value : Value}
    {wait : Wait Value} (hWait : wait ∈ (w.store key value).waits) {returned : Option Value}
    (hReturned : wait.progress = .returned returned) : wait ∈ w.waits := by
  rw [h.waits_store] at hWait
  obtain ⟨wait, hOld, rfl⟩ := List.mem_map.mp hWait
  unfold wake at hReturned ⊢
  split at hReturned
  · cases hReturned
  · next hPending => rwa [if_neg hPending]

/-- A call that is not waiting does not listen. -/
theorem Sound.subId_ne {w : World Value} (h : w.Sound) {i : Nat} {wait : Wait Value}
    (hWait : w.waits[i]? = some wait) (hPending : wait.pending = none) {waiter : Waiter}
    (hWaiter : waiter ∈ w.asyncMap.distributer.listeners) : waiter.subId ≠ i := by
  rintro rfl
  have hOwn := (h.listeners waiter).mp hWaiter
  rw [hWait, Option.bind_some, hPending] at hOwn
  cases hOwn

/-- A value is stored and offered to those that wait. -/
theorem step_set {w w' : World Value} (h : w.Sound) (hRefines : w.Refines) {key : String}
    {value : Value} (hStep : step truthy w (.set key value) = some w') :
    w'.Sound ∧ w'.Refines := by
  obtain rfl := Option.some.inj hStep
  have hOffered := h.offer key value
  have hOffers : ∀ wait ∈ w.waits.map (AsyncMapRuns.offer key value),
      wait.pending = some key → value ∈ wait.offered := by
    intro wait hWait hPending
    obtain ⟨wait, -, rfl⟩ := List.mem_map.mp hWait
    rw [pending_offer, pending_eq_some_iff] at hPending
    have hOpen : (wait.open && decide (wait.key = key)) = true := by
      simp [Wait.open, hPending]
    rw [AsyncMapRuns.offer, if_pos hOpen]
    exact List.mem_append_right _ (List.mem_singleton_self value)
  have hStored := hOffered.store hOffers
  refine ⟨⟨hStored.registered, hStored.listeners, hStored.absent, hStored.woken⟩, ?_, by simp, ?_⟩
  · change w.asyncMap.map.set key value = w.plain.set key value
    rw [hRefines.map_eq]
  · intro wait hWait returned hReturned
    obtain ⟨wait, hOld, rfl⟩ := List.mem_map.mp (hOffered.mem_of_returned hWait hReturned)
    obtain ⟨v, hv, hSome⟩ := hRefines.returns wait hOld returned (by simpa using hReturned)
    exact ⟨v, mem_offered_offer hv, hSome⟩

/-- A value is deleted, and nobody is woken. -/
theorem step_delete {w w' : World Value} (h : w.Sound) (hRefines : w.Refines) {key : String}
    (hStep : step truthy w (.delete key) = some w') : w'.Sound ∧ w'.Refines := by
  obtain rfl := Option.some.inj hStep
  refine ⟨⟨h.registered, h.listeners, ?_, h.woken⟩, ?_, by simp, hRefines.returns⟩
  · intro wait hWait other hPending
    change (w.asyncMap.map.delete key).get other = none
    rw [KeyedMap.get_delete, h.absent wait hWait other hPending, ite_self]
  · change w.asyncMap.map.delete key = w.plain.delete key
    rw [hRefines.map_eq]

/-- A call of `get` observes what is there exactly when that is not lost to the
default. -/
theorem get_or_eq_iff (m : AsyncMap Value) (key : String) (defaultValue : Option Value) :
    (m.get truthy key).or defaultValue = (m.map.get key).or defaultValue ↔
      ∀ value, m.map.get key = some value → truthy value = true ∨ defaultValue = some value := by
  rw [AsyncMap.get]
  cases m.map.get key with
  | none => simp
  | some value =>
      by_cases hTruthy : truthy value = true
      · simp [Option.filter_some, hTruthy]
      · simp [Option.filter_some, hTruthy]

/-- One more call, whose number is that of the calls before it. -/
theorem getElem?_append_bind (waits : List (Wait Value)) (wait : Wait Value) (i : Nat)
    (key : String) :
    ((waits ++ [wait])[i]?).bind Wait.pending = some key ↔
      (waits[i]?).bind Wait.pending = some key ∨ i = waits.length ∧ wait.pending = some key := by
  rcases Nat.lt_trichotomy i waits.length with hBefore | rfl | hAfter
  · rw [List.getElem?_append_left hBefore]
    simp [Nat.ne_of_lt hBefore]
  · simp
  · rw [List.getElem?_eq_none (by simp; omega), List.getElem?_eq_none (by omega)]
    simp [Nat.ne_of_gt hAfter]

/-- A wait that finds its value returns at once. -/
theorem Sound.append_returned {w : World Value} (h : w.Sound) (key : String)
    (value : Option Value) (offered : List Value) :
    Sound { w with waits := w.waits ++ [⟨key, .returned value, offered⟩], observed := none } where
  registered := h.registered
  listeners := by
    intro waiter
    rw [h.listeners, getElem?_append_bind]
    simp [Wait.pending]
  absent := by
    refine List.forall_mem_append.mpr ⟨h.absent, List.forall_mem_singleton.mpr ?_⟩
    intro other hPending
    cases hPending
  woken := by
    refine List.forall_mem_append.mpr ⟨h.woken, List.forall_mem_singleton.mpr ?_⟩
    intro other hWoken
    cases hWoken

/-- A wait that finds nothing is registered. -/
theorem Sound.append_waiting {w : World Value} (h : w.Sound) {key : String}
    (hAbsent : w.asyncMap.map.get key = none) (offered : List Value) :
    Sound { w with
      asyncMap := { w.asyncMap with
        distributer := w.asyncMap.distributer.subscribe w.waits.length ⟨w.waits.length, key⟩ }
      waits := w.waits ++ [⟨key, .waiting, offered⟩], observed := none } where
  registered := by
    refine h.registered.subscribe ⟨w.waits.length, key⟩ (fun waiter hWaiter hSame => ?_)
    have hOwn := (h.listeners waiter).mp hWaiter
    rw [hSame, List.getElem?_eq_none (Nat.le_refl _)] at hOwn
    cases hOwn
  listeners := by
    intro waiter
    change waiter ∈ w.asyncMap.distributer.listeners ++ [⟨w.waits.length, key⟩] ↔ _
    rw [List.mem_append, List.mem_singleton, h.listeners, getElem?_append_bind]
    refine or_congr_right ⟨?_, ?_⟩
    · rintro rfl
      exact ⟨rfl, rfl⟩
    · rintro ⟨hId, hKey⟩
      obtain ⟨subId, own⟩ := waiter
      obtain rfl : key = own := Option.some.inj hKey
      obtain rfl : subId = w.waits.length := hId
      rfl
  absent := by
    refine List.forall_mem_append.mpr ⟨h.absent, List.forall_mem_singleton.mpr ?_⟩
    intro other hPending
    obtain rfl : key = other := Option.some.inj hPending
    exact hAbsent
  woken := by
    refine List.forall_mem_append.mpr ⟨h.woken, List.forall_mem_singleton.mpr ?_⟩
    intro other hWoken
    cases hWoken

/-- With one more call, the refinement depends on what that one returned. -/
theorem Refines.append_iff {w : World Value} (h : w.Refines) {asyncMap : AsyncMap Value}
    (hMap : asyncMap.map = w.plain) (wait : Wait Value) :
    World.Refines { w with asyncMap, waits := w.waits ++ [wait], observed := none } ↔
      ∀ value, wait.progress = .returned value → ∃ v ∈ wait.offered, value = some v := by
  constructor
  · intro hNext
    exact hNext.returns wait (List.mem_append_right _ (List.mem_singleton_self wait))
  · intro hReturns
    exact ⟨hMap, by simp,
      List.forall_mem_append.mpr ⟨h.returns, List.forall_mem_singleton.mpr hReturns⟩⟩

/-- A wait begins, and the two maps stay the same exactly when the value was kept. -/
theorem step_waitGet {w w' : World Value} (h : w.Sound) (hRefines : w.Refines) {key : String}
    (hStep : step truthy w (.waitGet key) = some w') :
    w'.Sound ∧ (w'.Refines ↔ KeepsValue truthy w (.waitGet key)) := by
  have hMap := hRefines.map_eq
  rw [step, AsyncMap.waitGet] at hStep
  cases hGet : w.plain.get key with
  | some value =>
      have hHas : w.asyncMap.has key = true := by
        rw [AsyncMap.has, KeyedMap.has, hMap, hGet]
        rfl
      have hRead : w.asyncMap.get truthy key = if truthy value then some value else none := by
        rw [AsyncMap.get, hMap, hGet, Option.filter_some]
      rw [if_pos hHas] at hStep
      obtain rfl := Option.some.inj hStep
      refine ⟨h.append_returned _ _ _, ?_⟩
      rw [hRefines.append_iff hMap, hRead, hGet]
      by_cases hTruthy : truthy value = true <;> simp [KeepsValue, hGet, hTruthy]
  | none =>
      have hHas : ¬w.asyncMap.has key = true := by
        rw [AsyncMap.has, KeyedMap.has, hMap, hGet]
        exact Bool.false_ne_true
      rw [if_neg hHas] at hStep
      obtain rfl := Option.some.inj hStep
      refine ⟨h.append_waiting (hMap ▸ hGet) _,
        iff_of_true ((hRefines.append_iff (by exact hMap) _).mpr ?_) fun value hSome => ?_⟩
      · intro value hReturned
        cases hReturned
      · rw [hGet] at hSome
        cases hSome

/-- The continuation of a woken call finds the call as it left it. -/
theorem Sound.woken_again {w : World Value} (h : w.Sound) {i : Nat} {key : String} {value : Value}
    {offered : List Value} (hWait : w.waits[i]? = some ⟨key, .woken value, offered⟩) :
    (w.store key value).waits[i]? = some ⟨key, .woken value, offered⟩ := by
  rw [h.waits_store, List.getElem?_map, hWait]
  rfl

/-- Resuming a call stores its value once more, which must be there already. -/
theorem Sound.resumed_refines_iff {w : World Value} (h : w.Sound) (hRefines : w.Refines) {i : Nat}
    {key : String} {value : Value} {offered : List Value}
    (hWait : w.waits[i]? = some ⟨key, .woken value, offered⟩) :
    World.Refines { w.store key value with
      waits := setProgress i (.returned (some value)) (w.store key value).waits
      observed := none } ↔ w.plain.get key = some value := by
  constructor
  · intro hNext
    have hSet : w.asyncMap.map.set key value = w.plain := hNext.map_eq
    rw [← hSet, KeyedMap.get_set_self]
  · intro hGet
    refine ⟨?_, by simp, fun other hOther returned hReturned => ?_⟩
    · change w.asyncMap.map.set key value = w.plain
      rw [hRefines.map_eq, KeyedMap.set_eq_self hGet]
    · rcases mem_setProgress (h.woken_again hWait) hOther with hOld | rfl
      · exact hRefines.returns other (h.mem_of_returned hOld hReturned) returned hReturned
      · exact ⟨value, h.woken _ (List.mem_of_getElem? hWait) value rfl,
          (Progress.returned.inj hReturned).symm⟩

/-- A wait that was woken returns what it was woken with. -/
theorem Sound.resumed {w : World Value} (h : w.Sound) {i : Nat} {key : String} {value : Value}
    {offered : List Value} (hWait : w.waits[i]? = some ⟨key, .woken value, offered⟩)
    (hGet : w.asyncMap.map.get key = some value) :
    Sound { w.store key value with
      waits := setProgress i (.returned (some value)) (w.store key value).waits
      observed := none } := by
  -- Nobody waits for a key that is there.
  have hStored : (w.store key value).Sound := h.store fun wait hMem hPending => by
    rw [h.absent wait hMem key hPending] at hGet
    cases hGet
  exact hStored.ended (h.woken_again hWait) rfl hStored.registered
    (fun waiter => ⟨fun hMem => ⟨hMem, hStored.subId_ne (h.woken_again hWait) rfl hMem⟩, And.left⟩)
    (fun _ _ => rfl) (fun _ hWoken => by cases hWoken) none

/-- A wait goes on, and the two maps stay the same exactly when the value was kept. -/
theorem step_resume {w w' : World Value} (h : w.Sound) (hRefines : w.Refines) {i : Nat}
    (hStep : step truthy w (.resume i) = some w') :
    (w'.Refines ↔ KeepsValue truthy w (.resume i)) ∧ (w'.Refines → w'.Sound) := by
  rw [step] at hStep
  cases hWait : w.waits[i]? with
  | none => simp [hWait] at hStep
  | some wait =>
      obtain ⟨key, progress, offered⟩ := wait
      cases progress with
      | waiting | returned _ | timedOut => simp [hWait] at hStep
      | woken value =>
          rw [hWait] at hStep
          obtain rfl := Option.some.inj hStep
          have hIff := h.resumed_refines_iff hRefines hWait
          have hKeeps : KeepsValue truthy w (.resume i) ↔ w.plain.get key = some value := by
            simp [KeepsValue, hWait]
          refine ⟨hIff.trans hKeeps.symm, fun hNext => h.resumed hWait ?_⟩
          rw [hRefines.map_eq]
          exact hIff.mp hNext

/-- A wait is given up. -/
theorem step_timeout {w w' : World Value} (h : w.Sound) (hRefines : w.Refines) {i : Nat}
    (hStep : step truthy w (.timeout i) = some w') : w'.Sound ∧ w'.Refines := by
  rw [step] at hStep
  cases hWait : w.waits[i]? with
  | none => simp [hWait] at hStep
  | some wait =>
      obtain ⟨key, progress, offered⟩ := wait
      cases progress with
      | woken _ | returned _ | timedOut => simp [hWait] at hStep
      | waiting =>
          rw [hWait] at hStep
          obtain rfl := Option.some.inj hStep
          have hMap : (w.asyncMap.timeout i).map = w.asyncMap.map := rfl
          have hEnded : World.Sound { w with
              asyncMap := w.asyncMap.timeout i
              waits := setProgress i .timedOut w.waits, observed := none } :=
            h.ended hWait hMap (h.registered.unsubscribe i)
              (fun waiter => h.registered.mem_unsubscribe i) (fun _ _ => rfl)
              (fun _ hWoken => by cases hWoken) none
          refine ⟨hEnded, hRefines.map_eq, by simp, fun other hOther returned hReturned => ?_⟩
          rcases mem_setProgress hWait hOther with hOld | rfl
          · exact hRefines.returns other hOld returned hReturned
          · cases hReturned

/-- What was seen changes nothing. -/
theorem Sound.observe {w : World Value} (h : w.Sound)
    (observed : Option (Answer Value × Answer Value)) : Sound { w with observed } :=
  ⟨h.registered, h.listeners, h.absent, h.woken⟩

/-- A call that only observes keeps the refinement when both maps give the same answer. -/
theorem Refines.observe_iff {w : World Value} (h : w.Refines) (answer expected : Answer Value) :
    World.Refines { w with observed := some (answer, expected) } ↔ answer = expected := by
  constructor
  · intro hNext
    exact hNext.observes answer expected rfl
  · rintro rfl
    refine ⟨h.map_eq, ?_, h.returns⟩
    rintro answer' expected' hObserved
    cases hObserved
    rfl

/-- One step keeps the refinement exactly if it keeps the value, and then what
is known of the calls holds again. -/
theorem step_refines {w w' : World Value} {action : Action Value} (h : w.Sound)
    (hRefines : w.Refines) (hStep : step truthy w action = some w') :
    (w'.Refines ↔ KeepsValue truthy w action) ∧ (w'.Refines → w'.Sound) := by
  cases action with
  | set key value =>
      obtain ⟨hSound, hNext⟩ := step_set h hRefines hStep
      exact ⟨iff_of_true hNext trivial, fun _ => hSound⟩
  | delete key =>
      obtain ⟨hSound, hNext⟩ := step_delete h hRefines hStep
      exact ⟨iff_of_true hNext trivial, fun _ => hSound⟩
  | get key defaultValue =>
      obtain rfl := Option.some.inj hStep
      refine ⟨?_, fun _ => h.observe _⟩
      rw [hRefines.observe_iff, Answer.get.injEq, KeepsValue, ← hRefines.map_eq]
      exact get_or_eq_iff ..
  | has key =>
      obtain rfl := Option.some.inj hStep
      refine ⟨iff_of_true ((hRefines.observe_iff _ _).mpr ?_) trivial, fun _ => h.observe _⟩
      rw [AsyncMap.has, hRefines.map_eq]
  | size =>
      obtain rfl := Option.some.inj hStep
      refine ⟨iff_of_true ((hRefines.observe_iff _ _).mpr ?_) trivial, fun _ => h.observe _⟩
      rw [AsyncMap.size, hRefines.map_eq]
  | waitGet key =>
      obtain ⟨hSound, hIff⟩ := step_waitGet h hRefines hStep
      exact ⟨hIff, fun _ => hSound⟩
  | resume i => exact step_resume h hRefines hStep
  | timeout i =>
      obtain ⟨hSound, hNext⟩ := step_timeout h hRefines hStep
      exact ⟨iff_of_true hNext trivial, fun _ => hSound⟩

/-- The async map refines the plain one throughout a run if and only if no value
is read that is lost to the default, and no call continues after its value was
replaced or deleted. -/
theorem refines_iff_keepsValue (truthy : Value → Bool) (as : List (Action Value)) :
    Runs.Always (step truthy) Refines new as ↔
      Runs.StepsMeet (step truthy) (KeepsValue truthy) new as :=
  Runs.always_iff_stepsMeet_while Sound (fun _ => True)
    (fun _ _ _ _ h hRefines hStep hNext => (step_refines h hRefines hStep).2 hNext)
    (fun _ _ _ _ h hRefines hStep => (step_refines h hRefines hStep).1) sound_new
    ⟨rfl, by simp [new], by simp [new]⟩ (fun _ _ => trivial)

/-- A key is set while someone waits for it, and deleted before the waiting call
continues, which brings the value back. -/
theorem deleted_key_returns :
    ¬Runs.Always (step fun value : Nat => value ≠ 0) Refines new
      [.waitGet "k", .set "k" 1, .delete "k", .resume 0, .has "k"] := by
  intro hAlways
  have hSame := (hAlways.last rfl).observes _ _ rfl
  revert hSame
  decide

end

end World

end Moirae.AsyncMapRuns
